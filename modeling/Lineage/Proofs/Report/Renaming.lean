import Lineage.Derivation.Report
import Lineage.Proofs.Derivation.Renaming
import Lineage.Report.Dot
import Lineage.Report.Lines

/-!
Reports do not tell the numbers of nodes.

The events of a graph that embeds another one are those of that one under other keys. Lines do not
mention keys, and a drawing numbers its nodes in the order in which they are first mentioned.
-/

namespace Lineage

variable {ρ : Renaming} {g g' : Graph} {n : NodeId}

/-! ### Ancestry -/

def Visit.rename (ρ : Renaming) : Visit → Visit
  | .enter id => .enter (ρ id)
  | .leave id => .leave (ρ id)

def Visit.node : Visit → NodeId
  | .enter id | .leave id => id

namespace Graph

lemma Embeds.sources_lt (h : Embeds ρ g g') (hn : n < g.size) : ∀ k ∈ (g.node n).sources,
    k < g.size := by
  intro k hk
  obtain ⟨d, hd, hk⟩ := mem_sources.1 hk
  exact Nat.lt_trans ((h.consed.within hn d hd).1 k hk) hn

lemma Embeds.visit (h : Embeds ρ g g') (fresh order : List NodeId) (stack : List Visit)
    {fresh' : List NodeId} (hnodup : fresh.Nodup) (hnodup' : fresh'.Nodup)
    (hfresh : ∀ k < g.size, ρ k ∈ fresh' ↔ k ∈ fresh) (hstack : ∀ x ∈ stack, x.node < g.size) :
    g'.visit fresh' (order.map ρ) (stack.map (Visit.rename ρ)) =
      (g.visit fresh order stack).map ρ := by
  fun_induction g.visit fresh order stack generalizing fresh' with
  | case1 fresh order =>
    rw [List.map_nil, Graph.visit, List.map_reverse]
  | case2 fresh order id stack ih =>
    rw [List.map_cons, Visit.rename, Graph.visit, ← List.map_cons]
    exact ih hnodup hnodup' hfresh fun x hx => hstack x (List.mem_cons_of_mem _ hx)
  | case3 fresh order id stack hmem rest sources =>
    rename_i ih
    have hid : id < g.size := hstack (.enter id) List.mem_cons_self
    have hmem' : ρ id ∈ fresh' := (hfresh id hid).2 hmem
    have hrest : ∀ k < g.size, ρ k ∈ fresh'.erase (ρ id) ↔ k ∈ rest := by
      intro k hk
      rw [hnodup'.mem_erase_iff, hnodup.mem_erase_iff, hfresh k hk, ρ.injective.ne_iff]
    -- renamed sources are still to be visited exactly if the sources are
    have hsources : (g'.node (ρ id)).sources.filter (· ∈ fresh'.erase (ρ id)) =
        ((g.node id).sources.filter (· ∈ rest)).map ρ := by
      rw [h.node hid, Node.rename_sources, List.filter_map]
      congr 1
      refine List.filter_congr fun k hk => ?_
      simp only [Function.comp_apply, hrest k (h.sources_lt hid k hk)]
    have hvisits : ∀ sources : List NodeId,
        (sources.map ρ).map Visit.enter ++ .leave (ρ id) :: stack.map (Visit.rename ρ) =
          (sources.map Visit.enter ++ .leave id :: stack).map (Visit.rename ρ) := by
      intro sources
      rw [List.map_append, List.map_map, List.map_map]
      rfl
    rw [List.map_cons, Visit.rename, Graph.visit, if_pos hmem']
    simp only [hsources, hvisits]
    refine ih (hnodup.erase _) (hnodup'.erase _) hrest fun x hx => ?_
    rcases List.mem_append.1 hx with hx | hx
    · obtain ⟨k, hk, rfl⟩ := List.mem_map.1 hx
      exact h.sources_lt hid k (List.mem_filter.1 hk).1
    · rcases List.mem_cons.1 hx with rfl | hx
      · exact hid
      · exact hstack x (List.mem_cons_of_mem _ hx)
  | case4 fresh order id stack hmem ih =>
    have hid : id < g.size := hstack (.enter id) List.mem_cons_self
    rw [List.map_cons, Visit.rename, Graph.visit, if_neg (mt (hfresh id hid).1 hmem)]
    exact ih hnodup hnodup' hfresh fun x hx => hstack x (List.mem_cons_of_mem _ hx)

lemma Embeds.lineage (h : Embeds ρ g g') {roots : List NodeId} (hroots : ∀ n ∈ roots, n < g.size) :
    g'.lineage (roots.map ρ) = (g.lineage roots).map ρ := by
  have hvisit := h.visit (List.range g.size) [] (roots.map .enter) List.nodup_range
    (List.nodup_range (n := g'.size))
    (fun k hk => by simp only [List.mem_range, h.lt hk, hk]) fun x hx => by
      obtain ⟨n, hn, rfl⟩ := List.mem_map.1 hx
      exact hroots n hn
  rw [List.map_map] at hvisit
  rw [Graph.lineage, Graph.lineage, ← hvisit, List.map_map]
  rfl

lemma Embeds.lt_of_mem_visit (h : Embeds ρ g g') (fresh order : List NodeId) (stack : List Visit)
    (hstack : ∀ x ∈ stack, x.node < g.size) (horder : ∀ n ∈ order, n < g.size) :
    ∀ n ∈ g.visit fresh order stack, n < g.size := by
  fun_induction g.visit fresh order stack with
  | case1 fresh order => simpa using horder
  | case2 fresh order id stack ih =>
    refine ih (fun x hx => hstack x (List.mem_cons_of_mem _ hx)) fun n hn => ?_
    rcases List.mem_cons.1 hn with rfl | hn
    · exact hstack (.leave n) List.mem_cons_self
    · exact horder n hn
  | case3 fresh order id stack hmem rest sources =>
    rename_i ih
    have hid : id < g.size := hstack (.enter id) List.mem_cons_self
    refine ih (fun x hx => ?_) horder
    rcases List.mem_append.1 hx with hx | hx
    · obtain ⟨k, hk, rfl⟩ := List.mem_map.1 hx
      exact h.sources_lt hid k (List.mem_filter.1 hk).1
    · rcases List.mem_cons.1 hx with rfl | hx
      · exact hid
      · exact hstack x (List.mem_cons_of_mem _ hx)
  | case4 fresh order id stack hmem ih =>
    exact ih (fun x hx => hstack x (List.mem_cons_of_mem _ hx)) horder

end Graph

/-! ### Events -/

namespace Report

def Entry.rename (ρ : Renaming) (e : Entry) : Entry := { e with key := ρ e.key }

def Event.rename (ρ : Renaming) : Event → Event
  | .root e => .root (e.rename ρ)
  | .openEntry e => .openEntry (e.rename ρ)
  | .closeEntry => .closeEntry
  | .openRecord label => .openRecord label
  | .closeRecord => .closeRecord
  | .dependency e => .dependency (e.rename ρ)

end Report

open Report

namespace Graph

lemma Embeds.entry (h : Embeds ρ g g') (hn : n < g.size) :
    g'.entry (ρ n) = (g.entry n).rename ρ := by
  simp only [Graph.entry, h.node hn, Node.rename_text, Node.rename_isConstant,
    Node.rename_isExternal]
  rfl

lemma Embeds.nodeEvents (h : Embeds ρ g g') (hn : n < g.size) :
    g'.nodeEvents (ρ n) = (g.nodeEvents n).map (Event.rename ρ) := by
  unfold Graph.nodeEvents
  rw [h.entry hn, h.node hn, Node.rename_derivation?]
  cases hd : (g.node n).derivation? with
  | none => rfl
  | some d =>
    have hsources : (d.sources.map ρ).map (fun k => Event.dependency (g'.entry k)) =
        (d.sources.map fun k => Event.dependency (g.entry k)).map (Event.rename ρ) := by
      rw [List.map_map, List.map_map]
      refine List.map_congr_left fun k hk => ?_
      have hlt := Nat.lt_trans ((h.consed.within hn d hd).1 k hk) hn
      simp only [Function.comp_apply, h.entry hlt, Event.rename]
    simp only [Option.map_some, Derivation.rename, hsources, List.map_append, List.map_cons,
      List.map_nil, Event.rename]

lemma Embeds.events (h : Embeds ρ g g') {roots : List NodeId} (hroots : ∀ n ∈ roots, n < g.size) :
    g'.events (roots.map ρ) = (g.events roots).map (Event.rename ρ) := by
  have hlineage : ∀ n ∈ g.lineage roots, n < g.size :=
    h.lt_of_mem_visit _ _ _ (fun x hx => by
      obtain ⟨n, hn, rfl⟩ := List.mem_map.1 hx
      exact hroots n hn) nofun
  unfold Graph.events
  rw [h.lineage hroots, List.map_append, List.map_map, List.map_map, List.flatMap_map,
    List.map_flatMap]
  congr 1
  · refine List.map_congr_left fun n hn => ?_
    simp only [Function.comp_apply, h.entry (hroots n hn), Event.rename]
  · exact List.flatMap_congr fun n hn => h.nodeEvents (hlineage n hn)

end Graph

namespace Report

/-- Lines do not mention keys. -/
lemma lines_rename (ρ : Renaming) (events : List Event) :
    Lines.ofEvents (events.map (Event.rename ρ)) = Lines.ofEvents events := by
  have hadd : ∀ (l : Lines) (e : Event), l.add (e.rename ρ) = l.add e := by
    intro l e
    cases e <;> rfl
  simp only [Lines.ofEvents, List.foldl_map, hadd]

/-! ### Drawings -/

def KeyedRecord.rename (ρ : Renaming) (r : KeyedRecord) : KeyedRecord :=
  { r with dependencies := r.dependencies.map ρ }

namespace Dot

def rename (ρ : Renaming) (d : Dot) : Dot where
  entries := d.entries.map (Entry.rename ρ)
  records := d.records.map (Prod.map ρ (List.map (KeyedRecord.rename ρ)))
  roots := d.roots.map ρ
  current := d.current.map ρ

lemma mention_rename (d : Dot) (e : Entry) :
    (d.rename ρ).mention (e.rename ρ) = (d.mention e).rename ρ := by
  have hany : (d.entries.map (Entry.rename ρ)).any (·.key = (e.rename ρ).key) =
      d.entries.any (·.key = e.key) := by
    rw [List.any_map]
    congr 1
    funext x
    exact decide_eq_decide.2 ρ.injective.eq_iff
  unfold mention
  rw [show (d.rename ρ).entries = d.entries.map (Entry.rename ρ) from rfl, hany]
  split
  · rfl
  · simp [rename]

lemma putRecords_rename (ρ : Renaming) (key : Nat) (rs : List KeyedRecord)
    (records : List (Nat × List KeyedRecord)) :
    putRecords (ρ key) (rs.map (KeyedRecord.rename ρ))
        (records.map (Prod.map ρ (List.map (KeyedRecord.rename ρ)))) =
      (putRecords key rs records).map (Prod.map ρ (List.map (KeyedRecord.rename ρ))) := by
  induction records with
  | nil => rfl
  | cons r records ih =>
    rw [List.map_cons, putRecords, putRecords, ih, Prod.map_fst]
    by_cases hr : r.1 = key
    · rw [if_pos hr, if_pos (congrArg ρ hr)]
      rfl
    · rw [if_neg hr, if_neg fun h => hr (ρ.injective h)]
      rfl

lemma updateCurrent_rename (d : Dot) {f f' : List KeyedRecord → List KeyedRecord}
    (hf : ∀ rs, f' (rs.map (KeyedRecord.rename ρ)) = (f rs).map (KeyedRecord.rename ρ)) :
    (d.rename ρ).updateCurrent f' = (d.updateCurrent f).rename ρ := by
  unfold updateCurrent
  rw [show (d.rename ρ).current = d.current.map ρ from rfl]
  cases d.current with
  | none => rfl
  | some key =>
    simp only [Option.map_some, rename, List.map_map, Dot.mk.injEq, and_true, true_and]
    refine List.map_congr_left fun e _ => ?_
    simp only [Function.comp_apply, Prod.map_fst, Prod.map_snd, ρ.injective.eq_iff]
    split
    · rw [hf]
      rfl
    · rfl

lemma addToLast_rename (key : Nat) (rs : List KeyedRecord) :
    addToLast (ρ key) (rs.map (KeyedRecord.rename ρ)) =
      (addToLast key rs).map (KeyedRecord.rename ρ) := by
  induction rs with
  | nil => rfl
  | cons r rs ih =>
    cases rs with
    | nil => simp [addToLast, KeyedRecord.rename]
    | cons r' rs =>
      exact congrArg (r.rename ρ :: ·) ih

lemma add_rename (d : Dot) (e : Event) : (d.rename ρ).add (e.rename ρ) = (d.add e).rename ρ := by
  cases e with
  | root e =>
    have hinsert : (d.roots.map ρ).insert (ρ e.key) = (d.roots.insert e.key).map ρ := by
      by_cases hmem : e.key ∈ d.roots
      · rw [List.insert_of_mem hmem, List.insert_of_mem (List.mem_map_of_mem hmem)]
      · rw [List.insert_of_not_mem hmem, List.insert_of_not_mem, List.map_cons]
        rwa [List.mem_map_of_injective ρ.injective]
    simp only [Event.rename, add, rename, Entry.rename, hinsert]
  | openEntry e =>
    simp only [Event.rename, add, mention_rename]
    have hrecords := putRecords_rename ρ e.key [] (d.mention e).records
    rw [List.map_nil] at hrecords
    simp only [rename, Entry.rename, hrecords, Option.map_some]
  | closeEntry => rfl
  | openRecord label =>
    show (d.rename ρ).updateCurrent (fun rs => rs ++ [({ label } : KeyedRecord)]) =
      (d.updateCurrent fun rs => rs ++ [({ label } : KeyedRecord)]).rename ρ
    refine updateCurrent_rename d fun rs => ?_
    rw [List.map_append]
    rfl
  | closeRecord => rfl
  | dependency e =>
    simp only [Event.rename, add, mention_rename]
    exact updateCurrent_rename _ fun rs => addToLast_rename e.key rs

lemma ofEvents_rename (ρ : Renaming) (events : List Event) :
    ofEvents (events.map (Event.rename ρ)) = (ofEvents events).rename ρ := by
  have hfold : ∀ (events : List Event) (d : Dot),
      (events.map (Event.rename ρ)).foldl add (d.rename ρ) = (events.foldl add d).rename ρ := by
    intro events
    induction events with
    | nil => exact fun _ => rfl
    | cons e events ih =>
      intro d
      rw [List.map_cons, List.foldl_cons, List.foldl_cons, add_rename, ih]
  exact hfold events {}

section Statements

variable (d : Dot) (filter : Filter)

lemma number_rename (key : Nat) : (d.rename ρ).number (ρ key) = d.number key := by
  unfold number
  rw [show (d.rename ρ).entries = d.entries.map (Entry.rename ρ) from rfl, List.findIdx_map]
  congr 1
  funext x
  exact decide_eq_decide.2 ρ.injective.eq_iff

lemma recordStatements_rename (source next : Nat) (r : KeyedRecord) :
    (d.rename ρ).recordStatements filter source next (r.rename ρ) =
      d.recordStatements filter source next r := by
  obtain ⟨label, dependencies⟩ := r
  match dependencies with
  | [] => rfl
  | [key] => simp only [recordStatements, KeyedRecord.rename, List.map_cons, List.map_nil,
      number_rename]
  | key :: key' :: keys =>
    simp only [recordStatements, KeyedRecord.rename, List.map_cons, List.map_map, number_rename,
      Function.comp_def]

lemma recordsStatements_rename (source next : Nat) (rs : List KeyedRecord) :
    (d.rename ρ).recordsStatements filter source next (rs.map (KeyedRecord.rename ρ)) =
      d.recordsStatements filter source next rs := by
  induction rs generalizing next with
  | nil => rfl
  | cons r rs ih =>
    rw [List.map_cons, recordsStatements, recordsStatements, recordStatements_rename]
    simp only [ih]

lemma allStatements_rename (next : Nat) (records : List (Nat × List KeyedRecord)) :
    (d.rename ρ).allStatements filter next
        (records.map (Prod.map ρ (List.map (KeyedRecord.rename ρ)))) =
      d.allStatements filter next records := by
  have hfan : ∀ next key rs, (d.rename ρ).fanStatements filter next (ρ key)
      (rs.map (KeyedRecord.rename ρ)) = d.fanStatements filter next key rs := by
    intro next key rs
    simp only [fanStatements, List.length_map, recordsStatements_rename, number_rename]
  induction records generalizing next with
  | nil => rfl
  | cons r records ih =>
    rw [List.map_cons, allStatements, allStatements, Prod.map_fst, Prod.map_snd, hfan]
    simp only [ih]

/-- The keys do not show in a drawing. -/
lemma lines_rename : (d.rename ρ).lines filter = d.lines filter := by
  have hentry : ∀ e : Entry, (d.rename ρ).entryStatement filter (e.rename ρ) =
      d.entryStatement filter e := by
    intro e
    have hroots : (e.rename ρ).key ∈ (d.rename ρ).roots ↔ e.key ∈ d.roots :=
      List.mem_map_of_injective ρ.injective
    have hnumber : (d.rename ρ).number (e.rename ρ).key = d.number e.key := number_rename d e.key
    simp only [entryStatement, hroots, hnumber]
    rfl
  have hentries : (d.rename ρ).entries = d.entries.map (Entry.rename ρ) := rfl
  have hrecords : (d.rename ρ).records =
      d.records.map (Prod.map ρ (List.map (KeyedRecord.rename ρ))) := rfl
  unfold lines statements
  rw [hentries, hrecords, List.map_map, List.length_map, allStatements_rename]
  simp only [Function.comp_def, hentry]

end Statements

end Dot

end Report

end Lineage
