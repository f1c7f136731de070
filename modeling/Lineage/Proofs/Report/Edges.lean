import Lineage.Proofs.Report.Drawing

/-!
The records of an entry, told from the edges of a drawing.

The records of an entry are drawn from one node, the entry's own or a `phi` node that only the entry
leads to. The labelled edges of this node are the records on one dependency, and the joins it leads
to are the other records.
-/

namespace Lineage.Report.Dot

variable {d : Dot} {filter : Filter} {lo n s key target : Nat} {label : String} {st : Statement}
  {sts : List Statement} {r : KeyedRecord} {rs : List KeyedRecord} {p : Nat × List KeyedRecord}

/-! ### The statements of a whole drawing -/

lemma mem_statements :
    st ∈ d.statements filter ↔ (∃ e ∈ d.entries, d.entryStatement filter e = st) ∨
      st ∈ parts (d.fan filter) d.entries.length d.records := by
  rw [statements, List.mem_append, List.mem_map, allStatements_eq]

lemma mem_parts_of_edge {source : Nat} {label : Option String}
    (h : .edge source target label ∈ d.statements filter) :
    .edge source target label ∈ parts (d.fan filter) d.entries.length d.records := by
  refine (mem_statements.1 h).resolve_left ?_
  rintro ⟨e, -, he⟩
  cases he

namespace Closed

lemma mem_fan_of_join (h : d.Closed)
    (hp : (n, p) ∈ turns (d.fan filter) d.entries.length d.records)
    (hst : st ∈ d.statements filter)
    (hn : n ≤ st.origin ∧ st.origin < (d.fan filter n p).2) : st ∈ (d.fan filter n p).1 := by
  have hlo := h.draws_fans.le_turn hp
  rcases mem_statements.1 hst with ⟨e, he, rfl⟩ | hst
  · have hlt := number_lt (d := d) (List.mem_map.2 ⟨e, he, rfl⟩)
    exact absurd (hlo.trans hn.1) (Nat.not_le.2 hlt)
  · exact h.draws_fans.mem_of_origin h.sources_lt hp hst hn

lemma mem_fan_of_edge (h : d.Closed)
    (hp : (n, p) ∈ turns (d.fan filter) d.entries.length d.records) {label : Option String}
    (hst : .edge (d.number p.1) target label ∈ d.statements filter) :
    .edge (d.number p.1) target label ∈ (d.fan filter n p).1 := by
  obtain ⟨q, hq, hst⟩ := List.mem_flatMap.1 (mem_parts_of_edge hst)
  have hlt := h.number_lt_of_record (snd_mem_of_turns hp)
  have hkey : d.number p.1 = d.number q.2.1 := by
    refine ((h.draws_fans.turn hq).origin _ hst).resolve_right fun hrange => ?_
    exact absurd ((h.draws_fans.le_turn hq).trans hrange.1) (Nat.not_le.2 hlt)
  -- the entry has one list of records
  have hfst : ((turns (d.fan filter) d.entries.length d.records).map fun q => q.2.1).Nodup := by
    have hnodup := h.records
    rwa [← map_snd_turns (d.fan filter) d.entries.length d.records, List.map_map] at hnodup
  have heq := List.inj_on_of_nodup_map hfst hp hq
    ((number_inj (h.known p (snd_mem_of_turns hp)).1).1 hkey)
  rwa [← heq] at hst

lemma not_mem_edge (h : d.Closed) (hkey : key ∈ d.keys) (hnot : key ∉ d.records.map Prod.fst)
    {label : Option String} : .edge (d.number key) target label ∉ d.statements filter := by
  intro hst
  obtain ⟨q, hq, hst⟩ := List.mem_flatMap.1 (mem_parts_of_edge hst)
  have hrecord := snd_mem_of_turns hq
  rcases (h.draws_fans.turn hq).origin _ hst with heq | hrange
  · rw [(number_inj hkey).1 heq] at hnot
    exact hnot (List.mem_map.2 ⟨q.2, hrecord, rfl⟩)
  · exact absurd ((h.draws_fans.le_turn hq).trans hrange.1) (Nat.not_le.2 (number_lt hkey))

end Closed

/-! ### The statements of a record -/

lemma edge_mem_join {source : Nat} {label : Option String} (h : r.dependencies.length ≠ 1) :
    .edge source target label ∈ (d.recordStatements filter s n r).1 ↔ label = none ∧
      (source = s ∧ target = n ∨ source = n ∧ ∃ key ∈ r.dependencies, d.number key = target) := by
  simp only [recordStatements_of_join h, joinStatement, List.mem_cons, reduceCtorEq, false_or,
    Statement.edge.injEq, List.mem_map]
  constructor
  · rintro (⟨rfl, rfl, rfl⟩ | ⟨key, hkey, rfl, rfl, rfl⟩)
    · exact ⟨rfl, .inl ⟨rfl, rfl⟩⟩
    · exact ⟨rfl, .inr ⟨rfl, key, hkey, rfl⟩⟩
  · rintro ⟨rfl, ⟨rfl, rfl⟩ | ⟨rfl, key, hkey, rfl⟩⟩
    · exact .inl ⟨rfl, rfl, rfl⟩
    · exact .inr ⟨key, hkey, rfl, rfl, rfl⟩

lemma node_mem_join {id : Nat} {label : String} {shape : Shape} {style : Style}
    (h : r.dependencies.length ≠ 1) :
    .node id label shape style ∈ (d.recordStatements filter s n r).1 ↔
      .node id label shape style = joinStatement filter n r.label := by
  simp [recordStatements_of_join h]

/-! ### The records of one node -/

/-- A join with the label leads from one node to the other. -/
def Joined (sts : List Statement) (label : String) (source target : Nat) : Prop :=
  ∃ m, .edge source m none ∈ sts ∧ .node m label .circle .filled ∈ sts ∧ .edge m target none ∈ sts

/-- The records, and nothing else, are drawn from the node, with joins from `lo` on. -/
structure DrawnFrom (d : Dot) (filter : Filter) (sts : List Statement) (rs : List KeyedRecord)
    (s lo : Nat) : Prop where
  lt : s < lo
  le : d.entries.length ≤ lo
  covers : d.Covers rs
  sub : ∀ st ∈ parts (d.recordStatements filter s) lo rs, st ∈ sts
  edge : ∀ target label, .edge s target label ∈ sts →
    .edge s target label ∈ parts (d.recordStatements filter s) lo rs
  join : ∀ st ∈ sts, lo ≤ st.origin → st.origin < after (d.recordStatements filter s) lo rs →
    st ∈ parts (d.recordStatements filter s) lo rs

namespace DrawnFrom

lemma draws (h : DrawnFrom d filter sts rs s lo) :
    Draws (d.recordStatements filter s) (fun _ => (· = s)) lo rs :=
  draws_records h.covers h.le

lemma exists_statements (h : DrawnFrom d filter sts rs s lo) (hr : r ∈ rs) :
    ∃ n, ∀ st ∈ (d.recordStatements filter s n r).1, st ∈ sts := by
  obtain ⟨n, hn⟩ := exists_turn hr (d.recordStatements filter s) lo
  exact ⟨n, fun st hst => h.sub st (List.mem_flatMap.2 ⟨(n, r), hn, hst⟩)⟩

lemma labelled_iff (h : DrawnFrom d filter sts rs s lo) (hkey : key ∈ d.keys) :
    .edge s (d.number key) (some label) ∈ sts ↔ ⟨label, [key]⟩ ∈ rs := by
  constructor
  · intro hst
    obtain ⟨q, hq, hst⟩ := List.mem_flatMap.1 (h.edge _ _ hst)
    rcases single_or_join q.2 with ⟨key', hkey'⟩ | hjoin
    · rw [recordStatements_of_single hkey', List.mem_singleton, Statement.edge.injEq,
        number_inj hkey, Option.some_inj] at hst
      obtain ⟨-, rfl, rfl⟩ := hst
      have hr := snd_mem_of_turns hq
      rwa [← hkey']
    · exact absurd ((edge_mem_join hjoin).1 hst).1 (Option.some_ne_none _)
  · intro hr
    obtain ⟨n, hn⟩ := h.exists_statements hr
    refine hn _ ?_
    rw [recordStatements_of_single rfl]
    exact List.mem_singleton_self _

/-- A join is of a record on none or on several dependencies, and all about it is said for this
record. -/
lemma exists_record_of_join (h : DrawnFrom d filter sts rs s lo) {m : Nat}
    (hst : .edge s m none ∈ sts) : lo ≤ m ∧ ∃ r ∈ rs, r.dependencies.length ≠ 1 ∧
      ∀ st ∈ sts, st.origin = m → st ∈ (d.recordStatements filter s m r).1 := by
  have hm := (drawn_records h.covers h.le).target _ _ _ (h.edge _ _ hst)
  obtain ⟨⟨n, r⟩, hq, hst⟩ := List.mem_flatMap.1 (h.edge _ _ hst)
  have hlo := h.draws.le_turn hq
  have hlt := h.lt
  rcases single_or_join r with ⟨key, hkey⟩ | hjoin
  · rw [recordStatements_of_single hkey] at hst
    exact absurd hst (by simp)
  · rcases ((edge_mem_join hjoin).1 hst).2 with ⟨-, rfl⟩ | ⟨rfl, -⟩
    · refine ⟨hlo, r, snd_mem_of_turns hq, hjoin, fun st hst horigin => ?_⟩
      have hrange : m ≤ m ∧ m < (d.recordStatements filter s m r).2 := by
        rw [recordStatements_of_join hjoin]
        exact ⟨le_rfl, m.lt_succ_self⟩
      refine h.draws.mem_of_origin (fun _ _ n hn => hn ▸ hlt) hq ?_ (horigin ▸ hrange)
      exact h.join st hst (horigin ▸ hlo) (horigin ▸ hm)
    · exact absurd hlo (Nat.not_le.2 hlt)

lemma joined_iff (h : DrawnFrom d filter sts rs s lo) (hkey : key ∈ d.keys) :
    Joined sts label s (d.number key) ↔
      ∃ r ∈ rs, r.dependencies.length ≠ 1 ∧ filter r.label = label ∧ key ∈ r.dependencies := by
  constructor
  · rintro ⟨m, hsource, hnode, htarget⟩
    obtain ⟨hlo, r, hr, hjoin, hmem⟩ := h.exists_record_of_join hsource
    have hlt := h.lt
    refine ⟨r, hr, hjoin, ?_, ?_⟩
    · have hnode' := (node_mem_join hjoin).1 (hmem _ hnode rfl)
      exact (Statement.node.inj hnode').2.1.symm
    · rcases ((edge_mem_join hjoin).1 (hmem _ htarget rfl)).2 with ⟨rfl, -⟩ | ⟨-, key', hmem', heq⟩
      · exact absurd hlo (Nat.not_le.2 hlt)
      · rwa [(number_inj hkey).1 heq.symm]
  · rintro ⟨r, hr, hjoin, rfl, hmem⟩
    obtain ⟨n, hn⟩ := h.exists_statements hr
    exact ⟨n, hn _ ((edge_mem_join hjoin).2 ⟨rfl, .inl ⟨rfl, rfl⟩⟩),
      hn _ ((node_mem_join hjoin).2 rfl),
      hn _ ((edge_mem_join hjoin).2 ⟨rfl, .inr ⟨rfl, key, hmem, rfl⟩⟩)⟩

end DrawnFrom

/-! ### The records of an entry -/

/-- Where the records of a node start: behind a `phi` node, which the only edge of the node leads
to, if there are several, else at the node. -/
def Starts (filter : Filter) (sts : List Statement) (rs : List KeyedRecord) (source s : Nat) :
    Prop :=
  if 1 < rs.length then
    joinStatement filter s "phi" ∈ sts ∧
      ∀ target label, .edge source target label ∈ sts ↔ target = s ∧ label = none
  else s = source

namespace Closed

lemma mem_statements_of_fan
    (hp : (n, p) ∈ turns (d.fan filter) d.entries.length d.records)
    (hst : st ∈ (d.fan filter n p).1) : st ∈ d.statements filter :=
  mem_statements.2 (.inr (List.mem_flatMap.2 ⟨(n, p), hp, hst⟩))

lemma drawnFrom_of_few (h : d.Closed)
    (hp : (n, p) ∈ turns (d.fan filter) d.entries.length d.records) (hfew : ¬ 1 < p.2.length) :
    DrawnFrom d filter (d.statements filter) p.2 (d.number p.1) n where
  lt := h.number_lt_turn hp
  le := h.draws_fans.le_turn hp
  covers := (h.known _ (snd_mem_of_turns hp)).2
  sub := by
    intro st hst
    refine mem_statements_of_fan hp ?_
    rwa [fan_of_few hfew, List.mem_eraseDups]
  edge := by
    intro target label hst
    have hfan := h.mem_fan_of_edge hp hst
    rwa [fan_of_few hfew, List.mem_eraseDups] at hfan
  join := by
    intro st hst hlo hhi
    have hfan := h.mem_fan_of_join hp hst ⟨hlo, by rwa [fan_of_few hfew]⟩
    rwa [fan_of_few hfew, List.mem_eraseDups] at hfan

lemma drawnFrom_of_several (h : d.Closed)
    (hp : (n, p) ∈ turns (d.fan filter) d.entries.length d.records) (hmany : 1 < p.2.length) :
    DrawnFrom d filter (d.statements filter) p.2 n (n + 1) := by
  have hn := h.draws_fans.le_turn hp
  have hlt := h.number_lt_turn hp
  have hcovers := (h.known _ (snd_mem_of_turns hp)).2
  -- behind the `phi` node are the statements of the records
  have hrest : ∀ st ∈ d.statements filter, n ≤ st.origin →
      st.origin < after (d.recordStatements filter n) (n + 1) p.2 →
      st ≠ joinStatement filter n "phi" →
      st ∈ parts (d.recordStatements filter n) (n + 1) p.2 := by
    intro st hst hlo hhi hne
    have hfan := h.mem_fan_of_join hp hst ⟨hlo, by rwa [fan_of_several hmany]⟩
    rw [fan_of_several hmany] at hfan
    rcases List.mem_append.1 hfan with hfan | hfan
    · rcases List.mem_cons.1 hfan with rfl | hfan
      · exact absurd rfl hne
      · rw [List.mem_singleton.1 hfan] at hlo
        exact absurd hlo (Nat.not_le.2 hlt)
    · exact List.mem_eraseDups.1 hfan
  refine ⟨n.lt_succ_self, hn.trans n.le_succ, hcovers, fun st hst => ?_, fun target label hst => ?_,
    fun st hst hlo hhi => ?_⟩
  · refine mem_statements_of_fan hp ?_
    rw [fan_of_several hmany]
    exact List.mem_append_right _ (List.mem_eraseDups.2 hst)
  · exact hrest _ hst le_rfl (drawn_records hcovers (hn.trans n.le_succ)).le nofun
  · refine hrest _ hst (n.le_succ.trans hlo) hhi ?_
    rintro rfl
    exact absurd hlo (Nat.not_succ_le_self n)

/-- The only edge of an entry with several records leads to the `phi` node. -/
lemma edge_iff_of_several (h : d.Closed)
    (hp : (n, p) ∈ turns (d.fan filter) d.entries.length d.records) (hmany : 1 < p.2.length)
    {label : Option String} :
    .edge (d.number p.1) target label ∈ d.statements filter ↔ target = n ∧ label = none := by
  have hn := h.draws_fans.le_turn hp
  have hlt := h.number_lt_turn hp
  have hcovers := (h.known _ (snd_mem_of_turns hp)).2
  constructor
  · intro hst
    have hfan := h.mem_fan_of_edge hp hst
    rw [fan_of_several hmany, List.mem_append, List.mem_eraseDups] at hfan
    rcases hfan with hfan | hfan
    · simpa [joinStatement] using hfan
    · rcases (drawn_records hcovers (hn.trans n.le_succ)).origin _ hfan with heq | hrange
      · exact absurd heq hlt.ne
      · exact absurd (n.le_succ.trans hrange.1) (Nat.not_le.2 hlt)
  · rintro ⟨rfl, rfl⟩
    refine mem_statements_of_fan hp ?_
    rw [fan_of_several hmany]
    exact List.mem_append_left _ (List.mem_cons_of_mem _ (List.mem_singleton_self _))

/-- The records of an entry are drawn from where they start. -/
lemma exists_start (h : d.Closed) (filter : Filter) (hp : p ∈ d.records) :
    ∃ s lo, Starts filter (d.statements filter) p.2 (d.number p.1) s ∧
      DrawnFrom d filter (d.statements filter) p.2 s lo := by
  obtain ⟨n, hn⟩ := exists_turn hp (d.fan filter) d.entries.length
  by_cases hmany : 1 < p.2.length
  · refine ⟨n, n + 1, ?_, h.drawnFrom_of_several hn hmany⟩
    rw [Starts, if_pos hmany]
    refine ⟨mem_statements_of_fan hn ?_, fun _ _ => h.edge_iff_of_several hn hmany⟩
    rw [fan_of_several hmany]
    exact List.mem_cons_self
  · exact ⟨d.number p.1, n, by rw [Starts, if_neg hmany], h.drawnFrom_of_few hn hmany⟩

end Closed

lemma Starts.unique {source s' : Nat} (h : Starts filter sts rs source s)
    (h' : Starts filter sts rs source s') : s = s' := by
  unfold Starts at h h'
  split at h
  · rename_i hmany
    rw [if_pos hmany] at h'
    exact ((h'.2 s none).1 ((h.2 s none).2 ⟨rfl, rfl⟩)).1
  · rename_i hfew
    rw [if_neg hfew] at h'
    exact h.trans h'.symm

def recordsOf (records : List (Nat × List KeyedRecord)) (key : Nat) : List KeyedRecord :=
  (records.lookup key).getD []

lemma mem_of_lookup {records : List (Nat × List KeyedRecord)}
    (h : records.lookup key = some rs) : (key, rs) ∈ records := by
  obtain ⟨before, behind, rfl, -⟩ := List.lookup_eq_some_iff.1 h
  exact List.mem_append_right _ List.mem_cons_self

namespace Closed

lemma known_recordsOf (h : d.Closed) (hr : r ∈ recordsOf d.records key) :
    key ∈ d.keys ∧ ∀ k ∈ r.dependencies, k ∈ d.keys := by
  unfold recordsOf at hr
  cases hlookup : d.records.lookup key with
  | none =>
    rw [hlookup] at hr
    exact absurd hr List.not_mem_nil
  | some rs =>
    rw [hlookup] at hr
    have hknown := h.known _ (mem_of_lookup hlookup)
    exact ⟨hknown.1, hknown.2 r hr⟩

/-- Every record can be read from the drawing, and there is nothing else to read. -/
lemma records_drawn (h : d.Closed) (filter : Filter) (hkey : key ∈ d.keys) :
    ∃ s, Starts filter (d.statements filter) (recordsOf d.records key) (d.number key) s ∧
      ∀ k ∈ d.keys, ∀ label,
        (.edge s (d.number k) (some label) ∈ d.statements filter ↔
          ⟨label, [k]⟩ ∈ recordsOf d.records key) ∧
        (Joined (d.statements filter) label s (d.number k) ↔ ∃ r ∈ recordsOf d.records key,
          r.dependencies.length ≠ 1 ∧ filter r.label = label ∧ k ∈ r.dependencies) := by
  unfold recordsOf
  cases hlookup : d.records.lookup key with
  | some rs =>
    obtain ⟨s, lo, hstart, hdrawn⟩ := h.exists_start filter (mem_of_lookup hlookup)
    exact ⟨s, hstart, fun k hk label => ⟨hdrawn.labelled_iff hk, hdrawn.joined_iff hk⟩⟩
  | none =>
    have hnot : key ∉ d.records.map Prod.fst := by
      intro hmem
      obtain ⟨p, hp, rfl⟩ := List.mem_map.1 hmem
      simpa using List.lookup_eq_none_iff.1 hlookup p hp
    refine ⟨d.number key, by simp [Starts], fun k hk label => ⟨?_, ?_⟩⟩
    · simpa using h.not_mem_edge hkey hnot
    · simpa using fun ⟨m, hm, _⟩ => h.not_mem_edge hkey hnot hm

lemma edges_iff (h : d.Closed) {a b i j : Nat} (hi : d.keys[i]? = some a)
    (hj : d.keys[j]? = some b)
    (hs : Starts id (d.statements id) (recordsOf d.records a) i s) :
    (.edge s j (some label) ∈ d.statements id ↔ ⟨label, [b]⟩ ∈ recordsOf d.records a) ∧
    (Joined (d.statements id) label s j ↔ ∃ r ∈ recordsOf d.records a,
      r.dependencies.length ≠ 1 ∧ r.label = label ∧ b ∈ r.dependencies) := by
  obtain ⟨ha, rfl⟩ := h.getElem?_keys.1 hi
  obtain ⟨hb, rfl⟩ := h.getElem?_keys.1 hj
  obtain ⟨s', hs', hdrawn⟩ := h.records_drawn id ha
  obtain rfl := hs.unique hs'
  exact hdrawn b hb label

/-- A key leads to another one if and only if a record of the one is on the other. -/
lemma records_iff (h : d.Closed) (a b : Nat) (label : String) :
    (∃ r ∈ recordsOf d.records a, r.label = label ∧ b ∈ r.dependencies) ↔
      ∃ i j s, d.keys[i]? = some a ∧ d.keys[j]? = some b ∧
        Starts id (d.statements id) (recordsOf d.records a) i s ∧
        (.edge s j (some label) ∈ d.statements id ∨ Joined (d.statements id) label s j) := by
  constructor
  · rintro ⟨r, hr, rfl, hmem⟩
    obtain ⟨ha, hb⟩ := h.known_recordsOf hr
    have hi := getElem?_number ha
    have hj := getElem?_number (hb b hmem)
    obtain ⟨s, hs, -⟩ := h.records_drawn id ha
    refine ⟨_, _, s, hi, hj, hs, ?_⟩
    obtain ⟨hedge, hjoined⟩ := h.edges_iff hi hj hs
    rcases single_or_join r with ⟨k, hk⟩ | hjoin
    · obtain rfl := List.mem_singleton.1 (hk ▸ hmem)
      exact .inl (hedge.2 (hk ▸ hr))
    · exact .inr (hjoined.2 ⟨r, hr, hjoin, rfl, hmem⟩)
  · rintro ⟨i, j, s, hi, hj, hs, hlead⟩
    obtain ⟨hedge, hjoined⟩ := h.edges_iff hi hj hs
    rcases hlead with hlead | hlead
    · exact ⟨_, hedge.1 hlead, rfl, List.mem_singleton_self b⟩
    · obtain ⟨r, hr, -, hlabel, hmem⟩ := hjoined.1 hlead
      exact ⟨r, hr, hlabel, hmem⟩

end Closed

end Lineage.Report.Dot
