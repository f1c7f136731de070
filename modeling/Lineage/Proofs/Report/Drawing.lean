import Lineage.Proofs.Report.Mentioning
import Lineage.Proofs.Report.Quoting
import Mathlib.Data.List.Pairwise
import Mathlib.Data.List.Range

/-!
Which number a statement of a drawing is about.

Records are drawn one after the other, and the joins of a record get the numbers that follow those
of the records before it. So the number a statement starts with tells what it was drawn for: it is
the number of an entry, or that of a join, which belongs to one record.
-/

namespace Lineage.Report.Dot

namespace Statement

def declared? : Statement → Option Nat
  | .node id _ _ _ => some id
  | .edge _ _ _ => none

end Statement

variable {d : Dot} {filter : Filter} {S S' : Nat → Prop} {lo mid hi n s : Nat}
  {sts sts' : List Statement} {st : Statement} {r : KeyedRecord} {rs : List KeyedRecord}

/-! ### Statements with consecutive joins -/

/-- Joins with the numbers from `lo` up to `hi`, in order, and edges that start at them or at
sources from elsewhere. -/
structure Drawn (S : Nat → Prop) (lo hi : Nat) (sts : List Statement) : Prop where
  le : lo ≤ hi
  declared : sts.filterMap Statement.declared? = List.range' lo (hi - lo)
  origin : ∀ st ∈ sts, S st.origin ∨ lo ≤ st.origin ∧ st.origin < hi
  target : ∀ source target label, .edge source target label ∈ sts → target < hi
  join : ∀ id label shape style, .node id label shape style ∈ sts →
    shape = .circle ∧ style = .filled

namespace Drawn

lemma nil : Drawn S lo lo [] where
  le := le_rfl
  declared := by rw [Nat.sub_self, List.filterMap_nil, List.range'_zero]
  origin := nofun
  target := nofun
  join := nofun

/-- What follows may start at the joins before it. -/
lemma append (h : Drawn S lo mid sts) (h' : Drawn S' mid hi sts')
    (hS : ∀ n, S' n → S n ∨ lo ≤ n ∧ n < mid) : Drawn S lo hi (sts ++ sts') where
  le := h.le.trans h'.le
  declared := by
    have hle := h.le
    have hle' := h'.le
    have hsum : hi - lo = mid - lo + (hi - mid) := by omega
    rw [List.filterMap_append, h.declared, h'.declared, hsum, ← List.range'_append_1,
      Nat.add_sub_cancel' hle]
  origin := by
    have hle := h.le
    have hle' := h'.le
    intro st hst
    rcases List.mem_append.1 hst with hst | hst
    · rcases h.origin st hst with hS | hrange
      · exact .inl hS
      · exact .inr (by omega)
    · rcases h'.origin st hst with hst | hrange
      · rcases hS _ hst with hS | hrange
        · exact .inl hS
        · exact .inr (by omega)
      · exact .inr (by omega)
  target := by
    intro source target label hst
    rcases List.mem_append.1 hst with hst | hst
    · exact (h.target _ _ _ hst).trans_le h'.le
    · exact h'.target _ _ _ hst
  join := by
    intro id label shape style hst
    exact (List.mem_append.1 hst).elim (h.join _ _ _ _) (h'.join _ _ _ _)

lemma imp (h : Drawn S lo hi sts) (hS : ∀ n, S n → S' n) : Drawn S' lo hi sts :=
  { h with origin := fun st hst => (h.origin st hst).imp_left (hS _) }

lemma node (h : Drawn S lo hi sts) {id : Nat} {label : String} {shape : Shape} {style : Style}
    (hst : .node id label shape style ∈ sts) : lo ≤ id ∧ id < hi := by
  have hid : id ∈ sts.filterMap Statement.declared? := List.mem_filterMap.2 ⟨_, hst, rfl⟩
  have hle := h.le
  rw [h.declared, List.mem_range'_1] at hid
  omega

/-- A join is declared once, so only edges can be repeated. -/
lemma eraseDups (h : Drawn S lo hi sts) : Drawn S lo hi sts.eraseDups where
  le := h.le
  declared := by
    rw [filterMap_eraseDups _ (by rw [h.declared]; exact List.nodup_range' 1), h.declared]
  origin := fun st hst => h.origin st (List.mem_eraseDups.1 hst)
  target := fun _ _ _ hst => h.target _ _ _ (List.mem_eraseDups.1 hst)
  join := fun _ _ _ _ hst => h.join _ _ _ _ (List.mem_eraseDups.1 hst)

end Drawn

/-! ### One part after the other -/

section Turns

variable {α : Type} {f : Nat → α → List Statement × Nat} {T : α → Nat → Prop} {l : List α}
  {p q : Nat × α}

/-- Each element with the number that is next when its turn comes. -/
def turns (f : Nat → α → List Statement × Nat) (next : Nat) : List α → List (Nat × α)
  | [] => []
  | a :: as => (next, a) :: turns f (f next a).2 as

def after (f : Nat → α → List Statement × Nat) (next : Nat) (l : List α) : Nat :=
  l.foldl (fun next a => (f next a).2) next

def parts (f : Nat → α → List Statement × Nat) (next : Nat) (l : List α) : List Statement :=
  (turns f next l).flatMap fun p => (f p.1 p.2).1

lemma map_snd_turns (f : Nat → α → List Statement × Nat) (next : Nat) (l : List α) :
    (turns f next l).map Prod.snd = l := by
  induction l generalizing next with
  | nil => rfl
  | cons a as ih => rw [turns, List.map_cons, ih]

lemma snd_mem_of_turns (h : p ∈ turns f lo l) : p.2 ∈ l := by
  rw [← map_snd_turns f lo l]
  exact List.mem_map_of_mem h

lemma exists_turn {a : α} (h : a ∈ l) (f : Nat → α → List Statement × Nat) (next : Nat) :
    ∃ n, (n, a) ∈ turns f next l := by
  rw [← map_snd_turns f next l] at h
  obtain ⟨p, hp, rfl⟩ := List.mem_map.1 h
  exact ⟨p.1, hp⟩

/-- Every element draws with consecutive joins from its turn on. -/
def Draws (f : Nat → α → List Statement × Nat) (T : α → Nat → Prop) (lo : Nat) (l : List α) :
    Prop :=
  ∀ a ∈ l, ∀ n, lo ≤ n → Drawn (T a) n (f n a).2 (f n a).1

namespace Draws

lemma tail {a : α} (h : Draws f T lo (a :: l)) : Draws f T (f lo a).2 l :=
  fun b hb n hn => h b (List.mem_cons_of_mem _ hb) n
    ((h a List.mem_cons_self lo le_rfl).le.trans hn)

lemma le_turn (h : Draws f T lo l) (hp : p ∈ turns f lo l) : lo ≤ p.1 := by
  induction l generalizing lo with
  | nil => exact absurd hp List.not_mem_nil
  | cons a as ih =>
    rcases List.mem_cons.1 hp with rfl | hp
    · exact le_rfl
    · exact (h a List.mem_cons_self lo le_rfl).le.trans (ih h.tail hp)

lemma turn (h : Draws f T lo l) (hp : p ∈ turns f lo l) :
    Drawn (T p.2) p.1 (f p.1 p.2).2 (f p.1 p.2).1 :=
  h p.2 (snd_mem_of_turns hp) p.1 (h.le_turn hp)

lemma pairwise (h : Draws f T lo l) :
    (turns f lo l).Pairwise fun p q => (f p.1 p.2).2 ≤ q.1 := by
  induction l generalizing lo with
  | nil => exact List.Pairwise.nil
  | cons a as ih => exact List.Pairwise.cons (fun q hq => h.tail.le_turn hq) (ih h.tail)

lemma eq_of_turns (h : Draws f T lo l) (hp : p ∈ turns f lo l) (hq : q ∈ turns f lo l)
    (hn : p.1 ≤ n ∧ n < (f p.1 p.2).2) (hn' : q.1 ≤ n ∧ n < (f q.1 q.2).2) : p = q := by
  induction l generalizing lo with
  | nil => exact absurd hp List.not_mem_nil
  | cons a as ih =>
    rcases List.mem_cons.1 hp with rfl | hp
    · rcases List.mem_cons.1 hq with rfl | hq
      · rfl
      · exact absurd (h.tail.le_turn hq) (Nat.not_le.2 (hn'.1.trans_lt hn.2))
    · rcases List.mem_cons.1 hq with rfl | hq
      · exact absurd (h.tail.le_turn hp) (Nat.not_le.2 (hn.1.trans_lt hn'.2))
      · exact ih h.tail hp hq

lemma parts (h : Draws f T lo l) (hT : ∀ a ∈ l, ∀ n, T a n → S n) :
    Drawn S lo (after f lo l) (parts f lo l) := by
  induction l generalizing lo with
  | nil => exact Drawn.nil
  | cons a as ih =>
    have hhead := (h a List.mem_cons_self lo le_rfl).imp (hT a List.mem_cons_self)
    have htail := ih h.tail fun b hb => hT b (List.mem_cons_of_mem _ hb)
    exact hhead.append htail fun n hn => .inl hn

lemma mem_of_origin (h : Draws f T lo l) (hT : ∀ a ∈ l, ∀ n, T a n → n < lo)
    (hp : p ∈ turns f lo l) (hst : st ∈ Dot.parts f lo l)
    (hn : p.1 ≤ st.origin ∧ st.origin < (f p.1 p.2).2) : st ∈ (f p.1 p.2).1 := by
  obtain ⟨q, hq, hst⟩ := List.mem_flatMap.1 hst
  have hlo := h.le_turn hp
  rcases (h.turn hq).origin st hst with hT' | hn'
  · exact absurd (hT _ (snd_mem_of_turns hq) _ hT') (by omega)
  · rwa [h.eq_of_turns hp hq hn hn']

/-- Nothing is drawn twice if every element draws nothing twice and starts elsewhere. -/
lemma nodup (h : Draws f T lo l) (hT : ∀ a ∈ l, ∀ n, T a n → n < lo)
    (hl : l.Pairwise fun a b => ∀ n, T a n → ¬ T b n)
    (hnodup : ∀ a ∈ l, ∀ n, lo ≤ n → (f n a).1.Nodup) : (Dot.parts f lo l).Nodup := by
  refine List.nodup_flatMap.2 ⟨fun p hp => hnodup _ (snd_mem_of_turns hp) _ (h.le_turn hp), ?_⟩
  have hl' : (turns f lo l).Pairwise fun p q => ∀ n, T p.2 n → ¬ T q.2 n := by
    rw [← map_snd_turns f lo l] at hl
    exact List.pairwise_map.1 hl
  refine (h.pairwise.and hl').imp_of_mem fun {p q} hp hq hpq st hst hst' => ?_
  have hlo := h.le_turn hp
  have hlo' := h.le_turn hq
  rcases (h.turn hp).origin st hst with hst | hst
  · rcases (h.turn hq).origin st hst' with hst' | hst'
    · exact hpq.2 _ hst hst'
    · exact absurd (hT _ (snd_mem_of_turns hp) _ hst) (by omega)
  · rcases (h.turn hq).origin st hst' with hst' | hst'
    · exact absurd (hT _ (snd_mem_of_turns hq) _ hst') (by omega)
    · omega

end Draws

end Turns

/-! ### Records -/

lemma recordsStatements_eq (d : Dot) (filter : Filter) (s next : Nat) (rs : List KeyedRecord) :
    d.recordsStatements filter s next rs =
      (parts (d.recordStatements filter s) next rs,
        after (d.recordStatements filter s) next rs) := by
  induction rs generalizing next with
  | nil => rfl
  | cons r rs ih =>
    simp only [recordsStatements, ih]
    rfl

lemma recordStatements_of_join (h : r.dependencies.length ≠ 1) :
    d.recordStatements filter s n r =
      (joinStatement filter n r.label :: .edge s n none ::
        r.dependencies.map (fun key => .edge n (d.number key) none), n + 1) := by
  unfold recordStatements
  split
  · rename_i key hkey
    rw [hkey] at h
    exact absurd rfl h
  · rfl

lemma recordStatements_of_single {key : Nat} (h : r.dependencies = [key]) :
    d.recordStatements filter s n r = ([.edge s (d.number key) (some r.label)], n) := by
  rw [recordStatements, h]

lemma single_or_join (r : KeyedRecord) :
    (∃ key, r.dependencies = [key]) ∨ r.dependencies.length ≠ 1 := by
  rw [← List.length_eq_one_iff]
  exact em _

lemma drawn_join (filter : Filter) (s n : Nat) (label : String) :
    Drawn (· = s) n (n + 1) [joinStatement filter n label, .edge s n none] where
  le := n.le_succ
  declared := by
    rw [Nat.add_sub_cancel_left]
    rfl
  origin := by simp [joinStatement, Statement.origin]
  target := by
    intro source target label hst
    rcases List.mem_cons.1 hst with hst | hst
    · cases hst
    · cases List.mem_singleton.1 hst
      exact n.lt_succ_self
  join := by simp [joinStatement]

lemma drawn_record (hr : ∀ key ∈ r.dependencies, key ∈ d.keys) (hn : d.entries.length ≤ n) :
    Drawn (· = s) n (d.recordStatements filter s n r).2 (d.recordStatements filter s n r).1 := by
  rcases single_or_join r with ⟨key, hkey⟩ | hjoin
  · -- one dependency: an edge between entries
    rw [recordStatements_of_single hkey]
    have hlt := number_lt (hr key (by rw [hkey]; exact List.mem_cons_self))
    refine ⟨le_rfl, by rw [Nat.sub_self]; rfl, fun st hst => .inl ?_, ?_, ?_⟩
    · rw [List.mem_singleton.1 hst]
      rfl
    · intro source target label hst
      cases List.mem_singleton.1 hst
      exact hlt.trans_le hn
    · intro id label shape style hst
      cases List.mem_singleton.1 hst
  · -- several: a join of their own, which edges lead from and to
    rw [recordStatements_of_join hjoin]
    have hedges : Drawn (· = n) (n + 1) (n + 1)
        (r.dependencies.map fun key => .edge n (d.number key) none) := by
      refine ⟨le_rfl, ?_, fun st hst => .inl ?_, ?_, ?_⟩
      · rw [Nat.sub_self, List.filterMap_map, List.range'_zero, List.filterMap_eq_nil_iff]
        exact fun _ _ => rfl
      · obtain ⟨key, -, rfl⟩ := List.mem_map.1 hst
        rfl
      · intro source target label hst
        obtain ⟨key, hkey, heq⟩ := List.mem_map.1 hst
        cases heq
        exact (number_lt (hr key hkey)).trans_le (hn.trans n.le_succ)
      · intro id label shape style hst
        obtain ⟨key, -, heq⟩ := List.mem_map.1 hst
        cases heq
    refine (drawn_join filter s n r.label).append hedges ?_
    rintro m rfl
    exact .inr ⟨le_rfl, m.lt_succ_self⟩

lemma draws_records (hrs : d.Covers rs) (hlo : d.entries.length ≤ lo) :
    Draws (d.recordStatements filter s) (fun _ => (· = s)) lo rs :=
  fun r hr _ hn => drawn_record (hrs r hr) (hlo.trans hn)

lemma drawn_records (hrs : d.Covers rs) (hlo : d.entries.length ≤ lo) :
    Drawn (· = s) lo (after (d.recordStatements filter s) lo rs)
      (parts (d.recordStatements filter s) lo rs) :=
  (draws_records hrs hlo).parts fun _ _ _ => id

/-! ### Entries -/

def fan (d : Dot) (filter : Filter) (next : Nat) (p : Nat × List KeyedRecord) :
    List Statement × Nat :=
  d.fanStatements filter next p.1 p.2

lemma allStatements_eq (d : Dot) (filter : Filter) (next : Nat)
    (records : List (Nat × List KeyedRecord)) :
    d.allStatements filter next records = parts (d.fan filter) next records := by
  induction records generalizing next with
  | nil => rfl
  | cons p records ih =>
    simp only [allStatements, ih]
    rfl

lemma fan_of_several {p : Nat × List KeyedRecord} (h : 1 < p.2.length) :
    d.fan filter n p =
      ([joinStatement filter n "phi", .edge (d.number p.1) n none] ++
        (parts (d.recordStatements filter n) (n + 1) p.2).eraseDups,
        after (d.recordStatements filter n) (n + 1) p.2) := by
  rw [fan, fanStatements, if_pos h, recordsStatements_eq]
  rfl

lemma fan_of_few {p : Nat × List KeyedRecord} (h : ¬ 1 < p.2.length) :
    d.fan filter n p =
      ((parts (d.recordStatements filter (d.number p.1)) n p.2).eraseDups,
        after (d.recordStatements filter (d.number p.1)) n p.2) := by
  rw [fan, fanStatements, if_neg h, recordsStatements_eq]

variable {p : Nat × List KeyedRecord}

lemma drawn_fan (hp : d.Covers p.2) (hn : d.entries.length ≤ n) :
    Drawn (· = d.number p.1) n (d.fan filter n p).2 (d.fan filter n p).1 := by
  by_cases hmany : 1 < p.2.length
  · rw [fan_of_several hmany]
    refine (drawn_join filter (d.number p.1) n "phi").append
      (drawn_records hp (hn.trans n.le_succ)).eraseDups ?_
    rintro m rfl
    exact .inr ⟨le_rfl, m.lt_succ_self⟩
  · rw [fan_of_few hmany]
    exact (drawn_records hp hn).eraseDups

lemma nodup_fan (hp : d.Covers p.2) (hkey : p.1 ∈ d.keys) (hn : d.entries.length ≤ n) :
    (d.fan filter n p).1.Nodup := by
  by_cases hmany : 1 < p.2.length
  · rw [fan_of_several hmany]
    have hrest : Drawn (· = n) (n + 1) (after (d.recordStatements filter n) (n + 1) p.2)
        (parts (d.recordStatements filter n) (n + 1) p.2) :=
      drawn_records hp (hn.trans n.le_succ)
    have hlt := (number_lt hkey).trans_le hn
    refine List.nodup_append.2 ⟨?_, nodup_eraseDups _, ?_⟩
    · simp [joinStatement]
    · rintro st hst _ hst' rfl
      rw [List.mem_eraseDups] at hst'
      rcases List.mem_cons.1 hst with rfl | hst
      · -- the records behind the `phi` node take later numbers
        exact absurd (hrest.node hst').1 (by omega)
      · obtain rfl := List.mem_singleton.1 hst
        rcases hrest.origin _ hst' with heq | hrange
        · exact absurd heq hlt.ne
        · exact absurd hrange.1 (by simp only [Statement.origin]; omega)
  · rw [fan_of_few hmany]
    exact nodup_eraseDups _

namespace Closed

lemma draws_fans (h : d.Closed) :
    Draws (d.fan filter) (fun p => (· = d.number p.1)) d.entries.length d.records :=
  fun p hp _ hn => drawn_fan (h.known p hp).2 hn

lemma number_lt_of_record (h : d.Closed) (hp : p ∈ d.records) :
    d.number p.1 < d.entries.length :=
  number_lt (h.known p hp).1

/-- The edges to the records of an entry start before all joins. -/
lemma sources_lt (h : d.Closed) :
    ∀ p ∈ d.records, ∀ n, n = d.number p.1 → n < d.entries.length := by
  rintro p hp n rfl
  exact h.number_lt_of_record hp

lemma number_lt_turn (h : d.Closed)
    (hp : (n, p) ∈ turns (d.fan filter) d.entries.length d.records) : d.number p.1 < n :=
  (h.number_lt_of_record (snd_mem_of_turns hp)).trans_le (h.draws_fans.le_turn hp)

lemma drawn_all (h : d.Closed) :
    Drawn (· < d.entries.length) d.entries.length (after (d.fan filter) d.entries.length d.records)
      (d.allStatements filter d.entries.length d.records) := by
  rw [allStatements_eq]
  exact h.draws_fans.parts h.sources_lt

lemma nodup_all (h : d.Closed) :
    (d.allStatements filter d.entries.length d.records).Nodup := by
  rw [allStatements_eq]
  refine h.draws_fans.nodup h.sources_lt ?_ fun p hp n hn =>
    nodup_fan (h.known p hp).2 (h.known p hp).1 hn
  refine (List.pairwise_map.1 h.records).imp_of_mem fun {p q} hp hq hne => ?_
  rintro n rfl hnumber
  exact hne ((number_inj (h.known p hp).1).1 hnumber)

/-! ### Whole drawings -/

end Closed

lemma head?_of_mem_texts {line : String} (h : line ∈ (d.statements filter).map Statement.text) :
    line.toList.head? = some 'I' := by
  obtain ⟨st, -, rfl⟩ := List.mem_map.1 h
  exact st.head?_text

lemma text_mem_lines : st.text ∈ d.lines filter ↔ st ∈ d.statements filter := by
  have hframe : ∀ line : String, line.toList.head? ≠ some 'I' → st.text ≠ line := by
    rintro _ hne rfl
    exact hne st.head?_text
  rw [lines, List.mem_append, List.mem_cons, List.mem_singleton,
    or_iff_left (hframe "\x7d" (by decide)), or_iff_right (hframe "digraph \x7b" (by decide)),
    List.mem_map_of_injective Statement.text_injective]

namespace Closed

lemma map_entryStatement (h : d.Closed) (filter : Filter) :
    (d.entries.map (d.entryStatement filter)).map Statement.origin =
      List.range d.entries.length := by
  rw [List.map_map]
  refine List.ext_getElem (by simp) fun i hi hi' => ?_
  have hkey : i < d.keys.length := by simpa [keys] using hi
  have hnumber := h.entries.idxOf_getElem i hkey
  rw [← number_eq_idxOf] at hnumber
  simpa [keys, entryStatement, Statement.origin] using hnumber

lemma node_of_key (h : d.Closed) (filter : Filter) {i key : Nat} (hi : d.keys[i]? = some key) :
    ∃ e ∈ d.entries, e.key = key ∧ (d.statements filter)[i]? =
      some (.node i (filter e.name) (if e.constant || e.external then .box else .ellipse)
        (if key ∈ d.roots then .root else .solid)) := by
  have hnumber := (h.getElem?_keys.1 hi).2
  rw [keys, List.getElem?_map, Option.map_eq_some_iff] at hi
  obtain ⟨e, he, rfl⟩ := hi
  have hlt : i < (d.entries.map (d.entryStatement filter)).length := by
    rw [List.length_map]
    exact (List.getElem?_eq_some_iff.1 he).1
  refine ⟨e, List.mem_of_getElem? he, rfl, ?_⟩
  rw [statements, List.getElem?_append_left hlt, List.getElem?_map, he, Option.map_some,
    entryStatement, hnumber]

/-- The nodes are numbered in the order in which they are declared. -/
lemma declared (h : d.Closed) : (d.statements filter).filterMap Statement.declared? =
    List.range (after (d.fan filter) d.entries.length d.records) := by
  have hentries : (d.entries.map (d.entryStatement filter)).filterMap Statement.declared? =
      List.range d.entries.length := by
    rw [← h.map_entryStatement filter, List.filterMap_map, List.map_map,
      ← List.filterMap_eq_map]
    rfl
  rw [statements, List.filterMap_append, hentries, h.drawn_all.declared, List.range_eq_range',
    List.range_eq_range']
  have hsum := List.range'_append_1 (s := 0) (m := d.entries.length)
    (n := after (d.fan filter) d.entries.length d.records - d.entries.length)
  rwa [Nat.zero_add, Nat.add_sub_cancel' h.drawn_all.le] at hsum

lemma nodup_statements (h : d.Closed) : (d.statements filter).Nodup := by
  refine List.nodup_append.2 ⟨?_, h.nodup_all, ?_⟩
  · refine List.Nodup.of_map Statement.origin ?_
    rw [h.map_entryStatement]
    exact List.nodup_range
  · rintro st hst _ hst' rfl
    have horigin := List.mem_map_of_mem (f := Statement.origin) hst
    rw [h.map_entryStatement, List.mem_range] at horigin
    obtain ⟨e, -, rfl⟩ := List.mem_map.1 hst
    exact absurd (h.drawn_all.node hst').1 (Nat.not_le.2 horigin)

lemma join_of_le (h : d.Closed) {id : Nat} {label : String} {shape : Shape} {style : Style}
    (hst : .node id label shape style ∈ d.statements filter) (hid : d.entries.length ≤ id) :
    shape = .circle ∧ style = .filled := by
  rcases List.mem_append.1 hst with hst | hst
  · have horigin := List.mem_map_of_mem (f := Statement.origin) hst
    rw [h.map_entryStatement, List.mem_range] at horigin
    exact absurd hid (Nat.not_le.2 horigin)
  · exact h.drawn_all.join _ _ _ _ hst

lemma nodup_lines (h : d.Closed) : (d.lines filter).Nodup := by
  have hsts : (d.statements filter).Nodup := h.nodup_statements
  have htexts := hsts.map Statement.text_injective
  have hhead : "digraph \x7b" ∉ (d.statements filter).map Statement.text := fun hmem =>
    absurd (head?_of_mem_texts hmem) (by decide)
  refine List.nodup_append.2 ⟨List.nodup_cons.2 ⟨hhead, htexts⟩, List.nodup_singleton _, ?_⟩
  rintro line hline _ hend rfl
  obtain rfl := List.mem_singleton.1 hend
  rcases List.mem_cons.1 hline with heq | hline
  · exact absurd heq (by decide)
  · exact absurd (head?_of_mem_texts hline) (by decide)

lemma edge_lt (h : d.Closed) {source target : Nat} {label : Option String}
    (hst : .edge source target label ∈ d.statements filter) :
    source < after (d.fan filter) d.entries.length d.records ∧
      target < after (d.fan filter) d.entries.length d.records := by
  have hall : .edge source target label ∈
      d.allStatements filter d.entries.length d.records := by
    refine (List.mem_append.1 hst).resolve_left fun hmem => ?_
    obtain ⟨e, -, he⟩ := List.mem_map.1 hmem
    cases he
  refine ⟨?_, h.drawn_all.target _ _ _ hall⟩
  rcases h.drawn_all.origin _ hall with hlt | hrange
  · exact hlt.trans_le h.drawn_all.le
  · exact hrange.2

end Closed

end Lineage.Report.Dot
