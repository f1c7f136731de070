import Lineage.Derivation.Ancestry
import Lineage.Proofs.Derivation.Consing
import Mathlib.Data.List.Nodup
import Mathlib.Logic.Relation
import Mathlib.Tactic.Lemma

/-!
The order in which a lineage is listed.

In a graph whose nodes are derived from earlier ones the walk with a stack goes the way of the
recursive walk, which takes the sources of a node one after the other and then the node. So a
lineage lists all that the roots are derived from, each node once and behind its sources.
-/

namespace Lineage.Graph

variable {g : Graph} {n k : NodeId} {ns fresh done order : List NodeId} {stack : List Visit}
  {bound : Nat}

/-- Nodes are derived from earlier ones. -/
def Descending (g : Graph) : Prop := ∀ n, ∀ k ∈ (g.node n).sources, k < n

lemma Consed.descending (h : g.Consed) : g.Descending := by
  intro n k hk
  rcases Nat.lt_or_ge n g.size with hlt | hge
  · obtain ⟨dv, hdv, hk⟩ := mem_sources.1 hk
    exact (h.within hlt dv hdv).1 k hk
  · have hdefault : g.node n = default := by
      simp [node, Array.getD_eq_getD_getElem?, Array.getElem?_eq_none hge]
    rw [hdefault] at hk
    cases hk

/-- The second node is the first one, or the first one is derived from it over some others. -/
def Stems (g : Graph) : NodeId → NodeId → Prop :=
  Relation.ReflTransGen fun n k => k ∈ (g.node n).sources

/-- The nodes that are done, latest first, and before them what is new in a node and in what it is
derived from. -/
def postorder (g : Graph) (n : NodeId) (done : List NodeId) : List NodeId :=
  if n ∈ done then done
  else n :: (g.node n).sources.foldl
    (fun done k => if _h : k < n then g.postorder k done else done) done
termination_by n

def postorders (g : Graph) (ns done : List NodeId) : List NodeId :=
  ns.foldl (fun done n => g.postorder n done) done

lemma postorder_of_mem (h : n ∈ done) : g.postorder n done = done := by
  rw [postorder, if_pos h]

lemma postorder_of_not_mem (hg : g.Descending) (h : n ∉ done) :
    g.postorder n done = n :: g.postorders (g.node n).sources done := by
  rw [postorder, if_neg h, postorders]
  congr 1
  exact List.foldl_ext _ _ _ fun done k hk => dif_pos (hg n k hk)

lemma subset_postorder (n : NodeId) (done : List NodeId) : done ⊆ g.postorder n done := by
  induction n using Nat.strongRecOn generalizing done with
  | ind n ih =>
    have hfold : ∀ (ns done : List NodeId), done ⊆ ns.foldl
        (fun done k => if _h : k < n then g.postorder k done else done) done := by
      intro ns
      induction ns with
      | nil => exact fun done => List.Subset.refl done
      | cons k ns ihns =>
        intro done
        rw [List.foldl_cons]
        by_cases hk : k < n
        · rw [dif_pos hk]
          exact List.Subset.trans (ih k hk done) (ihns _)
        · rw [dif_neg hk]
          exact ihns done
    rw [postorder]
    split
    · exact List.Subset.refl done
    · exact fun k hk => List.mem_cons_of_mem _ (hfold _ _ hk)

lemma postorders_cons (n : NodeId) (ns done : List NodeId) :
    g.postorders (n :: ns) done = g.postorders ns (g.postorder n done) := rfl

lemma subset_postorders (ns done : List NodeId) : done ⊆ g.postorders ns done := by
  induction ns generalizing done with
  | nil => exact List.Subset.refl done
  | cons n ns ih => exact List.Subset.trans (subset_postorder n done) (ih _)

lemma postorders_filter {p : NodeId → Bool} (h : ∀ n ∈ ns, p n = false → n ∈ done) :
    g.postorders (ns.filter p) done = g.postorders ns done := by
  induction ns generalizing done with
  | nil => rfl
  | cons n ns ih =>
    have hns : ∀ k ∈ ns, p k = false → k ∈ g.postorder n done := fun k hk hp =>
      subset_postorder n done (h k (List.mem_cons_of_mem n hk) hp)
    cases hp : p n with
    | true => rw [List.filter_cons_of_pos hp, postorders_cons, postorders_cons, ih hns]
    | false =>
      have hdone := h n List.mem_cons_self hp
      rw [List.filter_cons_of_neg (by simp [hp]), postorders_cons, postorder_of_mem hdone]
      rw [postorder_of_mem hdone] at hns
      exact ih hns

/-! ### The walk with a stack -/

/-- What has not been entered is not done, and what is not done below the bound has not been
entered. -/
structure Awaits (fresh done : List NodeId) (bound : Nat) : Prop where
  nodup : fresh.Nodup
  disjoint : ∀ n ∈ fresh, n ∉ done
  complete : ∀ n < bound, n ∉ done → n ∈ fresh

/-- The walk gets to the bottom of some visits when a list of nodes is done. -/
def Clears (g : Graph) (fresh done : List NodeId) (visits : List Visit) (done' : List NodeId) :
    Prop :=
  ∀ stack, ∃ fresh', fresh'.Nodup ∧ (∀ n, n ∈ fresh' ↔ n ∈ fresh ∧ n ∉ done') ∧
    g.visit fresh done (visits ++ stack) = g.visit fresh' done' stack

lemma Awaits.next {fresh' done' : List NodeId} (h : Awaits fresh done bound)
    (hnodup : fresh'.Nodup) (hmem : ∀ n, n ∈ fresh' ↔ n ∈ fresh ∧ n ∉ done')
    (hsub : done ⊆ done') : Awaits fresh' done' bound where
  nodup := hnodup
  disjoint n hn := ((hmem n).1 hn).2
  complete n hlt hn := (hmem n).2 ⟨h.complete n hlt fun hdone => hn (hsub hdone), hn⟩

/-- Nodes are entered one after the other. -/
lemma Awaits.clears_postorders (h : Awaits fresh done bound)
    (hns : ∀ n ∈ ns, ∀ {fresh done}, Awaits fresh done bound →
      g.Clears fresh done [.enter n] (g.postorder n done)) :
    g.Clears fresh done (ns.map .enter) (g.postorders ns done) := by
  induction ns generalizing fresh done with
  | nil =>
    intro stack
    exact ⟨fresh, h.nodup, fun n => ⟨fun hn => ⟨hn, h.disjoint n hn⟩, And.left⟩, rfl⟩
  | cons n ns ih =>
    intro stack
    obtain ⟨fresh₁, hnodup₁, hmem₁, hvisit₁⟩ :=
      hns n List.mem_cons_self h (ns.map .enter ++ stack)
    obtain ⟨fresh₂, hnodup₂, hmem₂, hvisit₂⟩ :=
      ih (h.next hnodup₁ hmem₁ (subset_postorder n done))
        (fun k hk => hns k (List.mem_cons_of_mem n hk)) stack
    refine ⟨fresh₂, hnodup₂, fun k => ?_, hvisit₁.trans hvisit₂⟩
    have hsub := subset_postorders (g := g) ns (g.postorder n done)
    rw [hmem₂, hmem₁, and_assoc, postorders_cons]
    exact and_congr_right fun _ => and_iff_right_of_imp fun hk hdone => hk (hsub hdone)

lemma Awaits.clears_postorder (hg : g.Descending) (hlt : n < bound) (h : Awaits fresh done bound) :
    g.Clears fresh done [.enter n] (g.postorder n done) := by
  induction n using Nat.strongRecOn generalizing fresh done bound with
  | ind n ih =>
    intro stack
    by_cases hdone : n ∈ done
    · have hnot : n ∉ fresh := fun hn => h.disjoint n hn hdone
      rw [postorder_of_mem hdone]
      refine ⟨fresh, h.nodup, fun k => ⟨fun hk => ⟨hk, h.disjoint k hk⟩, And.left⟩, ?_⟩
      rw [List.singleton_append, visit, if_neg hnot]
    · have hn : n ∈ fresh := h.complete n hlt hdone
      -- while the sources of a node are gone through, nothing above the node counts
      have hrest : Awaits (fresh.erase n) done n :=
        ⟨h.nodup.erase n, fun k hk => h.disjoint k (List.mem_of_mem_erase hk), fun k hk hkd =>
          (List.mem_erase_of_ne (Nat.ne_of_lt hk)).2 (h.complete k (Nat.lt_trans hk hlt) hkd)⟩
      have hskip : ∀ k ∈ (g.node n).sources, decide (k ∈ fresh.erase n) = false → k ∈ done :=
        fun k hk hnot => not_not.1 fun hkd =>
          of_decide_eq_false hnot (hrest.complete k (hg n k hk) hkd)
      have hsources : ∀ k ∈ (g.node n).sources.filter (· ∈ fresh.erase n), k < n :=
        fun k hk => hg n k (List.mem_of_mem_filter hk)
      obtain ⟨fresh', hnodup, hmem, hvisit⟩ := hrest.clears_postorders
        (fun k hk => ih k (hsources k hk) (hsources k hk)) (.leave n :: stack)
      rw [postorders_filter hskip] at hmem hvisit
      rw [postorder_of_not_mem hg hdone]
      refine ⟨fresh', hnodup, fun k => ?_, ?_⟩
      · rw [hmem, h.nodup.mem_erase_iff, List.mem_cons, not_or]
        tauto
      · rw [List.singleton_append, visit, if_pos hn, hvisit, visit]

lemma lineage_eq (hg : g.Descending) (hns : ∀ n ∈ ns, n < g.size) :
    g.lineage ns = (g.postorders ns []).reverse := by
  have hstart : Awaits (List.range g.size) [] g.size :=
    ⟨List.nodup_range, fun _ _ => List.not_mem_nil, fun n hn _ => List.mem_range.2 hn⟩
  obtain ⟨fresh', -, -, hvisit⟩ := hstart.clears_postorders
    (fun n hn => Awaits.clears_postorder hg (hns n hn)) []
  rw [lineage, ← List.append_nil (ns.map Visit.enter), hvisit, visit]

/-! ### What a lineage lists -/

/-- The nodes stand, latest first, each once and its sources behind it. -/
inductive Sorted (g : Graph) : List NodeId → Prop
  | nil : Sorted g []
  | cons {n : NodeId} {order : List NodeId} (fresh : n ∉ order)
      (sources : ∀ k ∈ (g.node n).sources, k ∈ order) (rest : Sorted g order) :
      Sorted g (n :: order)

/-- To what was done before comes what stems from some nodes. -/
structure Completes (g : Graph) (ns done order : List NodeId) : Prop where
  sorted : g.Sorted order
  mem : ∀ k, k ∈ order ↔ k ∈ done ∨ ∃ n ∈ ns, g.Stems n k

lemma Stems.le (hg : g.Descending) (h : g.Stems n k) : k ≤ n := by
  induction h with
  | refl => exact Nat.le_refl n
  | tail _ hk ih => exact Nat.le_trans (Nat.le_of_lt (hg _ _ hk)) ih

lemma stems_iff : g.Stems n k ↔ k = n ∨ ∃ source ∈ (g.node n).sources, g.Stems source k := by
  rw [Stems, Relation.ReflTransGen.cases_head_iff, eq_comm]

namespace Sorted

lemma nodup (h : g.Sorted order) : order.Nodup := by
  induction h with
  | nil => exact List.nodup_nil
  | cons hfresh _ _ ih => exact List.nodup_cons.2 ⟨hfresh, ih⟩

lemma source_mem (h : g.Sorted order) (hn : n ∈ order) (hk : k ∈ (g.node n).sources) :
    k ∈ order := by
  induction h with
  | nil => cases hn
  | cons _ hsources _ ih =>
    rcases List.mem_cons.1 hn with rfl | hn
    · exact List.mem_cons_of_mem _ (hsources k hk)
    · exact List.mem_cons_of_mem _ (ih hn)

lemma stems_mem (h : g.Sorted order) (hn : n ∈ order) (hk : g.Stems n k) : k ∈ order := by
  induction hk with
  | refl => exact hn
  | tail _ hk ih => exact h.source_mem ih hk

lemma of_append {l₁ l₂ : List NodeId} (h : g.Sorted (l₁ ++ l₂)) : g.Sorted l₂ := by
  induction l₁ with
  | nil => exact h
  | cons n l₁ ih =>
    cases h with
    | cons _ _ hrest => exact ih hrest

lemma completes_postorders (h : g.Sorted done) (hns : ∀ n ∈ ns, ∀ {done}, g.Sorted done →
    g.Completes [n] done (g.postorder n done)) : g.Completes ns done (g.postorders ns done) := by
  induction ns generalizing done with
  | nil => exact ⟨h, fun k => by simp [postorders]⟩
  | cons n ns ih =>
    have hn := hns n List.mem_cons_self h
    obtain ⟨hsorted, hmem⟩ := ih hn.sorted fun k hk => hns k (List.mem_cons_of_mem n hk)
    refine ⟨hsorted, fun k => ?_⟩
    rw [postorders_cons, hmem, hn.mem, or_assoc]
    simp [or_and_right, exists_or]

lemma completes_postorder (hg : g.Descending) (n : NodeId) (h : g.Sorted done) :
    g.Completes [n] done (g.postorder n done) := by
  induction n using Nat.strongRecOn generalizing done with
  | ind n ih =>
    by_cases hdone : n ∈ done
    · rw [postorder_of_mem hdone]
      refine ⟨h, fun k => ⟨.inl, ?_⟩⟩
      rintro (hk | ⟨m, hm, hk⟩)
      · exact hk
      · rw [List.mem_singleton] at hm
        subst hm
        exact h.stems_mem hdone hk
    · obtain ⟨hsorted, hmem⟩ := h.completes_postorders fun k hk => ih k (hg n k hk)
      rw [postorder_of_not_mem hg hdone]
      refine ⟨.cons (fun hn => ?_) (fun k hk => (hmem k).2 (.inr ⟨k, hk, .refl⟩)) hsorted,
        fun k => ?_⟩
      · -- nothing below a node stems from it
        rcases (hmem n).1 hn with hn | ⟨k, hk, hstems⟩
        · exact hdone hn
        · exact absurd (hstems.le hg) (Nat.not_le.2 (hg n k hk))
      · rw [List.mem_cons, hmem]
        simp only [List.mem_singleton, exists_eq_left]
        rw [stems_iff (n := n), or_left_comm]

end Sorted

lemma mem_lineage (hg : g.Descending) (hns : ∀ n ∈ ns, n < g.size) :
    k ∈ g.lineage ns ↔ ∃ n ∈ ns, g.Stems n k := by
  have h := Sorted.nil.completes_postorders fun n (_ : n ∈ ns) => Sorted.completes_postorder hg n
  rw [lineage_eq hg hns, List.mem_reverse, h.mem]
  simp only [List.not_mem_nil, false_or]

lemma sorted_lineage (hg : g.Descending) (hns : ∀ n ∈ ns, n < g.size) :
    g.Sorted (g.lineage ns).reverse := by
  have h := Sorted.nil.completes_postorders fun n (_ : n ∈ ns) => Sorted.completes_postorder hg n
  rw [lineage_eq hg hns, List.reverse_reverse]
  exact h.sorted

lemma nodup_lineage (hg : g.Descending) (hns : ∀ n ∈ ns, n < g.size) : (g.lineage ns).Nodup :=
  List.nodup_reverse.1 (sorted_lineage hg hns).nodup

lemma source_before (hg : g.Descending) (hns : ∀ n ∈ ns, n < g.size) {l₁ l₂ : List NodeId}
    (h : g.lineage ns = l₁ ++ n :: l₂) (hk : k ∈ (g.node n).sources) : k ∈ l₁ := by
  have hsorted := sorted_lineage hg hns
  rw [h, List.reverse_append, List.reverse_cons, List.append_assoc] at hsorted
  cases hsorted.of_append with
  | cons _ hsources _ => exact List.mem_reverse.1 (hsources k hk)

end Lineage.Graph
