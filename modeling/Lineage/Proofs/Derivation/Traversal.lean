import Lineage.Proofs.Derivation.Ancestry
import Lineage.Proofs.Derivation.Sharing

/-!
The walk with a stack is the recursive traversal.

`Traverses` is the traversal by recursion, which marks a node when it comes to it and leaves it
behind its sources. `Walks` counts the passes of the walk with a stack, of which each takes one
visit from the stack. Wherever the recursion gets to, the walk gets to as well, with the same order,
and it takes a pass for each node that is left and for each edge and each root at most.
-/

namespace Lineage.Graph

variable {g : Graph} {n : NodeId} {ns visited visited' below fresh order roots : List NodeId}
  {stack : List Visit} {passes : Nat}

/-- Some nodes are visited in order. One that has been visited before is skipped, and any other is
left when its sources have been visited. `order` holds the nodes that are left, first ones first. -/
inductive Traverses (g : Graph) :
    (visited ns order visited' : List NodeId) → Prop
  | nil {visited : List NodeId} : Traverses g visited [] [] visited
  | skip {n : NodeId} {visited ns order visited' : List NodeId} (seen : n ∈ visited)
      (rest : Traverses g visited ns order visited') : Traverses g visited (n :: ns) order visited'
  | visit {n : NodeId} {visited ns below between order visited' : List NodeId} (new : n ∉ visited)
      (sources : Traverses g (n :: visited) (g.node n).sources below between)
      (rest : Traverses g between ns order visited') :
      Traverses g visited (n :: ns) (below ++ n :: order) visited'

/-- From a stack of visits the walk comes to its end in a number of passes, and returns `result`. -/
inductive Walks (g : Graph) (result : List NodeId) :
    (passes : Nat) → (fresh order : List NodeId) → List Visit → Prop
  | done {fresh order : List NodeId} (returns : order.reverse = result) :
      Walks g result 0 fresh order []
  | leave {passes : Nat} {n : NodeId} {fresh order : List NodeId} {stack : List Visit}
      (rest : Walks g result passes fresh (n :: order) stack) :
      Walks g result (passes + 1) fresh order (.leave n :: stack)
  | enter {passes : Nat} {n : NodeId} {fresh order : List NodeId} {stack : List Visit}
      (new : n ∈ fresh) (rest : Walks g result passes (fresh.erase n) order
        (((g.node n).sources.filter (· ∈ fresh.erase n)).map .enter ++ .leave n :: stack)) :
      Walks g result (passes + 1) fresh order (.enter n :: stack)
  | skip {passes : Nat} {n : NodeId} {fresh order : List NodeId} {stack : List Visit}
      (seen : n ∉ fresh) (rest : Walks g result passes fresh order stack) :
      Walks g result (passes + 1) fresh order (.enter n :: stack)

lemma Walks.visit_eq {result : List NodeId} (h : g.Walks result passes fresh order stack) :
    g.visit fresh order stack = result := by
  induction h with
  | done hreturns => rw [visit, hreturns]
  | leave _ ih => rw [visit, ih]
  | enter hnew _ ih => rw [visit, if_pos hnew, ih]
  | skip hseen _ ih => rw [visit, if_neg hseen, ih]

/-- The passes that some nodes take: one for leaving each, and one for each of its sources. -/
def effort (g : Graph) : List NodeId → Nat
  | [] => 0
  | n :: ns => (g.node n).sources.length + 1 + g.effort ns

lemma effort_append (ns ns' : List NodeId) : g.effort (ns ++ ns') = g.effort ns + g.effort ns' := by
  induction ns with
  | nil => rw [List.nil_append, effort, Nat.zero_add]
  | cons n ns ih => rw [List.cons_append, effort, effort, ih, Nat.add_assoc _ _ (g.effort ns')]

/-- What is fresh is what has not been visited of the graph. -/
structure Unvisited (g : Graph) (fresh visited : List NodeId) : Prop where
  nodup : fresh.Nodup
  mem : ∀ n, n ∈ fresh ↔ n < g.size ∧ n ∉ visited

lemma Unvisited.enter (h : g.Unvisited fresh visited) (n : NodeId) :
    g.Unvisited (fresh.erase n) (n :: visited) where
  nodup := h.nodup.erase n
  mem k := by
    rw [h.nodup.mem_erase_iff, h.mem, List.mem_cons, not_or]
    exact and_left_comm

lemma Traverses.subset (h : g.Traverses visited ns order visited') : visited ⊆ visited' := by
  induction h with
  | nil => exact List.Subset.refl _
  | skip _ _ ih => exact ih
  | visit _ _ _ ih ih' => exact fun k hk => ih' (ih (List.mem_cons_of_mem _ hk))

/-- Where the recursion gets to, the walk gets to as well. Nodes that have been visited already may
be left out of the stack, as they are when the sources of a node are put on it. -/
lemma Traverses.walks (hg : ∀ n < g.size, ∀ k ∈ (g.node n).sources, k < g.size)
    (h : g.Traverses visited ns below visited') (hns : ∀ n ∈ ns, n < g.size)
    (hfresh : g.Unvisited fresh visited) {p : NodeId → Bool}
    (hp : ∀ n ∈ ns, p n = false → n ∈ visited) :
    ∃ fresh', g.Unvisited fresh' visited' ∧ ∀ {result passes order stack},
      g.Walks result passes fresh' (below.reverse ++ order) stack →
      ∃ passes' ≤ passes + (ns.length + g.effort below),
        g.Walks result passes' fresh order ((ns.filter p).map .enter ++ stack) := by
  -- on the recursion: the walk passes over what it skips, and enters and leaves what it visits
  induction h generalizing fresh p with
  | nil => exact ⟨fresh, hfresh, fun hw => ⟨_, Nat.le_add_right _ _, hw⟩⟩
  | @skip n visited ns below visited' hseen hrest ih =>
    obtain ⟨fresh', hfresh', hwalks⟩ := ih (fun k hk => hns k (List.mem_cons_of_mem n hk)) hfresh
      fun k hk => hp k (List.mem_cons_of_mem n hk)
    refine ⟨fresh', hfresh', fun hw => ?_⟩
    obtain ⟨passes', hle, hw⟩ := hwalks hw
    rw [List.length_cons]
    cases hpn : p n with
    | true =>
      have hnot : n ∉ fresh := fun hn => ((hfresh.mem n).1 hn).2 hseen
      rw [List.filter_cons_of_pos hpn]
      exact ⟨passes' + 1, by omega, .skip hnot hw⟩
    | false =>
      rw [List.filter_cons_of_neg (by simp [hpn])]
      exact ⟨passes', by omega, hw⟩
  | @visit n visited ns below between order' visited' hnew hsources hrest ih ih' =>
    have hn : n < g.size := hns n List.mem_cons_self
    have hmem : n ∈ fresh := (hfresh.mem n).2 ⟨hn, hnew⟩
    have hpn : p n = true := by
      by_contra hpn
      exact hnew (hp n List.mem_cons_self (by simpa using hpn))
    have hentered := hfresh.enter n
    -- sources that have been visited are not put on the stack
    obtain ⟨fresh₁, hfresh₁, hwalks₁⟩ := ih (hg n hn) hentered (p := (· ∈ fresh.erase n))
      fun k hk hnot => by
        have hvisited := mt (hentered.mem k).2 (of_decide_eq_false hnot)
        exact not_not.1 fun hk' => hvisited ⟨hg n hn k hk, hk'⟩
    obtain ⟨fresh₂, hfresh₂, hwalks₂⟩ := ih' (fun k hk => hns k (List.mem_cons_of_mem n hk)) hfresh₁
      (p := p) fun k hk hpk =>
        hsources.subset (List.mem_cons_of_mem n (hp k (List.mem_cons_of_mem n hk) hpk))
    refine ⟨fresh₂, hfresh₂, fun hw => ?_⟩
    rw [List.reverse_append, List.reverse_cons, List.append_assoc, List.append_assoc] at hw
    obtain ⟨passes₂, hle₂, hw₂⟩ := hwalks₂ hw
    obtain ⟨passes₁, hle₁, hw₁⟩ := hwalks₁ (.leave hw₂)
    rw [List.filter_cons_of_pos hpn, List.length_cons, effort_append, effort]
    exact ⟨passes₁ + 1, by omega, .enter hmem hw₁⟩

/-- In a graph whose nodes are derived from earlier ones the recursion comes to an end. -/
lemma Descending.exists_traverses (hg : g.Descending) (bound : Nat) (visited : List NodeId)
    (hns : ∀ n ∈ ns, n < bound) : ∃ order visited', g.Traverses visited ns order visited' := by
  induction bound using Nat.strongRecOn generalizing ns visited with
  | ind bound ih =>
    induction ns generalizing visited with
    | nil => exact ⟨[], visited, .nil⟩
    | cons n ns ihns =>
      have hrest : ∀ k ∈ ns, k < bound := fun k hk => hns k (List.mem_cons_of_mem n hk)
      by_cases hn : n ∈ visited
      · obtain ⟨order, visited', h⟩ := ihns visited hrest
        exact ⟨order, visited', .skip hn h⟩
      · obtain ⟨below, between, hbelow⟩ := ih n (hns n List.mem_cons_self) (n :: visited) (hg n)
        obtain ⟨order, visited', h⟩ := ihns between hrest
        exact ⟨below ++ n :: order, visited', .visit hn hbelow h⟩

/-- **A lineage is listed in post-order**: in a graph that is built by requests, the walk from any
roots comes to its end, with at most a pass for each root, for each node that it lists and for each
source of these. It lists what the recursive traversal of the roots leaves, in that order, and this
is every node that a root stems from, once and behind all of its sources, and no other node. -/
theorem lineage_in_postorder {rs : List Request} (hrs : Graph.Admits {} rs)
    (hroots : ∀ n ∈ roots, n < (asked {} rs).size) :
    let g := asked {} rs
    let listed := g.lineage roots
    (∃ passes ≤ roots.length + g.effort listed,
        g.Walks listed passes (List.range g.size) [] (roots.map .enter)) ∧
      (∀ order, (∃ visited, g.Traverses [] roots order visited) ↔ order = listed) ∧
      listed.Nodup ∧ (∀ n, n ∈ listed ↔ ∃ root ∈ roots, g.Stems root n) ∧
      ∀ before n behind, listed = before ++ n :: behind → ∀ k ∈ (g.node n).sources, k ∈ before := by
  intro g listed
  have hg : g.Descending := (consed_empty.asked hrs).descending
  have hstart : g.Unvisited (List.range g.size) [] :=
    ⟨List.nodup_range, fun n => by simp⟩
  have hsources : ∀ n < g.size, ∀ k ∈ (g.node n).sources, k < g.size :=
    fun n hn k hk => Nat.lt_trans (hg n k hk) hn
  -- a recursive traversal is what the walk comes to
  have hwalks : ∀ {order visited}, g.Traverses [] roots order visited →
      ∃ passes ≤ roots.length + g.effort order,
        g.Walks order passes (List.range g.size) [] (roots.map .enter) := by
    intro order visited h
    obtain ⟨fresh', -, hwalk⟩ := h.walks hsources hroots hstart (p := fun _ => true) (by simp)
    have hend : g.Walks order 0 fresh' (order.reverse ++ []) [] := .done (by simp)
    obtain ⟨passes, hle, hw⟩ := hwalk hend
    rw [List.filter_true, List.append_nil] at hw
    exact ⟨passes, by omega, hw⟩
  have hlisted : ∀ {order visited}, g.Traverses [] roots order visited → order = listed := by
    intro order visited h
    obtain ⟨passes, -, hw⟩ := hwalks h
    exact hw.visit_eq.symm
  obtain ⟨order, visited, htraverses⟩ := hg.exists_traverses g.size [] hroots
  obtain rfl := hlisted htraverses
  refine ⟨hwalks htraverses, fun order' => ⟨fun ⟨_, h⟩ => hlisted h, ?_⟩,
    nodup_lineage hg hroots, fun n => mem_lineage hg hroots,
    fun before n behind h k hk => source_before hg hroots h hk⟩
  rintro rfl
  exact ⟨visited, htraverses⟩

/-- A product of a sum with one of its terms: the term is on the stack twice, and is listed before
the sum. -/
theorem lineage_in_postorder_shared :
    let rs : List Request := [.leaf "IN0" 5 true, .leaf "IN1" 3 true,
      .derive "" "A" "+" [⟨"IN1", 1⟩, ⟨"IN0", 0⟩] 8, .derive "" "B" "*" [⟨"A", 2⟩, ⟨"IN0", 0⟩] 40]
    let roots : List NodeId := [3, 0, 3]
    (Graph.Admits {} rs ∧ ∀ n ∈ roots, n < (asked {} rs).size) ∧
      (asked {} rs).lineage roots = [1, 0, 2, 3] := by
  intro rs roots
  have hrs : Graph.Admits {} rs := by decide +kernel
  have hroots : ∀ n ∈ roots, n < (asked {} rs).size := by decide +kernel
  have hproduct : ((asked {} rs).node 3).sources = [2, 0] := by decide +kernel
  have hsum : ((asked {} rs).node 2).sources = [1, 0] := by decide +kernel
  have hleaf : ∀ n < 2, ((asked {} rs).node n).sources = [] := by decide +kernel
  have hterm : (asked {} rs).Traverses [1, 2, 3] [0] ([] ++ 0 :: []) [0, 1, 2, 3] :=
    .visit (by decide) (by rw [hleaf 0 (by decide)]; exact .nil) .nil
  have hterms : (asked {} rs).Traverses [2, 3] [1, 0] ([] ++ 1 :: [0]) [0, 1, 2, 3] :=
    .visit (by decide) (by rw [hleaf 1 (by decide)]; exact .nil) hterm
  have hbelow : (asked {} rs).Traverses [3] [2, 0] ([1, 0] ++ 2 :: []) [0, 1, 2, 3] :=
    .visit (by decide) (by rw [hsum]; exact hterms) (.skip (by decide) .nil)
  have hall : (asked {} rs).Traverses [] roots ([1, 0, 2] ++ 3 :: []) [0, 1, 2, 3] :=
    .visit (by decide) (by rw [hproduct]; exact hbelow)
      (.skip (by decide) (.skip (by decide) .nil))
  obtain ⟨-, hlisted, -⟩ := lineage_in_postorder hrs hroots
  exact ⟨⟨hrs, hroots⟩, ((hlisted _).1 ⟨_, hall⟩).symm⟩

end Lineage.Graph
