import Lineage.Proofs.Derivation.Graph

/-!
No node is recorded twice.

`Node.Same` tells when a node counts as another one: constants by their value, leaves by name and
value, and derivations from something by what is compared of them. In a graph that is built by
looking nodes up first, no two nodes are the same, so a lookup finds the one node that there is.
-/

namespace Lineage

variable {g : Graph} {n n' : Node} {r : NodeId × Graph} {k : NodeId}

namespace Node

/-- The nodes count as one. A derivation from nothing does not even count as itself. -/
def Same (n n' : Node) : Prop :=
  match n.origin, n'.origin with
  | .derived d, .derived d' => n.value = n'.value ∧ d.label = d'.label ∧
      d.identities.Perm d'.identities ∧ d.context = d'.context ∧ d.identities ≠ []
  | _, _ => n = n'

lemma same_of_underived (h : n'.derivation? = none) : n.Same n' ↔ n = n' := by
  unfold derivation? at h
  unfold Same
  split at h
  · cases h
  · next hn =>
    split
    · next d d' _ ho => exact absurd ho (hn d')
    · rfl

lemma same_of_derived {e : Derivation} (h : n'.origin = .derived e) : n.Same n' ↔
    ∃ d, n.origin = .derived d ∧ n.value = n'.value ∧ d.label = e.label ∧
      d.identities.Perm e.identities ∧ d.context = e.context ∧ d.identities ≠ [] := by
  unfold Same
  rw [h]
  cases ho : n.origin with
  | derived d => simp
  | constant | leaf =>
    simp only [reduceCtorEq, false_and, exists_false, iff_false]
    rintro rfl
    rw [h] at ho
    cases ho

lemma underived_or_derived (n : Node) :
    n.derivation? = none ∨ ∃ d, n.origin = .derived d ∧ n.derivation? = some d := by
  unfold derivation?
  cases n.origin with
  | derived d => exact .inr ⟨d, rfl, rfl⟩
  | constant | leaf => exact .inl rfl

lemma Same.symm (h : n.Same n') : n'.Same n := by
  rcases n'.underived_or_derived with hn | ⟨d', ho', -⟩
  · have heq := (same_of_underived hn).1 h
    rw [heq] at h ⊢
    exact h
  · obtain ⟨d, ho, hv, hl, hp, hc, hne⟩ := (same_of_derived ho').1 h
    exact (same_of_derived ho).2
      ⟨d', ho', hv.symm, hl.symm, hp.symm, hc.symm, fun he => hne (by simpa [he] using hp)⟩

lemma Same.trans {n'' : Node} (h : n.Same n') (h' : n'.Same n'') : n.Same n'' := by
  rcases n''.underived_or_derived with hn | ⟨d'', ho'', -⟩
  · rwa [(same_of_underived hn).1 h'] at h
  · obtain ⟨d', ho', hv', hl', hp', hc', -⟩ := (same_of_derived ho'').1 h'
    obtain ⟨d, ho, hv, hl, hp, hc, hne⟩ := (same_of_derived ho').1 h
    exact (same_of_derived ho'').2
      ⟨d, ho, hv.trans hv', hl.trans hl', hp.trans hp', hc.trans hc', hne⟩

/-- The nodes that the node refers to are numbered below the bound. -/
def Within (n : Node) (bound : Nat) : Prop :=
  ∀ d, n.derivation? = some d → (∀ k ∈ d.sources, k < bound) ∧
    ∀ p ∈ d.identities, ∀ k, p.2 = .node k → k < bound

lemma Within.mono {b b' : Nat} (h : n.Within b) (hb : b ≤ b') : n.Within b' := fun d hd =>
  ⟨fun k hk => Nat.lt_of_lt_of_le ((h d hd).1 k hk) hb,
    fun p hp k hk => Nat.lt_of_lt_of_le ((h d hd).2 p hp k hk) hb⟩

lemma within_of_underived (h : n.derivation? = none) (b : Nat) : n.Within b := by
  intro d hd
  rw [h] at hd
  cases hd

end Node

namespace Graph

/-- No two nodes are the same, constants are called after their values, and derivations are from
earlier nodes. -/
structure Consed (g : Graph) : Prop where
  unique : ∀ {j k}, j < g.size → k < g.size → (g.node j).Same (g.node k) → j = k
  constant : ∀ {k}, k < g.size → (g.node k).isConstant = true →
    g.node k = .constant (g.node k).value
  within : ∀ {k}, k < g.size → (g.node k).Within k

lemma consed_empty : Consed {} :=
  ⟨fun h => absurd h (Nat.not_lt_zero _), fun h => absurd h (Nat.not_lt_zero _),
    fun h => absurd h (Nat.not_lt_zero _)⟩

/-- A node is put into a graph: one that is the same is found, or it is added. -/
inductive Puts (g : Graph) (n : Node) : NodeId × Graph → Prop
  | found {k : NodeId} (lt : k < g.size) (same : (g.node k).Same n) : Puts g n (k, g)
  | added (fresh : ∀ k < g.size, ¬ (g.node k).Same n) : Puts g n (g.push n)

/-- A lookup puts the node into the graph if it looks for the nodes that are the same. -/
lemma puts_intern (g : Graph) {found : Node → Bool}
    (hf : ∀ k < g.size, found (g.node k) = true ↔ (g.node k).Same n) :
    g.Puts n (g.intern found n) := by
  unfold intern
  cases h : g.nodes.findIdx? found with
  | none =>
    refine .added fun k hk hsame => ?_
    have hnot := Array.findIdx?_eq_none_iff.1 h (g.node k) (by
      simp only [node, Array.getD_eq_getD_getElem?, Array.getElem?_eq_getElem hk, Option.getD_some]
      exact Array.getElem_mem hk)
    rw [(hf k hk).2 hsame] at hnot
    cases hnot
  | some k =>
    obtain ⟨hlt, hfound, -⟩ := Array.findIdx?_eq_some_iff_getElem.1 h
    refine .found hlt ((hf k hlt).1 ?_)
    simpa [node, Array.getD_eq_getD_getElem?, hlt] using hfound

lemma Consed.puts_constant (h : g.Consed) (v : Value) : g.Puts (.constant v) (g.constant v) := by
  refine g.puts_intern fun k hk => ?_
  rw [Node.same_of_underived rfl, Bool.and_eq_true, beq_iff_eq]
  refine ⟨fun ⟨hc, hv⟩ => by rw [h.constant hk hc, hv], fun hn => ?_⟩
  rw [hn]
  exact ⟨rfl, rfl⟩

lemma puts_leaf (g : Graph) (name : String) (v : Value) (external : Bool) :
    g.Puts ⟨name, v, .leaf external⟩ (g.leaf name v external) :=
  g.puts_intern fun k _ => by rw [Node.same_of_underived rfl, decide_eq_true_eq]

lemma puts_derive (g : Graph) (context name label : String) (links : List Link) (v : Value) :
    g.Puts (g.derived context name label links v) (g.derive context name label links v) := by
  have hiff : ∀ x : Node, x.Same (g.derived context name label links v) ↔
      x.isDerivedAs context label v (links.map (g.identity name)) = true ∧ links ≠ [] := by
    intro x
    rw [Node.same_of_derived rfl, isDerivedAs_iff]
    constructor
    · rintro ⟨d, ho, hv, hl, hp, hc, hne⟩
      refine ⟨⟨d, ho, hv, hl, hp, hc⟩, fun he => hne ?_⟩
      rw [he] at hp
      exact List.perm_nil.1 hp
    · rintro ⟨⟨d, ho, hv, hl, hp, hc⟩, hne⟩
      refine ⟨d, ho, hv, hl, hp, hc, fun he => hne ?_⟩
      rw [he, List.nil_perm, List.map_eq_nil_iff] at hp
      exact hp
  rw [derive_eq]
  split
  · next hlinks => exact .added fun k _ hsame => ((hiff _).1 hsame).2 hlinks
  · next hlinks =>
    exact g.puts_intern fun k _ => ⟨fun h => (hiff _).2 ⟨h, hlinks⟩, fun h => ((hiff _).1 h).1⟩

lemma within_derived (g : Graph) (context name label : String) {links : List Link} (v : Value)
    (hlinks : ∀ l ∈ links, l.node < g.size) :
    (g.derived context name label links v).Within g.size := by
  intro d hd
  cases hd
  refine ⟨fun k hk => ?_, fun p hp k hk => ?_⟩
  · obtain ⟨l, hl, rfl⟩ := List.mem_map.1 hk
    exact hlinks l hl
  · obtain ⟨l, hl, rfl⟩ := List.mem_map.1 hp
    rcases g.identity_cases name l with hid | ⟨-, w, shape, hid⟩ <;> rw [hid] at hk <;> cases hk
    exact hlinks l hl

namespace Puts

lemma toExtends (h : g.Puts n r) : g.Extends r.2 := by
  cases h with
  | found => exact .refl g
  | added => exact g.push_extends n

lemma lt (h : g.Puts n r) : r.1 < r.2.size := by
  cases h with
  | found hlt => exact hlt
  | added =>
    show g.size < (g.push n).2.size
    rw [size_push]
    exact Nat.lt_succ_self _

/-- The node that is answered with counts as the one that was put. -/
lemma same_iff (h : g.Puts n r) : (r.2.node r.1).Same n' ↔ n.Same n' := by
  cases h with
  | found _ hsame => exact ⟨hsame.symm.trans, hsame.trans⟩
  | added => rw [show (g.push n).2.node (g.push n).1 = n from g.node_push_size n]

lemma node_cases (h : g.Puts n r) (hk : k < r.2.size) :
    k < g.size ∧ r.2.node k = g.node k ∨
      k = g.size ∧ r.2.node k = n ∧ ∀ j < g.size, ¬ (g.node j).Same n := by
  cases h with
  | found => exact .inl ⟨hk, rfl⟩
  | added hfresh =>
    rw [size_push] at hk
    rcases Nat.lt_succ_iff_lt_or_eq.1 hk with hlt | rfl
    · exact .inl ⟨hlt, node_push_of_lt n hlt⟩
    · exact .inr ⟨rfl, node_push_size g n, hfresh⟩

lemma consed (h : g.Puts n r) (hg : g.Consed) (hc : n.isConstant = true → n = .constant n.value)
    (hw : n.Within g.size) : r.2.Consed where
  unique {j k} hj hk hsame := by
    rcases h.node_cases hj with ⟨hj', hjn⟩ | ⟨hj', hjn, hfresh⟩ <;>
      rcases h.node_cases hk with ⟨hk', hkn⟩ | ⟨hk', hkn, hfresh'⟩ <;> rw [hjn, hkn] at hsame
    · exact hg.unique hj' hk' hsame
    · exact absurd hsame (hfresh' j hj')
    · exact absurd hsame.symm (hfresh k hk')
    · rw [hj', hk']
  constant {k} hk hconst := by
    rcases h.node_cases hk with ⟨hk', hkn⟩ | ⟨-, hkn, -⟩ <;> rw [hkn] at hconst ⊢
    · exact hg.constant hk' hconst
    · exact hc hconst
  within {k} hk := by
    rcases h.node_cases hk with ⟨hk', hkn⟩ | ⟨hk', hkn, -⟩ <;> rw [hkn]
    · exact hg.within hk'
    · rw [hk']
      exact hw

lemma eq_of_same (h : g.Puts n r) (hg : g.Consed) (hk : k < g.size) (hs : (g.node k).Same n) :
    r = (k, g) := by
  cases h with
  | found hlt hsame => rw [hg.unique hlt hk (hsame.trans hs.symm)]
  | added hfresh => exact absurd hs (hfresh k hk)

lemma fst_eq_iff (h : g.Puts n r) (hg : g.Consed) (hk : k < g.size) :
    r.1 = k ↔ (g.node k).Same n := by
  constructor
  · intro heq
    cases h with
    | found _ hsame => exact heq ▸ hsame
    | added => exact absurd hk (Nat.not_lt.2 (Nat.le_of_eq heq))
  · intro hs
    rw [h.eq_of_same hg hk hs]

end Puts

/-- A derivation from something is found if one is there that is compared by the same sources, in
whatever order. -/
lemma Consed.derive_found (h : g.Consed) (hk : k < g.size) {d : Derivation}
    (hd : (g.node k).derivation? = some d) {name : String} {links : List Link} (hne : links ≠ [])
    (hp : d.identities.Perm (links.map (g.identity name))) :
    g.derive d.context name d.label links (g.node k).value = (k, g) := by
  refine (g.puts_derive ..).eq_of_same h hk ((Node.same_of_derived rfl).2 ?_)
  rcases (g.node k).underived_or_derived with hnone | ⟨d', ho, hd'⟩
  · rw [hnone] at hd
    cases hd
  · rw [hd'] at hd
    cases hd
    refine ⟨d, ho, rfl, rfl, hp, rfl, fun hnil => hne ?_⟩
    rwa [hnil, List.nil_perm, List.map_eq_nil_iff] at hp

end Graph

end Lineage
