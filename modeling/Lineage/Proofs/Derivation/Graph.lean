import Lineage.Derivation.Graph
import Mathlib.Tactic.Lemma

/-!
How a graph grows.

A graph only ever gets longer: the nodes it has keep their place. Looking up a constant or a leaf
adds a node without a derivation at most, and a derivation adds one node at most.
-/

namespace Lineage.Graph

variable {g g' g'' : Graph} {n : Node} {id : NodeId}

lemma node_push_of_lt (n : Node) (h : id < g.size) : (g.push n).2.node id = g.node id := by
  have hne : id ≠ g.nodes.size := Nat.ne_of_lt h
  simp only [node, push, Array.getD_eq_getD_getElem?, Array.getElem?_push, if_neg hne]

lemma node_push_size (g : Graph) (n : Node) : (g.push n).2.node g.size = n := by
  simp [node, push, size]

@[simp] lemma size_push (g : Graph) (n : Node) : (g.push n).2.size = g.size + 1 := by
  simp [size, push]

lemma mem_sources {j : NodeId} : j ∈ (g.node id).sources ↔
    ∃ dv, (g.node id).derivation? = some dv ∧ j ∈ dv.sources := by
  unfold Node.sources Node.derivation?
  cases (g.node id).origin <;> simp

def look (g : Graph) (k : NodeId) : Value × String := ((g.node k).value, (g.node k).shape)

/-- The second graph is the first with nodes added behind. -/
structure Extends (g g' : Graph) : Prop where
  size_le : g.size ≤ g'.size
  node : ∀ {id}, id < g.size → g'.node id = g.node id

namespace Extends

lemma refl (g : Graph) : g.Extends g := ⟨Nat.le_refl _, fun _ => rfl⟩

lemma trans (h : g.Extends g') (h' : g'.Extends g'') : g.Extends g'' where
  size_le := Nat.le_trans h.size_le h'.size_le
  node hid := (h'.node (Nat.lt_of_lt_of_le hid h.size_le)).trans (h.node hid)

lemma lt (h : g.Extends g') (hid : id < g.size) : id < g'.size := Nat.lt_of_lt_of_le hid h.size_le

lemma look (h : g.Extends g') (hid : id < g.size) : g'.look id = g.look id := by
  rw [Graph.look, h.node hid, Graph.look]

lemma identities (h : g.Extends g') (name : String) {links : List Link}
    (hlinks : ∀ l ∈ links, l.node < g.size) :
    links.map (g'.identity name) = links.map (g.identity name) := by
  refine List.map_congr_left fun l hl => ?_
  rw [identity, h.node (hlinks l hl), identity]

end Extends

lemma push_extends (g : Graph) (n : Node) : g.Extends (g.push n).2 :=
  ⟨by simp, node_push_of_lt n⟩

/-- The second graph is the first with nodes added behind, none of which is derived. -/
structure Grows (g g' : Graph) : Prop extends g.Extends g' where
  added : ∀ {id}, g.size ≤ id → id < g'.size → (g'.node id).derivation? = none

namespace Grows

lemma refl (g : Graph) : g.Grows g := ⟨.refl g, fun h h' => absurd h' (Nat.not_lt.2 h)⟩

lemma trans (h : g.Grows g') (h' : g'.Grows g'') : g.Grows g'' where
  toExtends := h.toExtends.trans h'.toExtends
  added {id} hid hlt := by
    rcases Nat.lt_or_ge id g'.size with hlt' | hge
    · rw [h'.node hlt']
      exact h.added hid hlt'
    · exact h'.added hge hlt

end Grows

lemma push_grows (g : Graph) (hn : n.derivation? = none) : g.Grows (g.push n).2 where
  toExtends := push_extends g n
  added {id} hid hlt := by
    have : id = g.size := by rw [size_push] at hlt; omega
    rw [this, node_push_size, hn]

/-! ### Looking up nodes -/

lemma intern_cases (g : Graph) (found : Node → Bool) (n : Node) :
    ((g.intern found n).2 = g ∧ (g.intern found n).1 < g.size ∧
        found (g.node (g.intern found n).1) = true) ∨
      g.intern found n = g.push n := by
  unfold intern
  cases h : g.nodes.findIdx? found with
  | none => exact .inr rfl
  | some i =>
    obtain ⟨hlt, hfound, -⟩ := Array.findIdx?_eq_some_iff_getElem.1 h
    refine .inl ⟨rfl, hlt, ?_⟩
    simpa [node, Array.getD_eq_getD_getElem?, hlt] using hfound

lemma intern_lt (g : Graph) (found : Node → Bool) (n : Node) :
    (g.intern found n).1 < (g.intern found n).2.size := by
  rcases intern_cases g found n with ⟨hg, hlt, -⟩ | h
  · rwa [hg]
  · rw [h, size_push]
    exact Nat.lt_succ_self _

lemma intern_found (g : Graph) (found : Node → Bool) (hn : found n = true) :
    found ((g.intern found n).2.node (g.intern found n).1) = true := by
  rcases intern_cases g found n with ⟨hg, -, hf⟩ | h
  · rwa [hg]
  · rw [h]
    exact (congrArg found (node_push_size g n)).trans hn

lemma intern_grows (g : Graph) (found : Node → Bool) (hn : n.derivation? = none) :
    g.Grows (g.intern found n).2 := by
  rcases intern_cases g found n with ⟨hg, -⟩ | h
  · rw [hg]
    exact .refl g
  · rw [h]
    exact push_grows g hn

lemma constant_grows (g : Graph) (v : Value) : g.Grows (g.constant v).2 := intern_grows g _ rfl

lemma constant_lt (g : Graph) (v : Value) : (g.constant v).1 < (g.constant v).2.size :=
  intern_lt ..

lemma node_constant (g : Graph) (v : Value) :
    ((g.constant v).2.node (g.constant v).1).isConstant = true ∧
      ((g.constant v).2.node (g.constant v).1).value = v := by
  have h := g.intern_found (fun n => n.isConstant && n.value == v) (n := .constant v)
    (by simp [Node.isConstant, Node.constant])
  rw [Bool.and_eq_true, beq_iff_eq] at h
  exact h

lemma leaf_grows (g : Graph) (name : String) (v : Value) (external : Bool) :
    g.Grows (g.leaf name v external).2 := intern_grows g _ rfl

lemma leaf_lt (g : Graph) (name : String) (v : Value) (external : Bool) :
    (g.leaf name v external).1 < (g.leaf name v external).2.size := intern_lt ..

lemma node_leaf (g : Graph) (name : String) (v : Value) (external : Bool) :
    (g.leaf name v external).2.node (g.leaf name v external).1 = ⟨name, v, .leaf external⟩ := by
  have h := g.intern_found (· = ⟨name, v, .leaf external⟩) (n := ⟨name, v, .leaf external⟩)
    (decide_eq_true rfl)
  rw [decide_eq_true_eq] at h
  exact h

/-! ### Derivations -/

lemma identity_cases (g : Graph) (name : String) (l : Link) :
    g.identity name l = (l.operand, .node l.node) ∨
      l.operand = name ∧ ∃ v shape, g.identity name l = (l.operand, .carried v shape) := by
  unfold identity
  by_cases h : l.operand = name ∧ (g.node l.node).isConstant = false
  · exact .inr ⟨h.1, _, _, if_pos h⟩
  · exact .inl (if_neg h)

def derived (g : Graph) (context name label : String) (links : List Link) (v : Value) : Node :=
  ⟨name, v, .derived ⟨context, label, links.map Link.node, links.map (g.identity name)⟩⟩

lemma derive_eq (g : Graph) (context name label : String) (links : List Link) (v : Value) :
    g.derive context name label links v =
      if links = [] then g.push (g.derived context name label links v)
      else g.intern (Node.isDerivedAs context label v (links.map (g.identity name)))
        (g.derived context name label links v) := rfl

lemma isDerivedAs_iff {context label : String} {v : Value} {ids : List (String × Identity)} :
    n.isDerivedAs context label v ids = true ↔ ∃ d, n.origin = .derived d ∧ n.value = v ∧
      d.label = label ∧ d.identities.Perm ids ∧ d.context = context := by
  unfold Node.isDerivedAs
  cases n.origin with
  | derived d => simp [and_assoc, List.isPerm_iff]
  | constant | leaf => simp

lemma derive_cases (g : Graph) (context name label : String) (links : List Link) (v : Value) :
    ((g.derive context name label links v).2 = g ∧
        (g.derive context name label links v).1 < g.size ∧
        (g.node (g.derive context name label links v).1).isDerivedAs context label v
          (links.map (g.identity name)) = true) ∨
      g.derive context name label links v = g.push (g.derived context name label links v) := by
  rw [derive_eq]
  split
  · exact .inr rfl
  · exact intern_cases ..

variable (g) (context name label : String) (links : List Link) (v : Value)

lemma derive_extends : g.Extends (g.derive context name label links v).2 := by
  rcases derive_cases g context name label links v with ⟨hg, -⟩ | h
  · rw [hg]
    exact .refl g
  · rw [h]
    exact push_extends g _

lemma derive_lt : (g.derive context name label links v).1 <
    (g.derive context name label links v).2.size := by
  rcases derive_cases g context name label links v with ⟨hg, hlt, -⟩ | h
  · rwa [hg]
  · rw [h, size_push]
    exact Nat.lt_succ_self _

/-- A derivation has the value and the label that it is recorded with, found or added. -/
lemma node_derive : ∃ d, ((g.derive context name label links v).2.node
      (g.derive context name label links v).1).origin = .derived d ∧
    ((g.derive context name label links v).2.node
      (g.derive context name label links v).1).value = v ∧ d.label = label := by
  rcases derive_cases g context name label links v with ⟨hg, -, hd⟩ | h
  · obtain ⟨d, hd, hv, hl, -⟩ := isDerivedAs_iff.1 hd
    exact ⟨d, by rwa [hg], by rwa [hg], hl⟩
  · rw [h]
    have hn : (g.push (g.derived context name label links v)).2.node
        (g.push (g.derived context name label links v)).1 = g.derived context name label links v :=
      node_push_size g _
    rw [hn]
    exact ⟨_, rfl, rfl, rfl⟩

lemma derivation_derive : ∃ d, ((g.derive context name label links v).2.node
    (g.derive context name label links v).1).derivation? = some d ∧ d.context = context := by
  rcases derive_cases g context name label links v with ⟨hg, -, hd⟩ | h
  · obtain ⟨d, hd, -, -, -, hcontext⟩ := isDerivedAs_iff.1 hd
    refine ⟨d, ?_, hcontext⟩
    rw [hg, Node.derivation?, hd]
  · rw [h]
    exact ⟨_, congrArg Node.derivation? (node_push_size g _), rfl⟩

lemma node_derive_not_constant : ((g.derive context name label links v).2.node
    (g.derive context name label links v).1).isConstant = false := by
  obtain ⟨d, hd, -⟩ := node_derive g context name label links v
  simp only [Node.isConstant, hd]

/-- A node behind a derivation was there before, or it is the derivation. -/
lemma node_derive_cases {id : NodeId} (hid : id < (g.derive context name label links v).2.size) :
    (id < g.size ∧ (g.derive context name label links v).2.node id = g.node id) ∨
      (id = g.size ∧ (g.derive context name label links v).2.node id =
        g.derived context name label links v) := by
  rcases derive_cases g context name label links v with ⟨hg, -⟩ | h
  · rw [hg] at hid ⊢
    exact .inl ⟨hid, rfl⟩
  · rw [h, size_push] at hid
    rw [h]
    rcases Nat.lt_succ_iff_lt_or_eq.1 hid with hlt | heq
    · exact .inl ⟨hlt, node_push_of_lt _ hlt⟩
    · exact .inr ⟨heq, heq ▸ node_push_size g _⟩

end Lineage.Graph
