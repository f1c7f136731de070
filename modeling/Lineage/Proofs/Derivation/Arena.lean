import Lineage.Proofs.Derivation.Sharing
import Mathlib

/-!
Derivations found in tables.

A graph searches its nodes for one that counts as the same, and a node is known by its position. An
`Arena` stores the number with the node and does not search: it has a table for each kind of node,
and the key of a derivation lists its sources in a fixed order. Both answer every sequence of
requests with the same numbers.
-/

namespace Lineage

deriving instance Hashable for Identity

namespace Arena

/-- A node with its number, its kind told by flags. -/
structure Entry where
  id : NodeId
  name : String
  value : Value
  isConstant : Bool
  isExternal : Bool
  derivation : Option (String × List NodeId)
deriving Inhabited

def Entry.shape (e : Entry) : String :=
  if e.isConstant then "%" ++ Value.text e.value
  else
    match e.derivation with
    | some (label, _) => label
    | none => e.name

structure LeafKey where
  name : String
  value : Value
  isExternal : Bool
deriving DecidableEq, Hashable

structure LinkKey where
  context : String
  label : String
  sources : List (String × Identity)
  value : Value
deriving DecidableEq, Hashable

/-- Where a source stands among others: by its operand, then nodes before carried values. -/
def rank (source : String × Identity) : String ×ₗ (ℕ ⊕ₗ (ℤ ×ₗ String)) :=
  toLex (source.1, match source.2 with
    | .node id => Sum.inlₗ id
    | .carried v shape => Sum.inrₗ (toLex (v.toInt, shape)))

def inOrder (sources : List (String × Identity)) : List (String × Identity) :=
  sources.insertionSort (Order.Preimage rank (· ≤ ·))

end Arena

/-- Nodes in the order in which they were recorded, with the tables that they are found in. -/
structure Arena where
  entries : Array Arena.Entry := #[]
  constants : Std.HashMap Value NodeId := ∅
  leaves : Std.HashMap Arena.LeafKey NodeId := ∅
  links : Std.HashMap Arena.LinkKey NodeId := ∅

namespace Arena

def entry (a : Arena) (id : NodeId) : Entry := a.entries.getD id default

def push (a : Arena) (name : String) (v : Value) (isConstant isExternal : Bool)
    (derivation : Option (String × List NodeId)) : NodeId × Arena :=
  let id := a.entries.size
  (id, { a with entries := a.entries.push ⟨id, name, v, isConstant, isExternal, derivation⟩ })

def constant (a : Arena) (v : Value) : NodeId × Arena :=
  match a.constants[v]? with
  | some id => (id, a)
  | none =>
    let (id, a) := a.push ("%" ++ Value.text v) v true false none
    (id, { a with constants := a.constants.insert v id })

def leaf (a : Arena) (name : String) (v : Value) (external : Bool) : NodeId × Arena :=
  match a.leaves[(⟨name, v, external⟩ : LeafKey)]? with
  | some id => (id, a)
  | none =>
    let (id, a) := a.push name v false external none
    (id, { a with leaves := a.leaves.insert ⟨name, v, external⟩ id })

def identity (a : Arena) (name : String) (l : Link) : String × Identity :=
  let e := a.entry l.node
  if l.operand = name ∧ e.isConstant = false then (l.operand, .carried e.value e.shape)
  else (l.operand, .node l.node)

def derive (a : Arena) (context name label : String) (links : List Link) (v : Value) :
    NodeId × Arena :=
  let derivation := some (label, links.map Link.node)
  if links = [] then a.push name v false false derivation
  else
    let key : LinkKey := ⟨context, label, inOrder (links.map (a.identity name)), v⟩
    match a.links[key]? with
    | some id => (id, a)
    | none =>
      let (id, a) := a.push name v false false derivation
      (id, { a with links := a.links.insert key id })

def ask (a : Arena) : Request → NodeId × Arena
  | .constant v => a.constant v
  | .leaf name v external => a.leaf name v external
  | .derive context name label links v => a.derive context name label links v

def asked (a : Arena) : List Request → Arena
  | [] => a
  | r :: rs => (a.ask r).2.asked rs

/-! ### Keys -/

lemma rank_injective : Function.Injective rank := by
  rintro ⟨x, i⟩ ⟨y, j⟩ h
  obtain ⟨rfl, hij⟩ := Prod.mk.inj (toLex.injective h)
  cases i with
  | node id =>
    cases j with
    | node id' => rw [Sum.inl.inj (toLex.injective hij)]
    | carried => cases toLex.injective hij
  | carried v shape =>
    cases j with
    | node => cases toLex.injective hij
    | carried v' shape' =>
      obtain ⟨hv, rfl⟩ := Prod.mk.inj (toLex.injective (Sum.inr.inj (toLex.injective hij)))
      rw [Int64.toInt_inj.1 hv]

lemma inOrder_eq_iff {ids ids' : List (String × Identity)} :
    inOrder ids = inOrder ids' ↔ ids.Perm ids' := by
  have hperm : ∀ l, (inOrder l).Perm l := fun l => List.perm_insertionSort _ l
  constructor
  · intro h
    exact (hperm ids).symm.trans ((List.Perm.of_eq h).trans (hperm ids'))
  · intro h
    exact ((hperm ids).trans (h.trans (hperm ids').symm)).eq_of_pairwise
      (fun _ _ _ _ hle hle' => rank_injective (le_antisymm hle hle'))
      (List.pairwise_insertionSort ..) (List.pairwise_insertionSort ..)

lemma isDerivedAs_iff_key {context label : String} {v : Value} {ids : List (String × Identity)}
    {n : Node} : n.isDerivedAs context label v ids = true ↔ ∃ d, n.origin = .derived d ∧
      (⟨d.context, d.label, inOrder d.identities, n.value⟩ : LinkKey) =
        ⟨context, label, inOrder ids, v⟩ := by
  unfold Node.isDerivedAs
  cases n.origin with
  | derived d =>
    simp only [Bool.and_eq_true, beq_iff_eq, List.isPerm_iff, Origin.derived.injEq,
      exists_eq_left', LinkKey.mk.injEq, inOrder_eq_iff]
    tauto
  | constant | leaf => simp

end Arena

/-! ### Answers -/

def Node.entry (id : NodeId) (n : Node) : Arena.Entry where
  id := id
  name := n.name
  value := n.value
  isConstant := n.isConstant
  isExternal := n.isExternal
  derivation := n.derivation?.map fun d => (d.label, d.sources)

lemma Node.shape_entry (id : NodeId) (n : Node) : (n.entry id).shape = n.shape := by
  obtain ⟨name, v, origin⟩ := n
  cases origin <;> rfl

namespace Arena

variable {a : Arena} {g : Graph} {n : Node} {r : Request} {rs : List Request}

/-- The tables tell of the nodes what a search among them does. -/
structure Holds (a : Arena) (g : Graph) : Prop where
  entries : a.entries = g.nodes.mapIdx Node.entry
  constants : ∀ v, a.constants[v]? = g.nodes.findIdx? fun n => n.isConstant && n.value == v
  leaves : ∀ k : LeafKey,
    a.leaves[k]? = g.nodes.findIdx? (· = ⟨k.name, k.value, .leaf k.isExternal⟩)
  links : ∀ {ids}, ids ≠ [] → ∀ context label v,
    a.links[(⟨context, label, inOrder ids, v⟩ : LinkKey)]? =
      g.nodes.findIdx? (Node.isDerivedAs context label v ids)

namespace Holds

lemma empty : Holds {} {} where
  entries := rfl
  constants _ := Std.HashMap.getElem?_empty.trans Array.findIdx?_empty.symm
  leaves _ := Std.HashMap.getElem?_empty.trans Array.findIdx?_empty.symm
  links _ _ _ _ := Std.HashMap.getElem?_empty.trans Array.findIdx?_empty.symm

lemma size (h : a.Holds g) : a.entries.size = g.size := by
  rw [h.entries, Array.size_mapIdx, Graph.size]

lemma entry (h : a.Holds g) {id : NodeId} (hid : id < g.size) :
    a.entry id = (g.node id).entry id := by
  have hlt : id < g.nodes.size := hid
  simp [Arena.entry, Graph.node, h.entries, Array.getD_eq_getD_getElem?, hlt]

/-- The number in an entry is its position. -/
lemma id_eq (h : a.Holds g) {id : NodeId} (hid : id < a.entries.size) : (a.entry id).id = id := by
  rw [h.entry (h.size ▸ hid)]
  rfl

lemma identity (h : a.Holds g) (name : String) {l : Link} (hl : l.node < g.size) :
    a.identity name l = g.identity name l := by
  simp only [Arena.identity, Graph.identity, h.entry hl, Node.shape_entry]
  rfl

/-- A push keeps what the tables tell if each of them gets the number under the key of the node and
under no other. -/
lemma push (h : a.Holds g) {constants : Std.HashMap Value NodeId}
    {leaves : Std.HashMap LeafKey NodeId} {links : Std.HashMap LinkKey NodeId}
    (hconstants : ∀ v, constants[v]? =
      a.constants[v]?.or (if n.isConstant && n.value == v then some g.size else none))
    (hleaves : ∀ k : LeafKey, leaves[k]? =
      a.leaves[k]?.or (if n = ⟨k.name, k.value, .leaf k.isExternal⟩ then some g.size else none))
    (hlinks : ∀ {ids}, ids ≠ [] → ∀ context label v,
      links[(⟨context, label, inOrder ids, v⟩ : LinkKey)]? =
        a.links[(⟨context, label, inOrder ids, v⟩ : LinkKey)]?.or
          (if n.isDerivedAs context label v ids then some g.size else none)) :
    Holds ⟨a.entries.push (n.entry g.size), constants, leaves, links⟩ (g.push n).2 where
  entries := by rw [h.entries, Graph.push, Array.mapIdx_push, Graph.size]
  constants v := by
    rw [hconstants, h.constants, Graph.push, Array.findIdx?_push, Graph.size]
  leaves k := by
    rw [hleaves, h.leaves, Graph.push, Array.findIdx?_push, Graph.size]
    simp
  links hids context label v := by
    rw [hlinks hids, h.links hids, Graph.push, Array.findIdx?_push, Graph.size]

lemma constant (h : a.Holds g) (v : Value) :
    (a.constant v).1 = (g.constant v).1 ∧ (a.constant v).2.Holds (g.constant v).2 := by
  unfold Arena.constant Graph.constant Graph.intern
  rw [← h.constants]
  cases hv : a.constants[v]? with
  | some id => exact ⟨rfl, h⟩
  | none =>
    refine ⟨h.size, ?_⟩
    simp only [Arena.push, h.size]
    refine h.push (n := .constant v) (fun w => ?_) (fun k => ?_) fun _ _ _ _ => ?_
    · rw [Std.HashMap.getElem?_insert]
      by_cases heq : v = w
      · subst heq
        simp [hv, Node.constant, Node.isConstant]
      · simp [heq, Node.constant, Node.isConstant]
    · simp [Node.constant]
    · simp [Node.constant, Node.isDerivedAs]

lemma leaf (h : a.Holds g) (name : String) (v : Value) (external : Bool) :
    (a.leaf name v external).1 = (g.leaf name v external).1 ∧
      (a.leaf name v external).2.Holds (g.leaf name v external).2 := by
  unfold Arena.leaf Graph.leaf Graph.intern
  rw [← h.leaves ⟨name, v, external⟩]
  cases hk : a.leaves[(⟨name, v, external⟩ : LeafKey)]? with
  | some id => exact ⟨rfl, h⟩
  | none =>
    refine ⟨h.size, ?_⟩
    simp only [Arena.push, h.size]
    refine h.push (n := ⟨name, v, .leaf external⟩) (fun w => ?_) (fun k => ?_) fun _ _ _ _ => ?_
    · simp [Node.isConstant]
    · rw [Std.HashMap.getElem?_insert]
      by_cases heq : (⟨name, v, external⟩ : LeafKey) = k
      · subst heq
        simp [hk]
      · have hne : ¬ (name = k.name ∧ v = k.value ∧ external = k.isExternal) := by
          rintro ⟨rfl, rfl, rfl⟩
          exact heq rfl
        simp [heq, hne]
    · simp [Node.isDerivedAs]

lemma derive (h : a.Holds g) (context name label : String) {links : List Link} (v : Value)
    (hlinks : ∀ l ∈ links, l.node < g.size) :
    (a.derive context name label links v).1 = (g.derive context name label links v).1 ∧
      (a.derive context name label links v).2.Holds (g.derive context name label links v).2 := by
  have hids : links.map (a.identity name) = links.map (g.identity name) :=
    List.map_congr_left fun l hl => h.identity name (hlinks l hl)
  unfold Arena.derive Graph.derive
  rw [hids]
  by_cases hnil : links = []
  · subst hnil
    refine ⟨h.size, ?_⟩
    simp only [Arena.push, if_pos, h.size]
    refine h.push (n := ⟨name, v, .derived ⟨context, label, [], []⟩⟩) (fun w => ?_) (fun k => ?_)
      fun hids _ _ _ => ?_
    · simp [Node.isConstant]
    · simp
    · -- such a node has no key: no derivation from something agrees with it
      simp [Node.isDerivedAs, List.isPerm_iff, hids]
  · simp only [if_neg hnil, Graph.intern]
    have hne : links.map (g.identity name) ≠ [] := by simpa using hnil
    rw [← h.links hne]
    cases hk : a.links[(⟨context, label, inOrder (links.map (g.identity name)), v⟩ : LinkKey)]? with
    | some id => exact ⟨rfl, h⟩
    | none =>
      refine ⟨h.size, ?_⟩
      simp only [Arena.push, h.size]
      refine h.push (n := ⟨name, v, .derived ⟨context, label, links.map Link.node,
        links.map (g.identity name)⟩⟩) (fun w => ?_) (fun k => ?_)
        fun _ _ _ _ => ?_
      · simp [Node.isConstant]
      · simp
      · rw [Std.HashMap.getElem?_insert]
        simp only [isDerivedAs_iff_key, Origin.derived.injEq, exists_eq_left', beq_iff_eq]
        split
        · next heq =>
          rw [← heq, hk]
          rfl
        · simp

lemma ask (h : a.Holds g) (hr : ∀ k ∈ r.sources, k < g.size) :
    (a.ask r).1 = (g.ask r).1 ∧ (a.ask r).2.Holds (g.ask r).2 := by
  cases r with
  | constant v => exact h.constant v
  | leaf name v external => exact h.leaf name v external
  | derive context name label links v =>
    exact h.derive context name label v fun l hl => hr _ (List.mem_map_of_mem hl)

lemma asked (h : a.Holds g) (hrs : g.Admits rs) : (a.asked rs).Holds (g.asked rs) := by
  induction rs generalizing a g with
  | nil => exact h
  | cons r rs ih => exact ih (h.ask hrs.1).2 hrs.2

end Holds

/-- **Derivations are found in tables**: after any requests the entries are the nodes of the graph,
the number in each is its position, and the next request is answered with the number that the graph
gives. -/
theorem requests_answered_from_tables (hrs : Graph.Admits {} (rs ++ [r])) :
    (asked {} rs).entries = (Graph.asked {} rs).nodes.mapIdx Node.entry ∧
      (∀ id < (asked {} rs).entries.size, ((asked {} rs).entry id).id = id) ∧
      ((asked {} rs).ask r).1 = ((Graph.asked {} rs).ask r).1 := by
  obtain ⟨hrs, hr, -⟩ := Graph.admits_append.1 hrs
  have h := Holds.empty.asked hrs
  exact ⟨h.entries, fun _ => h.id_eq, (h.ask hr).1⟩

end Arena

end Lineage
