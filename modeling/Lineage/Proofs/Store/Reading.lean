import Lineage.Proofs.Source
import Lineage.Store
import Mathlib.Logic.Basic

/-!
What reading does to a store.

A peek only adds to the history of calls. A read changes input channels alone: it sets the value
last consumed, and takes away the node bound to the channel. From a truthful source a read gives
what a peek has shown before.
-/

namespace Lineage.Store

variable {s t u : Store} {id : OperandId}

lemma operand_of_size_le (h : s.operands.size ≤ id) : s.operand id = default := by
  simp [operand, Array.getD_eq_getD_getElem?, h]

lemma lt_of_operand_ne (h : s.operand id ≠ default) : id < s.operands.size :=
  Nat.lt_of_not_le fun hge => h (operand_of_size_le hge)

lemma lt_of_node {n : NodeId} (h : (s.operand id).node = some n) : id < s.operands.size :=
  lt_of_operand_ne fun h' => by rw [h'] at h; cases h

@[simp] lemma size_modify (s : Store) (id : OperandId) (f : Operand → Operand) :
    (s.modify id f).operands.size = s.operands.size := by simp [modify]

lemma operand_bind (s : Store) (id : OperandId) (n : NodeId) (j : OperandId) :
    (s.bind id n).operand j =
      if id = j ∧ j < s.operands.size then { s.operand j with node := some n }
      else s.operand j :=
  operand_modify s id _ j

@[simp] lemma kind_bind (s : Store) (id : OperandId) (n : NodeId) (j : OperandId) :
    ((s.bind id n).operand j).kind = (s.operand j).kind := by
  rw [operand_bind]; split <;> rfl

@[simp] lemma value_bind (s : Store) (id : OperandId) (n : NodeId) (j : OperandId) :
    ((s.bind id n).operand j).value = (s.operand j).value := by
  rw [operand_bind]; split <;> rfl

lemma operand_bind_of_ne {j : OperandId} (s : Store) (n : NodeId) (h : id ≠ j) :
    (s.bind id n).operand j = s.operand j := by
  rw [operand_bind, if_neg fun h' => h h'.1]

lemma node_bind_self (n : NodeId) (h : id < s.operands.size) :
    ((s.bind id n).operand id).node = some n := by
  rw [operand_bind, if_pos ⟨rfl, h⟩]

lemma node_bind_cases {n m : NodeId} {j : OperandId}
    (h : ((s.bind id n).operand j).node = some m) :
    (id = j ∧ n = m) ∨ (id ≠ j ∧ (s.operand j).node = some m) := by
  rw [operand_bind] at h
  split at h
  · next hj => exact .inl ⟨hj.1, Option.some.inj h⟩
  · next hj =>
    by_cases hid : id = j
    · -- an operand out of range has no node
      rw [operand_of_size_le (Nat.le_of_not_lt fun hlt => hj ⟨hid, hlt⟩)] at h
      cases h
    · exact .inr ⟨hid, h⟩

def IsInput (s : Store) (id : OperandId) : Prop := ∃ c, (s.operand id).kind = .input c

instance (s : Store) (id : OperandId) : Decidable (s.IsInput id) :=
  match h : (s.operand id).kind with
  | .input c => .isTrue ⟨c, h⟩
  | .register _ | .constant _ | .memory _ | .output _ => .isFalse (by simp [IsInput, h])

/-- The value that a peek shows. -/
def shown (s : Store) (id : OperandId) : Value := (s.peek id).1

lemma peek_of_not_input (h : ¬ s.IsInput id) : s.peek id = ((s.operand id).value, s) := by
  unfold peek
  split
  · next c hc => exact absurd ⟨c, hc⟩ h
  · rfl

lemma read_of_not_input (h : ¬ s.IsInput id) : s.read id = ((s.operand id).value, s) := by
  unfold read
  split
  · next c hc => exact absurd ⟨c, hc⟩ h
  · rfl

lemma shown_of_not_input (h : ¬ s.IsInput id) : s.shown id = (s.operand id).value := by
  rw [shown, peek_of_not_input h]

lemma peek_input {c : Nat} (h : (s.operand id).kind = .input c) :
    s.peek id = s.consult c true := by
  rw [peek, h]

lemma read_input {c : Nat} (h : (s.operand id).kind = .input c) :
    s.read id = (s.source s.reads c false, (s.consult c false).2.modify id fun o =>
      { o with value := s.source s.reads c false, node := none }) := by
  rw [read, h]; rfl

/-! ### Peeks -/

/-- The second store is the first after some peeks. -/
structure Peeked (s t : Store) : Prop where
  layout : t.layout = s.layout
  operands : t.operands = s.operands
  source : t.source = s.source
  emitted : t.emitted = s.emitted
  consuming : consuming t.reads = consuming s.reads

namespace Peeked

lemma refl (s : Store) : s.Peeked s := ⟨rfl, rfl, rfl, rfl, rfl⟩

lemma trans (h : s.Peeked t) (h' : t.Peeked u) : s.Peeked u where
  layout := h'.layout.trans h.layout
  operands := h'.operands.trans h.operands
  source := h'.source.trans h.source
  emitted := h'.emitted.trans h.emitted
  consuming := h'.consuming.trans h.consuming

lemma operand (h : s.Peeked t) (id : OperandId) : t.operand id = s.operand id := by
  simp only [Store.operand, h.operands]

lemma isInput (h : s.Peeked t) : t.IsInput id ↔ s.IsInput id := by
  simp only [IsInput, h.operand]

end Peeked

lemma peek_peeked (s : Store) (id : OperandId) : s.Peeked (s.peek id).2 := by
  by_cases h : s.IsInput id
  · obtain ⟨c, hc⟩ := h
    rw [peek_input hc]
    exact ⟨rfl, rfl, rfl, rfl, rfl⟩
  · rw [peek_of_not_input h]
    exact .refl s

lemma Peeked.shown (hs : s.source.Truthful) (h : s.Peeked t) (id : OperandId) :
    t.shown id = s.shown id := by
  by_cases hi : s.IsInput id
  · obtain ⟨c, hc⟩ := hi
    have hc' : (t.operand id).kind = .input c := by rw [h.operand, hc]
    simp only [Store.shown, peek_input hc, peek_input hc', consult, h.source]
    exact hs.congr h.consuming c true true
  · rw [shown_of_not_input hi, shown_of_not_input (h.isInput.not.2 hi), h.operand]

/-! ### Reads -/

/-- The second store is the first after some reads. -/
structure Steady (s t : Store) : Prop where
  layout : t.layout = s.layout
  source : t.source = s.source
  emitted : t.emitted = s.emitted
  size : t.operands.size = s.operands.size
  kind : ∀ id, (t.operand id).kind = (s.operand id).kind
  node : ∀ {id n}, (t.operand id).node = some n → (s.operand id).node = some n
  other : ∀ {id}, ¬ s.IsInput id → t.operand id = s.operand id

namespace Steady

lemma refl (s : Store) : s.Steady s := ⟨rfl, rfl, rfl, rfl, fun _ => rfl, fun h => h, fun _ => rfl⟩

lemma isInput (h : s.Steady t) : t.IsInput id ↔ s.IsInput id := by
  simp only [IsInput, h.kind]

lemma memoryCell (h : s.Steady t) (address : Value) :
    t.memoryCell address = s.memoryCell address := by
  simp only [Store.memoryCell, h.layout]

lemma trans (h : s.Steady t) (h' : t.Steady u) : s.Steady u where
  layout := h'.layout.trans h.layout
  source := h'.source.trans h.source
  emitted := h'.emitted.trans h.emitted
  size := h'.size.trans h.size
  kind id := (h'.kind id).trans (h.kind id)
  node hn := h.node (h'.node hn)
  other hi := (h'.other (h.isInput.not.2 hi)).trans (h.other hi)

end Steady

lemma Peeked.steady (h : s.Peeked t) : s.Steady t where
  layout := h.layout
  source := h.source
  emitted := h.emitted
  size := by rw [h.operands]
  kind id := by rw [h.operand]
  node hn := by rwa [h.operand] at hn
  other _ := h.operand _

lemma read_steady (s : Store) (id : OperandId) : s.Steady (s.read id).2 := by
  by_cases h : s.IsInput id
  · obtain ⟨c, hc⟩ := h
    rw [read_input hc]
    have hop : ∀ j, ((s.consult c false).2).operand j = s.operand j := fun _ => rfl
    refine ⟨rfl, rfl, rfl, by simp [consult], fun j => ?_, fun {j n} hn => ?_, fun {j} hj => ?_⟩
    · rw [operand_modify]; split <;> rfl
    · rw [operand_modify] at hn
      split at hn
      · cases hn
      · exact hn
    · rw [operand_modify, if_neg, hop]
      rintro ⟨rfl, -⟩
      exact hj ⟨c, hc⟩
  · rw [read_of_not_input h]
    exact .refl s

/-- From a truthful source a read gives what a peek shows. -/
lemma read_value (hs : s.source.Truthful) (id : OperandId) : (s.read id).1 = s.shown id := by
  by_cases h : s.IsInput id
  · obtain ⟨c, hc⟩ := h
    rw [shown, read_input hc, peek_input hc]
    exact hs.congr rfl c false true
  · rw [read_of_not_input h, shown_of_not_input h]

/-- Peeks in advance change nothing about a read from a truthful source. -/
lemma Peeked.read (hs : s.source.Truthful) (h : s.Peeked t) (id : OperandId) :
    (t.read id).1 = (s.read id).1 ∧ (s.read id).2.Peeked (t.read id).2 := by
  have hv : (t.read id).1 = (s.read id).1 := by
    rw [read_value hs, read_value (h.source.symm ▸ hs), h.shown hs]
  refine ⟨hv, ?_⟩
  by_cases hi : s.IsInput id
  · obtain ⟨c, hc⟩ := hi
    have hc' : (t.operand id).kind = .input c := by rw [h.operand, hc]
    rw [read_input hc, read_input hc'] at hv ⊢
    replace hv : t.source t.reads c false = s.source s.reads c false := hv
    refine ⟨h.layout, ?_, h.source, h.emitted, ?_⟩
    · simp only [modify, consult, h.operands, hv]
    · simp only [modify, consult, consuming_read, h.consuming, hv]
  · rw [read_of_not_input hi, read_of_not_input (h.isInput.not.2 hi)]
    exact h

lemma shown_read {j : OperandId} (h : ¬ s.IsInput j) : (s.read id).2.shown j = s.shown j := by
  have hs := read_steady s id
  rw [shown_of_not_input h, shown_of_not_input (hs.isInput.not.2 h), hs.other h]

lemma shown_read_of_one {j : OperandId} (h : s.IsInput id → ¬ s.IsInput j) :
    (s.read id).2.shown j = s.shown j := by
  by_cases hi : s.IsInput id
  · exact shown_read (h hi)
  · rw [read_of_not_input hi]

/-- On separate channels a read does not change what is shown of another operand. -/
lemma shown_read_of_separate (hs : s.source.Separate) {j : OperandId}
    (h : ∀ c, (s.operand id).kind = .input c → (s.operand j).kind ≠ .input c) :
    (s.read id).2.shown j = s.shown j := by
  by_cases hi : s.IsInput id
  · by_cases hj : s.IsInput j
    · obtain ⟨c, hc⟩ := hi
      obtain ⟨c', hc'⟩ := hj
      have hne : c ≠ c' := fun he => h c hc (he ▸ hc')
      have hk := (read_steady s id).kind j
      rw [hc'] at hk
      rw [shown, shown, peek_input hk, peek_input hc', read_input hc]
      exact hs _ _ _ _ _ hne
    · exact shown_read hj
  · rw [read_of_not_input hi]

end Lineage.Store
