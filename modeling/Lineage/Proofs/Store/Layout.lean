import Lineage.Machine
import Lineage.Proofs.Store.Reading
import Mathlib.Data.List.Nodup

/-!
What stands where in a store.

A store is laid out when its operands are of the kinds that its layout lists, in that order, with
interned constants behind them. A store is built that way, and neither decoding a program nor
reading, writing and binding operands changes it.
-/

namespace Lineage

/-- The operand of an interned constant. -/
def Operand.ofConstant (v : Value) : Operand := { kind := .constant v, value := v }

def Kind.isStorage : Kind → Bool
  | .register _ | .memory _ => true
  | .constant _ | .input _ | .output _ => false

namespace Layout

def kinds (l : Layout) : List Kind :=
  l.registerNames.map .register ++ (List.range l.memorySize).map .memory ++
    (List.range l.inputs).map .input ++ (List.range l.outputs).map .output

lemma kinds_pc (l : Layout) : l.kinds[Store.pc]? = some (.register pcName) := rfl

lemma kinds_memory {l : Layout} {n : Nat} (h : n < l.memorySize) :
    l.kinds[l.memoryBase + n]? = some (.memory n) := by
  simp [kinds, memoryBase, List.getElem?_append, h]

lemma kinds_register {l : Layout} {id : OperandId} {name : String}
    (h : l.registerNames[id]? = some name) : l.kinds[id]? = some (.register name) := by
  obtain ⟨hlt, rfl⟩ := List.getElem?_eq_some_iff.1 h
  simp [kinds, List.getElem?_append, hlt]

lemma kinds_input {l : Layout} {n : Nat} (h : n < l.inputs) :
    l.kinds[l.inputBase + n]? = some (.input n) := by
  rw [kinds, List.append_assoc, List.getElem?_append_right (by simp [inputBase, memoryBase]),
    List.getElem?_append_left (by simp [inputBase, memoryBase, h])]
  simp [inputBase, memoryBase, h]

lemma kinds_output {l : Layout} {n : Nat} (h : n < l.outputs) :
    l.kinds[l.outputBase + n]? = some (.output n) := by
  have hlen : (l.registerNames.map Kind.register ++ (List.range l.memorySize).map Kind.memory ++
      (List.range l.inputs).map Kind.input).length = l.outputBase := by
    simp [outputBase, inputBase, memoryBase]
    omega
  rw [kinds, List.getElem?_append_right (by omega), hlen, Nat.add_sub_cancel_left]
  simp [h]

end Layout

namespace Store

variable {s t u : Store} {id : OperandId}

def kinds (s : Store) : List Kind := s.operands.toList.map Operand.kind

/-- A register other than the program counter, or a memory cell. -/
def IsStorage (s : Store) (id : OperandId) : Prop :=
  id ≠ pc ∧ id < s.operands.size ∧ (s.operand id).kind.isStorage = true

instance (s : Store) (id : OperandId) : Decidable (s.IsStorage id) :=
  inferInstanceAs (Decidable (_ ∧ _ ∧ _))

def IsOutput (s : Store) (id : OperandId) : Prop := ∃ c, (s.operand id).kind = .output c

instance (s : Store) (id : OperandId) : Decidable (s.IsOutput id) :=
  match h : (s.operand id).kind with
  | .output c => .isTrue ⟨c, h⟩
  | .register _ | .constant _ | .memory _ | .input _ => .isFalse (by simp [IsOutput, h])

lemma IsStorage.not_input (h : s.IsStorage id) : ¬ s.IsInput id := by
  rintro ⟨c, hc⟩
  have hst := h.2.2
  rw [hc] at hst
  cases hst

lemma IsStorage.not_output (h : s.IsStorage id) : ¬ s.IsOutput id := by
  rintro ⟨c, hc⟩
  have hst := h.2.2
  rw [hc] at hst
  cases hst

lemma isStorage_of_writable (hpc : id ≠ pc) (hlt : id < s.operands.size)
    (hw : (s.operand id).isWritable = true) (hout : ¬ s.IsOutput id) : s.IsStorage id := by
  refine ⟨hpc, hlt, ?_⟩
  unfold Operand.isWritable at hw
  cases hk : (s.operand id).kind with
  | register | memory => rfl
  | constant | input => rw [hk] at hw; cases hw
  | output c => exact absurd ⟨c, hk⟩ hout

def Unbound (s : Store) : Prop := ∀ id, (s.operand id).node = none

/-- The operands are of the kinds of the layout, with constants behind them, and no two registers
have one name. -/
structure Laid (s : Store) : Prop where
  kinds : ∃ vs : List Value, s.kinds = s.layout.kinds ++ vs.map Kind.constant
  names : s.layout.registerNames.Nodup

lemma kinds_getElem? (h : id < s.operands.size) : s.kinds[id]? = some (s.operand id).kind := by
  simp [Store.kinds, operand, Array.getD_eq_getD_getElem?, h]

lemma kinds_congr (hsize : t.operands.size = s.operands.size)
    (hkind : ∀ id, (t.operand id).kind = (s.operand id).kind) : t.kinds = s.kinds := by
  apply List.ext_getElem?
  intro id
  rcases Nat.lt_or_ge id s.operands.size with hlt | hge
  · rw [kinds_getElem? hlt, kinds_getElem? (hsize ▸ hlt), hkind]
  · rw [List.getElem?_eq_none (by simpa [kinds, hsize] using hge),
      List.getElem?_eq_none (by simpa [kinds] using hge)]

lemma Laid.congr (h : s.Laid) (hlayout : t.layout = s.layout)
    (hsize : t.operands.size = s.operands.size)
    (hkind : ∀ id, (t.operand id).kind = (s.operand id).kind) : t.Laid where
  kinds := by rw [kinds_congr hsize hkind, hlayout]; exact h.kinds
  names := by rw [hlayout]; exact h.names

lemma Laid.steady (h : s.Laid) (hs : s.Steady t) : t.Laid :=
  h.congr hs.layout hs.size hs.kind

namespace Laid

lemma kind_eq (h : s.Laid) {k : Kind} (hk : s.layout.kinds[id]? = some k) :
    id < s.operands.size ∧ (s.operand id).kind = k := by
  obtain ⟨vs, hvs⟩ := h.kinds
  have hlen : id < s.layout.kinds.length := (List.getElem?_eq_some_iff.1 hk).1
  have hks : s.kinds[id]? = some k := by rw [hvs, List.getElem?_append_left hlen, hk]
  have hlt : id < s.operands.size := by
    simpa [Store.kinds] using (List.getElem?_eq_some_iff.1 hks).1
  rw [kinds_getElem? hlt] at hks
  exact ⟨hlt, Option.some.inj hks⟩

/-- An operand is listed in the layout, or it is a constant. -/
lemma mem_kinds (h : s.Laid) (hid : id < s.operands.size)
    (hc : (s.operand id).kind.isConstant = false) :
    s.layout.kinds[id]? = some (s.operand id).kind := by
  obtain ⟨vs, hvs⟩ := h.kinds
  have hks := kinds_getElem? hid
  rw [hvs] at hks
  rcases Nat.lt_or_ge id s.layout.kinds.length with hlt | hge
  · rwa [List.getElem?_append_left hlt] at hks
  · rw [List.getElem?_append_right hge, List.getElem?_map] at hks
    obtain ⟨v, -, hv⟩ := Option.map_eq_some_iff.1 hks
    rw [← hv] at hc
    cases hc

lemma kind_pc (h : s.Laid) : 0 < s.operands.size ∧ (s.operand pc).kind = .register pcName :=
  h.kind_eq s.layout.kinds_pc

lemma pc_not_input (h : s.Laid) : ¬ s.IsInput pc := by
  rintro ⟨c, hc⟩
  rw [h.kind_pc.2] at hc
  cases hc

lemma write_pc (h : s.Laid) (v : Value) : s.write pc v = .ok (s.setPc v) := by
  simp only [write, h.kind_pc.2, setPc]

lemma kind_memoryCell (h : s.Laid) {address : Value} (hid : s.memoryCell address = .ok id) :
    s.IsStorage id ∧ (s.operand id).kind = .memory address.toInt.toNat := by
  unfold memoryCell at hid
  split at hid
  · next hr =>
    cases hid
    have hlt : address.toInt.toNat < s.layout.memorySize := by omega
    obtain ⟨hsize, hkind⟩ := h.kind_eq (Layout.kinds_memory hlt)
    refine ⟨⟨Nat.ne_of_gt ?_, hsize, by rw [hkind]; rfl⟩, hkind⟩
    exact Nat.lt_of_lt_of_le (Nat.succ_pos s.layout.registers.length) (Nat.le_add_right _ _)
  · cases hid

end Laid

/-! ### Interning -/

/-- The second store is the first with constants interned. -/
structure Interned (s t : Store) : Prop where
  rest : t = { s with operands := t.operands }
  operands : ∃ vs : List Value, t.operands.toList = s.operands.toList ++ vs.map Operand.ofConstant

namespace Interned

lemma refl (s : Store) : s.Interned s := ⟨rfl, [], by simp⟩

lemma trans (h : s.Interned t) (h' : t.Interned u) : s.Interned u := by
  obtain ⟨vs, hvs⟩ := h.operands
  obtain ⟨ws, hws⟩ := h'.operands
  refine ⟨?_, vs ++ ws, by rw [hws, hvs, List.map_append, List.append_assoc]⟩
  rw [h'.rest, h.rest]

lemma layout (h : s.Interned t) : t.layout = s.layout := by rw [h.rest]

lemma size_le (h : s.Interned t) : s.operands.size ≤ t.operands.size := by
  obtain ⟨vs, hvs⟩ := h.operands
  have hlen := congrArg List.length hvs
  simp only [Array.length_toList, List.length_append] at hlen
  omega

/-- Interning moves no operand. -/
lemma operand_eq (h : s.Interned t) (hid : id < s.operands.size) : t.operand id = s.operand id := by
  obtain ⟨vs, hvs⟩ := h.operands
  have hget : ∀ u : Store, u.operand id = (u.operands.toList[id]?).getD default := fun u => by
    simp [operand, Array.getD_eq_getD_getElem?]
  rw [hget, hget, hvs, List.getElem?_append_left (by simpa using hid)]

lemma source (h : s.Interned t) : t.source = s.source := by rw [h.rest]

lemma laid (h : s.Interned t) (hs : s.Laid) : t.Laid where
  kinds := by
    obtain ⟨vs, hvs⟩ := h.operands
    obtain ⟨ws, hws⟩ := hs.kinds
    refine ⟨ws ++ vs, ?_⟩
    have hmap : vs.map (Operand.kind ∘ Operand.ofConstant) = vs.map Kind.constant := rfl
    rw [Store.kinds, hvs, List.map_append, ← Store.kinds, hws, List.map_map, hmap, h.layout,
      List.map_append, List.append_assoc]
  names := by rw [h.layout]; exact hs.names

lemma node_eq (h : s.Interned t) (id : OperandId) :
    (t.operand id).node = (s.operand id).node := by
  rcases Nat.lt_or_ge id s.operands.size with hlt | hge
  · rw [h.operand_eq hlt]
  · obtain ⟨vs, hvs⟩ := h.operands
    have hget : t.operand id = (t.operands.toList[id]?).getD default := by
      simp [operand, Array.getD_eq_getD_getElem?]
    rw [operand_of_size_le hge, hget, hvs, List.getElem?_append_right hge, List.getElem?_map]
    cases vs[id - s.operands.toList.length]? with
    | none => rfl
    | some v => rfl

lemma unbound (h : s.Interned t) (hs : s.Unbound) : t.Unbound :=
  fun id => (h.node_eq id).trans (hs id)

end Interned

lemma intern_interned (s : Store) (v : Value) : s.Interned (s.intern v).2 := by
  unfold intern
  split
  · exact .refl s
  · exact ⟨rfl, [v], by simp [Operand.ofConstant]⟩

end Store

/-! ### Building -/

namespace Config

variable {c : Config} {s : Store}

lemma nodup_of_checkRegisters {seen names : List String}
    (h : checkRegisters seen names = .ok ()) (hseen : seen.Nodup) (hpc : pcName ∉ seen) :
    (names.reverse ++ seen).Nodup ∧ pcName ∉ names.reverse ++ seen := by
  induction names generalizing seen with
  | nil => exact ⟨hseen, hpc⟩
  | cons name rest ih =>
    unfold checkRegisters at h
    split at h
    · cases h
    · next hname =>
      split at h
      · cases h
      · next hmem =>
        have := ih h (List.nodup_cons.2 ⟨hmem, hseen⟩)
          (by simpa [not_or] using ⟨fun h' => hname h'.symm, hpc⟩)
        simpa [List.append_assoc] using this

lemma laid_of_build (h : c.build = .ok s) : s.Laid ∧ s.Unbound := by
  unfold build at h
  split at h
  · cases h
  · cases hc : checkRegisters [] c.registers with
    | error e => rw [hc] at h; cases h
    | ok u =>
      rw [hc] at h
      cases h
      refine ⟨⟨⟨[], ?_⟩, ?_⟩, ?_⟩
      · simp only [Store.kinds, initialOperands, Layout.kinds, List.map_append, List.map_map,
          List.map_nil, List.append_nil]
        rfl
      · obtain ⟨hnodup, hpc⟩ := nodup_of_checkRegisters hc List.nodup_nil (by simp)
        simp only [List.append_nil, List.nodup_reverse, List.mem_reverse] at hnodup hpc
        exact List.nodup_cons.2 ⟨hpc, hnodup⟩
      · intro id
        have hnone : ∀ o ∈ c.initialOperands, o.node = none := by
          simp only [initialOperands, List.mem_append, List.mem_map]
          rintro o (((⟨_, -, rfl⟩ | ⟨_, -, rfl⟩) | ⟨_, -, rfl⟩) | ⟨_, -, rfl⟩) <;> rfl
        simp only [Store.operand, Array.getD_eq_getD_getElem?, List.getElem?_toArray]
        cases ho : c.initialOperands[id]? with
        | none => rfl
        | some o => exact hnone o (List.mem_of_getElem? ho)

end Config

end Lineage
