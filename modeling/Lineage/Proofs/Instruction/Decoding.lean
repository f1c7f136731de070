import Lineage.Proofs.Instruction.Binding
import Lineage.Proofs.Instruction.Effect
import Lineage.Proofs.Listing
import Lineage.Proofs.Step

/-!
What decoding makes sure of.

The instructions of a decoded program have operands in exactly the slots that their operation codes
use. The operands are there, a destination that is written can be written, and a register that is
named has an identifier for a name. So everything that a machine can get at is there.
-/

namespace Lineage

variable {s t u : Store} {i : Instruction} {id : OperandId} {line : Nat}
  {labels : String → Option Nat}

/-! ### Finding operands -/

namespace Store

lemma Laid.register_ok (h : s.Laid) {name : String} (hid : s.register name = .ok id) :
    id < s.operands.size ∧ (s.operand id).kind = .register name := by
  unfold register at hid
  split at hid
  · next j hj =>
    cases hid
    obtain ⟨hlt, hname, -⟩ := List.idxOf?_eq_some_iff.1 hj
    exact h.kind_eq (Layout.kinds_register (List.getElem?_eq_some_iff.2 ⟨hlt, hname⟩))
  · cases hid

lemma Laid.input_ok (h : s.Laid) {c : Nat} (hid : s.input c = .ok id) :
    id < s.operands.size ∧ (s.operand id).kind = .input c := by
  unfold input at hid
  split at hid
  · next hc =>
    cases hid
    exact h.kind_eq (Layout.kinds_input hc)
  · cases hid

lemma Laid.output_ok (h : s.Laid) {c : Nat} (hid : s.output c = .ok id) :
    id < s.operands.size ∧ (s.operand id).kind = .output c := by
  unfold output at hid
  split at hid
  · next hc =>
    cases hid
    exact h.kind_eq (Layout.kinds_output hc)
  · cases hid

lemma intern_ok (s : Store) (v : Value) : (s.intern v).1 < (s.intern v).2.operands.size ∧
    ((s.intern v).2.operand (s.intern v).1).kind = .constant v := by
  unfold intern
  split
  · next j hj =>
    obtain ⟨hlt, hkind, -⟩ := Array.findIdx?_eq_some_iff_getElem.1 hj
    refine ⟨hlt, ?_⟩
    simpa [operand, Array.getD_eq_getD_getElem?, hlt] using hkind
  · exact ⟨by simp, by simp [operand, Array.getD_eq_getD_getElem?]⟩

end Store

/-! ### Instructions -/

/-- The instruction has what it takes to be executed on the store: all operands that its operation
code uses, and no others. -/
structure Instruction.Complete (i : Instruction) (s : Store) : Prop where
  filled : ∀ slot, (i.id? slot).isSome = i.opcode.uses slot
  inRange : ∀ slot, ∀ id ∈ i.id? slot, id < s.operands.size
  writable : i.opcode.writesDst = true → ∀ id ∈ i.id? .dst, (s.operand id).isWritable = true
  named : ∀ slot, ∀ id ∈ i.id? slot, ∀ name, (s.operand id).kind = .register name →
    isIdentifier name.toList = true

namespace Instruction.Complete

lemma unknown (s : Store) : Instruction.unknown.Complete s where
  filled slot := by rw [id?_unknown]; rfl
  inRange slot id hid := by rw [id?_unknown] at hid; cases hid
  writable hw := by cases hw
  named slot id hid := by rw [id?_unknown] at hid; cases hid

lemma interned (h : i.Complete s) (hi : s.Interned t) : i.Complete t where
  filled := h.filled
  inRange slot id hid := Nat.lt_of_lt_of_le (h.inRange slot id hid) hi.size_le
  writable hw id hid := by
    rw [hi.operand_eq (h.inRange .dst id hid)]
    exact h.writable hw id hid
  named slot id hid := by
    rw [hi.operand_eq (h.inRange slot id hid)]
    exact h.named slot id hid

/-- What the operands hold does not matter. -/
lemma congr (h : i.Complete s) (hsize : t.operands.size = s.operands.size)
    (hkind : ∀ id, (t.operand id).kind = (s.operand id).kind) : i.Complete t where
  filled := h.filled
  inRange slot id hid := by
    rw [hsize]
    exact h.inRange slot id hid
  writable hw id hid := by
    rw [Operand.isWritable, hkind]
    exact h.writable hw id hid
  named slot id hid := by
    rw [hkind]
    exact h.named slot id hid

lemma exists_id (h : i.Complete s) (slot : Slot) (hu : i.opcode.uses slot = true) :
    ∃ id, i.id? slot = some id := Option.isSome_iff_exists.1 ((h.filled slot).trans hu)

end Instruction.Complete

/-- The operands that an instruction can get at. -/
def Instruction.Reaches (i : Instruction) (s : Store) (id : OperandId) : Prop :=
  (∃ slot, i.id? slot = some id) ∨ id = Store.pc ∨ ∃ address, s.memoryCell address = .ok id

lemma Instruction.Complete.reaches_lt (h : i.Complete s) (hl : s.Laid) (hid : i.Reaches s id) :
    id < s.operands.size := by
  rcases hid with ⟨slot, hslot⟩ | rfl | ⟨address, hcell⟩
  · exact h.inRange slot id hslot
  · exact hl.kind_pc.1
  · exact (hl.kind_memoryCell hcell).1.2.1

/-! ### Decoding -/

namespace Binding

/-- A reference stands for a token: its operand is there, and a register only if that is named. -/
def Stands (s : Store) (tok : Token) (id : OperandId) : Prop :=
  id < s.operands.size ∧ ∀ name, (s.operand id).kind = .register name → tok = .register name

lemma Stands.interned {tok : Token} (h : Stands s tok id) (hi : s.Interned t) :
    Stands t tok id := by
  obtain ⟨hlt, hname⟩ := h
  refine ⟨Nat.lt_of_lt_of_le hlt hi.size_le, ?_⟩
  rwa [hi.operand_eq hlt]

lemma lookup_ok {find : Store → Except AccessError OperandId}
    (h : lookup line find s = .ok id t) : find s = .ok id ∧ t = s := by
  obtain ⟨s', u, hget, h⟩ := bind_ok h
  cases hget
  cases hf : find s with
  | ok j =>
    rw [hf] at h
    cases h
    exact ⟨rfl, rfl⟩
  | error e =>
    rw [hf] at h
    cases h

lemma lookup_eq_ok {find : Store → Except AccessError OperandId} (h : find s = .ok id) :
    lookup line find s = .ok id s := by
  have hget : ∀ f : Store → Binding OperandId, (get >>= f) s = f s s := fun _ => rfl
  rw [lookup, hget, h]
  rfl

/-- A token stands for operands of this kind. -/
def Denotes : Token → Kind → Prop
  | .constant v, k => k = .constant v
  | .memory _, k => ∃ n < UInt64.size, k = .memory n
  | .input c, k => k = .input c
  | .output c, k => k = .output c
  | .register name, k => k = .register name
  | .label _, k => ∃ v, k = .constant v

lemma intern_kind {v : Value} (h : intern v s = .ok id t) :
    id < t.operands.size ∧ (t.operand id).kind = .constant v := by
  have hintern : intern v s = .ok (s.intern v).1 (s.intern v).2 := rfl
  rw [hintern, EStateM.Result.ok.injEq] at h
  obtain ⟨rfl, rfl⟩ := h
  exact s.intern_ok v

lemma denotes_resolve (hl : s.Laid) {tok : Token} (h : resolve labels line tok s = .ok id t) :
    id < t.operands.size ∧ Denotes tok (t.operand id).kind := by
  cases tok with
  | constant v => exact intern_kind h
  | memory a =>
    obtain ⟨hid, rfl⟩ := lookup_ok h
    obtain ⟨hst, hmem⟩ := hl.kind_memoryCell hid
    have hlt := (clamp a).toInt_lt
    have hsize : UInt64.size = 18446744073709551616 := rfl
    exact ⟨hst.2.1, _, by omega, hmem⟩
  | input c =>
    obtain ⟨hid, rfl⟩ := lookup_ok h
    exact hl.input_ok hid
  | output c =>
    obtain ⟨hid, rfl⟩ := lookup_ok h
    exact hl.output_ok hid
  | register name =>
    obtain ⟨hid, rfl⟩ := lookup_ok h
    exact hl.register_ok hid
  | label name =>
    simp only [resolve] at h
    cases hlabel : labels name with
    | some position =>
      rw [hlabel] at h
      obtain ⟨hlt, hkind⟩ := intern_kind h
      exact ⟨hlt, _, hkind⟩
    | none =>
      rw [hlabel] at h
      cases h

lemma stands_resolve (hl : s.Laid) {tok : Token} (h : resolve labels line tok s = .ok id t) :
    Stands t tok id := by
  obtain ⟨hlt, hkind⟩ := denotes_resolve hl h
  refine ⟨hlt, fun name hname => ?_⟩
  rw [hname] at hkind
  cases tok with
  | register => cases hkind; rfl
  | constant | input | output => cases hkind
  | memory | label =>
    obtain ⟨_, hkind⟩ := hkind
    simp at hkind

/-- A slot is filled if there is a token for it, with what that is resolved to. -/
lemma slot_ok {o : Option Token} {r : Option Ref} (h : slot labels line o s = .ok r t) :
    r.isSome = o.isSome ∧ ∀ ref ∈ r, ∃ tok ∈ o, resolve labels line tok s = .ok ref.id t := by
  cases o with
  | none =>
    cases h
    exact ⟨rfl, nofun⟩
  | some tok =>
    obtain ⟨id, u, hid, h⟩ := bind_ok h
    obtain ⟨u', v, hget, h⟩ := bind_ok h
    cases hget
    cases h
    refine ⟨rfl, fun ref href => ⟨tok, rfl, ?_⟩⟩
    cases href
    exact hid

lemma checkWritable_ok {op : Opcode} {r : Option Ref} (h : checkWritable line op r s = .ok () t) :
    t = s ∧ (op.writesDst = true → ∀ ref ∈ r, (s.operand ref.id).isWritable = true) := by
  cases r with
  | none =>
    cases h
    exact ⟨rfl, fun _ => nofun⟩
  | some ref =>
    obtain ⟨s', u, hget, h⟩ := bind_ok h
    cases hget
    split at h
    · cases h
    · next hnot =>
      cases h
      refine ⟨rfl, fun hw ref' href => ?_⟩
      cases href
      simpa [hw] using hnot

lemma slots_of_statement {st : Statement} (h : statement labels st s = .ok i t) :
    ∀ sl, ∃ u v, s.Interned u ∧
      slot labels st.line (st.operands.get sl) u = .ok (i.ref? sl) v ∧ v.Interned t := by
  obtain ⟨a, u₁, ha, h⟩ := bind_ok h
  obtain ⟨b, u₂, hb, h⟩ := bind_ok h
  obtain ⟨dst, u₃, hdst, h⟩ := bind_ok h
  obtain ⟨⟨⟩, u₄, hcheck, h⟩ := bind_ok h
  cases h
  have h₁ := (keeps_slot .interned labels st.line st.operands.a).ok ha
  have h₂ := (keeps_slot .interned labels st.line st.operands.b).ok hb
  have h₃ := (keeps_slot .interned labels st.line st.operands.dst).ok hdst
  have h₄ := (keeps_checkWritable .interned st.line st.opcode dst).ok hcheck
  intro sl
  cases sl with
  | a => exact ⟨s, u₁, .refl s, ha, (h₂.trans h₃).trans h₄⟩
  | b => exact ⟨u₁, u₂, h₁, hb, h₃.trans h₄⟩
  | dst => exact ⟨u₂, u₃, h₁.trans h₂, hdst, h₄⟩

lemma resolved_of_statement {st : Statement} (h : statement labels st s = .ok i t) :
    ∀ slot, ∀ id ∈ i.id? slot, ∃ tok ∈ st.operands.get slot, ∃ u v,
      s.Interned u ∧ resolve labels st.line tok u = .ok id v ∧ v.Interned t := by
  intro slot id hid
  obtain ⟨ref, hmem, rfl⟩ := Option.map_eq_some_iff.1 hid
  obtain ⟨u, v, hu, hslot, hv⟩ := slots_of_statement h slot
  obtain ⟨tok, htok, hr⟩ := (slot_ok hslot).2 ref hmem
  exact ⟨tok, htok, u, v, hu, hr, hv⟩

/-- The slots are filled that there are tokens for, and what is written can be. -/
lemma filled_of_statement {st : Statement} (h : statement labels st s = .ok i t) :
    i.opcode = st.opcode ∧ (∀ slot, (i.id? slot).isSome = (st.operands.get slot).isSome) ∧
      (i.opcode.writesDst = true → ∀ id ∈ i.id? .dst, (t.operand id).isWritable = true) := by
  have hslots := slots_of_statement h
  obtain ⟨a, u₁, -, h⟩ := bind_ok h
  obtain ⟨b, u₂, -, h⟩ := bind_ok h
  obtain ⟨dst, u₃, -, h⟩ := bind_ok h
  obtain ⟨⟨⟩, u₄, hcheck, h⟩ := bind_ok h
  cases h
  refine ⟨rfl, fun slot => ?_, fun hw id hid => ?_⟩
  · obtain ⟨_, _, -, hslot, -⟩ := hslots slot
    rw [Instruction.id?, Option.isSome_map]
    exact (slot_ok hslot).1
  · obtain ⟨ref, hmem, rfl⟩ := Option.map_eq_some_iff.1 hid
    obtain ⟨rfl, hwritable⟩ := checkWritable_ok hcheck
    exact hwritable hw ref hmem

/-- A statement whose slots are filled as its operation code wants them becomes an instruction that
has what it takes. -/
lemma complete_statement (hl : s.Laid) {st : Statement} (hst : st.WellFormed)
    (h : statement labels st s = .ok i t) : i.Complete t := by
  obtain ⟨hop, hsome, hwritable⟩ := filled_of_statement h
  have hstands : ∀ slot, ∀ id ∈ i.id? slot, ∃ tok ∈ st.operands.get slot, Stands t tok id := by
    intro slot id hid
    obtain ⟨tok, htok, u, v, hu, hr, hv⟩ := resolved_of_statement h slot id hid
    exact ⟨tok, htok, (stands_resolve (hu.laid hl) hr).interned hv⟩
  refine ⟨fun slot => ?_, fun slot id hid => ?_, hwritable, fun slot id hid name hk => ?_⟩
  · rw [hsome, hop, hst.filled]
  · obtain ⟨tok, -, hs⟩ := hstands slot id hid
    exact hs.1
  · obtain ⟨tok, htok, hs⟩ := hstands slot id hid
    have hwritten := hst.written slot tok htok
    rw [hs.2 name hk] at hwritten
    exact hwritten.isIdentifier

lemma statements_of_mapM {sts : List Statement} {is : List Instruction}
    (h : sts.mapM (statement labels) s = .ok is t) :
    ∀ i ∈ is, ∃ st ∈ sts, ∃ u v, s.Interned u ∧ statement labels st u = .ok i v ∧
      v.Interned t := by
  induction sts generalizing s is with
  | nil =>
    rw [List.mapM_nil] at h
    cases h
    exact nofun
  | cons st sts ih =>
    rw [List.mapM_cons] at h
    obtain ⟨i, u, hi, h⟩ := bind_ok h
    obtain ⟨is', v, his, h⟩ := bind_ok h
    cases h
    have hstep := (keeps_statement .interned labels st).ok hi
    have hrest : u.Interned t :=
      (keeps_mapM .refl Store.Interning.interned.trans
        (keeps_statement .interned labels) sts).ok his
    intro j hj
    rcases List.mem_cons.1 hj with rfl | hj
    · exact ⟨st, List.mem_cons_self, s, u, .refl s, hi, hrest⟩
    · obtain ⟨st', hst', u', v', hu', hj', hv'⟩ := ih his j hj
      exact ⟨st', List.mem_cons_of_mem _ hst', u', v', hstep.trans hu', hj', hv'⟩

end Binding

/-- Each instruction of a decoded program comes from a statement with tokens that can be written. -/
lemma statements_of_decode {program : String} {is : List Instruction}
    (h : decode program s = .ok is t) : ∃ labels, ∀ i ∈ is, ∃ st : Statement, st.WellFormed ∧
      ∃ u v, s.Interned u ∧ Binding.statement labels st u = .ok i v ∧ v.Interned t := by
  unfold decode at h
  cases hparse : Listing.parse program with
  | ok l =>
    rw [hparse] at h
    refine ⟨l.label?, fun i hi => ?_⟩
    obtain ⟨st, hst, hu⟩ := Binding.statements_of_mapM h i hi
    exact ⟨st, Listing.wellFormed_of_parse hparse st hst, hu⟩
  | error e =>
    rw [hparse] at h
    cases h

/-- Every instruction of a decoded program has what it takes to be executed. -/
lemma complete_of_decode {program : String} {is : List Instruction} (hl : s.Laid)
    (h : decode program s = .ok is t) : ∀ i ∈ is, i.Complete t := by
  obtain ⟨labels, hlabels⟩ := statements_of_decode h
  intro i hi
  obtain ⟨st, hst, u, v, hu, hstatement, hv⟩ := hlabels i hi
  exact (Binding.complete_statement (hu.laid hl) hst hstatement).interned hv

/-! ### Machines -/

namespace Machine

variable {ω : Type} {m : Machine ω} {o : ω}

/-- The instructions have what it takes to be executed. -/
structure Decoded (m : Machine ω) : Prop where
  laid : m.store.Laid
  complete : ∀ i ∈ m.program, i.Complete m.store

lemma Decoded.next (h : m.Decoded) : m.next.Complete m.store := by
  rcases m.next_mem with hmem | heq
  · exact h.complete _ hmem
  · rw [heq]
    exact .unknown _

lemma decode_of_loadText {program : String}
    (h : loadText { store := s, observer := o } program = (.ok (), m)) :
    decode program s = .ok m.program m.store ∧ m.observer = o := by
  unfold loadText at h
  cases hd : decode program s with
  | ok is t =>
    rw [hd] at h
    cases h
    exact ⟨rfl, rfl⟩
  | error e t =>
    rw [hd] at h
    cases h

lemma Decoded.loadText (h : m.Decoded) (program : String) : (m.loadText program).2.Decoded := by
  unfold Machine.loadText
  cases hd : decode program m.store with
  | ok is t =>
    have hi : m.store.Interned t := (keeps_decode .interned program).ok hd
    exact ⟨hi.laid h.laid, complete_of_decode h.laid hd⟩
  | error e t =>
    have hi : m.store.Interned t := (keeps_decode .interned program).error hd
    exact ⟨hi.laid h.laid, fun i hmem => (h.complete i hmem).interned hi⟩

lemma decoded_of_loadText {program : String} (hl : s.Laid)
    (h : loadText { store := s, observer := o } program = (.ok (), m)) : m.Decoded := by
  have hstart : ({ store := s, observer := o } : Machine ω).Decoded := ⟨hl, nofun⟩
  have hloaded := hstart.loadText program
  rwa [h] at hloaded

end Machine

end Lineage
