import Lineage.Proofs.Store.Names
import Lineage.Proofs.Store.Table

/-!
Programs call operands by their names.

The name of an operand that is named in a program is read as that operand again. So the instructions
of a decoded program never have two operands that go by one name, which the registers and cells of a
store could do otherwise.
-/

namespace Lineage

variable {s t : Store} {i : Instruction} {id j : OperandId}

lemma Kind.Spoken.chars {k : Kind} (h : k.Spoken) :
    k.name.toList ≠ [] ∧ ∀ c ∈ k.name.toList, isNameChar c = true := by
  constructor
  · intro hnil
    rw [Spoken, hnil] at h
    cases h
  · refine isNameChar_name ?_
    rintro name rfl
    exact (Token.readFrom_of_ofChars? h).2

/-- What is written for an operand in a program is a token with the name of the operand, up to the
spelling of numbers. -/
lemma Token.Written.spoken {tok : Token} {k : Kind} (h : tok.Written)
    (hk : Binding.Denotes tok k) : k.Spoken := by
  cases tok with
  | constant v =>
    cases hk
    exact Kind.spoken_constant v
  | label name =>
    obtain ⟨v, rfl⟩ := hk
    exact Kind.spoken_constant v
  | memory a =>
    obtain ⟨n, hn, rfl⟩ := hk
    exact Kind.spoken_memory hn
  | input c =>
    cases hk
    obtain ⟨cs, hcs⟩ := h
    exact Kind.spoken_input (readFrom_of_ofChars? hcs)
  | output c =>
    cases hk
    obtain ⟨cs, hcs⟩ := h
    exact Kind.spoken_output (readFrom_of_ofChars? hcs)
  | register name =>
    cases hk
    exact h.ofChars?

namespace Instruction

/-- The operands of the instruction are called by names that are read as those operands. -/
def Spoken (i : Instruction) (s : Store) : Prop :=
  ∀ slot, ∀ id ∈ i.id? slot, id < s.operands.size ∧ (s.operand id).kind.Spoken

namespace Spoken

lemma unknown (s : Store) : Instruction.unknown.Spoken s := by
  intro slot id hid
  rw [id?_unknown] at hid
  cases hid

lemma sameFrame (h : i.Spoken s) (hf : s.SameFrame t) : i.Spoken t := by
  intro slot id hid
  rw [hf.size, hf.kind]
  exact h slot id hid

lemma interned (h : i.Spoken s) (hi : s.Interned t) : i.Spoken t := by
  intro slot id hid
  obtain ⟨hlt, hspoken⟩ := h slot id hid
  rw [hi.operand_eq hlt]
  exact ⟨Nat.lt_of_lt_of_le hlt hi.size_le, hspoken⟩

/-- Two operands of an instruction are one if they go by one name, and are not constants. -/
lemma eq_of_name (h : i.Spoken s) (hl : s.Laid) {slot slot' : Slot} (hid : i.id? slot = some id)
    (hj : i.id? slot' = some j) (hc : (s.operand id).kind.isConstant = false)
    (hn : (s.operand j).name = (s.operand id).name) : j = id := by
  obtain ⟨hidlt, hspoken⟩ := h slot id hid
  obtain ⟨hjlt, hspoken'⟩ := h slot' j hj
  exact hl.eq_of_kind hidlt hjlt hc (hspoken'.eq_of_name hspoken hn)

end Spoken

end Instruction

lemma Instruction.spoken_of_statement {labels : String → Option Nat} {st : Statement}
    (hl : s.Laid) (hst : st.WellFormed) (h : Binding.statement labels st s = .ok i t) :
    i.Spoken t := by
  intro slot id hid
  obtain ⟨tok, htok, u, v, hu, hresolve, hv⟩ := Binding.resolved_of_statement h slot id hid
  obtain ⟨hlt, hdenotes⟩ := Binding.denotes_resolve (hu.laid hl) hresolve
  rw [hv.operand_eq hlt]
  exact ⟨Nat.lt_of_lt_of_le hlt hv.size_le, (hst.written slot tok htok).spoken hdenotes⟩

lemma spoken_of_decode {program : String} {is : List Instruction} (hl : s.Laid)
    (h : decode program s = .ok is t) : ∀ i ∈ is, i.Spoken t := by
  obtain ⟨labels, hlabels⟩ := statements_of_decode h
  intro i hi
  obtain ⟨st, hst, u, v, hu, hstatement, hv⟩ := hlabels i hi
  exact (Instruction.spoken_of_statement (hu.laid hl) hst hstatement).interned hv

lemma Machine.spoken_next {m : Machine Tracker} {program : String} {o : Tracker} (hl : s.Laid)
    (h : loadText { store := s, observer := o } program = (.ok (), m)) (n : Nat) :
    (m.after n).next.Spoken (m.after n).store := by
  rcases (m.after n).next_mem with hmem | heq
  · rw [m.program_after] at hmem
    exact (spoken_of_decode hl (decode_of_loadText h).1 _ hmem).sameFrame (m.sameFrame_after n)
  · rw [heq]
    exact .unknown _

end Lineage
