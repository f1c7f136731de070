import Lineage.Proofs.Instruction.Naming
import Lineage.Proofs.Listing.Append
import Lineage.Proofs.Text.Blank
import Lineage.Proofs.Usage

/-!
Instructions as programs.

An instruction of a decoded program is shown with the names of its operands, and those are read as
the operands that they name. So what is shown, one instruction a line, is a program again, and it is
decoded to the instructions that are shown.
-/

namespace Lineage

open Text

variable {s t : Store} {i : Instruction} {is : List Instruction} {id : OperandId} {line : Nat}
  {k : Kind} {c : Char} {labels : String → Option Nat}

/-! ### Characters -/

lemma isAlphanum_iff : c.isAlphanum = true ↔
    ((65 ≤ c.toNat ∧ c.toNat ≤ 90) ∨ (97 ≤ c.toNat ∧ c.toNat ≤ 122)) ∨
      (48 ≤ c.toNat ∧ c.toNat ≤ 57) := by
  have hranges : c.isAlphanum = ((decide (65 ≤ c.val ∧ c.val ≤ 90) ||
      decide (97 ≤ c.val) && decide (c.val ≤ 122)) ||
      decide (48 ≤ c.val) && decide (c.val ≤ 57)) := rfl
  simp only [hranges, Bool.or_eq_true, Bool.and_eq_true, decide_eq_true_eq, UInt32.le_iff_toNat_le]
  rfl

lemma isNameChar_ne (h : isNameChar c = true) :
    isBlank c = false ∧ c ≠ ',' ∧ c ≠ '#' ∧ c ≠ ':' ∧ c ≠ '\n' := by
  simp only [isNameChar, Bool.or_eq_true, decide_eq_true_eq] at h
  rcases h with h | h
  · rw [isAlphanum_iff] at h
    refine ⟨?_, ?_, ?_, ?_, ?_⟩
    · simp only [isBlank, Bool.or_eq_false_iff, Bool.and_eq_false_iff, beq_eq_false_iff_ne,
        decide_eq_false_iff_not]
      omega
    all_goals
      rintro rfl
      revert h
      decide
  · simp only [List.mem_cons, List.not_mem_nil, or_false] at h
    rcases h with rfl | rfl | rfl | rfl | rfl | rfl | rfl <;> decide

/-! ### Lines -/

lemma Opcode.isAlphanum_mnemonic (op : Opcode) :
    ∀ c ∈ op.mnemonic.toList, c.isAlphanum = true := by
  have hall : op.mnemonic.toList.all Char.isAlphanum = true := by
    cases op with
    | binary op => cases op <;> decide
    | _ => decide
  exact List.all_eq_true.1 hall

namespace Instruction

/-- The operands are shown as words. -/
def Worded (i : Instruction) : Prop :=
  ∀ slot, ∀ r ∈ i.ref? slot, r.name.toList ≠ [] ∧ ∀ c ∈ r.name.toList, isNameChar c = true

def lastField : Option Ref → List Char
  | none => []
  | some r => ' ' :: r.name.toList

def fieldsText (i : Instruction) : List Char :=
  ' ' :: slotText (i.ref? .a) ++ ',' :: (' ' :: slotText (i.ref? .b) ++
    ',' :: lastField (i.ref? .dst))

lemma toList_text (h : i.Worded) :
    i.text.toList = i.opcode.mnemonic.toList ++ i.fieldsText := by
  have htext : i.text.toList = trimEnd ((i.opcode.mnemonic.toList ++ ' ' :: slotText (i.ref? .a) ++
      ',' :: ' ' :: slotText (i.ref? .b)) ++ (',' :: ' ' :: slotText (i.ref? .dst))) :=
    String.toList_ofList
  rw [htext, fieldsText]
  cases hdst : i.ref? .dst with
  | none =>
    have hend : ',' :: ' ' :: slotText none = [','] ++ [' '] := rfl
    rw [hend, ← List.append_assoc, trimEnd_concat_blank (by decide), trimEnd_concat (by decide)]
    simp [lastField]
  | some r =>
    obtain ⟨hne, hchars⟩ := h .dst r hdst
    have hend : ',' :: ' ' :: slotText (some r) = [',', ' '] ++ r.name.toList := rfl
    rw [hend, ← List.append_assoc, trimEnd_append hne fun c hc => (isNameChar_ne (hchars c hc)).1]
    simp [lastField]

lemma isNameChar_slotText (h : i.Worded) (slot : Slot) :
    ∀ c ∈ slotText (i.ref? slot), isNameChar c = true := by
  cases hr : i.ref? slot with
  | none => exact nofun
  | some r => exact (h slot r hr).2

structure Shows (i : Instruction) (slot : Slot) (field : List Char) : Prop where
  trimmed : trim field = slotText (i.ref? slot)
  chars : ∀ c ∈ field, c = ' ' ∨ isNameChar c = true

lemma shows_slotText (h : i.Worded) (slot : Slot) :
    i.Shows slot (' ' :: slotText (i.ref? slot)) where
  trimmed := by
    rw [trim_cons_blank (by decide)]
    exact trim_of_forall fun c hc => (isNameChar_ne (isNameChar_slotText h slot c hc)).1
  chars c hc := (List.mem_cons.1 hc).imp_right (isNameChar_slotText h slot c)

lemma shows_lastField (h : i.Worded) (slot : Slot) : i.Shows slot (lastField (i.ref? slot)) := by
  have hslot := shows_slotText h slot
  cases hr : i.ref? slot with
  | none => exact ⟨by rw [hr]; rfl, nofun⟩
  | some r => rwa [hr] at hslot

namespace Shows

variable {slot : Slot} {field : List Char}

lemma comma_not_mem (h : i.Shows slot field) : ',' ∉ field := by
  intro hmem
  rcases h.chars _ hmem with heq | hname
  · cases heq
  · exact (isNameChar_ne hname).2.1 rfl

/-- The field has in it what the name of the operand is read as. -/
lemma fieldOf (h : i.Shows slot field) {tok : Ref → Token}
    (hread : ∀ r ∈ i.ref? slot, Token.ofChars? r.name.toList = some (tok r)) :
    Statement.FieldOf field ((i.ref? slot).map tok) := by
  have htrimmed := h.trimmed
  cases hr : i.ref? slot with
  | none =>
    rw [hr] at htrimmed
    exact htrimmed
  | some r =>
    rw [hr] at htrimmed
    show Token.ofChars? (trim field) = some (tok r)
    rw [htrimmed]
    exact hread r hr

end Shows

/-- The characters of an instruction that is shown. -/
lemma mem_text (h : i.Worded) (hc : c ∈ i.text.toList) :
    isNameChar c = true ∨ c = ' ' ∨ c = ',' := by
  rw [toList_text h, fieldsText] at hc
  simp only [List.mem_append, List.mem_cons (a := c) (b := ',')] at hc
  rcases hc with hc | hc | rfl | hc | rfl | hc
  · exact .inl (by simp [isNameChar, i.opcode.isAlphanum_mnemonic c hc])
  · exact ((shows_slotText h .a).chars c hc).symm.imp_right .inl
  · exact .inr (.inr rfl)
  · exact ((shows_slotText h .b).chars c hc).symm.imp_right .inl
  · exact .inr (.inr rfl)
  · exact ((shows_lastField h .dst).chars c hc).symm.imp_right .inl

/-- None of them begins a comment, ends a label or ends the line. -/
lemma ne_of_mem_text (h : i.Worded) (hc : c ∈ i.text.toList) : c ≠ '#' ∧ c ≠ ':' ∧ c ≠ '\n' := by
  rcases mem_text h hc with hname | rfl | rfl
  · exact (isNameChar_ne hname).2.2
  all_goals decide

/-- The slots of an instruction with tokens in place of its operands. -/
def tokens (i : Instruction) (tok : Ref → Token) : Slots Token where
  a := (i.ref? .a).map tok
  b := (i.ref? .b).map tok
  dst := (i.ref? .dst).map tok

lemma get_tokens (i : Instruction) (tok : Ref → Token) (slot : Slot) :
    (i.tokens tok).get slot = (i.ref? slot).map tok := by
  cases slot <;> rfl

/-- What is shown for an instruction is a statement with its operation code, and with the tokens
that its operands are called by. -/
lemma spells_text (h : i.Worded) {tok : Ref → Token}
    (hread : ∀ slot, ∀ r ∈ i.ref? slot, Token.ofChars? r.name.toList = some (tok r))
    (hfilled : ∀ slot, (i.ref? slot).isSome = i.opcode.uses slot) :
    Statement.Spells i.text.toList i.opcode (i.tokens tok) := by
  have halnum := i.opcode.isAlphanum_mnemonic
  have ha := shows_slotText h .a
  have hb := shows_slotText h .b
  have hdst := shows_lastField h .dst
  -- no field has a comma in it, so they are found between the commas
  have hsplit : i.fieldsText.splitOn ',' =
      [' ' :: slotText (i.ref? .a), ' ' :: slotText (i.ref? .b), lastField (i.ref? .dst)] := by
    rw [fieldsText, List.splitOn_append_cons_self_of_not_mem ha.comma_not_mem,
      List.splitOn_append_cons_self_of_not_mem hb.comma_not_mem,
      List.splitOn_eq_singleton hdst.comma_not_mem]
  have htake : i.text.toList.takeWhile Char.isAlphanum = i.opcode.mnemonic.toList := by
    rw [toList_text h, List.takeWhile_append_of_pos halnum, fieldsText]
    exact List.append_nil _
  have hdrop : i.text.toList.dropWhile Char.isAlphanum = i.fieldsText := by
    rw [toList_text h, List.dropWhile_append_of_pos halnum, fieldsText]
    rfl
  refine ⟨?_, ?_, ⟨_, [_, _, _], ?_, .cons (ha.fieldOf (hread .a)) (.cons (hb.fieldOf (hread .b))
    (.cons (hdst.fieldOf (hread .dst)) .nil)), rfl⟩, fun slot => ?_⟩
  · rw [htake, String.ofList_toList]
    exact i.opcode.ofMnemonic?_mnemonic
  · rw [hdrop]
    rfl
  · have hne : trim i.fieldsText ≠ [] :=
      trim_ne_nil (c := ',') (by simp [fieldsText]) (by decide)
    rw [hdrop, Statement.fields?, if_neg hne, hsplit]
    rfl
  · rw [get_tokens, Option.isSome_map, hfilled]

lemma code_text (h : i.Worded) : Listing.code i.text.toList = i.text.toList := by
  have hcomment : i.text.toList.takeWhile (· ≠ '#') = i.text.toList :=
    List.takeWhile_eq_self_iff.2 fun c hc => decide_eq_true (ne_of_mem_text h hc).1
  have htrim : trimEnd i.text.toList = i.text.toList := by
    rw [text, String.toList_ofList, trimEnd_trimEnd]
  rw [Listing.code, hcomment]
  -- a line begins with its mnemonic
  cases hm : i.opcode.mnemonic.toList with
  | nil =>
    have hread := i.opcode.ofMnemonic?_mnemonic
    rw [← String.ofList_toList (s := i.opcode.mnemonic), hm] at hread
    cases hread
  | cons d ds =>
    have hd : d ∈ i.opcode.mnemonic.toList := by
      rw [hm]
      exact List.mem_cons_self
    have hblank : isBlank d = false :=
      (isNameChar_ne (by simp [isNameChar, i.opcode.isAlphanum_mnemonic d hd])).1
    rw [toList_text h, hm, List.cons_append] at htrim ⊢
    rw [trim_cons hblank, htrim]

lemma splitLabel_text (h : i.Worded) :
    Listing.splitLabel i.text.toList = (none, i.text.toList) := by
  have hlabel : i.text.toList.dropWhile (· ≠ ':') = [] :=
    List.dropWhile_eq_nil_iff.2 fun c hc => decide_eq_true (ne_of_mem_text h hc).2.1
  simp only [Listing.splitLabel, hlabel]

lemma text_ne_nil (h : i.Worded) : i.text.toList ≠ [] := by
  rw [toList_text h, fieldsText]
  simp

lemma addLine_text (h : i.Worded) {operands : Slots Token}
    (hspells : Statement.Spells i.text.toList i.opcode operands) (l : Listing) (line : Nat) :
    l.addLine line i.text.toList =
      .ok { l with statements := l.statements ++ [⟨line, i.opcode, operands⟩] } := by
  have hparse : Statement.parse line i.text.toList = .ok ⟨line, i.opcode, operands⟩ :=
    Statement.parse_ok_iff.2 ⟨rfl, hspells⟩
  have hlabel : Listing.labelOf i.text.toList = none := by
    rw [Listing.labelOf, code_text h, splitLabel_text h]
  refine Listing.addLine_ok_iff.2 ⟨by rw [hlabel]; exact nofun, ?_⟩
  have hmark : l.mark none = l := by simp [Listing.mark]
  rw [hlabel, hmark, code_text h, splitLabel_text h, Listing.addStatement, if_neg (text_ne_nil h),
    hparse, Except.map]

end Instruction

/-! ### Operands under their own names -/

namespace Binding

lemma toInt_clamp {n : Nat} (h : n ≤ Int64.maxValue.toInt) : (clamp n).toInt = n := by
  have hmax : Int64.maxValue.toInt = 9223372036854775807 := rfl
  rw [clamp, Int.min_eq_left h]
  exact Int64.toInt_ofInt_of_le (by omega) (by omega)

/-- A cell that a token is resolved to has an address that is a value. -/
lemma address_le (hl : s.Laid) {tok : Token} (h : resolve labels line tok s = .ok id t) {n : Nat}
    (hk : (t.operand id).kind = .memory n) : n ≤ Int64.maxValue.toInt := by
  cases tok with
  | memory a =>
    obtain ⟨hid, rfl⟩ := lookup_ok h
    rw [(hl.kind_memoryCell hid).2, Kind.memory.injEq] at hk
    have hle := Int64.le_iff_toInt_le.1 (clamp a).le_maxValue
    have hmax : Int64.maxValue.toInt = 9223372036854775807 := rfl
    omega
  | constant | input | output | register =>
    have hkind := (denotes_resolve hl h).2
    rw [hk] at hkind
    cases hkind
  | label =>
    obtain ⟨v, hkind⟩ := (denotes_resolve hl h).2
    rw [hk] at hkind
    cases hkind

lemma name_of_slot {o : Option Token} {r : Ref} (h : slot labels line o s = .ok (some r) t) :
    r.name = (t.operand r.id).name := by
  cases o with
  | none => cases h
  | some tok =>
    obtain ⟨id, u, hid, h⟩ := bind_ok h
    cases h
    rfl

/-- The token that an operand is called by is resolved to it, and nothing is interned. -/
lemma resolve_token (h : s.Tabled) (hid : id < s.operands.size) (labels : String → Option Nat)
    (line : Nat)
    (haddress : ∀ n : Nat, (s.operand id).kind = .memory n → n ≤ Int64.maxValue.toInt) :
    resolve labels line (s.operand id).kind.token s = .ok id s := by
  cases hk : (s.operand id).kind with
  | constant v =>
    show EStateM.Result.ok (s.intern v).1 (s.intern v).2 = _
    rw [h.intern_eq hk]
  | memory n =>
    exact lookup_eq_ok ((h.locate_eq_ok_iff (p := .memory (clamp n))).2
      ⟨hid, n, toInt_clamp (haddress n hk), hk⟩)
  | register name => exact lookup_eq_ok ((h.locate_eq_ok_iff (p := .register name)).2 ⟨hid, hk⟩)
  | input c => exact lookup_eq_ok ((h.locate_eq_ok_iff (p := .input c)).2 ⟨hid, hk⟩)
  | output c => exact lookup_eq_ok ((h.locate_eq_ok_iff (p := .output c)).2 ⟨hid, hk⟩)

end Binding

namespace Instruction

/-- The instruction shows the operands that it is bound to under their names, and they are found
under those, as a cell beyond the largest value could not be. -/
structure Called (i : Instruction) (s : Store) : Prop extends i.Complete s where
  spoken : i.Spoken s
  names : ∀ slot, ∀ r ∈ i.ref? slot, r.name = (s.operand r.id).name
  addressed : ∀ slot, ∀ id ∈ i.id? slot, ∀ n : Nat,
    (s.operand id).kind = .memory n → n ≤ Int64.maxValue.toInt

def shownAs (i : Instruction) (s : Store) (line : Nat) : Statement where
  line := line
  opcode := i.opcode
  operands := i.tokens fun r => (s.operand r.id).kind.token

@[simp] lemma line_shownAs : (i.shownAs s line).line = line := rfl

@[simp] lemma opcode_shownAs : (i.shownAs s line).opcode = i.opcode := rfl

namespace Called

lemma interned (h : i.Called s) (hi : s.Interned t) : i.Called t where
  toComplete := h.toComplete.interned hi
  spoken := h.spoken.interned hi
  names slot r hr := by
    rw [hi.operand_eq (h.inRange slot r.id (Option.mem_map_of_mem _ hr))]
    exact h.names slot r hr
  addressed slot id hid := by
    rw [hi.operand_eq (h.inRange slot id hid)]
    exact h.addressed slot id hid

lemma worded (h : i.Called s) : i.Worded := by
  intro slot r hr
  rw [h.names slot r hr]
  exact (h.spoken slot r.id (Option.mem_map_of_mem _ hr)).2.chars

lemma spells (h : i.Called s) (line : Nat) :
    Statement.Spells i.text.toList i.opcode (i.shownAs s line).operands := by
  refine spells_text h.worded (fun slot r hr => ?_) fun slot => ?_
  · rw [h.names slot r hr]
    exact (h.spoken slot r.id (Option.mem_map_of_mem _ hr)).2
  · have hfilled := h.filled slot
    rwa [id?, Option.isSome_map] at hfilled

/-- A slot of that statement is resolved to what it was shown for. -/
lemma slot_shownAs (h : i.Called s) (hs : s.Tabled) (labels : String → Option Nat) (line : Nat)
    (slot : Slot) :
    Binding.slot labels line ((i.shownAs s line).operands.get slot) s = .ok (i.ref? slot) s := by
  rw [shownAs, get_tokens]
  cases hr : i.ref? slot with
  | none => rfl
  | some r =>
    have hid : r.id ∈ i.id? slot := Option.mem_map_of_mem _ hr
    have hresolve := Binding.resolve_token hs (h.inRange slot r.id hid) labels line
      (h.addressed slot r.id hid)
    show (Binding.resolve labels line (s.operand r.id).kind.token >>= _) s = _
    simp only [bind, EStateM.bind, hresolve]
    show EStateM.Result.ok (some (Ref.mk r.id (s.operand r.id).name)) s = _
    rw [← h.names slot r hr]

lemma checkWritable (h : i.Called s) (line : Nat) :
    Binding.checkWritable line i.opcode (i.ref? .dst) s = .ok () s := by
  cases hr : i.ref? .dst with
  | none => rfl
  | some r =>
    have hnot : ¬ (i.opcode.writesDst = true ∧ (s.operand r.id).isWritable = false) := by
      rintro ⟨hw, hfalse⟩
      have htrue := h.writable hw r.id (Option.mem_map_of_mem _ hr)
      rw [hfalse] at htrue
      cases htrue
    show (if i.opcode.writesDst = true ∧ (s.operand r.id).isWritable = false then
      throw (.notWritable line i.opcode r.name) else pure () : Binding Unit) s = _
    rw [if_neg hnot]
    rfl

lemma statement_shownAs (h : i.Called s) (hs : s.Tabled) (labels : String → Option Nat)
    (line : Nat) :
    Binding.statement labels (i.shownAs s line) s = .ok i s := by
  have ha := h.slot_shownAs hs labels line .a
  have hb := h.slot_shownAs hs labels line .b
  have hdst := h.slot_shownAs hs labels line .dst
  have hcheck := h.checkWritable line
  simp only [Slots.get] at ha hb hdst
  simp only [Binding.statement, bind, EStateM.bind, line_shownAs, opcode_shownAs, ha, hb,
    hdst, hcheck]
  rfl

end Called

lemma called_of_statement {st : Statement} (hl : s.Laid) (hst : st.WellFormed)
    (h : Binding.statement labels st s = .ok i t) : i.Called t where
  toComplete := Binding.complete_statement hl hst h
  spoken := spoken_of_statement hl hst h
  names slot r hr := by
    obtain ⟨u, v, hu, hslot, hv⟩ := Binding.slots_of_statement h slot
    rw [hr] at hslot
    obtain ⟨tok, -, hresolve⟩ := (Binding.slot_ok hslot).2 r rfl
    have hlt := (Binding.denotes_resolve (hu.laid hl) hresolve).1
    rw [hv.operand_eq hlt, Binding.name_of_slot hslot]
  addressed slot id hid n hn := by
    obtain ⟨tok, htok, u, v, hu, hresolve, hv⟩ := Binding.resolved_of_statement h slot id hid
    have hlt := (Binding.denotes_resolve (hu.laid hl) hresolve).1
    rw [hv.operand_eq hlt] at hn
    exact Binding.address_le (hu.laid hl) hresolve hn

end Instruction

lemma called_of_decode {program : String} (hl : s.Laid) (h : decode program s = .ok is t) :
    ∀ i ∈ is, i.Called t := by
  obtain ⟨labels, hlabels⟩ := statements_of_decode h
  intro i hi
  obtain ⟨st, hst, u, v, hu, hstatement, hv⟩ := hlabels i hi
  exact (Instruction.called_of_statement (hu.laid hl) hst hstatement).interned hv

/-! ### Programs -/

def programText (is : List Instruction) : String := "\n".intercalate (is.map Instruction.text)

/-- The lines of the program are added as one statement for each instruction, which is bound to
that. -/
lemma addLines_text (h : ∀ i ∈ is, i.Called s) (hs : s.Tabled) (l : Listing) (line : Nat) :
    ∃ sts, l.addLines line (is.map fun i => i.text.toList) =
        .ok { l with statements := l.statements ++ sts } ∧
      ∀ labels, sts.mapM (Binding.statement labels) s = .ok is s := by
  induction is generalizing l line with
  | nil => exact ⟨[], by simp [Listing.addLines], fun _ => rfl⟩
  | cons i is ih =>
    have hi := h i List.mem_cons_self
    have hadd := Instruction.addLine_text hi.worded (hi.spells line) l line
    obtain ⟨sts, hsts, hbound⟩ := ih (fun i' hi' => h i' (List.mem_cons_of_mem i hi'))
      { l with statements := l.statements ++ [i.shownAs s line] } (line + 1)
    refine ⟨i.shownAs s line :: sts, ?_, fun labels => ?_⟩
    · rw [List.map_cons, Listing.addLines, hadd]
      rw [List.append_assoc] at hsts
      exact hsts
    · have hstatement := hi.statement_shownAs hs labels line
      rw [List.mapM_cons]
      simp only [bind, EStateM.bind, hstatement, hbound labels]
      rfl

/-- The program is read as lines that are what is shown for the instructions; without any there is
one line, with nothing in it. -/
lemma splitOn_programText (h : ∀ i ∈ is, i.Called s) (hne : is ≠ []) :
    (programText is).toList.splitOn '\n' = is.map fun i => i.text.toList := by
  have hline : ∀ cs ∈ is.map (fun i => i.text.toList), '\n' ∉ cs := by
    intro cs hcs hmem
    obtain ⟨i, hi, rfl⟩ := List.mem_map.1 hcs
    exact (Instruction.ne_of_mem_text (h i hi).worded hmem).2.2 rfl
  rw [programText, String.toList_intercalate, List.map_map]
  exact List.splitOn_intercalate '\n' hline (by simpa using hne)

lemma decode_programText (h : ∀ i ∈ is, i.Called s) (hs : s.Tabled) :
    decode (programText is) s = .ok is s := by
  by_cases hne : is = []
  · subst hne
    rfl
  · obtain ⟨sts, hsts, hbound⟩ := addLines_text h hs {} 1
    have hparse : Listing.parse (programText is) = .ok { statements := sts } := by
      rw [Listing.parse, splitOn_programText h hne, hsts]
      rfl
    rw [decode, hparse]
    exact hbound _

variable {ω : Type} [Observer ω]

/-- **What is shown for a decoded program is a program**: whatever has been done with a machine that
has been built, if a program is decoded then the instructions are shown, one a line, as a program
that is decoded to the same instructions, and this one finds all its operands in the table. -/
theorem Machine.decode_shown {c : Config} (hω : Observer.Unobtrusive ω) (hs : c.build = .ok s)
    (o : ω) (us : List Use) {program : String}
    (h : decode program (({ store := s, observer := o } : Machine ω).uses us).store = .ok is t) :
    decode (programText is) t = .ok is t := by
  have hm := (uses_kept (m := { store := s, observer := o }) hω (Config.tabled_of_build hs) us).2
  have ht := (interned_of_decode hm program).2
  rw [h] at ht
  exact decode_programText (called_of_decode hm.toLaid h) ht

/-- Labels and spellings of numbers are settled, and a register is called almost like a channel. -/
theorem Machine.decode_shown_loop :
    let c : Config := { registers := ["OUT18446744073709551616"], memorySize := 1, inputs := 1 }
    let s : Store :=
      { layout := c.toLayout, operands := c.initialOperands.toArray, source := c.source }
    let program := "loop: ADD IN0, %+07, OUT18446744073709551616\r\n\tSTR\t[00],,PC # to 0\n" ++
      "JCC %1,, :loop\nNOP"
    let start := ({ store := s, observer := {} } : Machine Tracker).uses [.constant 7]
    let m := (start.loadText program).2
    (Observer.Unobtrusive Tracker ∧ c.build = .ok s) ∧
      Lineage.decode program start.store = .ok m.program m.store ∧
      m.program.map Instruction.text = ["ADD IN0, %7, OUT18446744073709551616", "STR [0], , PC",
        "JCC %1, , %0", "NOP , ,"] ∧
      Lineage.decode (programText m.program) m.store = .ok m.program m.store := by
  intro c s program start m
  have hbuild : c.build = .ok s := rfl
  have hload : loadText { store := start.store, observer := start.observer } program =
      (.ok (), m) := Prod.ext (by decide +kernel) rfl
  obtain ⟨hdecode, -⟩ := decode_of_loadText hload
  exact ⟨⟨.tracker, hbuild⟩, hdecode, by decide +kernel,
    decode_shown .tracker hbuild ({} : Tracker) [.constant 7] hdecode⟩

end Lineage
