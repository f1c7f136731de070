import Lineage.Proofs.Spelling
import Lineage.Proofs.Store.Layout

/-!
Names that tell operands apart.

The names of registers that can be written in a program are told apart from the names of the
program counter, the memory cells and the output channels, so no operand that is written goes by
the name of a register or a cell but that register or cell. Names in programs are made of few
characters, none of which has a meaning of its own in a program or a report.
-/

namespace Lineage

open Text

/-- How an operand of the kind is written in a program. -/
def Kind.token : Kind → Token
  | .register name => .register name
  | .constant v => .constant v
  | .memory n => .memory n
  | .input c => .input c
  | .output c => .output c

/-- The name of the operand is read as that operand. -/
def Kind.Spoken (k : Kind) : Prop := Token.ofChars? k.name.toList = some k.token

section Characters

variable {c : Char}

/-- The characters of mnemonics, and of the names of operands in programs. -/
def isNameChar (c : Char) : Bool :=
  c.isAlphanum || c ∈ ['_', '$', '.', '%', '-', '[', ']']

lemma isNameChar_of_isDigit (h : c.isDigit = true) : isNameChar c = true := by
  simp [isNameChar, Char.isAlphanum, h]

lemma isNameChar_natNumeral {n : Nat} (h : c ∈ natNumeral n) : isNameChar c = true :=
  isNameChar_of_isDigit (isDigit_of_mem_natNumeral h)

lemma isNameChar_intNumeral {i : Int} (h : c ∈ intNumeral i) : isNameChar c = true := by
  rcases (intNumeral_chars i).2 c h with h | rfl
  · exact isNameChar_of_isDigit h
  · decide

lemma not_mem_intNumeral (hc : isNameChar c = false) (i : Int) : c ∉ intNumeral i := fun hmem => by
  rw [isNameChar_intNumeral hmem] at hc
  cases hc

lemma isNameChar_of_isIdentifier {cs : List Char} (h : isIdentifier cs = true) :
    ∀ c ∈ cs, isNameChar c = true := by
  cases cs with
  | nil => exact nofun
  | cons d cs =>
    simp only [isIdentifier, Bool.and_eq_true, Bool.or_eq_true, beq_iff_eq, List.all_eq_true] at h
    obtain ⟨hd, hcs⟩ := h
    intro c hc
    rcases List.mem_cons.1 hc with rfl | hc
    · rcases hd with hd | rfl
      · simp [isNameChar, Char.isAlphanum, hd]
      · decide
    · rcases hcs c hc with ((hc | rfl) | rfl) | rfl
      · simp [isNameChar, hc]
      all_goals decide

end Characters

namespace Kind

variable {n : Nat} {k k' : Kind}

lemma toList_name (k : Kind) : k.name.toList = k.token.chars := by
  cases k with
  | register name => rfl
  | constant v => simp [name, token, Value.text, Token.chars]
  | memory n | input n | output n =>
    simp [name, token, Token.chars, natNumeral]
    rfl

lemma token_injective (h : k.token = k'.token) : k = k' := by
  cases k <;> cases k' <;> cases h <;> rfl

def isRegister : Kind → Bool
  | .register _ => true
  | _ => false

/-- Only a register can have the name of another operand. -/
lemma eq_of_name (h : k.name = k'.name) (hk : k.isRegister = false) (hk' : k'.isRegister = false) :
    k = k' := by
  have hchars := congrArg String.toList h
  rw [toList_name, toList_name] at hchars
  cases k with
  | register => cases hk
  | constant v =>
    cases k' with
    | register => cases hk'
    | constant v' =>
      rw [Int64.toInt_inj.1 (intNumeral_injective (List.cons.inj hchars).2)]
    | memory | input | output => simp [token, Token.chars] at hchars
  | memory n =>
    cases k' with
    | register => cases hk'
    | memory n' =>
      exact congrArg memory (natNumeral_injective (by simpa [token, Token.chars] using hchars))
    | constant | input | output => simp [token, Token.chars] at hchars
  | input c =>
    cases k' with
    | register => cases hk'
    | input c' =>
      exact congrArg input (natNumeral_injective (by simpa [token, Token.chars] using hchars))
    | constant | memory | output => simp [token, Token.chars] at hchars
  | output c =>
    cases k' with
    | register => cases hk'
    | output c' =>
      exact congrArg output (natNumeral_injective (by simpa [token, Token.chars] using hchars))
    | constant | memory | input => simp [token, Token.chars] at hchars

lemma input_name_injective {c c' : Nat} (h : (input c).name = (input c').name) : c = c' :=
  input.inj (eq_of_name h rfl rfl)

lemma eq_of_name_pc (h : k.name = pcName) : k = .register pcName := by
  have hchars := congrArg String.toList h
  rw [toList_name] at hchars
  cases k with
  | register name => exact congrArg register h
  | constant | memory | input | output => simp [token, Token.chars, pcName] at hchars

/-- A name is made of these characters, unless it is that of a register with another one. -/
lemma isNameChar_name (h : ∀ name, k = .register name → isIdentifier name.toList = true) :
    ∀ c ∈ k.name.toList, isNameChar c = true := by
  intro c hc
  rw [toList_name] at hc
  cases k with
  | register name => exact isNameChar_of_isIdentifier (h name rfl) c hc
  | constant v =>
    rcases List.mem_cons.1 hc with rfl | hc
    · decide
    · exact isNameChar_intNumeral hc
  | memory n =>
    simp only [token, Token.chars, List.cons_append, List.mem_cons, List.mem_append,
      List.not_mem_nil, or_false] at hc
    rcases hc with rfl | hc | rfl
    · decide
    · exact isNameChar_natNumeral hc
    · decide
  | input n =>
    simp only [token, Token.chars, List.mem_cons] at hc
    rcases hc with rfl | rfl | hc
    · decide
    · decide
    · exact isNameChar_natNumeral hc
  | output n =>
    simp only [token, Token.chars, List.mem_cons] at hc
    rcases hc with rfl | rfl | rfl | hc
    · decide
    · decide
    · decide
    · exact isNameChar_natNumeral hc

lemma Spoken.eq_of_name (h : k.Spoken) (h' : k'.Spoken) (hn : k.name = k'.name) : k = k' := by
  unfold Spoken at h h'
  rw [hn, h', Option.some.injEq] at h
  exact (token_injective h).symm

lemma spoken_constant (v : Value) : (constant v).Spoken := by
  rw [Spoken, toList_name]
  exact Token.ofChars?_iff.2 (.constant (signed_intNumeral v.toInt))

lemma spoken_memory (h : n < UInt64.size) : (memory n).Spoken := by
  rw [Spoken, toList_name]
  exact Token.ofChars?_iff.2 (.memory (.plain (padded_natNumeral n)) h)

lemma spoken_input (h : n < UInt64.size) : (input n).Spoken := by
  rw [Spoken, toList_name]
  exact Token.ofChars?_iff.2 (.input (padded_natNumeral n) h)

lemma spoken_output (h : n < UInt64.size) : (output n).Spoken := by
  rw [Spoken, toList_name]
  exact Token.ofChars?_iff.2 (.output (padded_natNumeral n) h)

end Kind

namespace Store

variable {s t : Store} {id j : OperandId}

/-- A register other than the program counter. -/
def IsRegister (s : Store) (id : OperandId) : Prop :=
  id ≠ pc ∧ id < s.operands.size ∧ ∃ name, (s.operand id).kind = .register name

instance (s : Store) (id : OperandId) : Decidable (s.IsRegister id) :=
  match h : (s.operand id).kind with
  | .register name => decidable_of_iff (id ≠ pc ∧ id < s.operands.size) (by simp [IsRegister, h])
  | .constant _ | .memory _ | .input _ | .output _ => .isFalse (by simp [IsRegister, h])

lemma IsRegister.isStorage (h : s.IsRegister id) : s.IsStorage id := by
  obtain ⟨hpc, hlt, name, hk⟩ := h
  exact ⟨hpc, hlt, by rw [hk]; rfl⟩

/-- The names of the declared registers are those of registers in a program, and the output channels
are numbered by words. -/
structure Named (s : Store) : Prop where
  registers : ∀ name ∈ s.layout.registers,
    Token.ofChars? name.toList = some (.register name)
  outputs : s.layout.outputs ≤ UInt64.size

lemma Named.congr (h : s.Named) (hlayout : t.layout = s.layout) : t.Named where
  registers := by rw [hlayout]; exact h.registers
  outputs := by rw [hlayout]; exact h.outputs

namespace Laid

/-- A register stands at the place that its name has in the layout. -/
lemma getElem?_registerNames (h : s.Laid) (hid : id < s.operands.size) {name : String}
    (hk : (s.operand id).kind = .register name) : s.layout.registerNames[id]? = some name := by
  have hget := h.mem_kinds hid (by rw [hk]; rfl)
  rw [hk, Layout.kinds, List.append_assoc, List.append_assoc] at hget
  rcases Nat.lt_or_ge id (s.layout.registerNames.map Kind.register).length with hlt | hge
  · rw [List.getElem?_append_left hlt, List.getElem?_map] at hget
    obtain ⟨name', hname, he⟩ := Option.map_eq_some_iff.1 hget
    cases he
    exact hname
  · rw [List.getElem?_append_right hge] at hget
    have hmem := List.mem_of_getElem? hget
    simp at hmem

lemma mem_registers (h : s.Laid) (hid : id < s.operands.size) (hpc : id ≠ pc) {name : String}
    (hk : (s.operand id).kind = .register name) : name ∈ s.layout.registers ∧ name ≠ pcName := by
  have hname := h.getElem?_registerNames hid hk
  obtain ⟨k, rfl⟩ := Nat.exists_eq_succ_of_ne_zero hpc
  have hmem := List.mem_of_getElem? (l := s.layout.registers) hname
  refine ⟨hmem, ?_⟩
  rintro rfl
  exact (List.nodup_cons.1 h.names).1 hmem

lemma register_unique (h : s.Laid) (hid : s.IsRegister id) (hj : s.IsRegister j)
    (hname : (s.operand id).name = (s.operand j).name) : id = j := by
  obtain ⟨-, hidlt, name, hk⟩ := hid
  obtain ⟨-, hjlt, name', hk'⟩ := hj
  rw [Operand.name, Operand.name, hk, hk'] at hname
  replace hname : name = name' := hname
  subst hname
  have hidn := h.getElem?_registerNames hidlt hk
  have hjn := h.getElem?_registerNames hjlt hk'
  exact (List.getElem?_inj (List.getElem?_eq_some_iff.1 hidn).1 h.names).1 (hidn.trans hjn.symm)

lemma output_lt (h : s.Laid) {c : Nat} (hid : id < s.operands.size)
    (hk : (s.operand id).kind = .output c) : c < s.layout.outputs := by
  have hget := h.mem_kinds hid (by rw [hk]; rfl)
  rw [hk] at hget
  have hmem := List.mem_of_getElem? hget
  simpa [Layout.kinds] using hmem

end Laid

/-- An operand that can be written and is no register and no cell has another name than those. -/
lemma IsStorage.name_ne (hst : s.IsStorage id) (hl : s.Laid) (hn : s.Named)
    (hj : ¬ s.IsStorage j) (hw : (s.operand j).isWritable = true) :
    (s.operand j).name ≠ (s.operand id).name := by
  intro heq
  have hregister : ∀ name, (s.operand id).kind = .register name →
      (Kind.register name).Spoken ∧ name ≠ pcName := fun name hk => by
    obtain ⟨hmem, hne⟩ := hl.mem_registers hst.2.1 hst.1 hk
    exact ⟨hn.registers name hmem, hne⟩
  -- what such an operand is: the program counter, an output channel, or none at all
  rcases Nat.lt_or_ge j s.operands.size with hlt | hge
  · by_cases hpc : j = pc
    · rw [hpc, Operand.name, hl.kind_pc.2] at heq
      exact (hregister _ (Kind.eq_of_name_pc heq.symm)).2 rfl
    · cases hk : (s.operand j).kind with
      | register | memory => exact hj ⟨hpc, hlt, by rw [hk]; rfl⟩
      | constant | input => rw [Operand.isWritable, hk] at hw; cases hw
      | output c =>
        have hc := Kind.spoken_output (Nat.lt_of_lt_of_le (hl.output_lt hlt hk) hn.outputs)
        rw [Operand.name, hk, Operand.name] at heq
        cases hid : (s.operand id).kind with
        | register name =>
          rw [hid] at heq
          cases hc.eq_of_name (hregister name hid).1 heq
        | memory a =>
          rw [hid] at heq
          cases Kind.eq_of_name heq rfl rfl
        | constant | input | output =>
          have hkind := hst.2.2
          rw [hid] at hkind
          cases hkind
  · have hempty : (s.operand id).kind.name.toList = [] := by
      rw [operand_of_size_le hge] at heq
      exact congrArg String.toList heq.symm
    cases hid : (s.operand id).kind with
    | register name =>
      have hread := (hregister name hid).1
      rw [hid] at hempty
      rw [Kind.Spoken, hempty] at hread
      cases hread
    | constant | memory | input | output =>
      rw [hid, Kind.toList_name] at hempty
      cases hempty

end Store

end Lineage
