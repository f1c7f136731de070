import Lineage.Proofs.Spelling
import Mathlib.Data.List.Forall2

/-!
What the statements of a listing are like.

A statement that has been read has a token in exactly the slots that its operation code uses, and
each token is one that can be written. What the reading of one line makes sure of holds of all
statements of a listing.
-/

namespace Lineage

open Text

variable {ε α β : Type}

/-! ### Sequencing -/

lemma ok_of_bind {x : Except ε α} {f : α → Except ε β} {b : β} (h : (x >>= f) = .ok b) :
    ∃ a, x = .ok a ∧ f a = .ok b := by
  cases x with
  | ok a => exact ⟨a, rfl, h⟩
  | error e => cases h

lemma ok_of_map {x : Except ε α} {f : α → β} {b : β} (h : x.map f = .ok b) :
    ∃ a, x = .ok a ∧ f a = b := by
  cases x with
  | ok a => exact ⟨a, rfl, Except.ok.inj h⟩
  | error e => cases h

lemma mapM_ok_iff {f : α → Except ε β} {l : List α} {bs : List β} :
    l.mapM f = .ok bs ↔ List.Forall₂ (fun a b => f a = .ok b) l bs := by
  induction l generalizing bs with
  | nil =>
    rw [List.mapM_nil, List.forall₂_nil_left_iff]
    exact ⟨fun h => (Except.ok.inj h).symm, fun h => by rw [h]; rfl⟩
  | cons a l ih =>
    rw [List.mapM_cons, List.forall₂_cons_left_iff]
    constructor
    · intro h
      obtain ⟨b, hb, h⟩ := ok_of_bind h
      obtain ⟨bs', hbs, h⟩ := ok_of_bind h
      cases h
      exact ⟨b, bs', hb, ih.1 hbs, rfl⟩
    · rintro ⟨b, bs', hb, hbs, rfl⟩
      simp only [hb, ih.2 hbs]
      rfl

/-! ### Tokens -/

namespace Token

/-- The token is read from some text. -/
def Written (t : Token) : Prop := ∃ cs, ofChars? cs = some t

/-- What a text is like that the token has been read from. -/
def ReadFrom (cs : List Char) : Token → Prop
  | .register name => cs = name.toList ∧ isIdentifier cs = true
  | .input n | .output n => n < UInt64.size
  | .constant _ | .memory _ | .label _ => True

lemma readFrom_of_ofChars? {cs : List Char} {t : Token} (h : ofChars? cs = some t) :
    t.ReadFrom cs := by
  cases ofChars?_iff.1 h with
  | constant | memory | label => trivial
  | input _ fits | output _ fits => exact fits
  | register identifier => exact ⟨String.toList_ofList.symm, identifier⟩

lemma Written.ofChars? {name : String} (h : (register name).Written) :
    ofChars? name.toList = some (register name) := by
  obtain ⟨cs, h⟩ := h
  rwa [(readFrom_of_ofChars? h).1] at h

lemma Written.isIdentifier {name : String} (h : (register name).Written) :
    isIdentifier name.toList = true :=
  (readFrom_of_ofChars? h.ofChars?).2

end Token

/-! ### Statements -/

namespace Statement

variable {line : Nat}

/-- What stands in a field: a token, or nothing but blanks. -/
def FieldOf (field : List Char) : Option Token → Prop
  | none => trim field = []
  | some t => Token.ofChars? (trim field) = some t

lemma parseField_ok_iff {field : List Char} {o : Option Token} :
    parseField line field = .ok o ↔ FieldOf field o := by
  unfold parseField
  cases htrim : trim field with
  | nil =>
    cases o with
    | none => simp [FieldOf, htrim]
    | some t =>
      have hnil : Token.ofChars? [] = none := rfl
      simp [FieldOf, htrim, hnil]
  | cons c cs =>
    cases ht : Token.ofChars? (c :: cs) <;> cases o <;>
      simp [FieldOf, htrim, Token.parse, ht, Except.map]

lemma checkSlot_ok_iff {op : Opcode} {operands : Slots Token} {slot : Slot} :
    checkSlot line op operands slot = .ok () ↔ (operands.get slot).isSome = op.uses slot := by
  unfold checkSlot
  cases op.uses slot <;> cases operands.get slot <;> simp

/-- How a statement is written: a mnemonic, and behind it the fields for the slots, of which those
are filled that the operation code uses. -/
structure Spells (text : List Char) (op : Opcode) (operands : Slots Token) : Prop where
  mnemonic : Opcode.ofMnemonic? (String.ofList (text.takeWhile Char.isAlphanum)) = some op
  starts : startsOperands (text.dropWhile Char.isAlphanum) = true
  fields : ∃ fields tokens, fields? (text.dropWhile Char.isAlphanum) = some fields ∧
    List.Forall₂ FieldOf fields tokens ∧
    operands = ⟨tokens.getD 0 none, tokens.getD 1 none, tokens.getD 2 none⟩
  filled : ∀ slot, (operands.get slot).isSome = op.uses slot

/-- Only the number of a statement depends on the line that it is read from. -/
lemma parse_ok_iff {text : List Char} {st : Statement} :
    parse line text = .ok st ↔ st.line = line ∧ Spells text st.opcode st.operands := by
  constructor
  · intro h
    unfold parse at h
    extract_lets mnemonic rest at h
    split at h
    · cases h
    · next hstart =>
      obtain ⟨op, hop, h⟩ := ok_of_bind h
      split at h
      · next fields hfields =>
        obtain ⟨tokens, htokens, h⟩ := ok_of_bind h
        obtain ⟨⟨⟩, ha, h⟩ := ok_of_bind h
        obtain ⟨⟨⟩, hb, h⟩ := ok_of_bind h
        obtain ⟨⟨⟩, hdst, h⟩ := ok_of_bind h
        cases h
        refine ⟨rfl, ?_, by simpa using (not_or.1 hstart).2, ⟨fields, tokens, hfields, ?_, rfl⟩, ?_⟩
        · unfold Opcode.parse at hop
          split at hop
          · next hop' =>
            cases hop
            exact hop'
          · cases hop
        · exact (mapM_ok_iff.1 htokens).imp fun _ _ => parseField_ok_iff.1
        · intro slot
          cases slot with
          | a => exact checkSlot_ok_iff.1 ha
          | b => exact checkSlot_ok_iff.1 hb
          | dst => exact checkSlot_ok_iff.1 hdst
      · cases h
  · obtain ⟨line', op, operands⟩ := st
    rintro ⟨rfl, hop, hstarts, ⟨fields, tokens, hfields, htokens, rfl⟩, hfilled⟩
    have hstart : ¬ (text.takeWhile Char.isAlphanum = [] ∨
        startsOperands (text.dropWhile Char.isAlphanum) = false) := by
      rintro (hnil | hfalse)
      · rw [hnil] at hop
        cases hop
      · rw [hstarts] at hfalse
        cases hfalse
    have hop' : Opcode.parse line' (String.ofList (text.takeWhile Char.isAlphanum)) = .ok op := by
      rw [Opcode.parse, hop]
    have htokens' : fields.mapM (parseField line') = .ok tokens :=
      mapM_ok_iff.2 (htokens.imp fun _ _ => parseField_ok_iff.2)
    have hcheck : ∀ slot, checkSlot line' op ⟨tokens.getD 0 none, tokens.getD 1 none,
        tokens.getD 2 none⟩ slot = .ok () := fun slot => checkSlot_ok_iff.2 (hfilled slot)
    unfold parse
    dsimp only
    rw [if_neg hstart]
    simp only [hop', hfields, htokens', hcheck, bind, Except.bind, pure, Except.pure]

/-- The slots that are used are filled, and they alone, with tokens that can be written. -/
structure WellFormed (st : Statement) : Prop where
  filled : ∀ slot, (st.operands.get slot).isSome = st.opcode.uses slot
  written : ∀ slot, ∀ t ∈ st.operands.get slot, t.Written

lemma wellFormed_of_parse {text : List Char} {st : Statement} (h : parse line text = .ok st) :
    st.WellFormed := by
  obtain ⟨-, hspells⟩ := parse_ok_iff.1 h
  obtain ⟨fields, tokens, -, htokens, hoperands⟩ := hspells.fields
  obtain ⟨hlen, hfield⟩ := List.forall₂_iff_get.1 htokens
  have hwritten : ∀ k t, tokens.getD k none = some t → t.Written := by
    intro k t hk
    rw [List.getD_eq_getElem?_getD] at hk
    cases hget : tokens[k]? with
    | none => rw [hget] at hk; cases hk
    | some o =>
      obtain ⟨hlt, rfl⟩ := List.getElem?_eq_some_iff.1 hget
      rw [hget, Option.getD_some] at hk
      have hof := hfield k (hlen ▸ hlt) hlt
      rw [List.get_eq_getElem, List.get_eq_getElem, hk] at hof
      exact ⟨_, hof⟩
  refine ⟨hspells.filled, fun slot t ht => ?_⟩
  rw [hoperands] at ht
  cases slot <;> exact hwritten _ t ht

end Statement

/-! ### Listings -/

namespace Listing

variable {l l' : Listing} {line : Nat}

lemma statements_addLabel {label : Option String} (h : l.addLabel line label = .ok l') :
    l'.statements = l.statements := by
  unfold addLabel at h
  split at h
  · cases h
    rfl
  · split at h <;> cases h
    rfl

/-- A line adds at most one statement, which has been read from it. -/
lemma mem_addLine {raw : List Char} (h : l.addLine line raw = .ok l') :
    ∀ st ∈ l'.statements, st ∈ l.statements ∨ ∃ text, Statement.parse line text = .ok st := by
  unfold addLine at h
  generalize splitLabel (code raw) = p at h
  obtain ⟨label, text⟩ := p
  obtain ⟨l₁, hlabel, h⟩ := ok_of_bind h
  rw [← statements_addLabel hlabel]
  intro st hst
  unfold addStatement at h
  split at h
  · cases h
    exact .inl hst
  · obtain ⟨st', hst', h⟩ := ok_of_map h
    rw [← h] at hst
    rcases List.mem_append.1 hst with hst | hst
    · exact .inl hst
    · rw [List.mem_singleton] at hst
      exact .inr ⟨_, hst ▸ hst'⟩

lemma forall_addLines {P : Statement → Prop}
    (hP : ∀ line text st, Statement.parse line text = .ok st → P st) {lines : List (List Char)}
    (hl : ∀ st ∈ l.statements, P st) (h : l.addLines line lines = .ok l') :
    ∀ st ∈ l'.statements, P st := by
  induction lines generalizing l line with
  | nil =>
    cases h
    exact hl
  | cons raw lines ih =>
    obtain ⟨l₁, hraw, h⟩ := ok_of_bind h
    refine ih (fun st hst => ?_) h
    rcases mem_addLine hraw st hst with hst | ⟨text, hst⟩
    · exact hl st hst
    · exact hP line text st hst

lemma wellFormed_of_parse {program : String} (h : parse program = .ok l) :
    ∀ st ∈ l.statements, st.WellFormed :=
  forall_addLines (l := {}) (fun _ _ _ => Statement.wellFormed_of_parse) (by simp) h

end Listing

end Lineage
