import Lineage.Listing
import Lineage.Proofs.Text.Numeral
import Mathlib.Data.List.Basic

/-!
The spellings of operands.

A token can be written in as many ways as the number in it. What the reader takes for a token is
given here by a grammar that does not mention the reader. Every token that has a spelling is spelled
by its own text, so the reader finds it again there, and two tokens with one text are the same.
-/

namespace Lineage

namespace Token

open Text

variable {cs : List Char} {t t' : Token} {n : Nat}

/-- The grammar of operands: the texts that each token may be written as. The name of a channel whose
number does not fit a word is that of a register. -/
inductive Spells : List Char → Token → Prop
  | constant {cs : List Char} {v : Value} (number : Signed cs v.toInt) :
    Spells ('%' :: cs) (.constant v)
  | memory {cs : List Char} {n : Nat} (number : Unsigned cs n) (fits : n < UInt64.size) :
    Spells ('[' :: cs ++ [']']) (.memory n)
  | input {cs : List Char} {n : Nat} (digits : Padded cs n) (fits : n < UInt64.size) :
    Spells (['I', 'N'] ++ cs) (.input n)
  | output {cs : List Char} {n : Nat} (digits : Padded cs n) (fits : n < UInt64.size) :
    Spells (['O', 'U', 'T'] ++ cs) (.output n)
  | label {cs : List Char} (identifier : isIdentifier cs = true) :
    Spells (':' :: cs) (.label (String.ofList cs))
  | register {cs : List Char} (identifier : isIdentifier cs = true)
    (input : ∀ digits n, cs = ['I', 'N'] ++ digits → Padded digits n → UInt64.size ≤ n)
    (output : ∀ digits n, cs = ['O', 'U', 'T'] ++ digits → Padded digits n → UInt64.size ≤ n) :
    Spells cs (.register (String.ofList cs))

/-- A channel is read behind the letters that its name begins with. -/
lemma bind_readChannel?_iff (letters : List Char) :
    (letters.isPrefixOf? cs).bind readChannel? = some n ↔
      ∃ digits, cs = letters ++ digits ∧ Padded digits n ∧ n < UInt64.size := by
  simp only [Option.bind_eq_some_iff, readChannel?_iff, List.isPrefixOf?_eq_some_iff_append_eq,
    eq_comm (a := cs)]

lemma bind_readChannel?_eq_none {letters : List Char}
    (h : ∀ digits n, cs = letters ++ digits → Padded digits n → UInt64.size ≤ n) :
    (letters.isPrefixOf? cs).bind readChannel? = none := by
  refine Option.eq_none_iff_forall_ne_some.2 fun n hread => ?_
  obtain ⟨digits, hcs, hdigits, hn⟩ := (bind_readChannel?_iff letters).1 hread
  exact absurd hn (Nat.not_lt.2 (h digits n hcs hdigits))

lemma spells_of_ofName? (h : ofName? cs = some t) : Spells cs t := by
  have hfits : ∀ {letters : List Char} {c : Nat → Token},
      ((letters.isPrefixOf? cs).bind readChannel?).map c = none →
      ∀ digits n, cs = letters ++ digits → Padded digits n → UInt64.size ≤ n := by
    intro letters c hnone digits n hcs hdigits
    by_contra hn
    have hread := (bind_readChannel?_iff letters).2 ⟨digits, hcs, hdigits, Nat.lt_of_not_le hn⟩
    rw [hread] at hnone
    cases hnone
  unfold ofName? at h
  split at h
  · next hin =>
    cases h
    obtain ⟨n, hn, rfl⟩ := Option.map_eq_some_iff.1 hin
    obtain ⟨digits, rfl, hdigits, hn⟩ := (bind_readChannel?_iff _).1 hn
    exact .input hdigits hn
  · next hin =>
    split at h
    · next hout =>
      cases h
      obtain ⟨n, hn, rfl⟩ := Option.map_eq_some_iff.1 hout
      obtain ⟨digits, rfl, hdigits, hn⟩ := (bind_readChannel?_iff _).1 hn
      exact .output hdigits hn
    · next hout =>
      split at h
      · next hid =>
        cases h
        exact .register hid (hfits hin) (hfits hout)
      · cases h

/-- An identifier begins with none of the characters that mark the other tokens. -/
lemma ofChars?_of_isIdentifier (h : isIdentifier cs = true) : ofChars? cs = ofName? cs := by
  unfold ofChars?
  split
  · exact absurd h (by simp [isIdentifier])
  · exact absurd h (by simp [isIdentifier])
  · exact absurd h (by simp [isIdentifier])
  · rfl

lemma ofChars?_iff : ofChars? cs = some t ↔ Spells cs t := by
  constructor
  · intro h
    unfold ofChars? at h
    split at h
    · obtain ⟨v, hv, rfl⟩ := Option.map_eq_some_iff.1 h
      exact .constant (readSigned?_iff.1 hv)
    · next cs =>
      split at h
      · next hlast =>
        obtain ⟨n, hn, rfl⟩ := Option.map_eq_some_iff.1 h
        obtain ⟨hnumber, hn⟩ := readUnsigned?_iff.1 hn
        rw [← List.dropLast_append_getLast? _ hlast, ← List.cons_append]
        exact .memory hnumber hn
      · cases h
    · split at h
      · next hid =>
        cases h
        exact .label hid
      · cases h
    · exact spells_of_ofName? h
  · intro h
    cases h with
    | constant number => rw [ofChars?, readSigned?_iff.2 number, Option.map_some]
    | @memory cs n number fits =>
      rw [List.cons_append, ofChars?, if_pos (by simp), List.dropLast_concat,
        readUnsigned?_iff.2 ⟨number, fits⟩, Option.map_some]
    | @input cs n digits fits =>
      have hin := (bind_readChannel?_iff ['I', 'N']).2 ⟨cs, rfl, digits, fits⟩
      show ofName? (['I', 'N'] ++ cs) = _
      rw [ofName?, hin]
      rfl
    | @output cs n digits fits =>
      have hin : (['I', 'N'].isPrefixOf? (['O', 'U', 'T'] ++ cs)).bind readChannel? = none := rfl
      have hout := (bind_readChannel?_iff ['O', 'U', 'T']).2 ⟨cs, rfl, digits, fits⟩
      show ofName? (['O', 'U', 'T'] ++ cs) = _
      rw [ofName?, hin, hout]
      rfl
    | label identifier => rw [ofChars?, if_pos identifier]
    | register identifier input output =>
      rw [ofChars?_of_isIdentifier identifier, ofName?, bind_readChannel?_eq_none input,
        bind_readChannel?_eq_none output]
      exact if_pos identifier

lemma Spells.chars (h : Spells cs t) : Spells t.chars t := by
  cases h with
  | constant number => exact .constant (signed_intNumeral _)
  | memory number fits => exact .memory (.plain (padded_natNumeral _)) fits
  | input digits fits => exact .input (padded_natNumeral _) fits
  | output digits fits => exact .output (padded_natNumeral _) fits
  | label identifier =>
    rw [Token.chars, String.toList_ofList]
    exact .label identifier
  | register identifier input output =>
    rw [Token.chars, String.toList_ofList]
    exact .register identifier input output

lemma parse_iff {line : Nat} : parse line cs = .ok t ↔ Spells cs t := by
  rw [← ofChars?_iff, parse]
  cases ofChars? cs <;> simp

/-- **Operands survive being printed**: the reader accepts exactly the spellings of the grammar. From
the text of a token that it has accepted it reads that token again, whatever the spelling was, and
tokens that it has accepted are the same if their texts are. -/
theorem parse_printed :
    (∀ line cs, (∀ t, parse line cs = .ok t ↔ Spells cs t) ∧
      ((∀ t, ¬Spells cs t) → parse line cs = .error (.invalidOperand line (String.ofList cs)))) ∧
    (∀ line line' cs t, parse line cs = .ok t → parse line' t.text.toList = .ok t) ∧
    ∀ line line' cs cs' t t', parse line cs = .ok t → parse line' cs' = .ok t' →
      t.text = t'.text → t = t' := by
  have hagain : ∀ line line' cs t, parse line cs = .ok t → parse line' t.text.toList = .ok t := by
    intro line line' cs t h
    rw [text, String.toList_ofList]
    exact parse_iff.2 (parse_iff.1 h).chars
  refine ⟨fun line cs => ⟨fun t => parse_iff, fun hnone => ?_⟩, hagain,
    fun line line' cs cs' t t' h h' htext => ?_⟩
  · have hread : ofChars? cs = none :=
      Option.eq_none_iff_forall_ne_some.2 fun t ht => hnone t (ofChars?_iff.1 ht)
    rw [parse, hread]
  · have hread := hagain line line cs t h
    rw [htext, hagain line' line cs' t' h'] at hread
    exact (Except.ok.inj hread).symm

/-- Padding, signs, the largest numbers, and a channel that there cannot be. -/
theorem parse_printed_extremes :
    let samples : List (String × Token) := [
      ("%+007", .constant 7), ("%-9223372036854775808", .constant (-9223372036854775808)),
      ("[+018446744073709551615]", .memory 18446744073709551615),
      ("IN018446744073709551615", .input 18446744073709551615),
      ("IN18446744073709551616", .register "IN18446744073709551616"), (":_a.$", .label "_a.$")]
    (∀ p ∈ samples, Spells p.1.toList p.2 ∧ parse 1 p.1.toList = .ok p.2 ∧
      parse 2 p.2.text.toList = .ok p.2) ∧
    parse 1 "[-1]".toList = .error (.invalidOperand 1 "[-1]") ∧
    ∀ t t', parse 1 "OUT010".toList = .ok t → parse 2 "OUT10".toList = .ok t' → t = t' := by
  intro samples
  have hsamples : ∀ p ∈ samples, parse 1 p.1.toList = .ok p.2 := by decide +kernel
  have hrejected : ∀ t, ofChars? "[-1]".toList ≠ some t :=
    Option.eq_none_iff_forall_ne_some.1 (by decide +kernel)
  have hout : parse 1 "OUT010".toList = .ok (.output 10) := by decide +kernel
  have hout' : parse 2 "OUT10".toList = .ok (.output 10) := by decide +kernel
  obtain ⟨hgrammar, hagain, hsame⟩ := parse_printed
  refine ⟨fun p hp => ?_, ?_, fun t t' h h' => hsame 1 2 _ _ t t' h h' ?_⟩
  · have hread := hsamples p hp
    exact ⟨((hgrammar 1 _).1 p.2).1 hread, hread, hagain 1 2 _ p.2 hread⟩
  · exact (hgrammar 1 _).2 fun t ht => hrejected t (ofChars?_iff.2 ht)
  · rw [hout] at h
    rw [hout'] at h'
    cases h
    cases h'
    rfl

end Token

end Lineage
