import Lineage.Value
import Mathlib.Data.List.Induction
import Mathlib.Tactic.Lemma

/-!
Numbers and what they are written as.

A number can be written behind zeros and, in most places, with a sign. What the readers take for a
number is given here by a grammar that does not mention them. A numeral is one of the spellings of
its number, so that number is read from it.
-/

namespace Lineage

namespace Text

variable {cs : List Char} {c : Char} {n : Nat} {i : Int} {v : Value}

lemma isDigit_of_mem_natNumeral (h : c ∈ natNumeral n) : c.isDigit = true :=
  Nat.isDigit_of_mem_toDigits (by decide) (by decide) h

/-! ### Spellings of numbers -/

/-- The numeral of a number, perhaps behind zeros. -/
def Padded (cs : List Char) (n : Nat) : Prop := ∃ z, cs = List.replicate z '0' ++ natNumeral n

/-- A padded numeral, perhaps with a plus sign. -/
inductive Unsigned : List Char → Nat → Prop
  | plain {cs : List Char} {n : Nat} (digits : Padded cs n) : Unsigned cs n
  | plus {cs : List Char} {n : Nat} (digits : Padded cs n) : Unsigned ('+' :: cs) n

/-- A padded numeral, perhaps with a sign. -/
inductive Signed : List Char → Int → Prop
  | unsigned {cs : List Char} {n : Nat} (number : Unsigned cs n) : Signed cs (Int.ofNat n)
  | minus {cs : List Char} {n : Nat} (digits : Padded cs n) : Signed ('-' :: cs) (-Int.ofNat n)

lemma padded_natNumeral (n : Nat) : Padded (natNumeral n) n := ⟨0, rfl⟩

lemma signed_intNumeral (i : Int) : Signed (intNumeral i) i := by
  cases i with
  | ofNat n => exact .unsigned (.plain (padded_natNumeral n))
  | negSucc n => exact .minus (padded_natNumeral (n + 1))

lemma Padded.isDigit (h : Padded cs n) (hc : c ∈ cs) : c.isDigit = true := by
  obtain ⟨z, rfl⟩ := h
  rcases List.mem_append.1 hc with hc | hc
  · rw [List.eq_of_mem_replicate hc]
    rfl
  · exact isDigit_of_mem_natNumeral hc

lemma Padded.ne_nil (h : Padded cs n) : cs ≠ [] := by
  obtain ⟨z, rfl⟩ := h
  exact List.append_ne_nil_of_right_ne_nil _ Nat.toDigits_ne_nil

lemma Padded.not_sign (h : Padded (c :: cs) n) : c ≠ '+' ∧ c ≠ '-' := by
  have hc := h.isDigit List.mem_cons_self
  constructor <;> rintro rfl <;> exact absurd hc (by decide)

lemma Padded.snoc {d : Nat} (h : Padded cs n) (hd : d < 10) :
    Padded (cs ++ [Nat.digitChar d]) (10 * n + d) := by
  have hdigit : natNumeral d = [Nat.digitChar d] := Nat.toDigits_of_lt_base hd
  obtain ⟨z, rfl⟩ := h
  rcases Nat.eq_zero_or_pos n with rfl | hn
  · -- zero is a digit of padding now
    refine ⟨z + 1, ?_⟩
    rw [Nat.mul_zero, Nat.zero_add, hdigit, List.replicate_succ']
    rfl
  · refine ⟨z, ?_⟩
    rw [List.append_assoc, ← hdigit]
    exact congrArg _ (Nat.toDigits_append_toDigits (by decide) hn hd)

lemma digitChar_of_isDigit (h : c.isDigit = true) :
    ∃ d < 10, Nat.digitChar d = c ∧ c.toNat - '0'.toNat = d := by
  obtain ⟨hlo, hhi⟩ := Char.isDigit_iff_toNat.1 h
  rw [show '0'.toNat = 48 from rfl] at hlo ⊢
  rw [show '9'.toNat = 57 from rfl] at hhi
  refine ⟨c.toNat - 48, by omega, Char.toNat_inj.1 ?_, rfl⟩
  rw [Nat.toNat_digitChar_of_lt_ten (by omega)]
  omega

/-- Every run of digits is the numeral of the number that it stands for, behind zeros. -/
lemma padded_ofDigitChars (hne : cs ≠ []) (h : ∀ c ∈ cs, c.isDigit = true) :
    Padded cs (Nat.ofDigitChars 10 cs 0) := by
  induction cs using List.reverseRecOn with
  | nil => exact absurd rfl hne
  | append_singleton cs c ih =>
    obtain ⟨d, hd, rfl, hval⟩ := digitChar_of_isDigit (h c (by simp))
    rw [Nat.ofDigitChars_append, Nat.ofDigitChars_cons, Nat.ofDigitChars_nil, hval]
    by_cases hcs : cs = []
    · subst hcs
      rw [Nat.ofDigitChars_nil, Nat.mul_zero, Nat.zero_add]
      exact ⟨0, (Nat.toDigits_of_lt_base hd).symm⟩
    · exact (ih hcs fun c hc => h c (List.mem_append_left _ hc)).snoc hd

lemma readDigits?_iff : readDigits? cs = some n ↔ Padded cs n := by
  constructor
  · intro h
    rw [readDigits?] at h
    split at h
    · next hdigits =>
      cases h
      simp only [Bool.and_eq_true, Bool.not_eq_true', List.isEmpty_eq_false_iff, List.all_eq_true]
        at hdigits
      exact padded_ofDigitChars hdigits.1 hdigits.2
    · cases h
  · intro h
    have hdigits : cs.all Char.isDigit = true := List.all_eq_true.2 fun c hc => h.isDigit hc
    have hempty : cs.isEmpty = false := List.isEmpty_eq_false_iff.2 h.ne_nil
    rw [readDigits?, if_pos (by rw [hdigits, hempty]; rfl)]
    obtain ⟨z, rfl⟩ := h
    rw [Nat.ofDigitChars_append, Nat.ofDigitChars_replicate_zero, Nat.mul_zero]
    exact congrArg some Nat.ofDigitChars_ten_toDigits

lemma readChannel?_iff : readChannel? cs = some n ↔ Padded cs n ∧ n < UInt64.size := by
  rw [readChannel?, Option.filter_eq_some_iff, readDigits?_iff, decide_eq_true_iff]

lemma readUnsigned?_iff : readUnsigned? cs = some n ↔ Unsigned cs n ∧ n < UInt64.size := by
  unfold readUnsigned?
  split
  · next cs =>
    rw [readChannel?_iff]
    refine and_congr_left fun _ => ⟨.plus, fun h => ?_⟩
    cases h with
    | plain digits => exact absurd rfl digits.not_sign.1
    | plus digits => exact digits
  · next hplus =>
    rw [readChannel?_iff]
    refine and_congr_left fun _ => ⟨.plain, fun h => ?_⟩
    cases h with
    | plain digits => exact digits
    | plus digits => exact absurd rfl (hplus _)

lemma readInt?_iff : readInt? cs = some i ↔ Signed cs i := by
  unfold readInt?
  split
  · next cs =>
    simp only [Option.map_eq_some_iff, readDigits?_iff]
    constructor
    · rintro ⟨n, digits, rfl⟩
      exact .unsigned (.plus digits)
    · rintro ⟨digits | digits⟩
      · exact absurd rfl digits.not_sign.1
      · exact ⟨_, digits, rfl⟩
  · next cs =>
    simp only [Option.map_eq_some_iff, readDigits?_iff]
    constructor
    · rintro ⟨n, digits, rfl⟩
      exact .minus digits
    · rintro (⟨digits | digits⟩ | digits)
      · exact absurd rfl digits.not_sign.2
      · exact ⟨_, digits, rfl⟩
  · next hplus hminus =>
    simp only [Option.map_eq_some_iff, readDigits?_iff]
    constructor
    · rintro ⟨n, digits, rfl⟩
      exact .unsigned (.plain digits)
    · rintro (⟨digits | digits⟩ | digits)
      · exact ⟨_, digits, rfl⟩
      · exact absurd rfl (hplus _)
      · exact absurd rfl (hminus _)

lemma readSigned?_iff : readSigned? cs = some v ↔ Signed cs v.toInt := by
  simp only [readSigned?, Option.map_eq_some_iff, Option.filter_eq_some_iff, readInt?_iff,
    Bool.and_eq_true, decide_eq_true_eq]
  constructor
  · rintro ⟨i, ⟨h, hmin, hmax⟩, rfl⟩
    rwa [Int64.toInt_ofInt_of_le hmin (Int.lt_add_one_of_le hmax)]
  · intro h
    exact ⟨v.toInt,
      ⟨h, Int64.le_iff_toInt_le.1 v.minValue_le, Int64.le_iff_toInt_le.1 v.le_maxValue⟩,
      Int64.ofInt_toInt v⟩

/-! ### Numerals -/

lemma natNumeral_injective {k : Nat} (h : natNumeral n = natNumeral k) : n = k := by
  have hread := readDigits?_iff.2 (padded_natNumeral n)
  rw [h, readDigits?_iff.2 (padded_natNumeral k)] at hread
  exact (Option.some.inj hread).symm

lemma intNumeral_injective {j : Int} (h : intNumeral i = intNumeral j) : i = j := by
  have hread := readInt?_iff.2 (signed_intNumeral i)
  rw [h, readInt?_iff.2 (signed_intNumeral j)] at hread
  exact (Option.some.inj hread).symm

lemma readSigned?_intNumeral (v : Value) : readSigned? (intNumeral v.toInt) = some v :=
  readSigned?_iff.2 (signed_intNumeral v.toInt)

lemma natNumeral_eq_cons (n : Nat) : ∃ c cs, natNumeral n = c :: cs ∧ c.isDigit = true := by
  cases h : natNumeral n with
  | nil => exact absurd h Nat.toDigits_ne_nil
  | cons c cs => exact ⟨c, cs, rfl, isDigit_of_mem_natNumeral (by rw [h]; exact List.mem_cons_self)⟩

lemma intNumeral_chars (i : Int) : (∃ c ∈ intNumeral i, c.isDigit = true) ∧
    ∀ c ∈ intNumeral i, c.isDigit = true ∨ c = '-' := by
  cases i with
  | ofNat n =>
    obtain ⟨c, cs, hcons, hc⟩ := natNumeral_eq_cons n
    exact ⟨⟨c, by rw [intNumeral, hcons]; exact List.mem_cons_self, hc⟩,
      fun c hc => .inl (isDigit_of_mem_natNumeral hc)⟩
  | negSucc n =>
    obtain ⟨c, cs, hcons, hc⟩ := natNumeral_eq_cons (n + 1)
    refine ⟨⟨c, by simp [intNumeral, hcons], hc⟩, fun c hc => ?_⟩
    rcases List.mem_cons.1 hc with rfl | hc
    · exact .inr rfl
    · exact .inl (isDigit_of_mem_natNumeral hc)

end Text

end Lineage
