import Lineage.Proofs.Derivation.Folding
import Mathlib.Algebra.Order.Ring.Int
import Mathlib.Data.Int.Bitwise
import Mathlib.Data.Int.ModEq
import Mathlib.Tactic.NormNum

/-!
Arithmetic on words is arithmetic on integers, reduced to the range of a word.

Sums, differences, products, quotients and left shifts are reduced; remainders and right shifts stay
in the range by themselves, and the bits of a word are those of the integer it stands for, whose
sign goes on without end. Shifts in one direction add up.
-/

namespace Lineage

variable {v a b m n : Value}

namespace Value

lemma nonneg_iff : 0 ≤ n ↔ 0 ≤ n.toInt := Int64.le_iff_toInt_le

lemma neg_iff : n < 0 ↔ n.toInt < 0 := Int64.lt_iff_toInt_lt

end Value

open Value

/-! ### Shifts -/

lemma toNat_distance (hn : 0 ≤ n.toInt) (hlt : n.toInt < 64) :
    (n.toBitVec.smod 64).toNat = n.toInt.toNat := by
  have hint : (n.toBitVec.smod 64).toInt = n.toInt := by
    rw [BitVec.toInt_smod]
    exact Int.fmod_eq_of_lt hn hlt
  rw [BitVec.toInt_eq_toNat_cond] at hint
  split at hint <;> omega

lemma toInt_shift_of_nonneg (hn : 0 ≤ n) :
    (shift v n).toInt = v.toInt / 2 ^ n.toInt.toNat := by
  rw [shift, if_pos hn]
  rw [nonneg_iff] at hn
  split
  · next h64 =>
    -- all bits of the word have gone, and the sign is left
    have hle : 64 ≤ n.toInt := Int64.le_iff_toInt_le.1 h64
    have hpow : (2 : Int) ^ 63 ≤ 2 ^ n.toInt.toNat :=
      pow_le_pow_right₀ (by decide) (by omega)
    have hlow := v.le_toInt
    have hhigh := v.toInt_lt
    split
    · next hneg => exact (Int.ediv_eq_neg_one_of_neg_of_le (neg_iff.1 hneg) (by omega)).symm
    · next hnonneg =>
      rw [neg_iff] at hnonneg
      exact (Int.ediv_eq_zero_of_lt (by omega) (by omega)).symm
  · next h64 =>
    have hlt : n.toInt < 64 := not_le.1 fun h => h64 (Int64.le_iff_toInt_le.2 h)
    rw [← Int64.toInt_toBitVec, Int64.toBitVec_shiftRight, BitVec.toInt_sshiftRight',
      toNat_distance hn hlt, Int.shiftRight_eq_div_pow, Int64.toInt_toBitVec]
    norm_cast

lemma toInt_shift_of_neg (hn : n < 0) :
    (shift v n).toInt = (v.toInt * 2 ^ (-n.toInt).toNat).bmod (2 ^ 64) := by
  rw [neg_iff] at hn
  rw [shift, if_neg (fun h => absurd (nonneg_iff.1 h) (by omega))]
  split
  · next h64 =>
    -- all bits of the word have gone
    have hle : n.toInt ≤ -64 := Int64.le_iff_toInt_le.1 h64
    have hdvd : ((2 ^ 64 : Nat) : Int) ∣ v.toInt * 2 ^ (-n.toInt).toNat := by
      rw [Nat.cast_pow]
      exact Dvd.dvd.mul_left (pow_dvd_pow 2 (by omega)) _
    rw [Int.bmod_eq_zero_of_dvd hdvd, Int64.toInt_zero]
  · next h64 =>
    have hlt : -64 < n.toInt := not_le.1 fun h => h64 (Int64.le_iff_toInt_le.2 h)
    have hneg : (-n).toInt = -n.toInt := by
      rw [Int64.toInt_neg, Int.bmod_eq_of_le] <;> omega
    have hv : v.toInt = (v.toBitVec.toNat : Int).bmod (2 ^ 64) := v.toBitVec.toInt_eq_toNat_bmod
    rw [← Int64.toInt_toBitVec, Int64.toBitVec_shiftLeft, BitVec.shiftLeft_eq',
      toNat_distance (by omega) (by omega), hneg, BitVec.toInt_shiftLeft, Nat.shiftLeft_eq, hv,
      Int.bmod_mul_bmod, Nat.cast_mul, Nat.cast_pow, Nat.cast_ofNat]

lemma shift_shift_of_nonneg (hm : 0 ≤ m) (hn : 0 ≤ n) (h : m.toInt + n.toInt < 2 ^ 63) :
    shift (shift v m) n = shift v (m + n) := by
  have hm' := nonneg_iff.1 hm
  have hn' := nonneg_iff.1 hn
  have hsum : (m + n).toInt = m.toInt + n.toInt := by
    rw [Int64.toInt_add, Int.bmod_eq_of_le] <;> omega
  have hmn : 0 ≤ m + n := nonneg_iff.2 (by omega)
  apply Int64.toInt_inj.1
  rw [toInt_shift_of_nonneg hn, toInt_shift_of_nonneg hm, toInt_shift_of_nonneg hmn, hsum,
    Int.toNat_add hm' hn', pow_add, Int.ediv_ediv_of_nonneg (pow_nonneg (by decide) _)]

lemma shift_shift_of_neg (hm : m < 0) (hn : n < 0) (h : -2 ^ 63 ≤ m.toInt + n.toInt) :
    shift (shift v m) n = shift v (m + n) := by
  have hm' := neg_iff.1 hm
  have hn' := neg_iff.1 hn
  have hsum : (m + n).toInt = m.toInt + n.toInt := by
    rw [Int64.toInt_add, Int.bmod_eq_of_le] <;> omega
  have hmn : m + n < 0 := neg_iff.2 (by omega)
  have hdistance : (-(m.toInt + n.toInt)).toNat = (-m.toInt).toNat + (-n.toInt).toNat := by omega
  apply Int64.toInt_inj.1
  rw [toInt_shift_of_neg hn, toInt_shift_of_neg hm, toInt_shift_of_neg hmn, hsum, hdistance,
    Int.bmod_mul_bmod, pow_add, mul_assoc]

/-! ### Bits -/

/-- The bits of a word are those of the integer it stands for. -/
lemma testBit_toInt (x : BitVec 64) (i : Nat) :
    x.toInt.testBit i = if i < 64 then x.getLsbD i else x.msb := by
  have hx := x.isLt
  rw [BitVec.toInt_eq_msb_cond]
  cases hmsb : x.msb with
  | false =>
    show x.toNat.testBit i = _
    split
    · rfl
    · exact Nat.testBit_lt_two_pow (hx.trans_le (Nat.pow_le_pow_right (by decide) (by omega)))
  | true =>
    -- a negative word stands for the complement of its complement
    have hint : (x.toNat : Int) - ((2 ^ 64 : Nat) : Int) = Int.negSucc (~~~x).toNat := by
      rw [BitVec.toNat_not]
      omega
    rw [if_pos rfl, hint]
    show (!(~~~x).toNat.testBit i) = _
    rw [BitVec.testBit_toNat, BitVec.getLsbD_not]
    split <;> simp_all

lemma testBit_bitwise {f : Bool → Bool → Bool} {x y z : BitVec 64}
    (h : ∀ i < 64, z.getLsbD i = f (x.getLsbD i) (y.getLsbD i)) (i : Nat) :
    z.toInt.testBit i = f (x.toInt.testBit i) (y.toInt.testBit i) := by
  rw [testBit_toInt, testBit_toInt, testBit_toInt]
  split
  · next hi => exact h i hi
  · simp only [BitVec.msb_eq_getLsbD_last]
    exact h 63 (by decide)

/-! ### Division -/

lemma tmod_bounds (x : Int) {y : Int} (hy : y ≠ 0) :
    (x.tmod y).natAbs < y.natAbs ∧ (x.tmod y = 0 ∨ (x.tmod y).sign = x.sign) := by
  constructor
  · rw [Int.natAbs_tmod]
    exact Nat.mod_lt _ (Int.natAbs_pos.2 hy)
  · rw [Int.sign_tmod]
    by_cases h : y ∣ x
    · exact .inl (Int.tmod_eq_zero_of_dvd h)
    · exact .inr (if_neg h)

/-- Quotient and remainder make up the dividend, also where the quotient is reduced. -/
lemma modEq_div_mul_add (a b : Value) :
    a.toInt ≡ (a / b).toInt * b.toInt + (a % b).toInt [ZMOD 2 ^ 64] := by
  have hq : (a / b).toInt ≡ a.toInt.tdiv b.toInt [ZMOD 2 ^ 64] := by
    rw [Int64.toInt_div]
    exact Int.bmod_emod
  calc a.toInt = a.toInt.tdiv b.toInt * b.toInt + (a % b).toInt := by
        rw [Int64.toInt_mod, Int.mul_comm, Int.mul_tdiv_add_tmod]
    _ ≡ (a / b).toInt * b.toInt + (a % b).toInt [ZMOD 2 ^ 64] := (hq.symm.mul_right _).add_right _

/-- **Arithmetic is exact** but for the reduction to words: an operation has no value exactly if it
is not binary, or divides by zero. Sums, differences, products and quotients, these cut towards
zero, are those of integers, reduced. A remainder is smaller than the divisor, has the sign of the
dividend, and makes up the dividend with the quotient. Bits are combined one by one. A shift is a
division by a power of two, rounded down, or a product with one, reduced, for any distance; so
shifts in one direction add up as long as their sum is a word. -/
theorem Opcode.eval_exact :
    (∀ (op : Opcode) (a b : Value), op.eval a b = none ↔
      op.isBinary = false ∨ (op = .binary .div ∨ op = .binary .mod) ∧ b = 0) ∧
    (∀ a b : Value,
      (∃ v, eval (.binary .add) a b = some v ∧ v.toInt = (a.toInt + b.toInt).bmod (2 ^ 64)) ∧
      (∃ v, eval (.binary .sub) a b = some v ∧ v.toInt = (a.toInt - b.toInt).bmod (2 ^ 64)) ∧
      (∃ v, eval (.binary .mul) a b = some v ∧ v.toInt = (a.toInt * b.toInt).bmod (2 ^ 64))) ∧
    (∀ a b : Value, b ≠ 0 → ∃ q r,
      eval (.binary .div) a b = some q ∧ q.toInt = (a.toInt.tdiv b.toInt).bmod (2 ^ 64) ∧
      eval (.binary .mod) a b = some r ∧ r.toInt.natAbs < b.toInt.natAbs ∧
      (r.toInt = 0 ∨ r.toInt.sign = a.toInt.sign) ∧
      a.toInt ≡ q.toInt * b.toInt + r.toInt [ZMOD 2 ^ 64]) ∧
    (∀ a b : Value,
      (∃ v, eval (.binary .and) a b = some v ∧
        ∀ i, v.toInt.testBit i = (a.toInt.testBit i && b.toInt.testBit i)) ∧
      (∃ v, eval (.binary .or) a b = some v ∧
        ∀ i, v.toInt.testBit i = (a.toInt.testBit i || b.toInt.testBit i)) ∧
      (∃ v, eval (.binary .xor) a b = some v ∧
        ∀ i, v.toInt.testBit i = (a.toInt.testBit i ^^ b.toInt.testBit i))) ∧
    (∀ a b : Value, ∃ v, eval (.binary .bsh) a b = some v ∧
      v.toInt = if 0 ≤ b then a.toInt.fdiv (2 ^ b.toInt.toNat)
        else (a.toInt * 2 ^ (-b.toInt).toNat).bmod (2 ^ 64)) ∧
    ∀ v m n : Value, 0 ≤ m ∧ 0 ≤ n ∧ m.toInt + n.toInt < 2 ^ 63 ∨
        m < 0 ∧ n < 0 ∧ -2 ^ 63 ≤ m.toInt + n.toInt →
      (eval (.binary .bsh) v m).bind (eval (.binary .bsh) · n) =
        eval (.binary .bsh) v (m + n) := by
  refine ⟨fun op a b => ?_, fun a b => ⟨⟨_, rfl, Int64.toInt_add a b⟩,
    ⟨_, rfl, Int64.toInt_sub a b⟩, _, rfl, Int64.toInt_mul a b⟩, fun a b hb => ?_,
    fun a b => ⟨⟨_, rfl, testBit_bitwise fun i _ => BitVec.getLsbD_and⟩,
      ⟨_, rfl, testBit_bitwise fun i _ => BitVec.getLsbD_or⟩,
      _, rfl, testBit_bitwise fun i _ => BitVec.getLsbD_xor⟩,
    fun a b => ⟨_, rfl, ?_⟩, fun v m n h => ?_⟩
  · cases op with
    | binary op => simp [eval, isBinary, BinaryOp.eval_eq_none_iff]
    | _ => simp [eval, isBinary]
  · -- a remainder stays within the word, and only the quotient can wrap around
    obtain ⟨hlt, hsign⟩ := tmod_bounds a.toInt fun h => hb (Int64.toInt_inj.1 h)
    rw [← Int64.toInt_mod] at hlt hsign
    exact ⟨_, _, if_neg hb, Int64.toInt_div a b, if_neg hb, hlt, hsign, modEq_div_mul_add a b⟩
  · -- a shift to the right is a division, and one to the left a product that wraps around
    split
    · next hb =>
      rw [toInt_shift_of_nonneg hb, Int.fdiv_eq_ediv_of_nonneg _ (pow_nonneg (by decide) _)]
    · next hb =>
      exact toInt_shift_of_neg (neg_iff.2 (not_le.1 (mt nonneg_iff.2 hb)))
  · show some (shift (shift v m) n) = some (shift v (m + n))
    rcases h with ⟨hm, hn, hsum⟩ | ⟨hm, hn, hsum⟩
    · rw [shift_shift_of_nonneg hm hn hsum]
    · rw [shift_shift_of_neg hm hn hsum]

/-- The least value divided by -1, and shifted to the left beyond its width in two goes. -/
theorem Opcode.eval_exact_least :
    let a : Value := Int64.minValue
    ((-1 : Value) ≠ 0 ∧ (-40 : Value) < 0 ∧ (-30 : Value) < 0 ∧
        -2 ^ 63 ≤ (-40 : Value).toInt + (-30 : Value).toInt) ∧
      (∃ q r, eval (.binary .div) a (-1) = some q ∧
        q.toInt = (a.toInt.tdiv (-1 : Value).toInt).bmod (2 ^ 64) ∧
        eval (.binary .mod) a (-1) = some r ∧ r.toInt.natAbs < (-1 : Value).toInt.natAbs) ∧
      (eval (.binary .bsh) a (-40)).bind (eval (.binary .bsh) · (-30)) =
        eval (.binary .bsh) a (-40 + -30) := by
  intro a
  obtain ⟨-, -, hdivision, -, -, hshift⟩ := Opcode.eval_exact
  have hone : (-1 : Value) ≠ 0 := by decide
  have hneg : (-40 : Value) < 0 ∧ (-30 : Value) < 0 ∧
      -2 ^ 63 ≤ (-40 : Value).toInt + (-30 : Value).toInt := by decide
  obtain ⟨q, r, hq, hquotient, hr, hlt, -⟩ := hdivision a (-1) hone
  exact ⟨⟨hone, hneg⟩, ⟨q, r, hq, hquotient, hr, hlt⟩, hshift a (-40) (-30) (.inr hneg)⟩

end Lineage
