import Lineage.Proofs.Derivation.Meaning
import Mathlib.Tactic.SplitIfs

/-!
Simplifying an operation does not change its value.

The outcome of an operation is made from what is known of its sources alone: which of them are
constants, the values of these, and whether both are at one node. `Known.scheme` makes it, with the
sources left open, and `Operation.outcome_eq` fills them in. So an outcome that denotes the value of
the operation does so for whatever values the other sources have.
-/

namespace Lineage

inductive Operation
  | binary (op : BinaryOp) (x y : Reading)
  | test (x : Reading)

namespace Operation

def outcome : Operation → Outcome
  | .binary op x y => .ofBinary op x y
  | .test x => .ofTest x

/-- None for a division or a remainder by zero. -/
def value : Operation → Option Value
  | .binary op x y => op.eval x.value y.value
  | .test x => some (Value.ofBool (x.value = 0))

/-- Sources at one node have one value. -/
def Consistent : Operation → Prop
  | .binary _ x y => x.node = y.node → x.value = y.value
  | .test _ => True

def operator : Operation → Operator
  | .binary op x y =>
    if x.constant then .left x.value op else if y.constant then .right op y.value else .both op
  | .test _ => .isZero

end Operation

/-! ### What an outcome depends on -/

def Reading.known? (r : Reading) : Option Value := if r.constant then some r.value else none

/-- What is known of an operation. -/
inductive Known
  | binary (op : BinaryOp) (k k' : Option Value) (sameNode : Bool)
  | test (k : Option Value)

inductive Side
  | first | second

/-- An outcome with its sources left open. -/
inductive Scheme
  | source (side : Side)
  | constant (v : Value)
  | derived (operator : Operator) (sides : List Side)
  | nothing

namespace Operation

def known : Operation → Known
  | .binary op x y => .binary op x.known? y.known? (x.node = y.node)
  | .test x => .test x.known?

def source : Operation → Side → Reading
  | .binary _ x _, .first => x
  | .binary _ _ y, .second => y
  | .test x, _ => x

end Operation

namespace Scheme

def fill (source : Side → Reading) : Scheme → Outcome
  | .source side => .source (source side)
  | .constant v => .constant v
  | .derived o sides => .derived o (sides.map source)
  | .nothing => .nothing

def ofConstant (op : BinaryOp) (k : Value) (other : Side) (first : Bool) : Scheme :=
  if op.neutral k first then .source other
  else if op.absorbing k then .constant 0
  else .derived (.ofConstant op k first) [other]

lemma fill_ofConstant (op : BinaryOp) (k : Value) (other : Side) (first : Bool)
    (source : Side → Reading) :
    (ofConstant op k other first).fill source = .ofConstant op k (source other) first := by
  unfold ofConstant Outcome.ofConstant
  split
  · rfl
  · split <;> rfl

end Scheme

/-- The outcome of an operation, from what is known of it. -/
def Known.scheme : Known → Scheme
  | .binary op (some k) (some k') _ =>
    match op.eval k k' with
    | some v => .constant v
    | none => .nothing
  | .binary op k k' sameNode =>
    if sameNode ∧ (op = .and ∨ op = .or) then .source .first
    else if sameNode ∧ op = .xor then .constant 0
    else
      match k, k' with
      | some k, _ => .ofConstant op k .second true
      | none, some k' => .ofConstant op k' .first false
      | none, none => .derived (.both op) [.first, .second]
  | .test (some k) => .constant (Value.ofBool (k = 0))
  | .test none => .derived .isZero [.first]

namespace Operation

variable {e e' : Operation} {o o' : Operator} {rs rs' : List Reading} {v : Value}

lemma outcome_eq (e : Operation) : e.outcome = e.known.scheme.fill e.source := by
  cases e with
  | test x =>
    cases hx : x.constant <;>
      simp [outcome, known, Outcome.ofTest, Reading.known?, Known.scheme, Scheme.fill, source, hx]
  | binary op x y =>
    have hfirst := Scheme.fill_ofConstant op x.value .second true (binary op x y).source
    have hsecond := Scheme.fill_ofConstant op y.value .first false (binary op x y).source
    cases hx : x.constant <;> cases hy : y.constant <;>
      simp only [outcome, known, Outcome.ofBinary, Reading.known?, Known.scheme, hx, hy,
        Bool.and_self, Bool.and_false, Bool.false_and, if_true, if_false, Bool.false_eq_true,
        decide_eq_true_eq]
    · split_ifs <;> rfl
    · split_ifs
      · rfl
      · rfl
      · exact hsecond.symm
    · split_ifs
      · rfl
      · rfl
      · exact hfirst.symm
    · cases op.eval x.value y.value <;> rfl

/-! ### Soundness -/

lemma denotes (he : e.Consistent) (hv : e.value = some v) : e.outcome.Denotes v := by
  cases e with
  | binary op x y => exact Outcome.denotes_ofBinary he hv
  | test x =>
    cases hv
    exact Outcome.denotes_ofTest x

/-- A derivation is by an operator that means what the operation does, from as many sources as the
operator takes. -/
lemma operator_of_derived (h : e.outcome = .derived o rs) :
    o.apply = e.operator.apply ∧ o.arity = rs.length := by
  cases e with
  | test x =>
    rw [outcome, Outcome.ofTest] at h
    split at h
    · cases h
    · cases h
      exact ⟨rfl, rfl⟩
  | binary op x y =>
    have hfolds := Outcome.folds op x y
    rw [show Outcome.ofBinary op x y = .derived o rs from h] at hfolds
    rw [operator]
    cases hfolds with
    | linkedRight _ hx hy =>
      rw [if_pos hx]
      exact ⟨Operator.apply_ofConstant_first op x.value, Operator.arity_ofConstant ..⟩
    | linkedLeft _ hx hy hn =>
      rw [if_neg (Bool.eq_false_iff.1 hx), if_pos hy, Operator.ofConstant_second hn]
      exact ⟨rfl, rfl⟩
    | linked _ hx hy =>
      rw [if_neg (Bool.eq_false_iff.1 hx), if_neg (Bool.eq_false_iff.1 hy)]
      exact ⟨rfl, rfl⟩

lemma outcome_eq_nothing_iff : e.outcome = .nothing ↔ ∃ op x y, e = .binary op x y ∧
    (op = .div ∨ op = .mod) ∧ x.constant = true ∧ y.constant = true ∧ y.value = 0 := by
  cases e with
  | test x =>
    rw [outcome, Outcome.ofTest]
    split <;> simp
  | binary op x y =>
    rw [outcome, Outcome.ofBinary_eq_nothing_iff, BinaryOp.eval_eq_none_iff]
    constructor
    · rintro ⟨⟨hx, hy⟩, hop, hzero⟩
      exact ⟨op, x, y, rfl, hop, hx, hy, hzero⟩
    · rintro ⟨op', x', y', heq, hop, hx, hy, hzero⟩
      cases heq
      exact ⟨⟨hx, hy⟩, hop, hzero⟩

end Operation

/-- An operation whose sources at one node have one value is simplified to what denotes its value,
and to nothing only if it is a division or a remainder of two constants by zero. What it is
simplified to is told by what is known of it. The label of a derivation spells, for its number of
sources, an operator that means what the operation does, so operations that mean different things
differ in the label or in the number of sources. -/
theorem simplifications_sound :
    (∀ e : Operation, e.Consistent → ∀ v, e.value = some v → e.outcome.Denotes v) ∧
    (∀ e : Operation, e.outcome = e.known.scheme.fill e.source) ∧
    (∀ (e : Operation) o rs, e.outcome = .derived o rs →
      Operator.spelled? o.text rs.length = some o ∧ o.apply = e.operator.apply) ∧
    (∀ (e e' : Operation) o rs o' rs', e.outcome = .derived o rs → e'.outcome = .derived o' rs' →
      o.text = o'.text → rs.length = rs'.length → e.operator.apply = e'.operator.apply) ∧
    ∀ e : Operation, e.outcome = .nothing ↔ ∃ op x y, e = .binary op x y ∧
      (op = .div ∨ op = .mod) ∧ x.constant = true ∧ y.constant = true ∧ y.value = 0 := by
  refine ⟨fun e he v hv => e.denotes he hv, Operation.outcome_eq, fun e o rs h => ?_,
    fun e e' o rs o' rs' h h' htext hlength => ?_, fun e => Operation.outcome_eq_nothing_iff⟩
  · obtain ⟨happly, harity⟩ := Operation.operator_of_derived h
    rw [← harity]
    exact ⟨o.spelled?_text, happly⟩
  · obtain ⟨happly, harity⟩ := Operation.operator_of_derived h
    obtain ⟨happly', harity'⟩ := Operation.operator_of_derived h'
    have hop : o = o' := Operator.eq_of_text htext (by rw [harity, hlength, harity'])
    rw [← happly, hop, happly']

/-- 0 - 5 is derived from 5 alone, by the operator that the label of a difference spells for one
source. -/
theorem simplifications_sound_negate :
    let zero : Reading := ⟨none, "%0", 0, 0, true⟩
    let x : Reading := ⟨some 2, "X", 1, 5, false⟩
    let e : Operation := .binary .sub zero x
    e.Consistent ∧ e.outcome = .derived .negate [x] ∧ e.outcome.Denotes (-5) ∧
      Operator.spelled? "-" 1 = some .negate := by
  intro zero x e
  obtain ⟨hsound, -, hspelled, -⟩ := simplifications_sound
  have he : e.Consistent := fun h => absurd h (by decide)
  have houtcome : e.outcome = .derived .negate [x] := by decide
  exact ⟨he, houtcome, hsound e he (-5) (by decide), (hspelled e _ _ houtcome).1⟩

end Lineage
