import Lineage.Proofs.Derivation.Folding
import Lineage.Proofs.Text.Cut
import Lineage.Proofs.Text.Numeral

/-!
What the operators of derivations mean.

An operator is applied to the values of its sources, in order. Whatever an operation is simplified
to denotes the value of the operation, provided that sources at one node have one value. An operator
is read back from its label and the number of its sources.
-/

namespace Lineage

/-- The value that an operator gives for the values of its sources. A jump gives none. -/
def Operator.apply (op : Operator) : List Value → Option Value
  | [] => match op with
    | .undefined => some 0
    | _ => none
  | [x] => match op with
    | .left k op => op.eval k x
    | .right op k => op.eval x k
    | .negate => some (-x)
    | .isZero => some (Value.ofBool (x = 0))
    | .copy => some x
    | _ => none
  | [x, y] => match op with
    | .both op => op.eval x y
    | _ => none
  | _ => none

def Outcome.Denotes (v : Value) : Outcome → Prop
  | .source r => r.value = v
  | .constant c => c = v
  | .derived op rs => op.apply (rs.map Reading.value) = some v
  | .nothing => False

variable {op : BinaryOp} {k v w : Value} {x y : Reading}

lemma BinaryOp.eval_comm (h : op.commutes = true) (a b : Value) : op.eval a b = op.eval b a := by
  cases op with
  | add => exact congrArg some (Int64.add_comm a b)
  | mul => exact congrArg some (Int64.mul_comm a b)
  | and => exact congrArg some (Int64.and_comm a b)
  | or => exact congrArg some (Int64.or_comm a b)
  | xor => exact congrArg some (Int64.xor_comm a b)
  | sub | div | mod | bsh => cases h

namespace Operator

/-- An operator that takes in its first side means what it did before. -/
lemma apply_ofConstant_first (op : BinaryOp) (k : Value) :
    (ofConstant op k true).apply = (left k op).apply := by
  funext vs
  unfold ofConstant
  by_cases hneg : op = .sub ∧ k = 0
  · obtain ⟨rfl, rfl⟩ := hneg
    rw [if_pos ⟨rfl, rfl⟩]
    match vs with
    | [] | [_, _] | _ :: _ :: _ :: _ => rfl
    | [x] => simp [apply, BinaryOp.eval]
  · rw [if_neg hneg]
    cases hc : op.commutes with
    | false => rfl
    | true =>
      match vs with
      | [] | [_, _] | _ :: _ :: _ :: _ => rfl
      | [x] => exact BinaryOp.eval_comm hc x k

lemma ofConstant_second (h : op.neutral k false = false) :
    ofConstant op k false = right op k := by
  unfold ofConstant
  rw [if_neg]
  · rfl
  · rintro ⟨rfl, rfl⟩
    cases h

end Operator

namespace Outcome

/-- An operation denotes its value, however it is simplified. -/
lemma denotes_ofBinary (hnode : x.node = y.node → x.value = y.value)
    (h : op.eval x.value y.value = some v) : (ofBinary op x y).Denotes v := by
  have hfolds := folds op x y
  generalize ofBinary op x y = o at hfolds
  cases hfolds with
  | folded _ _ hv =>
    rw [hv] at h
    exact Option.some.inj h
  | undefined _ _ hv =>
    rw [hv] at h
    cases h
  | same _ hn hi =>
    rw [← hnode hn] at h
    rcases hi with rfl | rfl <;> simpa [BinaryOp.eval, Denotes] using h
  | cancelled _ hn hxor =>
    subst hxor
    rw [← hnode hn] at h
    simpa [BinaryOp.eval, Denotes] using h
  | neutralLeft _ _ _ hn =>
    rw [BinaryOp.eval_neutral_left hn] at h
    exact Option.some.inj h
  | absorbedLeft _ _ _ ha =>
    rw [BinaryOp.eval_absorbing_left ha] at h
    exact Option.some.inj h
  | linkedRight =>
    rw [Denotes, Operator.apply_ofConstant_first]
    exact h
  | neutralRight _ _ _ hn =>
    rw [BinaryOp.eval_neutral_right hn] at h
    exact Option.some.inj h
  | absorbedRight _ _ _ ha =>
    rw [BinaryOp.eval_absorbing_right ha] at h
    exact Option.some.inj h
  | linkedLeft _ _ _ hn =>
    rw [Denotes, Operator.ofConstant_second hn]
    exact h
  | linked => exact h

lemma denotes_ofTest (x : Reading) : (ofTest x).Denotes (Value.ofBool (x.value = 0)) := by
  unfold ofTest
  cases x.constant <;> exact rfl

end Outcome

/-! ### Labels -/

open Text

namespace BinaryOp

def all : List BinaryOp := [.add, .sub, .mul, .div, .mod, .bsh, .and, .or, .xor]

def ofSymbol? (cs : List Char) : Option BinaryOp := all.find? (·.symbol.toList = cs)

lemma ofSymbol?_symbol (op : BinaryOp) : ofSymbol? op.symbol.toList = some op := by
  cases op <;> decide

lemma readSigned?_symbol (op : BinaryOp) : readSigned? op.symbol.toList = none := by
  cases op <;> decide

end BinaryOp

namespace Operator

def arity : Operator → Nat
  | .both _ | .jump _ => 2
  | .left .. | .right .. | .negate | .isZero | .copy => 1
  | .undefined => 0

lemma arity_ofConstant (op : BinaryOp) (k : Value) (first : Bool) :
    (ofConstant op k first).arity = 1 := by
  unfold ofConstant
  split
  · rfl
  · split <;> rfl

lemma length_of_apply {op : Operator} {vs : List Value} (h : op.apply vs = some v) :
    vs.length = op.arity := by
  match vs with
  | [] =>
    cases op with
    | undefined => rfl
    | both | left | right | negate | isZero | copy | jump => cases h
  | [x] =>
    cases op with
    | left | right | negate | isZero | copy => rfl
    | both | undefined | jump => cases h
  | [x, y] =>
    cases op with
    | both => rfl
    | left | right | negate | isZero | copy | undefined | jump => cases h
  | x :: y :: z :: vs => cases h

def ofWords? (a b : List Char) : Option Operator :=
  match readSigned? a, BinaryOp.ofSymbol? b, BinaryOp.ofSymbol? a, readSigned? b with
  | some k, some op, _, _ => some (.left k op)
  | _, _, some op, some k => some (.right op k)
  | _, _, _, _ => none

/-- The operator that a label spells for a number of sources. -/
def spelled? (label : String) : Nat → Option Operator
  | 0 => [undefined].find? (·.text = label)
  | 1 => ((cut? [' '] label.toList).bind fun (a, b) => ofWords? a b).or
      ([negate, isZero, copy].find? (·.text = label))
  | 2 => (BinaryOp.all.map both ++ [jump true, jump false]).find? (·.text = label)
  | _ => none

lemma spelled?_of_words {label : String} {a b : List Char} {op : Operator}
    (hlabel : label.toList = a ++ ' ' :: b) (ha : ' ' ∉ a) (h : ofWords? a b = some op) :
    spelled? label 1 = some op := by
  have hcut : cut? [' '] label.toList = some (a, b) := by
    rw [hlabel, List.append_cons]
    exact cut?_append (not_infix_of_head [] ha) b
  simp only [spelled?, hcut, Option.bind_some, h, Option.some_or]

lemma spelled?_text (op : Operator) : spelled? op.text op.arity = some op := by
  cases op with
  | left k op =>
    refine spelled?_of_words (a := intNumeral k.toInt) (b := op.symbol.toList)
      (by simp [text, Value.text]) ?_ ?_
    · intro hmem
      rcases (intNumeral_chars k.toInt).2 _ hmem with h | h <;> exact absurd h (by decide)
    · rw [ofWords?, readSigned?_intNumeral, op.ofSymbol?_symbol]
  | right op k =>
    refine spelled?_of_words (a := op.symbol.toList) (b := intNumeral k.toInt)
      (by simp [text, Value.text]) (by cases op <;> decide) ?_
    rw [ofWords?, op.readSigned?_symbol, op.ofSymbol?_symbol, readSigned?_intNumeral]
  | both op => cases op <;> decide
  | jump taken => cases taken <;> decide
  | negate | isZero | copy | undefined => decide

lemma eq_of_text {op op' : Operator} (ht : op.text = op'.text) (ha : op.arity = op'.arity) :
    op = op' := by
  have h := op.spelled?_text
  rw [ht, ha, op'.spelled?_text] at h
  exact (Option.some.inj h).symm

/-- A label tells what it means: operators with one label give one value. -/
theorem apply_unique {op op' : Operator} {vs : List Value} {v v' : Value} (ht : op.text = op'.text)
    (h : op.apply vs = some v) (h' : op'.apply vs = some v') : v = v' := by
  have hop := eq_of_text ht ((length_of_apply h).symm.trans (length_of_apply h'))
  rw [hop, h'] at h
  exact (Option.some.inj h).symm

end Operator

end Lineage
