import Lineage.Opcode

/-!
The operators that label derivations.

A constant source is made a part of the operator. Where the two sides of an operation differ, the
operator tells on which side the constant stands.
-/

namespace Lineage

def BinaryOp.symbol : BinaryOp → String
  | .add => "+"
  | .sub => "-"
  | .mul => "*"
  | .div => "/"
  | .mod => "mod"
  | .bsh => ">>"
  | .and => "&"
  | .or => "|"
  | .xor => "^"

def BinaryOp.commutes : BinaryOp → Bool
  | .add | .mul | .and | .or | .xor => true
  | .sub | .div | .mod | .bsh => false

inductive Operator
  /-- Two sources, `x op y`. -/
  | both (op : BinaryOp)
  /-- One source, `k op x`. -/
  | left (k : Value) (op : BinaryOp)
  /-- One source, `x op k`. -/
  | right (op : BinaryOp) (k : Value)
  /-- One source, `0 - x`. -/
  | negate
  /-- One source, compared with zero. -/
  | isZero
  /-- One source, as it leaves through an output channel. -/
  | copy
  /-- No source and no defined value. -/
  | undefined
  /-- The program counter and the condition of a jump. -/
  | jump (taken : Bool)
deriving DecidableEq

namespace Operator

def text : Operator → String
  | .both op => op.symbol
  | .left k op => Value.text k ++ " " ++ op.symbol
  | .right op k => op.symbol ++ " " ++ Value.text k
  | .negate => BinaryOp.sub.symbol
  | .isZero => "=? 0"
  | .copy => "copy"
  | .undefined => "undef"
  | .jump true => "jcc (Y)"
  | .jump false => "jcc (N)"

/-- The operator for an operation with a constant, which comes first or second. -/
def ofConstant (op : BinaryOp) (k : Value) (first : Bool) : Operator :=
  if op = .sub ∧ k = 0 then .negate
  else if first && !op.commutes then .left k op
  else .right op k

end Operator

end Lineage
