import Lineage.Derivation.Operator
import Lineage.Operand

/-!
How the result of an operation is derived from its sources.

Constants are folded, neutral and absorbing constants are dropped with their operation, and so is an
operation on two sources of one node whose result does not depend on it. Anything else is linked to
its sources by an operator.
-/

namespace Lineage

/-- A source of an instruction, as it is found before the instruction has an effect. -/
structure Reading where
  /-- None for a value that was not read from an operand. -/
  operand : Option OperandId
  name : String
  node : NodeId
  value : Value
  /-- The node is a constant. -/
  constant : Bool
deriving DecidableEq

inductive Outcome
  /-- The result has the node of a source. -/
  | source (reading : Reading)
  /-- The result is a constant. -/
  | constant (value : Value)
  | derived (operator : Operator) (sources : List Reading)
  /-- There is no result: a division of two constants by zero. -/
  | nothing
deriving DecidableEq

namespace BinaryOp

/-- An operation with the constant `k` gives the other source. -/
def neutral (op : BinaryOp) (k : Value) (first : Bool) : Bool :=
  match op with
  | .add | .or | .xor => k = 0
  | .sub | .bsh => k = 0 && !first
  | .mul => k = 1
  | .div => k = 1 && !first
  | .mod | .and => false

/-- An operation with the constant `k` gives zero. -/
def absorbing (op : BinaryOp) (k : Value) : Bool :=
  match op with
  | .mul | .and => k = 0
  | _ => false

end BinaryOp

namespace Outcome

/-- An operation with one constant source. -/
def ofConstant (op : BinaryOp) (k : Value) (other : Reading) (first : Bool) : Outcome :=
  if op.neutral k first then .source other
  else if op.absorbing k then .constant 0
  else .derived (.ofConstant op k first) [other]

def ofBinary (op : BinaryOp) (a b : Reading) : Outcome :=
  if a.constant && b.constant then
    match op.eval a.value b.value with
    | some v => .constant v
    | none => .nothing
  else if a.node = b.node ∧ (op = .and ∨ op = .or) then .source a
  else if a.node = b.node ∧ op = .xor then .constant 0
  else if a.constant then ofConstant op a.value b true
  else if b.constant then ofConstant op b.value a false
  else .derived (.both op) [a, b]

/-- The test for zero. -/
def ofTest (a : Reading) : Outcome :=
  if a.constant then .constant (Value.ofBool (a.value = 0)) else .derived .isZero [a]

end Outcome

end Lineage
