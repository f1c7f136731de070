import Lineage.Value

/-!
The operands of a machine: registers, interned constants, memory cells and channels.
-/

namespace Lineage

/-- Operands are numbered in the order in which they were made. -/
abbrev OperandId := Nat

/-- Nodes of a derivation graph are numbered in the order in which they were recorded. -/
abbrev NodeId := Nat

inductive Kind
  | register (name : String)
  | constant (value : Value)
  | memory (address : Nat)
  | input (channel : Nat)
  | output (channel : Nat)
deriving DecidableEq, Inhabited

def Kind.name : Kind → String
  | .register name => name
  | .constant v => "%" ++ Value.text v
  | .memory address => s!"[{address}]"
  | .input channel => s!"IN{channel}"
  | .output channel => s!"OUT{channel}"

def Kind.isConstant : Kind → Bool
  | .constant _ => true
  | _ => false

structure Operand where
  kind : Kind
  /-- The value last consumed from an input channel, or last written to an output channel. -/
  value : Value := 0
  /-- An output channel has been written to. -/
  written : Bool := false
  /-- The derivation bound to the operand. -/
  node : Option NodeId := none
deriving DecidableEq, Inhabited

namespace Operand

def name (o : Operand) : String := o.kind.name

/-- The value as a derivation records it. What leaves through an output channel is not kept. -/
def recorded (o : Operand) : Value :=
  match o.kind with
  | .output _ => 0
  | _ => o.value

/-- The value comes from outside. -/
def isExternal (o : Operand) : Bool :=
  match o.kind with
  | .input _ => true
  | _ => false

def isWritable (o : Operand) : Bool :=
  match o.kind with
  | .register _ | .memory _ | .output _ => true
  | .constant _ | .input _ => false

/-- The value is known without a derivation: registers, cells and constants start from known
contents, and an output channel counts as known until it is written. -/
def isKnown (o : Operand) : Bool :=
  match o.kind with
  | .register _ | .constant _ | .memory _ => true
  | .input _ => false
  | .output _ => !o.written

end Operand

end Lineage
