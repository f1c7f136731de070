import Lineage.Instruction
import Lineage.Store

/-!
The effect of an instruction on the store.

An instruction is executed in two parts: first it reads what it needs, which finds out what it will
do, and then it does that. Only the first part consumes input, only the second changes any other
operand, and the second fails only before it has changed anything.
-/

namespace Lineage

/-- A reason for which an instruction cannot be executed. -/
inductive Fault
  | access (e : AccessError)
  | divisionByZero (i : Instruction)
  | missingOperand (i : Instruction) (slot : Slot)
deriving DecidableEq

def Fault.message : Fault → String
  | .access e => e.message
  | .divisionByZero i => s!"division by zero in `{i.text}`"
  | .missingOperand i slot => s!"`{i.text}` has no {slot.text} operand"

/-- Where execution goes on. -/
inductive Flow
  | next
  /-- The program counter has been set. -/
  | jump (target : Value)
  | halt
deriving DecidableEq

/-- What an instruction does once it has read its sources. -/
inductive Effect
  | write (target : OperandId) (value : Value)
  | jump (target : Value)
  | idle
  | halt
deriving DecidableEq

/-- A computation on the store that may fault; the store is kept when it does. -/
abbrev Exec := EStateM Fault Store

namespace Exec

def liftAccess {α : Type} : Except AccessError α → Exec α
  | .ok x => pure x
  | .error e => throw (.access e)

def read (id : OperandId) : Exec Value := modifyGet fun s => s.read id

def cell (address : Value) : Exec OperandId := do liftAccess ((← get).memoryCell address)

def write (id : OperandId) (v : Value) : Exec Unit := do set (← liftAccess ((← get).write id v))

/-- The operand in a slot. -/
def operand (i : Instruction) (slot : Slot) : Exec OperandId :=
  match i.id? slot with
  | some id => pure id
  | none => throw (.missingOperand i slot)

end Exec

namespace Instruction

open Exec

/-- Reads the sources of an instruction, in the order of its slots. -/
def effect (i : Instruction) : Exec Effect :=
  match i.opcode with
  | .binary op => do
    let a ← read (← operand i .a)
    let b ← read (← operand i .b)
    match op.eval a b with
    | none => throw (.divisionByZero i)
    | some v => return .write (← operand i .dst) v
  | .ldm => do
    let address ← read (← operand i .a)
    let v ← read (← cell address)
    return .write (← operand i .dst) v
  | .stm => do
    let v ← read (← operand i .a)
    let address ← read (← operand i .dst)
    return .write (← cell address) v
  | .str => do
    let v ← read (← operand i .a)
    return .write (← operand i .dst) v
  | .bisz => do
    let v ← read (← operand i .a)
    return .write (← operand i .dst) (Value.ofBool (v = 0))
  | .jcc => do
    let condition ← read (← operand i .a)
    if condition = 0 then return .idle
    let target ← read (← operand i .dst)
    return .jump target
  | .undef => return .write (← operand i .dst) 0
  | .nop => return .idle
  | .unkn => return .halt

/-- Carries out an effect. The program counter is left to the caller unless the effect is a jump. -/
def perform : Effect → Exec Flow
  | .write target v => do
    write target v
    return .next
  | .jump target => do
    modify (·.setPc target)
    return .jump target
  | .idle => return .next
  | .halt => return .halt

def execute (i : Instruction) : Exec Flow := do perform (← i.effect)

end Instruction

end Lineage
