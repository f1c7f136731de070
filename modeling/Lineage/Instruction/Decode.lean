import Lineage.Instruction
import Lineage.Listing
import Lineage.Store

/-!
Binding a listing to a store.

Every operand of a statement is looked up in the store, and constants and label positions are
interned. A constant that was interned before a failure stays: it changes no other operand.
-/

namespace Lineage

inductive DecodeError
  | badText (e : SyntaxError)
  | undefinedLabel (line : Nat) (label : String)
  | badOperand (line : Nat) (e : AccessError)
  | notWritable (line : Nat) (opcode : Opcode) (operand : String)
deriving DecidableEq

def DecodeError.message : DecodeError → String
  | .badText e => e.message
  | .undefinedLabel line label => s!"line {line}: undefined label {Text.quote label}"
  | .badOperand line e => s!"line {line}: {e.message}"
  | .notWritable line op operand => s!"line {line}: {op.mnemonic} cannot write to {operand}"

/-- A computation that grows the store and may fail; the store is kept when it does. -/
abbrev Binding := EStateM DecodeError Store

namespace Binding

def lookup (line : Nat) (find : Store → Except AccessError OperandId) : Binding OperandId := do
  match find (← get) with
  | .ok id => return id
  | .error e => throw (.badOperand line e)

def intern (v : Value) : Binding OperandId := modifyGet fun s => s.intern v

/-- A number as a value; numbers beyond the largest value stand for it. -/
def clamp (n : Nat) : Value := Int64.ofInt (min n Int64.maxValue.toInt)

/-- The operand that a token names. -/
def resolve (labels : String → Option Nat) (line : Nat) : Token → Binding OperandId
  | .constant v => intern v
  | .memory address => lookup line (·.memoryCell (clamp address))
  | .input channel => lookup line (·.input channel)
  | .output channel => lookup line (·.output channel)
  | .register name => lookup line (·.register name)
  | .label name =>
    match labels name with
    | some position => intern (clamp position)
    | none => throw (.undefinedLabel line name)

def slot (labels : String → Option Nat) (line : Nat) : Option Token → Binding (Option Ref)
  | none => pure none
  | some t => do
    let id ← resolve labels line t
    return some ⟨id, ((← get).operand id).name⟩

/-- An operation that writes its destination needs one that can be written. -/
def checkWritable (line : Nat) (op : Opcode) : Option Ref → Binding Unit
  | none => pure ()
  | some r => do
    if op.writesDst ∧ ((← get).operand r.id).isWritable = false then
      throw (.notWritable line op r.name)

def statement (labels : String → Option Nat) (st : Statement) : Binding Instruction := do
  let a ← slot labels st.line st.operands.a
  let b ← slot labels st.line st.operands.b
  let dst ← slot labels st.line st.operands.dst
  checkWritable st.line st.opcode dst
  return { opcode := st.opcode, operands := ⟨a, b, dst⟩ }

def listing (l : Listing) : Binding (List Instruction) := l.statements.mapM (statement l.label?)

end Binding

/-- The instructions of a program, bound to the store. -/
def decode (program : String) : Binding (List Instruction) :=
  match Listing.parse program with
  | .ok l => Binding.listing l
  | .error e => throw (.badText e)

end Lineage
