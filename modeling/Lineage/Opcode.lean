import Lineage.Value

/-!
Operation codes.

An instruction has two sources `a` and `b` and a destination `dst`; `Opcode.uses` tells which of
these slots an operation code needs.
-/

namespace Lineage

/-- The operations that compute a value from two values. -/
inductive BinaryOp
  | add | sub | mul | div | mod | bsh | and | or | xor
deriving DecidableEq

inductive Opcode
  /-- Compute: `dst = a op b`. -/
  | binary (op : BinaryOp)
  /-- Load: `dst = memory[a]`. -/
  | ldm
  /-- Store: `memory[dst] = a`. -/
  | stm
  /-- Copy: `dst = a`. -/
  | str
  /-- Test for zero: `dst` is 1 if `a` is zero and 0 otherwise. -/
  | bisz
  /-- Jump to `dst` if `a` is not zero. -/
  | jcc
  /-- Leave no defined value in `dst`. -/
  | undef
  /-- No known operation; execution stops. -/
  | unkn
  | nop
deriving DecidableEq

inductive Slot
  | a | b | dst
deriving DecidableEq

def Slot.text : Slot → String
  | .a => "a"
  | .b => "b"
  | .dst => "dst"

/-- What stands in the slots of an instruction. -/
structure Slots (α : Type) where
  a : Option α := none
  b : Option α := none
  dst : Option α := none
deriving DecidableEq

def Slots.get {α : Type} (s : Slots α) : Slot → Option α
  | .a => s.a
  | .b => s.b
  | .dst => s.dst

/-- The value of `a op b`; none for a division or a remainder by zero. -/
def BinaryOp.eval : BinaryOp → Value → Value → Option Value
  | .add, a, b => some (a + b)
  | .sub, a, b => some (a - b)
  | .mul, a, b => some (a * b)
  | .div, a, b => if b = 0 then none else some (a / b)
  | .mod, a, b => if b = 0 then none else some (a % b)
  | .bsh, a, b => some (shift a b)
  | .and, a, b => some (a &&& b)
  | .or, a, b => some (a ||| b)
  | .xor, a, b => some (a ^^^ b)

namespace Opcode

def all : List Opcode :=
  [.binary .add, .binary .sub, .binary .mul, .binary .div, .binary .mod, .binary .bsh,
    .binary .and, .binary .or, .binary .xor, .ldm, .stm, .str, .bisz, .jcc, .undef, .unkn, .nop]

def mnemonic : Opcode → String
  | .binary .add => "ADD"
  | .binary .sub => "SUB"
  | .binary .mul => "MUL"
  | .binary .div => "DIV"
  | .binary .mod => "MOD"
  | .binary .bsh => "BSH"
  | .binary .and => "AND"
  | .binary .or => "OR"
  | .binary .xor => "XOR"
  | .ldm => "LDM"
  | .stm => "STM"
  | .str => "STR"
  | .bisz => "BISZ"
  | .jcc => "JCC"
  | .undef => "UNDEF"
  | .unkn => "UNKN"
  | .nop => "NOP"

/-- Letters count in the case they are written in. -/
def ofMnemonic? (s : String) : Option Opcode := all.find? (·.mnemonic = s)

theorem ofMnemonic?_mnemonic (op : Opcode) : ofMnemonic? op.mnemonic = some op := by
  cases op with
  | binary op => cases op <;> decide
  | _ => decide

def isBinary : Opcode → Bool
  | .binary _ => true
  | _ => false

/-- A slot that is used has to be filled, and one that is not has to be empty. -/
def uses : Opcode → Slot → Bool
  | .binary _, _ => true
  | .ldm, s | .stm, s | .str, s | .bisz, s | .jcc, s => s ≠ .b
  | .undef, s => s = .dst
  | .unkn, _ | .nop, _ => false

/-- The destination itself is written. `STM` and `JCC` read an address from it. -/
def writesDst : Opcode → Bool
  | .binary _ | .ldm | .str | .bisz | .undef => true
  | .stm | .jcc | .unkn | .nop => false

/-- The value of a binary operation; none for the other operations and where it has no value. -/
def eval : Opcode → Value → Value → Option Value
  | .binary op, a, b => op.eval a b
  | _, _, _ => none

end Opcode

end Lineage
