import Lineage.Opcode
import Lineage.Operand
import Lineage.Text.Blank

/-!
Instructions bound to the operands of a machine.
-/

namespace Lineage

/-- An operand of an instruction, with the name it is shown under. -/
structure Ref where
  id : OperandId
  name : String
deriving DecidableEq

structure Instruction where
  opcode : Opcode
  operands : Slots Ref := {}
deriving DecidableEq

namespace Instruction

/-- Stands wherever the program counter is outside the program. -/
def unknown : Instruction := { opcode := .unkn }

def ref? (i : Instruction) (slot : Slot) : Option Ref := i.operands.get slot

def id? (i : Instruction) (slot : Slot) : Option OperandId := (i.ref? slot).map Ref.id

def slotText : Option Ref → List Char
  | none => []
  | some r => r.name.toList

/-- The instruction as a line of a program. Blanks at its end, where a slot is empty, are cut. -/
def text (i : Instruction) : String :=
  String.ofList <| Text.trimEnd <|
    i.opcode.mnemonic.toList ++ ' ' :: slotText i.operands.a ++
      ',' :: ' ' :: slotText i.operands.b ++ ',' :: ' ' :: slotText i.operands.dst

end Instruction

end Lineage
