import Lineage.Opcode
import Lineage.Token
import Lineage.Text.Blank
import Lineage.Text.Quoted

/-!
Programs as they are written, one instruction a line.

A line is `MNEMONIC a, b, dst`, with a slot that is not used left empty, perhaps behind a label
`name:`. A label may also stand alone. Blank lines do not count, nor does what follows a `#`.
Labels mark the position of the next instruction; what they are used for is settled when the
listing is bound to a machine.
-/

namespace Lineage

open Text

structure Statement where
  /-- Lines are counted from one. -/
  line : Nat
  opcode : Opcode
  operands : Slots Token
deriving DecidableEq

structure Listing where
  statements : List Statement := []
  /-- Each label with the number of statements before it, in the order of the text. -/
  labels : List (String × Nat) := []
deriving DecidableEq

inductive SyntaxError
  | unknownMnemonic (line : Nat) (mnemonic : String)
  | invalidOperand (line : Nat) (text : String)
  | malformedLine (line : Nat) (text : String)
  | duplicateLabel (line : Nat) (label : String)
  | missingOperand (line : Nat) (opcode : Opcode) (slot : Slot)
  | unexpectedOperand (line : Nat) (opcode : Opcode) (slot : Slot) (found : Token)
deriving DecidableEq

def SyntaxError.message : SyntaxError → String
  | .unknownMnemonic line m => s!"line {line}: unknown mnemonic {quote m}"
  | .invalidOperand line t => s!"line {line}: unrecognized operand {quote t}"
  | .malformedLine line t => s!"line {line}: malformed instruction {quote t}"
  | .duplicateLabel line l => s!"line {line}: label {quote l} is already defined"
  | .missingOperand line op slot => s!"line {line}: {op.mnemonic} requires operand {slot.text}"
  | .unexpectedOperand line op slot t =>
    s!"line {line}: {op.mnemonic} does not use operand {slot.text}, found {quote t.text}"

/-- The operation code with a mnemonic, on the line it stands in. -/
def Opcode.parse (line : Nat) (mnemonic : String) : Except SyntaxError Opcode :=
  match Opcode.ofMnemonic? mnemonic with
  | some op => .ok op
  | none => .error (.unknownMnemonic line mnemonic)

/-- The operand that a text stands for, on the line it stands in. -/
def Token.parse (line : Nat) (cs : List Char) : Except SyntaxError Token :=
  match Token.ofChars? cs with
  | some t => .ok t
  | none => .error (.invalidOperand line (String.ofList cs))

namespace Statement

/-- What may follow a mnemonic. -/
def startsOperands : List Char → Bool
  | [] => true
  | c :: _ => c == ' ' || c == '\t' || c == ','

def parseField (line : Nat) (field : List Char) : Except SyntaxError (Option Token) :=
  match trim field with
  | [] => .ok none
  | cs => (Token.parse line cs).map some

/-- The operands of an instruction, from the text behind its mnemonic; none if there are more than
three. -/
def fields? (rest : List Char) : Option (List (List Char)) :=
  if trim rest = [] then some []
  else
    let fields := rest.splitOn ','
    if 3 < fields.length then none else some fields

/-- A slot is filled if and only if the operation code uses it. -/
def checkSlot (line : Nat) (op : Opcode) (operands : Slots Token) (slot : Slot) :
    Except SyntaxError Unit :=
  match op.uses slot, operands.get slot with
  | true, none => .error (.missingOperand line op slot)
  | false, some t => .error (.unexpectedOperand line op slot t)
  | _, _ => .ok ()

/-- Reads an instruction from a line without label, comment and blanks at the ends. -/
def parse (line : Nat) (text : List Char) : Except SyntaxError Statement := do
  let mnemonic := text.takeWhile Char.isAlphanum
  let rest := text.dropWhile Char.isAlphanum
  if mnemonic = [] ∨ startsOperands rest = false then
    throw (.malformedLine line (String.ofList text))
  let op ← Opcode.parse line (String.ofList mnemonic)
  let some fields := fields? rest | throw (.malformedLine line (String.ofList text))
  let tokens ← fields.mapM (parseField line)
  let operands : Slots Token := ⟨tokens.getD 0 none, tokens.getD 1 none, tokens.getD 2 none⟩
  checkSlot line op operands .a
  checkSlot line op operands .b
  checkSlot line op operands .dst
  return ⟨line, op, operands⟩

end Statement

namespace Listing

def label? (l : Listing) (name : String) : Option Nat := l.labels.lookup name

/-- The labels in the order of their names. -/
def sortedLabels (l : Listing) : List (String × Nat) := l.labels.mergeSort fun x y => x.1 ≤ y.1

/-- The part of a line before a comment, without the blanks at its ends. -/
def code (raw : List Char) : List Char := trim (raw.takeWhile (· ≠ '#'))

/-- A line taken apart into its label and the instruction behind it. -/
def splitLabel (text : List Char) : Option String × List Char :=
  let head := text.takeWhile (· ≠ ':')
  match text.dropWhile (· ≠ ':') with
  | [] => (none, text)
  | _ :: rest => if isIdentifier head then (some (String.ofList head), trim rest) else (none, text)

/-- Marks the current end of the listing. -/
def addLabel (l : Listing) (line : Nat) : Option String → Except SyntaxError Listing
  | none => .ok l
  | some name =>
    match l.label? name with
    | some _ => .error (.duplicateLabel line name)
    | none => .ok { l with labels := l.labels ++ [(name, l.statements.length)] }

def addStatement (l : Listing) (line : Nat) (text : List Char) : Except SyntaxError Listing :=
  if text = [] then .ok l
  else (Statement.parse line text).map fun s => { l with statements := l.statements ++ [s] }

def addLine (l : Listing) (line : Nat) (raw : List Char) : Except SyntaxError Listing := do
  let (label, text) := splitLabel (code raw)
  (← l.addLabel line label).addStatement line text

/-- Reads lines into a listing, the first of them at a line number. -/
def addLines (l : Listing) (line : Nat) : List (List Char) → Except SyntaxError Listing
  | [] => .ok l
  | raw :: rest => do (← l.addLine line raw).addLines (line + 1) rest

def parse (program : String) : Except SyntaxError Listing :=
  addLines {} 1 (program.toList.splitOn '\n')

end Listing

end Lineage
