import Lineage.Value

/-!
Operands as they are written in a program.
-/

namespace Lineage

open Text

inductive Token
  /-- A value, `%v`. -/
  | constant (value : Value)
  /-- The memory cell at an address, `[n]`. -/
  | memory (address : Nat)
  /-- An input channel, `INn`. -/
  | input (channel : Nat)
  /-- An output channel, `OUTn`. -/
  | output (channel : Nat)
  /-- The position that a label marks, `:name`. -/
  | label (name : String)
  /-- Any other identifier. -/
  | register (name : String)
deriving DecidableEq

/-- A letter or `_`, and then letters, digits, `_`, `$` and `.`, all ASCII. -/
def isIdentifier : List Char → Bool
  | [] => false
  | c :: cs =>
    (c.isAlpha || c == '_') && cs.all fun c => c.isAlphanum || c == '_' || c == '$' || c == '.'

namespace Token

def chars : Token → List Char
  | .constant v => '%' :: intNumeral v.toInt
  | .memory n => '[' :: natNumeral n ++ [']']
  | .input n => 'I' :: 'N' :: natNumeral n
  | .output n => 'O' :: 'U' :: 'T' :: natNumeral n
  | .label name => ':' :: name.toList
  | .register name => name.toList

def text (t : Token) : String := String.ofList t.chars

/-- A channel or, where the number does not fit a word, the register of that name. -/
def ofName? (cs : List Char) : Option Token :=
  match ((['I', 'N'].isPrefixOf? cs).bind readChannel?).map Token.input with
  | some t => some t
  | none =>
    match ((['O', 'U', 'T'].isPrefixOf? cs).bind readChannel?).map Token.output with
    | some t => some t
    | none => if isIdentifier cs then some (.register (String.ofList cs)) else none

def ofChars? : List Char → Option Token
  | '%' :: cs => (readSigned? cs).map .constant
  | '[' :: cs => if cs.getLast? = some ']' then (readUnsigned? cs.dropLast).map .memory else none
  | ':' :: cs => if isIdentifier cs then some (.label (String.ofList cs)) else none
  | cs => ofName? cs

end Token

end Lineage
