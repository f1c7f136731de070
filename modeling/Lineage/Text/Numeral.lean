/-!
Decimal numerals of natural numbers and integers.

Numerals are written without leading zeros and without a plus sign, and read with both allowed.
What is read has to fit a 64-bit word, unsigned or signed.
-/

namespace Lineage.Text

def natNumeral (n : Nat) : List Char := Nat.toDigits 10 n

def intNumeral : Int → List Char
  | .ofNat n => natNumeral n
  | .negSucc n => '-' :: natNumeral (n + 1)

/-- The number that a nonempty run of digits stands for. -/
def readDigits? (cs : List Char) : Option Nat :=
  if !cs.isEmpty && cs.all Char.isDigit then some (Nat.ofDigitChars 10 cs 0) else none

/-- An unsigned word written in digits alone. -/
def readChannel? (cs : List Char) : Option Nat :=
  (readDigits? cs).filter (· < UInt64.size)

/-- An unsigned word, perhaps with a plus sign. -/
def readUnsigned? : List Char → Option Nat
  | '+' :: cs => readChannel? cs
  | cs => readChannel? cs

/-- An integer, perhaps with a sign. -/
def readInt? : List Char → Option Int
  | '+' :: cs => (readDigits? cs).map Int.ofNat
  | '-' :: cs => (readDigits? cs).map fun n => -Int.ofNat n
  | cs => (readDigits? cs).map Int.ofNat

/-- A signed word, perhaps with a sign. -/
def readSigned? (cs : List Char) : Option Int64 :=
  ((readInt? cs).filter fun i => Int64.minValue.toInt ≤ i && i ≤ Int64.maxValue.toInt).map
    Int64.ofInt

end Lineage.Text
