import Lineage.Text.Numeral

/-!
Machine values: signed 64-bit words with wrapping arithmetic.
-/

namespace Lineage

/-- A signed 64-bit word. -/
abbrev Value := Int64

/-- A value in decimal, as it stands in names and messages. -/
def Value.text (v : Value) : String := String.ofList (Text.intNumeral v.toInt)

/-- The truth value as a word. -/
def Value.ofBool (b : Bool) : Value := if b then 1 else 0

/-- Shifts right by `n` bits, filling with the sign, or left by `-n` bits when `n` is negative. A
shift by the width of a word or more leaves the sign on the right and nothing on the left. -/
def shift (v n : Value) : Value :=
  if 0 ≤ n then
    if 64 ≤ n then (if v < 0 then -1 else 0) else v >>> n
  else
    if n ≤ -64 then 0 else v <<< (-n)

end Lineage
