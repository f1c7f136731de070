import Lineage.Value

/-!
Input and output channels.

An input source answers a call from the calls made before it, which makes it a function of the
history of calls. A peek asks for a value without consuming it; every source given here answers a
peek as it would answer a consuming call, and does not let peeks change later answers.
-/

namespace Lineage

/-- A call of an input source, with its answer. -/
structure Read where
  channel : Nat
  peek : Bool
  value : Value
deriving DecidableEq

/-- A value written to an output channel. -/
structure Emission where
  channel : Nat
  value : Value
deriving DecidableEq

/-- The answer to a call on a channel, peeking or not, after a history of calls, latest first. -/
abbrev Source := (history : List Read) → (channel : Nat) → (peek : Bool) → Value

namespace Source

def zero : Source := fun _ _ _ => 0

/-- Each channel holds one value for good. -/
def fixed (values : List Value) : Source := fun _ channel _ => values.getD channel 0

/-- All channels draw from one sequence, and read 0 behind its end. -/
def shared (values : List Value) : Source := fun history _ _ =>
  values.getD (history.countP fun r => !r.peek) 0

/-- Each channel draws from a sequence of its own, and reads 0 behind its end. -/
def queues (values : List (List Value)) : Source := fun history channel _ =>
  (values.getD channel []).getD (history.countP fun r => !r.peek && r.channel == channel) 0

end Source

end Lineage
