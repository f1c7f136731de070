import Lineage.Machine

/-!
A log of the steps of a machine, with the values before and after each.
-/

namespace Lineage

structure TraceItem where
  /-- The program counter that the instruction was fetched from. -/
  pc : Value := 0
  instruction : String := ""
  running : Bool := false
  before : Store.Snapshot := []
  after : Store.Snapshot := []
deriving DecidableEq

structure Trace where
  items : Array TraceItem := #[]
  /-- The item of the step in progress. -/
  current : TraceItem := {}

/-- An item is begun at the fetch and logged at the end of the step, so a step that faults leaves
none. -/
instance : Observer Trace where
  fetched t pc := { t with current := { pc := pc.value } }
  decoded t i := { t with current.instruction := i.text }
  before t s _ := ({ t with current.before := s.snapshot }, s)
  after t s running :=
    ({ items := t.items.push { t.current with running, after := s.snapshot }, current := {} }, s)

def Trace.clear (t : Trace) : Trace := { t with items := #[] }

end Lineage
