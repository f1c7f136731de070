import Lineage.Value

/-!
Reports on derivations.

A report is a list of events. An entry is opened and closed, and within it the derivation records of
the entry, each with a label and the entries it depends on. Renderers take events in any order.
-/

namespace Lineage.Report

/-- A node as a report shows it. Entries of one key are one node. -/
structure Entry where
  key : Nat
  name : String
  /-- The value is a known constant. -/
  constant : Bool := false
  /-- The value comes from outside. -/
  external : Bool := false
deriving DecidableEq

/-- The entry of a constant, called after its value. -/
def Entry.ofConstant (key : Nat) (v : Value) : Entry :=
  { key, name := "%" ++ Value.text v, constant := true }

inductive Event
  /-- The report is about this entry. -/
  | root (e : Entry)
  | openEntry (e : Entry)
  | closeEntry
  | openRecord (label : String)
  | closeRecord
  | dependency (e : Entry)
deriving DecidableEq

end Lineage.Report
