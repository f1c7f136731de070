import Lineage.Report.Event
import Lineage.Text.Cut
import Lineage.Text.Quoted

/-!
Reports as text, a line for every entry with a derivation record:
`name <= label(dependency, dependency), label(dependency)`.

Entries without a record show up only as dependencies. `Line.parse` reads a line back; a label may
hold brackets, the names of dependencies may not.
-/

namespace Lineage.Report

open Text

/-- A derivation record: an operator and what it was applied to. -/
structure Record where
  label : String
  dependencies : List String
deriving DecidableEq

structure Line where
  name : String
  records : List Record
deriving DecidableEq

/-- A line that cannot be read. -/
inductive LineError
  | missingSeparator (line : String)
  | malformedRecord (text : String)
deriving DecidableEq

def LineError.message : LineError → String
  | .missingSeparator line => s!"missing ` <= ` separator in {quote line}"
  | .malformedRecord text => s!"malformed derivation record {quote text}"

namespace Record

def text (r : Record) : String := r.label ++ "(" ++ ", ".intercalate r.dependencies ++ ")"

/-- The text before and behind the last opening bracket. -/
def cutLast? (cs : List Char) : Option (List Char × List Char) :=
  match cs.reverse.dropWhile (· ≠ '(') with
  | [] => none
  | _ :: l => some (l.reverse, (cs.reverse.takeWhile (· ≠ '(')).reverse)

def parse? (cs : List Char) : Option Record :=
  match cs.getLast?, cutLast? cs.dropLast with
  | some ')', some (label, rest) =>
    if label = [] then none
    else some ⟨String.ofList label,
      if rest = [] then [] else (split [',', ' '] rest).map String.ofList⟩
  | _, _ => none

def parse (cs : List Char) : Except LineError Record :=
  match parse? cs with
  | some r => .ok r
  | none => .error (.malformedRecord (String.ofList cs))

end Record

namespace Line

def text (l : Line) : String := l.name ++ " <= " ++ ", ".intercalate (l.records.map Record.text)

/-- A bracket that was cut off goes back to each record but the last. -/
def closeAll : List (List Char) → List (List Char)
  | [] => []
  | [cs] => [cs]
  | cs :: rest => (cs ++ [')']) :: closeAll rest

def parse (line : String) : Except LineError Line :=
  match cut? [' ', '<', '=', ' '] line.toList with
  | none => .error (.missingSeparator line)
  | some (name, rest) =>
    ((closeAll (split [')', ',', ' '] rest)).mapM Record.parse).map (⟨String.ofList name, ·⟩)

end Line

/-- The lines of a report in the making, with the entry and the record in progress. -/
structure Lines where
  lines : List Line := []
  entry : String := ""
  records : List Record := []
  label : String := ""
  dependencies : List String := []

namespace Lines

def add (l : Lines) : Event → Lines
  | .root _ => l
  | .openEntry e => { l with entry := e.name, records := [] }
  | .closeEntry =>
    if l.records = [] then l else { l with lines := l.lines ++ [⟨l.entry, l.records⟩] }
  | .openRecord label => { l with label, dependencies := [] }
  | .closeRecord => { l with records := l.records ++ [⟨l.label, l.dependencies⟩] }
  | .dependency e => { l with dependencies := l.dependencies ++ [e.name] }

def ofEvents (events : List Event) : Lines := events.foldl add {}

def texts (l : Lines) : List String := l.lines.map Line.text

def text (l : Lines) : String := "\n".intercalate l.texts

end Lines

end Lineage.Report
