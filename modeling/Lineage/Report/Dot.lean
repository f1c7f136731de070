import Lineage.Report.Event

/-!
Reports as Graphviz graphs.

Every entry is a node, and every dependency an edge to it. A derivation record on one dependency is
a labelled edge; a record on more or on none is a join node with the label, which leads to the
dependencies. The records of an entry that has several are reached through a `phi` node. No
statement is written twice. Only edges of one entry can be equal, since nodes have numbers of their
own, so repetitions are looked for there.
-/

namespace Lineage.Report

/-- A derivation record whose dependencies are keys of entries. -/
structure KeyedRecord where
  label : String
  dependencies : List Nat := []
deriving DecidableEq

/-- What a graph is drawn from. -/
structure Dot where
  /-- The entries in the order of their first mention, which gives them their numbers. -/
  entries : List Entry := []
  /-- The records of each entry that was opened, in the order of the first opening. -/
  records : List (Nat × List KeyedRecord) := []
  /-- The keys of the roots. -/
  roots : List Nat := []
  /-- The key of the open entry. -/
  current : Option Nat := none

inductive Dot.Shape
  | box | ellipse | circle
deriving DecidableEq

def Dot.Shape.text : Shape → String
  | .box => "box"
  | .ellipse => "ellipse"
  | .circle => "circle"

inductive Dot.Style
  /-- A node of a root. -/
  | root
  /-- A node of another entry. -/
  | solid
  /-- A node that records join in. -/
  | filled
deriving DecidableEq

def Dot.Style.text : Style → String
  | .root => "\"bold,filled\""
  | .solid => "solid"
  | .filled => "filled"

/-- A statement of a graph. Nodes are given by number. -/
inductive Dot.Statement
  | node (id : Nat) (label : String) (shape : Shape) (style : Style)
  | edge (source target : Nat) (label : Option String)
deriving DecidableEq

namespace Dot.Statement

/-- The text with a backslash before every quote. -/
def escape (s : String) : String :=
  String.ofList (s.toList.flatMap fun c => if c = '"' then ['\\', '"'] else [c])

def text : Statement → String
  | .node id label shape style =>
    s!"ID_{id} [label=\"" ++ escape label ++ s!"\" shape={shape.text} style={style.text}];"
  | .edge source target none => s!"ID_{source} -> ID_{target};"
  | .edge source target (some label) =>
    s!"ID_{source} -> ID_{target} [label=\"" ++ escape label ++ "\"];"

end Dot.Statement

namespace Dot

/-- Adds an entry that has not been mentioned yet. -/
def mention (d : Dot) (e : Entry) : Dot :=
  if d.entries.any (·.key = e.key) then d else { d with entries := d.entries ++ [e] }

/-- Puts records in the place of those of a key, or at the end. -/
def putRecords (key : Nat) (rs : List KeyedRecord) :
    List (Nat × List KeyedRecord) → List (Nat × List KeyedRecord)
  | [] => [(key, rs)]
  | e :: rest => if e.1 = key then (key, rs) :: rest else e :: putRecords key rs rest

/-- Changes the records of the open entry. -/
def updateCurrent (d : Dot) (f : List KeyedRecord → List KeyedRecord) : Dot :=
  match d.current with
  | none => d
  | some key =>
    { d with records := d.records.map fun e => if e.1 = key then (e.1, f e.2) else e }

def addToLast (key : Nat) : List KeyedRecord → List KeyedRecord
  | [] => []
  | [r] => [{ r with dependencies := r.dependencies ++ [key] }]
  | r :: rest => r :: addToLast key rest

def add (d : Dot) : Event → Dot
  | .root e => { d with roots := d.roots.insert e.key }
  | .openEntry e =>
    let d := d.mention e
    { d with records := putRecords e.key [] d.records, current := some e.key }
  | .closeEntry => { d with current := none }
  | .openRecord label => d.updateCurrent (· ++ [{ label }])
  | .closeRecord => d
  | .dependency e => (d.mention e).updateCurrent (addToLast e.key)

def ofEvents (events : List Event) : Dot := events.foldl add {}

/-- The number of the node of a key. -/
def number (d : Dot) (key : Nat) : Nat := d.entries.findIdx (·.key = key)

/-- What the label of a node is turned into before it is drawn. -/
abbrev Filter := String → String

def entryStatement (d : Dot) (filter : Filter) (e : Entry) : Statement :=
  .node (d.number e.key) (filter e.name) (if e.constant || e.external then .box else .ellipse)
    (if e.key ∈ d.roots then .root else .solid)

def joinStatement (filter : Filter) (id : Nat) (label : String) : Statement :=
  .node id (filter label) .circle .filled

/-- A record drawn from a node, and the next number for a join node after it. -/
def recordStatements (d : Dot) (filter : Filter) (source next : Nat) (r : KeyedRecord) :
    List Statement × Nat :=
  match r.dependencies with
  | [key] => ([.edge source (d.number key) (some r.label)], next)
  | keys =>
    (joinStatement filter next r.label :: .edge source next none ::
      keys.map (fun key => .edge next (d.number key) none), next + 1)

def recordsStatements (d : Dot) (filter : Filter) (source next : Nat) :
    List KeyedRecord → List Statement × Nat
  | [] => ([], next)
  | r :: rs =>
    let (first, next) := d.recordStatements filter source next r
    let (rest, next) := recordsStatements d filter source next rs
    (first ++ rest, next)

/-- The records of an entry, several of them behind a `phi` node, with each statement once. -/
def fanStatements (d : Dot) (filter : Filter) (next : Nat) (key : Nat) (rs : List KeyedRecord) :
    List Statement × Nat :=
  if 1 < rs.length then
    let (rest, next') := d.recordsStatements filter next (next + 1) rs
    (joinStatement filter next "phi" :: .edge (d.number key) next none :: rest.eraseDups, next')
  else
    let (all, next') := d.recordsStatements filter (d.number key) next rs
    (all.eraseDups, next')

def allStatements (d : Dot) (filter : Filter) (next : Nat) :
    List (Nat × List KeyedRecord) → List Statement
  | [] => []
  | (key, rs) :: rest =>
    let (first, next) := d.fanStatements filter next key rs
    first ++ allStatements d filter next rest

def statements (d : Dot) (filter : Filter) : List Statement :=
  d.entries.map (d.entryStatement filter) ++ d.allStatements filter d.entries.length d.records

def lines (d : Dot) (filter : Filter) : List String :=
  "digraph \x7b" :: (d.statements filter).map Statement.text ++ ["\x7d"]

def text (d : Dot) (filter : Filter) : String := "\n".intercalate (d.lines filter)

end Dot

end Lineage.Report
