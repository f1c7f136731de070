import Lineage.Derivation.Graph
import Lineage.Derivation.Outcome
import Lineage.Machine

/-!
An observer that records how the values of a machine are derived.

Before an instruction has its effect the tracker reads its sources, without consuming input, and
decides how its destination will be derived. The decision is kept, and bound to the destination once
the instruction has had its effect, when the value to be recorded is known.

A jump on a condition that is no constant starts a new context, named after the direction, the
program counter, and the operands that derivations have marked since the last such jump.
-/

namespace Lineage

/-- A binding that has been decided on and waits for the effect of the instruction. -/
inductive Pending
  /-- A node that is there already. -/
  | existing (target : OperandId) (node : NodeId)
  /-- A derivation, whose value is that of the target after the effect. -/
  | derived (target : OperandId) (context label : String) (sources : List Link)
deriving DecidableEq

structure Tracker where
  graph : Graph := {}
  /-- What waits for the effect. One place is enough for it: it is cleared before an instruction is
  decided on, and every decision is on one binding at most. -/
  pending : Option Pending := none
  /-- The last jump on a condition that was no constant, with what was known there. -/
  context : String := ""
  /-- The operands that derivations have marked since. -/
  marked : List OperandId := []

/-- What an instruction does to the derivations. -/
inductive Decision
  | nothing
  | derive (target : OperandId) (outcome : Outcome)
  | branch (taken : Bool) (pc condition : Reading)
deriving DecidableEq

namespace Tracker

/-- The node of an operand with the value `v`: the one bound to it or, without one, a constant where
the value is known, and a leaf where it is not. -/
def resolve (t : Tracker) (o : Operand) (v : Value) : NodeId × Tracker :=
  match o.node with
  | some n => (n, t)
  | none =>
    let (n, g) := if o.isKnown then t.graph.constant v else t.graph.leaf o.name v o.isExternal
    (n, { t with graph := g })

def nodeOf (t : Tracker) (s : Store) (id : OperandId) : NodeId × Tracker :=
  t.resolve (s.operand id) (s.operand id).recorded

/-! ### Deciding -/

/-- A computation that looks into the store and may add nodes. -/
abbrev Looking := StateM (Tracker × Store)

def peek (id : OperandId) : Looking Value := fun (t, s) =>
  let (v, s) := s.peek id
  (v, (t, s))

def read (id : OperandId) : Looking Reading := fun (t, s) =>
  let (v, s) := s.peek id
  let o := s.operand id
  let (n, t) := t.resolve o v
  (⟨some id, o.name, n, v, (t.graph.node n).isConstant⟩, (t, s))

/-- The memory cell at the address that an operand holds. -/
def cellAt (id : OperandId) : Looking (Option OperandId) := do
  let address ← peek id
  let (_, s) ← get
  return (s.memoryCell address).toOption

def plan (i : Instruction) : Looking Decision :=
  match i.opcode, i.id? .a, i.id? .b, i.id? .dst with
  | .binary op, some a, some b, some dst => do
    let x ← read a
    let y ← read b
    return .derive dst (.ofBinary op x y)
  | .ldm, some a, _, some dst => do
    match ← cellAt a with
    | some cell => return .derive dst (.source (← read cell))
    | none => return .nothing
  | .stm, some a, _, some dst => do
    match ← cellAt dst with
    | some cell => return .derive cell (.source (← read a))
    | none => return .nothing
  | .str, some a, _, some dst => return .derive dst (.source (← read a))
  | .bisz, some a, _, some dst => return .derive dst (.ofTest (← read a))
  | .jcc, some a, _, some _ => do
    let condition ← read a
    if condition.constant then return .nothing
    return .branch (condition.value ≠ 0) (← read Store.pc) condition
  | .undef, _, _, some dst => return .derive dst (.derived .undefined [])
  | _, _, _, _ => return .nothing

/-! ### Adopting a decision -/

/-- Constants are not marked: they do not change. -/
def mark (t : Tracker) (s : Store) (id : OperandId) : Tracker :=
  if (s.operand id).kind.isConstant then t else { t with marked := t.marked.insert id }

def markSource (t : Tracker) (s : Store) (r : Reading) : Tracker :=
  match r.operand with
  | some id => t.mark s id
  | none => t

def markAll (t : Tracker) (s : Store) (sources : List Reading) (target : OperandId) : Tracker :=
  (sources.foldl (fun t r => t.markSource s r) t).mark s target

def pendDerived (t : Tracker) (s : Store) (target : OperandId) (op : Operator)
    (sources : List Reading) : Tracker :=
  let links := sources.map fun r => ⟨r.name, r.node⟩
  { t.markAll s sources target with pending := some (.derived target t.context op.text links) }

/-- An output channel does not take over the node of a source: what is emitted has a derivation of
its own. -/
def pendSource (t : Tracker) (s : Store) (target : OperandId) (source : Reading) : Tracker :=
  match (s.operand target).kind with
  | .output _ => t.pendDerived s target .copy [source]
  | _ => { t.markAll s [source] target with pending := some (.existing target source.node) }

def pendConstant (t : Tracker) (s : Store) (target : OperandId) (v : Value) : Tracker :=
  let (n, g) := t.graph.constant v
  { t with graph := g }.pendSource s target ⟨none, (g.node n).name, n, v, true⟩

/-- What is known of an operand, as a context records it. -/
def stateText (g : Graph) (o : Operand) : String :=
  let (v, shape) :=
    match o.node with
    | some n => ((g.node n).value, (g.node n).shape)
    | none => (o.recorded, if o.isKnown then "%" ++ Value.text o.recorded else o.name)
  o.name ++ "=" ++ Value.text v ++ ":" ++ shape

/-- Puts a text in its place among others in order. -/
def place (text : String) : List String → List String
  | [] => [text]
  | other :: rest => if text ≤ other then text :: other :: rest else other :: place text rest

/-- Starts a new context at a jump. -/
def branch (t : Tracker) (s : Store) (taken : Bool) : Tracker :=
  let states := (t.marked.map fun id => stateText t.graph (s.operand id)).foldr place []
  let direction := if taken then "Y" else "N"
  { t with
    context := direction ++ "@" ++ Value.text s.pcValue ++ "|" ++ ";".intercalate states
    marked := [] }

def adopt (t : Tracker) (s : Store) : Decision → Tracker
  | .nothing => t
  | .derive target (.source reading) => t.pendSource s target reading
  | .derive target (.constant v) => t.pendConstant s target v
  | .derive target (.derived op sources) => t.pendDerived s target op sources
  | .derive _ .nothing => t
  | .branch taken pc condition =>
    (t.pendDerived s Store.pc (.jump taken) [pc, condition]).branch s taken

/-! ### The observer -/

/-- Decides what the instruction will do to the derivations. -/
def anticipate (t : Tracker) (s : Store) (i : Instruction) : Tracker × Store :=
  let (d, t, s) := plan i ({ t with pending := none }, s)
  (t.adopt s d, s)

/-- Binds what has been decided on, with the value that the target has now. -/
def settle (t : Tracker) (s : Store) : Tracker × Store :=
  match t.pending with
  | none => (t, s)
  | some (.existing target node) => ({ t with pending := none }, s.bind target node)
  | some (.derived target context label sources) =>
    let o := s.operand target
    let (n, g) := t.graph.derive context o.name label sources o.recorded
    ({ t with graph := g, pending := none }, s.bind target n)

/-- Forgets all that has been recorded. -/
def reset (s : Store) : Tracker × Store := ({}, s.unbindAll)

instance : Observer Tracker where
  before t s i := t.anticipate s i
  after t s _ := t.settle s

end Tracker

end Lineage
