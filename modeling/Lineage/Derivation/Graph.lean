import Lineage.Operand

/-!
Graphs of derivations.

A node records a value that an operand took on, and how: as a constant, as a leaf of which nothing
more is known, or derived by an operator from other nodes. Nodes are only ever added, and a node
that is recorded again is found again. Two derivations are the same if they were recorded in the
same context with the same operator and value, and their sources agree up to order; the sources are
compared by node, except a source that was read from the derived operand itself, of which only the
value and the shape are compared, so that a value carried around a loop can meet itself.
-/

namespace Lineage

/-- A source of a derivation: a node, and the operand that it was read from. -/
structure Link where
  operand : String
  node : NodeId
deriving DecidableEq

/-- What of a source counts when derivations are compared. -/
inductive Identity
  | node (id : NodeId)
  | carried (value : Value) (shape : String)
deriving DecidableEq

structure Derivation where
  /-- The branches under which the derivation was recorded. -/
  context : String
  label : String
  sources : List NodeId
  /-- The operands that the sources were read from, with what counts of them. -/
  identities : List (String × Identity)
deriving DecidableEq

inductive Origin
  | constant
  | leaf (external : Bool)
  | derived (d : Derivation)
deriving DecidableEq, Inhabited

/-- A node does not say its number, which is its position: nodes are only added at the end, and none
is removed. -/
structure Node where
  /-- The name of the operand; a constant is called after its value. -/
  name : String
  value : Value
  origin : Origin
deriving DecidableEq, Inhabited

namespace Node

def constant (v : Value) : Node := ⟨"%" ++ Value.text v, v, .constant⟩

def isConstant (n : Node) : Bool :=
  match n.origin with
  | .constant => true
  | _ => false

def isExternal (n : Node) : Bool :=
  match n.origin with
  | .leaf external => external
  | _ => false

def derivation? (n : Node) : Option Derivation :=
  match n.origin with
  | .derived d => some d
  | _ => none

def sources (n : Node) : List NodeId :=
  match n.origin with
  | .derived d => d.sources
  | _ => []

/-- What a node looks like without its sources. -/
def shape (n : Node) : String :=
  match n.origin with
  | .constant => "%" ++ Value.text n.value
  | .derived d => d.label
  | .leaf _ => n.name

def text (n : Node) : String :=
  match n.origin with
  | .constant => "%" ++ Value.text n.value
  | _ => n.name ++ "=" ++ Value.text n.value

/-- The node has a derivation that counts as the same as another. -/
def isDerivedAs (context label : String) (value : Value) (identities : List (String × Identity))
    (n : Node) : Bool :=
  match n.origin with
  | .derived d =>
    n.value == value && d.label == label && d.identities.isPerm identities && d.context == context
  | _ => false

end Node

structure Graph where
  nodes : Array Node := #[]

namespace Graph

def size (g : Graph) : Nat := g.nodes.size

def node (g : Graph) (id : NodeId) : Node := g.nodes.getD id default

def push (g : Graph) (n : Node) : NodeId × Graph := (g.size, { g with nodes := g.nodes.push n })

/-- The first node with a property, which `n` is added for if there is none. A table of what has been
interned under a key gives the same node. -/
def intern (g : Graph) (found : Node → Bool) (n : Node) : NodeId × Graph :=
  match g.nodes.findIdx? found with
  | some id => (id, g)
  | none => g.push n

/-- The node of a constant. -/
def constant (g : Graph) (v : Value) : NodeId × Graph :=
  g.intern (fun n => n.isConstant && n.value == v) (.constant v)

/-- The node of an operand that nothing is known of but its value. -/
def leaf (g : Graph) (name : String) (v : Value) (external : Bool) : NodeId × Graph :=
  g.intern (· = ⟨name, v, .leaf external⟩) ⟨name, v, .leaf external⟩

/-- What of a source counts in a derivation of the operand `name`. -/
def identity (g : Graph) (name : String) (l : Link) : String × Identity :=
  let n := g.node l.node
  if l.operand = name ∧ n.isConstant = false then (l.operand, .carried n.value n.shape)
  else (l.operand, .node l.node)

/-- The node of the operand `name`, derived by an operator from sources. A derivation from nothing
is a new one each time. -/
def derive (g : Graph) (context name label : String) (links : List Link) (v : Value) :
    NodeId × Graph :=
  let identities := links.map (g.identity name)
  let n : Node := ⟨name, v, .derived ⟨context, label, links.map Link.node, identities⟩⟩
  if links = [] then g.push n else g.intern (Node.isDerivedAs context label v identities) n

def linkCount (g : Graph) : Nat := g.nodes.toList.countP fun n => n.derivation?.isSome

end Graph

end Lineage
