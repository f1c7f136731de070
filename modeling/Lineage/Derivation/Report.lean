import Lineage.Derivation.Tracker
import Lineage.Derivation.Ancestry
import Lineage.Report.Event

/-!
The report on what given operands are derived from.
-/

namespace Lineage

open Report

def Graph.entry (g : Graph) (id : NodeId) : Entry :=
  let n := g.node id
  { key := id, name := n.text, constant := n.isConstant, external := n.isExternal }

/-- The events for a node: an entry, with a record if the node is derived. -/
def Graph.nodeEvents (g : Graph) (id : NodeId) : List Event :=
  let record : List Event :=
    match (g.node id).derivation? with
    | none => []
    | some d =>
      .openRecord d.label :: d.sources.map (fun source => .dependency (g.entry source)) ++
        [.closeRecord]
  .openEntry (g.entry id) :: record ++ [.closeEntry]

/-- The events for all nodes that the roots are derived from, sources first. -/
def Graph.events (g : Graph) (roots : List NodeId) : List Event :=
  roots.map (fun root => .root (g.entry root)) ++ (g.lineage roots).flatMap g.nodeEvents

namespace Tracker

/-- The nodes of operands, in order; those without one are given one. -/
def nodesOf (t : Tracker) (s : Store) : List OperandId → List NodeId × Tracker
  | [] => ([], t)
  | id :: ids =>
    let (n, t) := t.nodeOf s id
    let (ns, t) := nodesOf t s ids
    (n :: ns, t)

def report (t : Tracker) (s : Store) (roots : List OperandId) : List Event × Tracker :=
  let (ns, t) := t.nodesOf s roots
  (t.graph.events ns, t)

end Tracker

end Lineage
