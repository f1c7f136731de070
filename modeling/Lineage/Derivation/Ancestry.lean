import Lineage.Derivation.Graph

/-!
The nodes that given nodes are derived from, sources first.

The walk keeps a stack of visits. A node is entered when it is first met: its sources go on the
stack before the visit that leaves it, and leaving a node puts it into the order. A node is entered
only once, so each visit takes a node out of those not entered yet or shortens the stack.
-/

namespace Lineage

inductive Visit
  | enter (id : NodeId)
  | leave (id : NodeId)
deriving DecidableEq

namespace Graph

/-- Goes through a stack of visits. Nodes in `fresh` have not been entered, and `order` holds those
that have been left, latest first. -/
def visit (g : Graph) (fresh order : List NodeId) : List Visit → List NodeId
  | [] => order.reverse
  | .leave id :: stack => visit g fresh (id :: order) stack
  | .enter id :: stack =>
    if id ∈ fresh then
      let rest := fresh.erase id
      let sources := (g.node id).sources.filter (· ∈ rest)
      visit g rest order (sources.map .enter ++ .leave id :: stack)
    else visit g fresh order stack
termination_by stack => (fresh.length, stack.length)
decreasing_by
  · exact Prod.Lex.right _ (by simp)
  · rename_i h
    exact Prod.Lex.left _ _ (by
      have := List.length_erase_of_mem h
      have := List.length_pos_of_mem h
      omega)
  · exact Prod.Lex.right _ (by simp)

/-- Every node that the roots are derived from, each once and behind its sources. -/
def lineage (g : Graph) (roots : List NodeId) : List NodeId :=
  visit g (List.range g.size) [] (roots.map .enter)

end Graph

end Lineage
