import DecisionDiagram.Diagram
import DecisionDiagram.Walk.DepthFirst
/-!
Validation fixes the root of a diagram: the one node that has no parent but the diagram. The walk
below the root must not meet a cycle.
-/
namespace DecisionDiagram

namespace Store

/-- The nodes of which every parent is the diagram, by variable. -/
def rootCandidates (s : Store) (d : Ref) (g : Registry) : List Ref :=
  g.nodes.filter fun r => (s.parents r).all (· == d)

def firstCycle (s : Store) (visited : List Ref) : List Ref → Option (Ref × Ref)
  | [] => none
  | r :: rs =>
    let pass := s.depthFirst none visited r
    match pass.cycle with
    | some edge => some edge
    | none => s.firstCycle pass.visited rs

/-- The root that validation finds. Without a candidate every node has a parent, and a cycle is
reported if there is one. -/
def findRoot (s : Store) (d : Ref) (g : Registry) : Except Fault Ref :=
  match s.rootCandidates d g with
  | [root] =>
    match (s.depthFirst none [] root).cycle with
    | some (source, target) => .error (s.raise (.cyclicPath source target))
    | none => .ok root
  | [] =>
    match s.firstCycle [] g.nodes with
    | some (source, target) => .error (s.raise (.cyclicPath source target))
    | none => .error (s.raise (.rootCount []))
  | candidates => .error (s.raise (.rootCount candidates))

def validatedRoot (s : Store) (d : Ref) : Except Fault Ref := do
  match (← s.registry d).root with
  | some root => return root
  | none => throw (.notValidated d)

end Store

/-- Validates a diagram and returns its root; a second time there is nothing left to do. -/
def Diagram.validate (d : Ref) : Edit Ref := do
  let g ← observe (·.registry d)
  match g.root with
  | some root => return root
  | none =>
    let root ← observe (·.findRoot d g)
    modify (·.updateRegistry d (·.setRoot root))
    return root

end DecisionDiagram
