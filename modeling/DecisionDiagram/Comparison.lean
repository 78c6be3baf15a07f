import DecisionDiagram.Connective
import DecisionDiagram.Order.Sort
import DecisionDiagram.Validation
import DecisionDiagram.Walk.Directed
/-!
Comparison of validated diagrams by the two paths that follow one direction throughout. The terminal
values of both diagrams are combined for each direction, and the two outcomes are combined once
more.
-/
namespace DecisionDiagram

namespace Store

def outcome (s : Store) (side : Bool) (d root : Ref) : Except Fault Bool :=
  match s.terminalAlong side root with
  | some terminal => s.value terminal
  | none => .error (s.raise (.lostWalk side d))

def validatedPair (s : Store) (a b : Ref) : Except Fault (Ref × Ref) := do
  match (← s.registry a).root with
  | none => throw .pairNotValidated
  | some first =>
    match (← s.registry b).root with
    | none => throw .pairNotValidated
    | some second => return (first, second)

def combine (s : Store) (op : Connective) (a b : Ref) : Except Fault Bool := do
  let (first, second) ← s.validatedPair a b
  let upper := op.apply (← s.outcome true a first) (← s.outcome true b second)
  let lower := op.apply (← s.outcome false a first) (← s.outcome false b second)
  return op.apply upper lower

/-- Diagrams that agree under `and` are equal in order, others are ordered by the number of nodes.
-/
def compareDiagrams (s : Store) (a b : Ref) : Except Fault Ordering := do
  if ← s.combine .and a b then return .eq
  return compare (← s.registry a).size (← s.registry b).size

def sortDiagrams (s : Store) (ds : List Ref) : Except Fault (List Ref) :=
  Order.sort (fun a b => (s.compareDiagrams a b).map (· == .lt)) ds

/-- Nodes are ordered by variable, other vertices by the time of creation. -/
def precedes (s : Store) (a b : Ref) : Bool :=
  match s.var? a, s.var? b with
  | some v, some w => v < w
  | _, _ => a < b

def sortVertices (s : Store) (rs : List Ref) : Except Fault (List Ref) :=
  Order.sort (fun a b => .ok (s.precedes a b)) rs

end Store

end DecisionDiagram
