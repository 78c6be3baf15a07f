import DecisionDiagram.Walk.Unseen
/-!
Walks in one direction: from vertex to vertex along the `hi` branches only, or the `lo` branches
only. A walk ends with a terminal, where a branch is missing, or before a vertex it has met already.
-/
namespace DecisionDiagram.Store

/-- The vertices met from `r` on, given those that were met before. -/
def walkOn (s : Store) (side : Bool) (met : List Ref) (r : Ref) : List Ref :=
  if r ∈ met then [] else
  match _h : s.next side r with
  | none => [r]
  | some n => r :: s.walkOn side (r :: met) n
termination_by s.unseen met
decreasing_by
  exact unseen_lt (fun _ hx => List.mem_cons_of_mem _ hx) (lt_size_of_next _h) ‹_›
    List.mem_cons_self

def walk (s : Store) (side : Bool) (r : Ref) : List Ref := s.walkOn side [] r

def walkWithin (s : Store) (budget : Option Nat) (side : Bool) (r : Ref) : List Ref :=
  match budget with
  | some n => (s.walk side r).take n
  | none => s.walk side r

def terminalAlong (s : Store) (side : Bool) (r : Ref) : Option Ref :=
  (s.walk side r).find? s.isTerminal

end DecisionDiagram.Store
