import DecisionDiagram.Validation
import DecisionDiagram.Walk.Unseen
/-!
Evaluation under an assignment: from the root down, at each node along the branch that the value of
its variable selects, to a terminal.
-/
namespace DecisionDiagram

abbrev Assignment := Int → Option Bool

namespace Store

/-- Follows the assignment from `r`; `passed` are the vertices on the way there. -/
def follow (s : Store) (assignment : Assignment) (passed : List Ref) (r : Ref) :
    Except Fault Bool :=
  if r ∈ passed then .error (.endlessPath r)
  else if s.isTerminal r then s.value r
  else
    match s.var? r with
    | none => .error .notOffered
    | some v =>
      match assignment v with
      | none => .error (.missingVariable v)
      | some side =>
        match _h : s.branch side r with
        | none => .error (s.raise (.missingBranch r))
        | some n => s.follow assignment (r :: passed) n
termination_by s.unseen passed
decreasing_by
  refine unseen_lt (fun _ hx => List.mem_cons_of_mem _ hx) ?_ ‹_› List.mem_cons_self
  exact (Option.bind_eq_some_iff.mp _h).elim fun _ hx => lt_size_of_vertex? hx.1

def evaluate (s : Store) (d : Ref) (assignment : Assignment) : Except Fault Bool := do
  s.follow assignment [] (← s.validatedRoot d)

end Store

end DecisionDiagram
