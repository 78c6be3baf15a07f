import DecisionDiagram.Walk.Unseen
/-!
Depth-first walks: each vertex below the start is met once, before the vertices below it, the `hi`
branch before the `lo` branch. What an earlier walk has visited is skipped. A branch that leads back
to the current path is a cycle and ends the walk.
-/
namespace DecisionDiagram

structure Frame where
  vertex : Ref
  rest : List Ref
deriving DecidableEq, Repr

/-- A walk as far as it was pulled: the vertices it met in order, all visited ones, and the branch
that closed a cycle. -/
structure Pass where
  met : List Ref
  visited : List Ref
  cycle : Option (Ref × Ref)
deriving DecidableEq, Repr

namespace Pass

def stopped (visited : List Ref) : Pass := ⟨[], visited, none⟩

def prepend (r : Ref) (pass : Pass) : Pass := { pass with met := r :: pass.met }

end Pass

/-- Every successor that is still to be tried counts two, every open frame one more. -/
def pendingWork (frames : List Frame) : Nat :=
  frames.foldr (fun f work => 2 * f.rest.length + 1 + work) 0

namespace Store

/-- Goes on with the frames of the current path, the innermost first, and meets at most `budget`
further vertices if there is a budget. -/
def descend (s : Store) (budget : Option Nat) (visited : List Ref) (frames : List Frame) : Pass :=
  if budget = some 0 then .stopped visited else
  match frames with
  | [] => .stopped visited
  | ⟨_, []⟩ :: outer => s.descend budget visited outer
  | ⟨r, c :: rest⟩ :: outer =>
    if c = r ∨ c ∈ outer.map (·.vertex) then ⟨[], visited, some (r, c)⟩
    else if c ∈ visited then s.descend budget visited (⟨r, rest⟩ :: outer)
    else
      (s.descend (budget.map (· - 1)) (visited ++ [c])
        (⟨c, s.successors c⟩ :: ⟨r, rest⟩ :: outer)).prepend c
termination_by (s.unseen visited, pendingWork frames)
decreasing_by
  · apply Prod.Lex.right; simp [pendingWork]
  · apply Prod.Lex.right; simp [pendingWork]
  · -- A reference to no vertex is marked as well, but it has no successors to be tried.
    by_cases hc : c < s.size
    · apply Prod.Lex.left
      exact unseen_lt (fun _ hx => List.mem_append_left _ hx) hc ‹_› (by simp)
    · have hnone : s.successors c = [] :=
        List.eq_nil_iff_forall_not_mem.mpr fun _ hx => hc (lt_size_of_mem_successors hx)
      have hle : s.unseen (visited ++ [c]) ≤ s.unseen visited :=
        unseen_le fun _ hx => List.mem_append_left _ hx
      rcases Nat.lt_or_eq_of_le hle with h | h
      · exact Prod.Lex.left _ _ h
      · rw [h, hnone]; apply Prod.Lex.right; simp [pendingWork]; omega

def depthFirst (s : Store) (budget : Option Nat) (visited : List Ref) (start : Ref) : Pass :=
  if budget = some 0 ∨ start ∈ visited then .stopped visited
  else
    (s.descend (budget.map (· - 1)) (visited ++ [start]) [⟨start, s.successors start⟩]).prepend
      start

end Store

end DecisionDiagram
