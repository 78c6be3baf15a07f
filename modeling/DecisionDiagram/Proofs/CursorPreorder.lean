import DecisionDiagram.Cursor
import DecisionDiagram.Proofs.DepthFirstVisits
import DecisionDiagram.Proofs.DepthFirstWalk
import DecisionDiagram.Proofs.FaultWording
import Mathlib
/-! Walks in depth-first pre-order. A walk that is pulled to its end meets what lies below its start
off the vertices seen before, in that order, or stops where it comes to a cycle. A walk that is
pulled part of the way has met as many of the same vertices, and all of them are on the trail of its
cursor. -/
namespace DecisionDiagram
open Numeral Relation

namespace Pass

variable {pass : Pass} {seen : List Ref} {r : Ref} {n : Nat}

/-- As much of a walk as has met `n` vertices. -/
def within (pass : Pass) (seen : List Ref) (n : Nat) : Pass :=
  ⟨pass.met.take n, seen ++ pass.met.take n, if n ≤ pass.met.length then none else pass.cycle⟩

end Pass

namespace Store

variable {s : Store} {budget : Option Nat} {visited seen order below rs qs : List Ref}
variable {frames : List Frame}
variable {start r x y : Ref} {n : Nat}

/-- The vertices that are met when some are visited one after the other. A vertex that was visited
before is skipped. A new one is met first, then what is new below each of its successors, then what
is new beside it. -/
inductive Preorder (s : Store) : List Ref → List Ref → List Ref → Prop
  | done (visited : List Ref) : Preorder s visited [] []
  | skip {visited rs order : List Ref} {r : Ref} (hold : r ∈ visited)
      (hrest : Preorder s visited rs order) :
    Preorder s visited (r :: rs) order
  | meet {visited rs below beside : List Ref} {r : Ref} (hnew : r ∉ visited)
      (hbelow : Preorder s (visited ++ [r]) (s.successors r) below)
      (hbeside : Preorder s (visited ++ r :: below) rs beside) :
        Preorder s visited (r :: rs) (r :: (below ++ beside))

def Fresh (s : Store) (seen : List Ref) (start r : Ref) : Prop :=
  start ∉ seen ∧ ReflTransGen (s.LeadsOff seen) start r

theorem preorder_iff_visits :
    s.Preorder visited rs order ↔ Visits s.successors visited rs order := by
  constructor
  · intro h
    induction h with
    | done visited => exact .done visited
    | skip hold _ ih => exact .skip hold ih
    | meet hnew _ _ ihBelow ihBeside => exact .meet hnew ihBelow ihBeside
  · intro h
    induction h with
    | done visited => exact .done visited
    | skip hold _ ih => exact .skip hold ih
    | meet hnew _ _ ihBelow ihBeside => exact .meet hnew ihBelow ihBeside

namespace Preorder

theorem append {rest : List Ref} (h : s.Preorder visited rs order)
    (hrest : s.Preorder (visited ++ order) qs rest) :
    s.Preorder visited (rs ++ qs) (order ++ rest) :=
  preorder_iff_visits.mpr ((preorder_iff_visits.mp h).append (preorder_iff_visits.mp hrest))

theorem unique {order' : List Ref} (h : s.Preorder visited rs order)
    (h' : s.Preorder visited rs order') : order = order' :=
  (preorder_iff_visits.mp h).unique (preorder_iff_visits.mp h')

theorem mem_iff (h : s.Preorder seen [start] order) : x ∈ order ↔ s.Fresh seen start x :=
  (preorder_iff_visits.mp h).mem_iff

end Preorder

theorem successors_of_size_le (h : s.size ≤ r) : s.successors r = [] :=
  List.eq_nil_iff_forall_not_mem.mpr fun _ hx => Nat.not_lt.mpr h (lt_size_of_mem_successors hx)

theorem descend_zero : s.descend (some 0) visited frames = .stopped visited := by
  rw [Store.descend.eq_def, if_pos rfl]

theorem descend_cons {c : Ref} {rest : List Ref} (hbudget : budget ≠ some 0) :
    s.descend budget visited (⟨r, c :: rest⟩ :: frames) =
      if c = r ∨ c ∈ frames.map (·.vertex) then ⟨[], visited, some (r, c)⟩
      else if c ∈ visited then s.descend budget visited (⟨r, rest⟩ :: frames)
      else (s.descend (budget.map (· - 1)) (visited ++ [c])
        (⟨c, s.successors c⟩ :: ⟨r, rest⟩ :: frames)).prepend c := by
  rw [Store.descend, if_neg hbudget]

end Store

end DecisionDiagram
