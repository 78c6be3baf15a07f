import DecisionDiagram.Order.Sort
import DecisionDiagram.Proofs.EditTells
/-! Sorting by questions that are edits. If each question tells an answer, the sort tells the list
that is sorted by the answers: the same elements are compared, in the same order. -/
namespace DecisionDiagram

namespace Order

variable {α : Type} {s : Store} {d : Direction} {asks : α → Edit Bool}
variable {holds : α → Except Fault Bool}
variable {question : α → α → Edit Bool} {precedes : α → α → Except Fault Bool} {xs ys : List α}
variable {x y : α}
variable {low high next threshold depth least whole start : Nat}

section Search

variable (h : ∀ x, (asks x).Tells s (holds x))
include h

theorem tells_bisect {bound : high ≤ xs.length} :
    (bisect d asks xs low high bound).Tells s (bisect d holds xs low high bound) := by
  fun_induction bisect d holds xs low high bound with
  | case1 low high bound hlt hm ihHigher ihLower =>
    rw [bisect, dif_pos hlt]
    refine tells_bind (h _) fun b _ => ?_
    cases b with
    | true => exact ihHigher
    | false => exact ihLower
  | case2 low high bound hlt =>
    rw [bisect, dif_neg hlt]
    exact tells_pure _

theorem tells_gallop : (gallop d asks xs low next).Tells s (gallop d holds xs low next) := by
  fun_induction gallop d holds xs low next with
  | case1 low next hlt ih =>
    rw [gallop, dif_pos hlt]
    refine tells_bind (h _) fun b _ => ?_
    cases b with
    | true => exact ih
    | false => exact tells_bisect h
  | case2 low next hlt =>
    rw [gallop, dif_neg hlt]
    exact tells_bisect h

end Search

theorem tells_not {x : Edit Bool} {p : Except Fault Bool} (h : x.Tells s p) :
    Edit.Tells (do return !(← x)) s (do return !(← p)) :=
  tells_bind h fun _ _ => tells_pure _

section Runs

variable (h : ∀ x y, (question x y).Tells s (precedes x y))
include h

theorem tells_leads (d : Direction) (x y : α) :
    (d.leads question x y).Tells s (d.leads precedes x y) := by
  cases d with
  | up => exact tells_not (h y x)
  | down => exact h y x

theorem tells_takeRun : (takeRun question x xs).Tells s (takeRun precedes x xs) := by
  induction xs generalizing x with
  | nil => exact tells_pure _
  | cons y ys ih =>
    refine tells_bind (h y x) fun b _ => ?_
    cases b with
    | true => exact tells_bind ih fun _ _ => tells_pure _
    | false => exact tells_pure _

theorem tells_insertSorted : (insertSorted question xs x).Tells s (insertSorted precedes xs x) :=
  tells_bind (tells_bisect fun y => tells_not (h x y)) fun _ _ => tells_pure _

theorem tells_headRun : (headRun question x xs).Tells s (headRun precedes x xs) := by
  cases xs with
  | nil => exact tells_pure _
  | cons y ys =>
    refine tells_bind (h y x) fun falling _ => tells_bind (tells_takeRun fun b a => ?_) fun _ _ =>
      tells_pure _
    exact tells_bind (h b a) fun _ _ => tells_pure _

theorem tells_cutRun : (cutRun question least x xs).Tells s (cutRun precedes least x xs) :=
  tells_bind (tells_headRun h) fun _ _ =>
    tells_foldlM (motive := fun _ => True) trivial (fun _ _ _ _ _ _ => trivial) fun _ _ _ _ =>
      tells_insertSorted h

theorem tells_merge {pace : Pace} :
    (merge d question threshold pace xs ys).Tells s (merge d precedes threshold pace xs ys) := by
  fun_induction merge d precedes threshold pace xs ys with
  | case1 threshold pace x xs y ys hsettled =>
    unfold merge
    rw [if_pos hsettled]
    exact tells_pure _
  | case2 threshold x xs y ys hsettled lower upper ihLower ihUpper =>
    rw [merge, if_neg hsettled]
    refine tells_bind (tells_leads h d x y) fun b _ => ?_
    cases b with
    | true => exact tells_bind ihLower fun _ _ => tells_pure _
    | false => exact tells_bind ihUpper fun _ _ => tells_pure _
  | case3 threshold x xs y ys hsettled ih =>
    rw [merge, if_neg hsettled]
    refine tells_bind (tells_gallop fun x => tells_leads h d x y) fun n _ => ?_
    exact tells_bind (ih n) fun _ _ => tells_pure _
  | case4 threshold x xs y ys hsettled n ih =>
    rw [merge, if_neg hsettled]
    refine tells_bind (tells_gallop fun y => tells_not (tells_leads h d x y)) fun k _ => ?_
    exact tells_bind (ih k _ _) fun _ _ => tells_pure _
  | case5 threshold pace xs ys hempty =>
    rw [merge]
    · exact tells_pure _
    · exact hempty

theorem tells_interleave :
    (interleave question threshold xs ys).Tells s (interleave precedes threshold xs ys) := by
  unfold interleave
  split
  · split
    · exact tells_pure _
    · exact tells_bind (tells_merge h) fun _ _ => tells_pure _
  · split
    · exact tells_pure _
    · exact tells_bind (tells_merge h) fun _ _ => tells_pure _

theorem tells_join : (join question threshold xs ys).Tells s (join precedes threshold xs ys) := by
  cases ys with
  | nil => exact tells_pure _
  | cons y ys =>
    refine tells_bind (tells_gallop fun x => tells_leads h .up x y) fun n _ => ?_
    split
    · exact tells_pure _
    · rename_i x _
      refine tells_bind (tells_gallop fun y => tells_not (tells_leads h .down x y)) fun k _ => ?_
      exact tells_bind (tells_interleave h) fun _ _ => tells_pure _

theorem tells_collapse {last : List α} {waiting : List (Waiting α)} :
    (collapse question depth threshold last waiting).Tells s
      (collapse precedes depth threshold last waiting) := by
  induction waiting generalizing threshold last with
  | nil => exact tells_pure _
  | cons w below ih =>
    unfold collapse
    split
    · exact tells_bind (tells_join h) fun _ _ => ih
    · exact tells_pure _

theorem tells_finish {last : List α} {waiting : List (Waiting α)} :
    (finish question threshold last waiting).Tells s (finish precedes threshold last waiting) := by
  fun_induction finish precedes threshold last waiting with
  | case1 =>
    rw [finish]
    exact tells_pure _
  | case2 threshold last v =>
    rw [finish]
    exact tells_bind (tells_join h) fun _ _ => tells_pure _
  | case3 threshold last v w below hshort ih =>
    rw [finish, if_pos hshort]
    exact tells_bind (tells_join h) fun joined _ => ih joined
  | case4 threshold last v w below hshort ih =>
    rw [finish, if_neg hshort]
    exact tells_bind (tells_join h) fun joined _ => ih joined

theorem tells_gather {runs : Runs α} :
    (gather question whole start runs xs).Tells s (gather precedes whole start runs xs) := by
  fun_induction gather precedes whole start runs xs with
  | case1 =>
    rw [gather]
    exact tells_finish h
  | case2 start runs x xs ih =>
    rw [gather]
    exact tells_bind (tells_cutRun h) fun run _ => tells_bind (tells_collapse h) fun left _ =>
      ih run left

theorem tells_sort (xs : List α) : (sort question xs).Tells s (sort precedes xs) := by
  cases xs with
  | nil => exact tells_pure _
  | cons x xs => exact tells_bind (tells_cutRun h) fun _ _ => tells_gather h

end Runs

end Order

end DecisionDiagram
