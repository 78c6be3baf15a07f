import DecisionDiagram.Order.Merge
import DecisionDiagram.Order.Run
/-!
Sorting by merging runs. The list is cut into runs from left to right, and a run waits until the
runs that it is to be joined with are known: of three neighbouring runs those are joined first whose
boundary lies deeper when the whole list is halved again and again. To ask whether an element
precedes another may fail, and then the sorting fails with it, or it may change something: the
questions are asked one after the other. A list that is sorted is a rearrangement of the one given,
whatever the relation (`perm_of_sort`).
-/
namespace DecisionDiagram.Order

variable {m : Type → Type} [Monad m] {ε α : Type}

/-- Halves a length until it is below 64, and adds one if a half was not whole. -/
def halved (length lost : Nat) : Nat :=
  if length < 64 then length + lost else halved (length / 2) (max lost (length % 2))
termination_by length

def leastRun (length : Nat) : Nat := halved length 0

def depthBetween (whole low high : Nat) : Nat :=
  if low < high ∧ high - low < whole ∧ low / whole = high / whole then
    depthBetween whole (2 * low) (2 * high) + 1
  else 1
termination_by whole - (high - low)

/-- The depth of the boundary between two neighbouring runs, as that of their middles, of which the
doubles are taken. -/
def boundaryDepth (whole start lower upper : Nat) : Nat :=
  depthBetween whole (2 * start + lower) (2 * start + 2 * lower + upper)

structure Waiting (α : Type) where
  run : List α
  depth : Nat
deriving Repr

/-- The runs that have been cut so far: the last one, and those that wait below it, the nearest
first. -/
structure Runs (α : Type) where
  last : List α
  waiting : List (Waiting α)
  threshold : Nat
deriving Repr

def Runs.elements (runs : Runs α) : List α := runs.last ++ runs.waiting.flatMap (·.run)

def collapse (precedes : α → α → m Bool) (depth threshold : Nat) (last : List α) :
    List (Waiting α) → m (Runs α)
  | [] => return ⟨last, [], threshold⟩
  | w :: below =>
    if depth < w.depth then do
      let joined ← join precedes threshold w.run last
      collapse precedes depth joined.threshold joined.list below
    else return ⟨last, w :: below, threshold⟩

/-- Joins all runs. The nearest waiting run is joined with the shorter one of its neighbours. -/
def finish (precedes : α → α → m Bool) (threshold : Nat) (last : List α) :
    List (Waiting α) → m (List α)
  | [] => return last
  | [v] => return (← join precedes threshold v.run last).list
  | v :: w :: below =>
    if w.run.length < last.length then do
      let joined ← join precedes threshold w.run v.run
      finish precedes joined.threshold last (⟨joined.list, w.depth⟩ :: below)
    else do
      let joined ← join precedes threshold v.run last
      finish precedes joined.threshold joined.list (w :: below)
termination_by waiting => waiting.length

def gather (precedes : α → α → m Bool) (whole start : Nat) (runs : Runs α) : List α → m (List α)
  | [] => finish precedes runs.threshold runs.last runs.waiting
  | x :: xs => do
    let run ← cutRun precedes (leastRun whole) x xs
    let depth := boundaryDepth whole start runs.last.length run.length
    let left ← collapse precedes depth runs.threshold runs.last runs.waiting
    gather precedes whole (start + runs.last.length)
      ⟨run, ⟨left.last, depth⟩ :: left.waiting, left.threshold⟩ (afterRun run xs)
termination_by rest => rest.length
decreasing_by exact Nat.lt_succ_of_le (length_afterRun_le run xs)

/-- Sorts a list; elements of which none precedes the other keep their order. -/
def sort (precedes : α → α → m Bool) : List α → m (List α)
  | [] => return []
  | x :: xs => do
    let run ← cutRun precedes (leastRun (x :: xs).length) x xs
    gather precedes (x :: xs).length 0 ⟨run, [], payingLength⟩ (afterRun run xs)

theorem perm_of_join_append {precedes : α → α → Except ε Bool} {threshold : Nat} {xs ys zs : List α}
    {merged : Merged α} (h : join precedes threshold xs ys = .ok merged) :
    (merged.list ++ zs).Perm (ys ++ (xs ++ zs)) := by
  rw [← List.append_assoc]
  exact ((perm_of_join h).trans List.perm_append_comm).append_right zs

theorem perm_of_collapse {precedes : α → α → Except ε Bool} {depth threshold : Nat} {last : List α}
    {waiting : List (Waiting α)} {runs : Runs α}
    (h : collapse precedes depth threshold last waiting = .ok runs) :
    runs.elements.Perm (last ++ waiting.flatMap (·.run)) := by
  induction waiting generalizing threshold last with
  | nil => cases h; rfl
  | cons w below ih =>
    unfold collapse at h
    split at h
    · obtain ⟨joined, hjoined, h⟩ := exists_of_bind_eq_ok h
      exact (ih h).trans (perm_of_join_append hjoined)
    · cases h; rfl

theorem perm_of_finish {precedes : α → α → Except ε Bool} {threshold : Nat} {last : List α}
    {waiting : List (Waiting α)} {ys : List α}
    (h : finish precedes threshold last waiting = .ok ys) :
    ys.Perm (last ++ waiting.flatMap (·.run)) := by
  fun_induction finish precedes threshold last waiting generalizing ys with
  | case1 => cases h; simp
  | case2 threshold last v =>
    obtain ⟨joined, hjoined, h⟩ := exists_of_bind_eq_ok h
    cases h
    simpa using (perm_of_join hjoined).trans List.perm_append_comm
  | case3 threshold last v w below _ ih =>
    obtain ⟨joined, hjoined, h⟩ := exists_of_bind_eq_ok h
    exact (ih joined h).trans ((perm_of_join_append hjoined).append_left last)
  | case4 threshold last v w below _ ih =>
    obtain ⟨joined, hjoined, h⟩ := exists_of_bind_eq_ok h
    exact (ih joined h).trans (perm_of_join_append hjoined)

theorem perm_of_gather {precedes : α → α → Except ε Bool} {whole start : Nat} {runs : Runs α}
    {rest ys : List α} (h : gather precedes whole start runs rest = .ok ys) :
    ys.Perm (runs.elements ++ rest) := by
  fun_induction gather precedes whole start runs rest with
  | case1 => simpa [Runs.elements] using perm_of_finish h
  | case2 start runs x xs ih =>
    obtain ⟨run, hcut, h⟩ := exists_of_bind_eq_ok h
    obtain ⟨left, hcollapse, h⟩ := exists_of_bind_eq_ok h
    refine (ih run left h).trans ?_
    have hruns := perm_of_collapse hcollapse
    refine .trans ?_ ((hruns.append_right _).trans ((perm_of_cutRun hcut).append_left _))
    simpa only [Runs.elements, List.flatMap_cons, List.append_assoc] using
      List.perm_append_comm_assoc run (left.last ++ left.waiting.flatMap (·.run)) (afterRun run xs)

theorem perm_of_sort {precedes : α → α → Except ε Bool} {xs ys : List α}
    (h : sort precedes xs = .ok ys) : ys.Perm xs := by
  cases xs with
  | nil => cases h; rfl
  | cons x xs =>
    obtain ⟨run, hcut, h⟩ := exists_of_bind_eq_ok h
    simpa [Runs.elements] using (perm_of_gather h).trans
      (by simpa [Runs.elements] using perm_of_cutRun hcut)

end DecisionDiagram.Order
