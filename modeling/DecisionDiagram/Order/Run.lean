import DecisionDiagram.Order.Search
/-!
Runs: the head of a list that is ascending already, or strictly descending, is taken over as it is.
A run that is too short is brought to length by inserting the elements that follow it. Whatever the
relation, a run is a rearrangement of as many elements at the head of the list (`perm_of_cutRun`).
-/
namespace DecisionDiagram.Order

variable {m : Type → Type} [Monad m] {ε α : Type}

def takeRun (related : α → α → m Bool) (last : α) : List α → m (List α)
  | [] => return []
  | x :: xs => do
    if ← related x last then return x :: (← takeRun related x xs)
    else return []

def insertSorted (precedes : α → α → m Bool) (xs : List α) (x : α) : m (List α) := do
  let place ← bisectWhole .up (fun y => return !(← precedes x y)) xs
  return xs.take place ++ x :: xs.drop place

def headRun (precedes : α → α → m Bool) (x : α) : List α → m (List α)
  | [] => return [x]
  | y :: xs => do
    let falling ← precedes y x
    let head := x :: y :: (← takeRun (fun b a => return (← precedes b a) == falling) y xs)
    return if falling then head.reverse else head

def afterRun (run xs : List α) : List α := xs.drop (run.length - 1)

/-- The run at the head of `x :: xs`, brought to the given length if there are that many elements.
-/
def cutRun (precedes : α → α → m Bool) (least : Nat) (x : α) (xs : List α) : m (List α) := do
  let head ← headRun precedes x xs
  ((afterRun head xs).take (least - head.length)).foldlM (insertSorted precedes) head

theorem length_afterRun_le (run xs : List α) : (afterRun run xs).length ≤ xs.length := by
  simp [afterRun]

theorem prefix_of_takeRun {related : α → α → Except ε Bool} {last : α} {xs run : List α}
    (h : takeRun related last xs = .ok run) : run <+: xs := by
  induction xs generalizing last run with
  | nil =>
    cases h
    exact List.prefix_rfl
  | cons x xs ih =>
    unfold takeRun at h
    obtain ⟨b, -, h⟩ := exists_of_bind_eq_ok h
    cases b with
    | false =>
      cases h
      exact List.nil_prefix
    | true =>
      obtain ⟨taken, htaken, h⟩ := exists_of_bind_eq_ok h
      cases h
      exact List.cons_prefix_cons.mpr ⟨rfl, ih htaken⟩

theorem perm_of_insertSorted {precedes : α → α → Except ε Bool} {xs ys : List α} {x : α}
    (h : insertSorted precedes xs x = .ok ys) : ys.Perm (x :: xs) := by
  obtain ⟨place, -, h⟩ := exists_of_bind_eq_ok h
  cases h
  exact List.perm_middle.trans (by rw [List.take_append_drop])

theorem perm_of_foldlM_insertSorted {precedes : α → α → Except ε Bool} {xs sorted ys : List α}
    (h : xs.foldlM (insertSorted precedes) sorted = .ok ys) : ys.Perm (sorted ++ xs) := by
  induction xs generalizing sorted with
  | nil => cases h; simp
  | cons x xs ih =>
    rw [List.foldlM_cons] at h
    obtain ⟨next, hnext, h⟩ := exists_of_bind_eq_ok h
    exact (ih h).trans (((perm_of_insertSorted hnext).append_right xs).trans List.perm_middle.symm)

theorem afterRun_append {x : α} {ys run : List α} (hrun : run.Perm (x :: ys)) (rest : List α) :
    afterRun run (ys ++ rest) = rest := by
  rw [afterRun, hrun.length_eq, List.length_cons, Nat.add_sub_cancel, List.drop_left]

theorem perm_append_afterRun {x : α} {xs ys run : List α} (hrun : run.Perm (x :: ys))
    (hhead : ys <+: xs) : (run ++ afterRun run xs).Perm (x :: xs) := by
  obtain ⟨rest, rfl⟩ := hhead
  rw [afterRun_append hrun]
  exact hrun.append_right rest

theorem exists_of_headRun {precedes : α → α → Except ε Bool} {x : α} {xs run : List α}
    (h : headRun precedes x xs = .ok run) : ∃ ys, run.Perm (x :: ys) ∧ ys <+: xs := by
  cases xs with
  | nil =>
    cases h
    exact ⟨[], .rfl, List.prefix_rfl⟩
  | cons y xs =>
    obtain ⟨falling, -, h⟩ := exists_of_bind_eq_ok h
    obtain ⟨taken, htaken, h⟩ := exists_of_bind_eq_ok h
    cases h
    refine ⟨y :: taken, ?_, List.cons_prefix_cons.mpr ⟨rfl, prefix_of_takeRun htaken⟩⟩
    split
    · exact List.reverse_perm _
    · rfl

theorem perm_of_headRun {precedes : α → α → Except ε Bool} {x : α} {xs run : List α}
    (h : headRun precedes x xs = .ok run) : (run ++ afterRun run xs).Perm (x :: xs) := by
  obtain ⟨ys, hrun, hhead⟩ := exists_of_headRun h
  exact perm_append_afterRun hrun hhead

theorem perm_of_cutRun {precedes : α → α → Except ε Bool} {least : Nat} {x : α} {xs run : List α}
    (h : cutRun precedes least x xs = .ok run) : (run ++ afterRun run xs).Perm (x :: xs) := by
  obtain ⟨head, hhead, h⟩ := exists_of_bind_eq_ok h
  obtain ⟨ys, hrun, rest, rfl⟩ := exists_of_headRun hhead
  rw [afterRun_append hrun] at h
  have hfilled := (perm_of_foldlM_insertSorted h).trans (hrun.append_right _)
  exact perm_append_afterRun hfilled
    ((List.prefix_append_right_inj ys).mpr (List.take_prefix _ rest))

end DecisionDiagram.Order
