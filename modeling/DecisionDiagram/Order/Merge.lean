import DecisionDiagram.Order.Search
/-!
Merging two ascending lists. As long as the elements come from both lists in turn, heads are
compared with one another; once one list has led for as many times as the threshold says, whole
stretches are searched for. The threshold falls as long as that pays, and rises when it does not.
Whatever the relation, the merged list is a rearrangement of both (`perm_of_join`).
-/
namespace DecisionDiagram.Order

variable {m : Type → Type} [Monad m] {ε α : Type}

structure Merged (α : Type) where
  list : List α
  threshold : Nat
deriving Repr

def Merged.prepend (xs : List α) (merged : Merged α) : Merged α :=
  { merged with list := xs ++ merged.list }

/-- Whether an element of the lower list comes before one of the upper list. Going up, equal
elements of the lower list come first, and going down last. -/
def Direction.leads (precedes : α → α → m Bool) (x y : α) : Direction → m Bool
  | up => return !(← precedes y x)
  | down => precedes y x

/-- Whether the order of what is left is known: the list that is held in reserve, the lower one
going up and the upper one going down, has its last element left, or the other has none. -/
def Direction.isSettled (xs ys : List α) : Direction → Bool
  | up => ys.isEmpty || xs.length ≤ 1
  | down => xs.isEmpty || ys.length ≤ 1

def Direction.settle (xs ys : List α) : Direction → List α
  | up => ys ++ xs
  | down => xs ++ ys

inductive Pace
  /-- By comparing heads, after so many elements in a row from the lower and from the upper list. -/
  | single (lower upper : Nat)
  /-- By searching for a stretch of the lower list. -/
  | stretching
  /-- By searching for a stretch of the upper list, after one of the lower list. -/
  | answering (length : Nat)
deriving DecidableEq, Repr

def payingLength : Nat := 7

def Pace.ofRow (threshold lower upper : Nat) : Pace :=
  if threshold ≤ max lower upper then stretching else single lower upper

def merge (d : Direction) (precedes : α → α → m Bool) (threshold : Nat) (pace : Pace)
    (xs ys : List α) : m (Merged α) :=
  match xs, ys with
  | x :: xs, y :: ys =>
    if d.isSettled (x :: xs) (y :: ys) then return ⟨d.settle (x :: xs) (y :: ys), threshold⟩ else
    match pace with
    | .single lower upper => do
      if ← d.leads precedes x y then
        let merged ← merge d precedes threshold (.ofRow threshold (lower + 1) 0) xs (y :: ys)
        return merged.prepend [x]
      else
        let merged ← merge d precedes threshold (.ofRow threshold 0 (upper + 1)) (x :: xs) ys
        return merged.prepend [y]
    | .stretching => do
      let n ← stretch d (fun x => d.leads precedes x y) (x :: xs)
      let merged ← merge d precedes threshold (.answering n) ((x :: xs).drop n) ys
      return merged.prepend ((x :: xs).take n ++ [y])
    | .answering n => do
      let k ← stretch d (fun y => return !(← d.leads precedes x y)) (y :: ys)
      let left := (y :: ys).drop k
      let (threshold, pace) :=
        if d.isSettled xs left then (threshold, pace)
        else if payingLength ≤ max n k then (max 1 (threshold - 1), .stretching)
        else (threshold + 1, .single 0 0)
      return (← merge d precedes threshold pace xs left).prepend ((y :: ys).take k ++ [x])
  | xs, ys => return ⟨xs ++ ys, threshold⟩
termination_by xs.length + ys.length
decreasing_by all_goals simp only [List.length_cons, List.length_drop]; omega

/-- Merges two lists of which the upper one has the first element and the lower one the last. The
shorter one is held in reserve. -/
def interleave (precedes : α → α → m Bool) (threshold : Nat) (xs ys : List α) :
    m (Merged α) :=
  if xs.length ≤ ys.length then
    match ys with
    | [] => return ⟨xs, threshold⟩
    | y :: ys => return (← merge .up precedes threshold (.single 0 0) xs ys).prepend [y]
  else
    match xs.reverse with
    | [] => return ⟨ys, threshold⟩
    | x :: xs => do
      let ⟨list, threshold⟩ ← merge .down precedes threshold (.single 0 0) xs ys.reverse
      return ⟨(x :: list).reverse, threshold⟩

/-- Joins two neighbouring runs. What stands below all of the upper run, or above all of the lower
run, stays where it is. -/
def join (precedes : α → α → m Bool) (threshold : Nat) (xs ys : List α) : m (Merged α) :=
  match ys with
  | [] => return ⟨xs, threshold⟩
  | y :: _ => do
    let n ← stretch .up (fun x => Direction.up.leads precedes x y) xs
    match (xs.drop n).getLast? with
    | none => return ⟨xs ++ ys, threshold⟩
    | some x =>
      let k ← stretch .down (fun y => return !(← Direction.down.leads precedes x y)) ys.reverse
      let ⟨list, threshold⟩ ← interleave precedes threshold (xs.drop n) (ys.take (ys.length - k))
      return ⟨xs.take n ++ list ++ ys.drop (ys.length - k), threshold⟩

theorem Direction.perm_settle (xs ys : List α) (d : Direction) :
    (d.settle xs ys).Perm (xs ++ ys) := by
  cases d
  · exact List.perm_append_comm
  · rfl

theorem perm_of_take_lower {n : Nat} {y : α} {xs ys list : List α}
    (h : list.Perm (xs.drop n ++ ys)) : (xs.take n ++ [y] ++ list).Perm (xs ++ y :: ys) := by
  rw [List.append_assoc, List.singleton_append]
  refine List.perm_middle.trans (.trans (.cons y ?_) List.perm_middle.symm)
  refine (h.append_left _).trans ?_
  rw [← List.append_assoc, List.take_append_drop]

theorem perm_of_take_upper {m : Nat} {x : α} {xs ys list : List α}
    (h : list.Perm (xs ++ ys.drop m)) : (ys.take m ++ [x] ++ list).Perm (x :: xs ++ ys) := by
  rw [List.append_assoc, List.singleton_append, List.cons_append]
  refine List.perm_middle.trans (.cons x ?_)
  refine (h.append_left _).trans (List.perm_append_comm_assoc _ _ _ |>.trans ?_)
  rw [List.take_append_drop]

theorem perm_of_merge {d : Direction} {precedes : α → α → Except ε Bool} {threshold : Nat}
    {pace : Pace} {xs ys : List α} {merged : Merged α}
    (h : merge d precedes threshold pace xs ys = .ok merged) : merged.list.Perm (xs ++ ys) := by
  fun_induction merge d precedes threshold pace xs ys generalizing merged with
  | case1 => cases h; exact Direction.perm_settle _ _ _
  | case2 threshold x xs y ys _ lower upper ihLower ihUpper =>
    obtain ⟨b, -, h⟩ := exists_of_bind_eq_ok h
    split at h
    · obtain ⟨rest, hrest, h⟩ := exists_of_bind_eq_ok h
      cases h
      exact (ihLower hrest).cons x
    · obtain ⟨rest, hrest, h⟩ := exists_of_bind_eq_ok h
      cases h
      exact ((ihUpper hrest).cons y).trans List.perm_middle.symm
  | case3 threshold x xs y ys _ ih =>
    obtain ⟨n, -, h⟩ := exists_of_bind_eq_ok h
    obtain ⟨rest, hrest, h⟩ := exists_of_bind_eq_ok h
    cases h
    exact perm_of_take_lower (ih n hrest)
  | case4 threshold x xs y ys _ n ih =>
    obtain ⟨m, -, h⟩ := exists_of_bind_eq_ok h
    obtain ⟨rest, hrest, h⟩ := exists_of_bind_eq_ok h
    cases h
    exact perm_of_take_upper (ih m _ _ hrest)
  | case5 => cases h; rfl

theorem perm_of_interleave {precedes : α → α → Except ε Bool} {threshold : Nat} {xs ys : List α}
    {merged : Merged α} (h : interleave precedes threshold xs ys = .ok merged) :
    merged.list.Perm (xs ++ ys) := by
  unfold interleave at h
  split at h
  · split at h
    · cases h; simp
    · rename_i y ys _
      obtain ⟨rest, hrest, h⟩ := exists_of_bind_eq_ok h
      cases h
      exact ((perm_of_merge hrest).cons y).trans List.perm_middle.symm
  · split at h
    · rename_i hxs
      cases h
      simp [List.reverse_eq_nil_iff.mp hxs]
    · rename_i x front hxs
      obtain ⟨rest, hrest, h⟩ := exists_of_bind_eq_ok h
      cases h
      refine (List.reverse_perm _).trans (((perm_of_merge hrest).cons x).trans ?_)
      rw [← List.cons_append, ← hxs]
      exact (List.reverse_perm xs).append (List.reverse_perm ys)

theorem perm_of_join {precedes : α → α → Except ε Bool} {threshold : Nat} {xs ys : List α}
    {merged : Merged α} (h : join precedes threshold xs ys = .ok merged) :
    merged.list.Perm (xs ++ ys) := by
  unfold join at h
  split at h
  · cases h; simp
  · rename_i y ys
    obtain ⟨n, -, h⟩ := exists_of_bind_eq_ok h
    split at h
    · cases h; rfl
    · obtain ⟨m, -, h⟩ := exists_of_bind_eq_ok h
      obtain ⟨rest, hrest, h⟩ := exists_of_bind_eq_ok h
      cases h
      refine (((perm_of_interleave hrest).append_left _).append_right _).trans ?_
      rw [← List.append_assoc, List.take_append_drop, List.append_assoc, List.take_append_drop]

end DecisionDiagram.Order
