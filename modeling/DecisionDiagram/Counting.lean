/-!
Counting the members of a list that satisfy a condition.
-/
namespace DecisionDiagram

theorem countP_lt_countP {α : Type} {p q : α → Bool} {l : List α} (hpq : ∀ x ∈ l, p x → q x)
    {a : α} (ha : a ∈ l) (hp : p a = false) (hq : q a) : l.countP p < l.countP q := by
  induction l with
  | nil => simp at ha
  | cons b l ih =>
    have hle := List.countP_mono_left (fun x hx => hpq x (List.mem_cons_of_mem b hx))
    rw [List.countP_cons, List.countP_cons]
    rcases List.mem_cons.mp ha with rfl | hmem
    · simp only [hp, hq, Bool.false_eq_true, ↓reduceIte]; omega
    · have hlt := ih (fun x hx => hpq x (List.mem_cons_of_mem b hx)) hmem
      have hb := hpq b List.mem_cons_self
      by_cases h : p b
      · simp only [h, hb h, ↓reduceIte]; omega
      · simp only [h, Bool.false_eq_true, ↓reduceIte]; omega

/-- How many members of `all` are not in `seen`: it falls with every member that is seen for the
first time, and so bounds a search. -/
def unseenCount {α : Type} [DecidableEq α] (all seen : List α) : Nat :=
  all.countP fun a => decide (a ∉ seen)

theorem unseenCount_lt {α : Type} [DecidableEq α] {all seen seen' : List α} {a : α}
    (hsub : ∀ x ∈ seen, x ∈ seen') (ha : a ∈ all) (hnew : a ∉ seen) (hold : a ∈ seen') :
    unseenCount all seen' < unseenCount all seen := by
  apply countP_lt_countP (a := a)
  · intro x _ hx
    simp only [decide_eq_true_eq] at hx ⊢
    exact fun h => hx (hsub x h)
  · exact ha
  · simp [hold]
  · simp [hnew]

theorem unseenCount_le {α : Type} [DecidableEq α] {all seen seen' : List α}
    (hsub : ∀ x ∈ seen, x ∈ seen') : unseenCount all seen' ≤ unseenCount all seen := by
  apply List.countP_mono_left
  intro x _ hx
  simp only [decide_eq_true_eq] at hx ⊢
  exact fun h => hx (hsub x h)

end DecisionDiagram
