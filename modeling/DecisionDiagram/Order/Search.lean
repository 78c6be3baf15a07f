/-!
Searching an ordered list for the place where a condition ceases to hold. To ask whether it holds
may fail, or change something, and it need not change only once: the places that are asked about are
fixed by the answers.
-/
namespace DecisionDiagram.Order

variable {α : Type}

theorem exists_of_bind_eq_ok {ε β : Type} {a : Except ε α} {f : α → Except ε β} {b : β}
    (h : (a >>= f) = .ok b) : ∃ x, a = .ok x ∧ f x = .ok b := by
  cases a with
  | error e => cases h
  | ok x => exact ⟨x, rfl, h⟩

/-- An ascending list is gone through from its first element, or from its last: then it is given
reversed. -/
inductive Direction
  | up
  | down
deriving DecidableEq, Repr

def Direction.middle (low high : Nat) : Direction → Nat
  | up => low + (high - low) / 2
  | down => low + (high - low - 1) / 2

theorem Direction.middle_bounds {low high : Nat} (h : low < high) (d : Direction) :
    low ≤ d.middle low high ∧ d.middle low high < high := by
  cases d <;> simp only [middle] <;> omega

section Search

variable {m : Type → Type} [Monad m]

/-- The place between `low` and `high` where a condition ceases to hold, by halving. -/
def bisect (d : Direction) (holds : α → m Bool) (xs : List α) (low high : Nat)
    (bound : high ≤ xs.length) : m Nat :=
  if h : low < high then
    have hm := d.middle_bounds h
    do
      if ← holds (xs[d.middle low high]) then bisect d holds xs (d.middle low high + 1) high bound
      else bisect d holds xs low (d.middle low high) (by omega)
  else return low
termination_by high - low

def bisectWhole (d : Direction) (holds : α → m Bool) (xs : List α) : m Nat :=
  bisect d holds xs 0 xs.length (Nat.le_refl _)

/-- Asks at places that lie ever further apart, and halves between the last two of them. -/
def gallop (d : Direction) (holds : α → m Bool) (xs : List α) (low next : Nat) : m Nat :=
  if h : next < xs.length then do
    if ← holds xs[next] then gallop d holds xs (next + 1) (2 * next + 1)
    else bisect d holds xs low next (Nat.le_of_lt h)
  else bisect d holds xs low xs.length (Nat.le_refl _)
termination_by xs.length - next

def stretch (d : Direction) (holds : α → m Bool) (xs : List α) : m Nat :=
  gallop d holds xs 0 0

end Search

end DecisionDiagram.Order
