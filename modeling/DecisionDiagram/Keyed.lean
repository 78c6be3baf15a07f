/-!
Lists of entries by key, in the order in which the keys first came. `upsert` gives a key a new entry
without moving it; `insertAscending` keeps keys in ascending order and drops repetitions.
-/
namespace DecisionDiagram

section Upsert

variable {κ α : Type} [DecidableEq κ]

/-- Enters a value: a key that is known keeps its place, another comes last. -/
def upsert (k : κ) (a : α) : List (κ × α) → List (κ × α)
  | [] => [(k, a)]
  | e :: es => if e.1 = k then (k, a) :: es else e :: upsert k a es

theorem lookup_cons_eq_ite (q : κ) (e : κ × α) (es : List (κ × α)) :
    (e :: es).lookup q = if q = e.1 then some e.2 else es.lookup q := by
  obtain ⟨k, a⟩ := e
  by_cases h : q = k
  · simp [h]
  · simp [List.lookup_cons, h, beq_eq_false_iff_ne.mpr h]

theorem lookup_upsert (k q : κ) (a : α) (es : List (κ × α)) :
    (upsert k a es).lookup q = if q = k then some a else es.lookup q := by
  induction es with
  | nil => simp [upsert, lookup_cons_eq_ite]
  | cons e es ih =>
    unfold upsert
    split <;> simp only [lookup_cons_eq_ite, ih]
    · subst_vars; split <;> rfl
    · split <;> split <;> simp_all

theorem keys_upsert (k : κ) (a : α) (es : List (κ × α)) :
    (upsert k a es).map (·.1) = if k ∈ es.map (·.1) then es.map (·.1) else es.map (·.1) ++ [k] := by
  induction es with
  | nil => simp [upsert]
  | cons e es ih =>
    by_cases he : e.1 = k
    · simp [upsert, he]
    · have hk : k ≠ e.1 := fun h => he h.symm
      simp only [upsert, he, ↓reduceIte, List.map_cons, ih, List.mem_cons, hk, false_or]
      split <;> simp

theorem upsert_of_not_mem {k : κ} {a : α} {es : List (κ × α)} (h : k ∉ es.map (·.1)) :
    upsert k a es = es ++ [(k, a)] := by
  induction es with
  | nil => rfl
  | cons e es ih =>
    rw [List.map_cons, List.mem_cons, not_or] at h
    rw [upsert, if_neg (Ne.symm h.1), ih h.2, List.cons_append]

end Upsert

def insertAscending (n : Int) : List Int → List Int
  | [] => [n]
  | m :: ms => if n < m then n :: m :: ms else if n = m then m :: ms else m :: insertAscending n ms

def ascending (ns : List Int) : List Int := ns.foldr insertAscending []

theorem mem_insertAscending {n m : Int} {ms : List Int} :
    m ∈ insertAscending n ms ↔ m = n ∨ m ∈ ms := by
  induction ms with
  | nil => simp [insertAscending]
  | cons a ms ih =>
    unfold insertAscending
    split
    · simp
    · split
      · subst_vars; simp
      · simp only [List.mem_cons, ih]; grind

theorem mem_ascending {m : Int} {ns : List Int} : m ∈ ascending ns ↔ m ∈ ns := by
  induction ns with
  | nil => simp [ascending]
  | cons n ns ih => simp [ascending, mem_insertAscending, ← ih]

theorem pairwise_insertAscending {n : Int} {ms : List Int} (h : ms.Pairwise (· < ·)) :
    (insertAscending n ms).Pairwise (· < ·) := by
  induction ms with
  | nil => simp [insertAscending]
  | cons a ms ih =>
    obtain ⟨ha, hms⟩ := List.pairwise_cons.mp h
    unfold insertAscending
    split
    · refine List.pairwise_cons.mpr ⟨fun x hx => ?_, h⟩
      rcases List.mem_cons.mp hx with rfl | hx
      · assumption
      · have := ha x hx; omega
    · split
      · exact h
      · refine List.pairwise_cons.mpr ⟨fun x hx => ?_, ih hms⟩
        rcases mem_insertAscending.mp hx with rfl | hx
        · omega
        · exact ha x hx

theorem pairwise_ascending (ns : List Int) : (ascending ns).Pairwise (· < ·) := by
  induction ns with
  | nil => exact List.Pairwise.nil
  | cons n ns ih => exact pairwise_insertAscending ih

end DecisionDiagram
