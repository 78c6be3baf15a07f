import DecisionDiagram.Order.Sort
/-! Sorting fails only if a question that it asks fails, and it asks about elements of the list
alone. -/
namespace DecisionDiagram.Order

variable {ε α : Type} {d : Direction} {precedes : α → α → Except ε Bool} {holds : α → Except ε Bool}
variable {e : ε}
variable {xs ys run rest last : List α} {x y : α}
variable {low high next threshold depth least whole start : Nat}

theorem bind_eq_error_iff {β : Type} {a : Except ε α} {f : α → Except ε β} :
    (a >>= f) = .error e ↔ a = .error e ∨ ∃ x, a = .ok x ∧ f x = .error e := by
  cases a with
  | error e' =>
    exact ⟨fun h => .inl (congrArg _ (Except.error.inj h)), by rintro (⟨⟨⟩⟩ | ⟨_, ⟨⟩, _⟩); rfl⟩
  | ok x => exact ⟨fun h => .inr ⟨x, rfl, h⟩, by rintro (⟨⟨⟩⟩ | ⟨_, ⟨⟩, h⟩); exact h⟩

def Fails (precedes : α → α → Except ε Bool) (e : ε) (xs : List α) : Prop :=
  ∃ x ∈ xs, ∃ y ∈ xs, precedes x y = .error e

theorem Fails.mono (h : Fails precedes e xs) (hsub : ∀ x ∈ xs, x ∈ ys) : Fails precedes e ys := by
  obtain ⟨x, hx, y, hy, hfail⟩ := h
  exact ⟨x, hsub x hx, y, hsub y hy, hfail⟩

/-! Searches ask their condition of elements of the list. -/

theorem exists_of_bisect_error {bound : high ≤ xs.length}
    (h : bisect d holds xs low high bound = .error e) : ∃ x ∈ xs, holds x = .error e := by
  fun_induction bisect d holds xs low high bound with
  | case1 low high bound hlt hm ihHigher ihLower =>
    rcases bind_eq_error_iff.mp h with h | ⟨b, -, h⟩
    · exact ⟨_, List.getElem_mem _, h⟩
    · split at h
      · exact ihHigher h
      · exact ihLower h
  | case2 => cases h

theorem exists_of_gallop_error (h : gallop d holds xs low next = .error e) :
    ∃ x ∈ xs, holds x = .error e := by
  fun_induction gallop d holds xs low next with
  | case1 low next hlt ih =>
    rcases bind_eq_error_iff.mp h with h | ⟨b, -, h⟩
    · exact ⟨_, List.getElem_mem _, h⟩
    · split at h
      · exact ih h
      · exact exists_of_bisect_error h
  | case2 => exact exists_of_bisect_error h

theorem precedes_of_leads_error (h : d.leads precedes x y = .error e) :
    precedes y x = .error e := by
  cases d with
  | down => exact h
  | up =>
    rcases bind_eq_error_iff.mp h with h | ⟨b, -, h⟩
    · exact h
    · cases h

theorem error_of_not {a : Except ε Bool} (h : (do return !(← a)) = Except.error e) :
    a = .error e := by
  rcases bind_eq_error_iff.mp h with h | ⟨b, -, h⟩
  · exact h
  · cases h

/-! Runs. -/

theorem fails_of_takeRun_error {related : α → α → Except ε Bool}
    (h : takeRun related x xs = .error e) : Fails related e (x :: xs) := by
  induction xs generalizing x with
  | nil => cases h
  | cons y ys ih =>
    rcases bind_eq_error_iff.mp h with h | ⟨b, -, h⟩
    · exact ⟨y, by simp, x, by simp, h⟩
    · cases b with
      | false => cases h
      | true =>
        rcases bind_eq_error_iff.mp h with h | ⟨_, -, h⟩
        · exact (ih h).mono fun z hz => List.mem_cons_of_mem _ hz
        · cases h

theorem fails_of_insertSorted_error (h : insertSorted precedes xs x = .error e) :
    Fails precedes e (x :: xs) := by
  rcases bind_eq_error_iff.mp h with h | ⟨_, -, h⟩
  · obtain ⟨y, hy, hfail⟩ := exists_of_bisect_error h
    exact ⟨x, List.mem_cons_self, y, List.mem_cons_of_mem _ hy, error_of_not hfail⟩
  · cases h

theorem fails_of_foldlM_insertSorted_error (h : xs.foldlM (insertSorted precedes) ys = .error e) :
    Fails precedes e (ys ++ xs) := by
  induction xs generalizing ys with
  | nil => cases h
  | cons x xs ih =>
    rw [List.foldlM_cons] at h
    rcases bind_eq_error_iff.mp h with h | ⟨next, hnext, h⟩
    · exact (fails_of_insertSorted_error h).mono (by simp +contextual [or_imp])
    · refine (ih h).mono fun z hz => ?_
      simp only [List.mem_append, (perm_of_insertSorted hnext).mem_iff] at hz
      grind

theorem fails_of_headRun_error (h : headRun precedes x xs = .error e) :
    Fails precedes e (x :: xs) := by
  cases xs with
  | nil => cases h
  | cons y ys =>
    rcases bind_eq_error_iff.mp h with h | ⟨falling, -, h⟩
    · exact ⟨y, by simp, x, by simp, h⟩
    · rcases bind_eq_error_iff.mp h with h | ⟨_, -, h⟩
      · obtain ⟨b, hb, a, ha, hfail⟩ := fails_of_takeRun_error h
        refine ⟨b, List.mem_cons_of_mem _ hb, a, List.mem_cons_of_mem _ ha, ?_⟩
        rcases bind_eq_error_iff.mp hfail with hfail | ⟨_, -, hfail⟩
        · exact hfail
        · cases hfail
      · cases h

theorem fails_of_cutRun_error (h : cutRun precedes least x xs = .error e) :
    Fails precedes e (x :: xs) := by
  rcases bind_eq_error_iff.mp h with h | ⟨head, hhead, h⟩
  · exact fails_of_headRun_error h
  · refine (fails_of_foldlM_insertSorted_error h).mono fun z hz =>
      (perm_of_headRun hhead).mem_iff.mp ?_
    rcases List.mem_append.mp hz with hz | hz
    · exact List.mem_append_left _ hz
    · exact List.mem_append_right _ (List.mem_of_mem_take hz)

/-! Merging. -/

theorem fails_of_merge_error {pace : Pace} (h : merge d precedes threshold pace xs ys = .error e) :
    Fails precedes e (xs ++ ys) := by
  -- The answer that fails is asked here, or while the rest of the two lists is merged.
  fun_induction merge d precedes threshold pace xs ys with
  | case1 => cases h
  | case2 threshold x xs y ys _ lower upper ihLower ihUpper =>
    rcases bind_eq_error_iff.mp h with h | ⟨b, -, h⟩
    · exact ⟨y, by simp, x, by simp, precedes_of_leads_error h⟩
    · split at h
      · rcases bind_eq_error_iff.mp h with h | ⟨_, -, h⟩
        · exact (ihLower h).mono (by simp +contextual)
        · cases h
      · rcases bind_eq_error_iff.mp h with h | ⟨_, -, h⟩
        · exact (ihUpper h).mono (by simp +contextual [or_imp])
        · cases h
  | case3 threshold x xs y ys _ ih =>
    rcases bind_eq_error_iff.mp h with h | ⟨n, -, h⟩
    · obtain ⟨z, hz, hfail⟩ := exists_of_gallop_error h
      exact ⟨y, by simp, z, List.mem_append_left _ hz, precedes_of_leads_error hfail⟩
    · rcases bind_eq_error_iff.mp h with h | ⟨_, -, h⟩
      · refine (ih n h).mono fun z hz => ?_
        rcases List.mem_append.mp hz with hz | hz
        · exact List.mem_append_left _ (List.mem_of_mem_drop hz)
        · exact List.mem_append_right _ (List.mem_cons_of_mem _ hz)
      · cases h
  | case4 threshold x xs y ys _ n ih =>
    rcases bind_eq_error_iff.mp h with h | ⟨m, -, h⟩
    · obtain ⟨z, hz, hfail⟩ := exists_of_gallop_error h
      exact ⟨z, List.mem_append_right _ hz,
        x, by simp, precedes_of_leads_error (error_of_not hfail)⟩
    · rcases bind_eq_error_iff.mp h with h | ⟨_, -, h⟩
      · refine (ih m _ _ h).mono fun z hz => ?_
        rcases List.mem_append.mp hz with hz | hz
        · exact List.mem_append_left _ (List.mem_cons_of_mem _ hz)
        · exact List.mem_append_right _ (List.mem_of_mem_drop hz)
      · cases h
  | case5 => cases h

theorem fails_of_interleave_error (h : interleave precedes threshold xs ys = .error e) :
    Fails precedes e (xs ++ ys) := by
  unfold interleave at h
  split at h
  · split at h
    · cases h
    · rcases bind_eq_error_iff.mp h with h | ⟨_, -, h⟩
      · exact (fails_of_merge_error h).mono (by simp +contextual [or_imp])
      · cases h
  · split at h
    · cases h
    · rename_i x front hxs
      rcases bind_eq_error_iff.mp h with h | ⟨_, -, h⟩
      · refine (fails_of_merge_error h).mono fun z hz => ?_
        have hfront : z ∈ front → z ∈ xs :=
          fun hz => List.mem_reverse.mp (hxs ▸ List.mem_cons_of_mem _ hz)
        simpa using (List.mem_append.mp hz).imp hfront List.mem_reverse.mp
      · cases h

theorem fails_of_join_error (h : join precedes threshold xs ys = .error e) :
    Fails precedes e (xs ++ ys) := by
  unfold join at h
  split at h
  · cases h
  · rename_i y ys
    rcases bind_eq_error_iff.mp h with h | ⟨n, -, h⟩
    · obtain ⟨z, hz, hfail⟩ := exists_of_gallop_error h
      exact ⟨y, by simp, z, List.mem_append_left _ hz, precedes_of_leads_error hfail⟩
    · split at h
      · cases h
      · rename_i x hx
        have hx : x ∈ xs := List.mem_of_mem_drop (List.mem_of_getLast? hx)
        rcases bind_eq_error_iff.mp h with h | ⟨m, -, h⟩
        · obtain ⟨z, hz, hfail⟩ := exists_of_gallop_error h
          exact ⟨z, List.mem_append_right _ (List.mem_reverse.mp hz), x, List.mem_append_left _ hx,
            precedes_of_leads_error (error_of_not hfail)⟩
        · rcases bind_eq_error_iff.mp h with h | ⟨_, -, h⟩
          · refine (fails_of_interleave_error h).mono fun z hz => ?_
            rcases List.mem_append.mp hz with hz | hz
            · exact List.mem_append_left _ (List.mem_of_mem_drop hz)
            · exact List.mem_append_right _ (List.mem_of_mem_take hz)
          · cases h

/-! The whole. -/

theorem fails_of_collapse_error {waiting : List (Waiting α)}
    (h : collapse precedes depth threshold last waiting = .error e) :
    Fails precedes e (last ++ waiting.flatMap (·.run)) := by
  induction waiting generalizing threshold last with
  | nil => cases h
  | cons w below ih =>
    unfold collapse at h
    split at h
    · rcases bind_eq_error_iff.mp h with h | ⟨joined, hjoined, h⟩
      · exact (fails_of_join_error h).mono (by simp +contextual [or_imp])
      · exact (ih h).mono fun z hz => (perm_of_join_append hjoined).mem_iff.mp hz
    · cases h

theorem fails_of_finish_error {waiting : List (Waiting α)}
    (h : finish precedes threshold last waiting = .error e) :
    Fails precedes e (last ++ waiting.flatMap (·.run)) := by
  fun_induction finish precedes threshold last waiting with
  | case1 => cases h
  | case2 threshold last v =>
    rcases bind_eq_error_iff.mp h with h | ⟨_, -, h⟩
    · exact (fails_of_join_error h).mono (by simp +contextual [or_imp])
    · cases h
  | case3 threshold last v w below _ ih =>
    rcases bind_eq_error_iff.mp h with h | ⟨joined, hjoined, h⟩
    · exact (fails_of_join_error h).mono (by simp +contextual [or_imp])
    · refine (ih joined h).mono fun z hz => ?_
      exact ((perm_of_join_append hjoined).append_left last).mem_iff.mp hz
  | case4 threshold last v w below _ ih =>
    rcases bind_eq_error_iff.mp h with h | ⟨joined, hjoined, h⟩
    · exact (fails_of_join_error h).mono (by simp +contextual [or_imp])
    · exact (ih joined h).mono fun z hz => (perm_of_join_append hjoined).mem_iff.mp hz

theorem fails_of_gather_error {runs : Runs α}
    (h : gather precedes whole start runs rest = .error e) :
    Fails precedes e (runs.elements ++ rest) := by
  fun_induction gather precedes whole start runs rest with
  | case1 => simpa [Runs.elements] using fails_of_finish_error h
  | case2 start runs x xs ih =>
    rcases bind_eq_error_iff.mp h with h | ⟨run, hcut, h⟩
    · exact (fails_of_cutRun_error h).mono fun z hz => List.mem_append_right _ hz
    · rcases bind_eq_error_iff.mp h with h | ⟨left, hcollapse, h⟩
      · exact (fails_of_collapse_error h).mono fun z hz => List.mem_append_left _ hz
      · refine (ih run left h).mono fun z hz => ?_
        have hruns : z ∈ left.elements ↔ z ∈ runs.elements := (perm_of_collapse hcollapse).mem_iff
        have hcut : z ∈ run ++ afterRun run xs ↔ z ∈ x :: xs := (perm_of_cutRun hcut).mem_iff
        simp only [Runs.elements, List.flatMap_cons, List.mem_append] at hz hruns hcut ⊢
        rw [← hruns, ← hcut]
        grind

/-- A sorting fails as a question about two of the elements fails. -/
theorem fails_of_sort_error (h : sort precedes xs = .error e) : Fails precedes e xs := by
  cases xs with
  | nil => cases h
  | cons x xs =>
    rcases bind_eq_error_iff.mp h with h | ⟨run, hcut, h⟩
    · exact fails_of_cutRun_error h
    · refine (fails_of_gather_error h).mono fun z hz => (perm_of_cutRun hcut).mem_iff.mp ?_
      simpa [Runs.elements] using hz

theorem exists_sort (h : ∀ x ∈ xs, ∀ y ∈ xs, ∃ b, precedes x y = .ok b) :
    ∃ ys, sort precedes xs = .ok ys := by
  cases hsort : sort precedes xs with
  | ok ys => exact ⟨ys, rfl⟩
  | error e =>
    obtain ⟨x, hx, y, hy, hfail⟩ := fails_of_sort_error hsort
    obtain ⟨b, hb⟩ := h x hx y hy
    cases hb.symm.trans hfail

end DecisionDiagram.Order
