import DecisionDiagram.Order.Sort
import DecisionDiagram.Proofs.MergeOrder
/-! A sorted list is in order: if the answers speak for a relation that is transitive on the
elements of the list, every element may stand before those that follow it. -/
namespace DecisionDiagram.Order

variable {ε α : Type} {P : α → Prop} {R : α → α → Prop} {precedes : α → α → Except ε Bool}
variable {x y : α} {xs ys run rest last : List α} {threshold depth least whole start : Nat}

theorem takeRun_ascends {related : α → α → Except ε Bool} (htrans : TransOn P R)
    (hall : ∀ z ∈ x :: xs, P z) (hrel : ∀ a b, P a → P b → related b a = .ok true → R a b)
    (h : takeRun related x xs = .ok run) : Ascends P R (x :: run) := by
  have hx := hall x List.mem_cons_self
  induction xs generalizing x run with
  | nil =>
    cases h
    exact .singleton hx
  | cons y ys ih =>
    have hy := hall y (by simp)
    obtain ⟨b, hb, h⟩ := exists_of_bind_eq_ok h
    cases b with
    | false =>
      cases h
      exact .singleton hx
    | true =>
      obtain ⟨taken, htaken, h⟩ := exists_of_bind_eq_ok h
      cases h
      have hrun := ih (fun z hz => hall z (List.mem_cons_of_mem x hz)) htaken hy
      exact .cons hx hrun (htrans.rel_of_cons hrun hx (hrel x y hx hy hb))

namespace Ranks

theorem headRun_ascends (h : Ranks P R precedes) (hall : ∀ z ∈ x :: xs, P z)
    (hrun : headRun precedes x xs = .ok run) : Ascends P R run := by
  have hx := hall x List.mem_cons_self
  cases xs with
  | nil =>
    cases hrun
    exact .singleton hx
  | cons y ys =>
    have hy := hall y (by simp)
    obtain ⟨falling, hfalling, hrun⟩ := exists_of_bind_eq_ok hrun
    obtain ⟨taken, htaken, hrun⟩ := exists_of_bind_eq_ok hrun
    cases hrun
    have hall' : ∀ z ∈ y :: ys, P z := fun z hz => hall z (List.mem_cons_of_mem x hz)
    have hanswer : ∀ a b, (do return (← precedes b a) == falling) = Except.ok true →
        precedes b a = .ok falling := by
      intro a b hab
      obtain ⟨c, hc, hab⟩ := exists_of_bind_eq_ok hab
      rw [hc, beq_iff_eq.mp (Except.ok.inj hab)]
    -- A falling run ascends in the opposite order, and is turned round once it has ended.
    cases falling with
    | true =>
      have hdown : Ascends P (flip R) (y :: taken) := takeRun_ascends h.down.trans hall'
        (fun a b ha hb hab => h.before b a hb ha (hanswer a b hab)) htaken
      have hfirst : flip R x y := h.before y x hy hx hfalling
      have hfalls := Ascends.cons hx hdown (h.down.trans.rel_of_cons hdown hx hfirst)
      exact hfalls.reverse
    | false =>
      have hup : Ascends P R (y :: taken) := takeRun_ascends h.trans hall'
        (fun a b ha hb hab => h.behind b a hb ha (hanswer a b hab)) htaken
      have hfirst : R x y := h.behind y x hy hx hfalling
      exact .cons hx hup (h.trans.rel_of_cons hup hx hfirst)

theorem insertSorted_ascends (h : Ranks P R precedes) (hxs : Ascends P R xs) (hx : P x)
    (hinsert : insertSorted precedes xs x = .ok ys) : Ascends P R ys := by
  obtain ⟨n, hn, hinsert⟩ := exists_of_bind_eq_ok hinsert
  cases hinsert
  rw [← List.singleton_append, ← List.append_assoc]
  exact h.trans.around (hxs.take n) hx (hxs.drop n)
    (h.trans.rel_of_take hxs hx (.of_bisectWhole hn) fun z hz hlead =>
      h.behind x z hx (hxs.all z hz) (eq_of_not hlead))
    (h.trans.rel_of_drop hxs hx (.of_bisectWhole hn) fun z hz hlead =>
      h.before x z hx (hxs.all z hz) (eq_of_not hlead))

theorem foldlM_insertSorted_ascends (h : Ranks P R precedes) (hrun : Ascends P R run)
    (hall : ∀ z ∈ xs, P z) (hfold : xs.foldlM (insertSorted precedes) run = .ok ys) :
    Ascends P R ys := by
  induction xs generalizing run with
  | nil =>
    cases hfold
    exact hrun
  | cons x xs ih =>
    rw [List.foldlM_cons] at hfold
    obtain ⟨next, hnext, hfold⟩ := exists_of_bind_eq_ok hfold
    exact ih (h.insertSorted_ascends hrun (hall x List.mem_cons_self) hnext)
      (fun z hz => hall z (List.mem_cons_of_mem x hz)) hfold

theorem cutRun_ascends (h : Ranks P R precedes) (hall : ∀ z ∈ x :: xs, P z)
    (hcut : cutRun precedes least x xs = .ok run) : Ascends P R run := by
  obtain ⟨head, hhead, hcut⟩ := exists_of_bind_eq_ok hcut
  refine h.foldlM_insertSorted_ascends (h.headRun_ascends hall hhead) (fun z hz => hall z ?_) hcut
  exact (perm_of_headRun hhead).mem_iff.mp (List.mem_append_right _ (List.mem_of_mem_take hz))

theorem collapse_ascends (h : Ranks P R precedes) {waiting : List (Waiting α)} {runs : Runs α}
    (hlast : Ascends P R last) (hwaiting : ∀ w ∈ waiting, Ascends P R w.run)
    (hcollapse : collapse precedes depth threshold last waiting = .ok runs) :
    Ascends P R runs.last ∧ ∀ w ∈ runs.waiting, Ascends P R w.run := by
  induction waiting generalizing threshold last with
  | nil =>
    cases hcollapse
    exact ⟨hlast, hwaiting⟩
  | cons w below ih =>
    unfold collapse at hcollapse
    split at hcollapse
    · obtain ⟨joined, hjoined, hcollapse⟩ := exists_of_bind_eq_ok hcollapse
      exact ih (h.join_ascends (hwaiting w List.mem_cons_self) hlast hjoined)
        (fun v hv => hwaiting v (List.mem_cons_of_mem w hv)) hcollapse
    · cases hcollapse
      exact ⟨hlast, hwaiting⟩

theorem finish_ascends (h : Ranks P R precedes) {waiting : List (Waiting α)}
    (hlast : Ascends P R last) (hwaiting : ∀ w ∈ waiting, Ascends P R w.run)
    (hfinish : finish precedes threshold last waiting = .ok ys) : Ascends P R ys := by
  fun_induction finish precedes threshold last waiting with
  | case1 =>
    cases hfinish
    exact hlast
  | case2 threshold last v =>
    obtain ⟨joined, hjoined, hfinish⟩ := exists_of_bind_eq_ok hfinish
    cases hfinish
    exact h.join_ascends (hwaiting v List.mem_cons_self) hlast hjoined
  | case3 threshold last v w below _ ih =>
    obtain ⟨joined, hjoined, hfinish⟩ := exists_of_bind_eq_ok hfinish
    refine ih joined hlast ?_ hfinish
    simp only [List.forall_mem_cons] at hwaiting ⊢
    exact ⟨h.join_ascends hwaiting.2.1 hwaiting.1 hjoined, hwaiting.2.2⟩
  | case4 threshold last v w below _ ih =>
    obtain ⟨joined, hjoined, hfinish⟩ := exists_of_bind_eq_ok hfinish
    exact ih joined (h.join_ascends (hwaiting v List.mem_cons_self) hlast hjoined)
      (fun z hz => hwaiting z (List.mem_cons_of_mem v hz)) hfinish

theorem gather_ascends (h : Ranks P R precedes) {runs : Runs α} (hall : ∀ z ∈ rest, P z)
    (hlast : Ascends P R runs.last) (hwaiting : ∀ w ∈ runs.waiting, Ascends P R w.run)
    (hgather : gather precedes whole start runs rest = .ok ys) : Ascends P R ys := by
  fun_induction gather precedes whole start runs rest with
  | case1 => exact h.finish_ascends hlast hwaiting hgather
  | case2 start runs x xs ih =>
    obtain ⟨run, hcut, hgather⟩ := exists_of_bind_eq_ok hgather
    obtain ⟨left, hcollapse, hgather⟩ := exists_of_bind_eq_ok hgather
    obtain ⟨hlast', hwaiting'⟩ := h.collapse_ascends hlast hwaiting hcollapse
    refine ih run left (fun z hz => hall z ?_) (h.cutRun_ascends hall hcut) ?_ hgather
    · exact (perm_of_cutRun hcut).mem_iff.mp (List.mem_append_right _ hz)
    · exact List.forall_mem_cons.mpr ⟨hlast', hwaiting'⟩

theorem sort_ascends (h : Ranks P R precedes) (hall : ∀ z ∈ xs, P z)
    (hsort : sort precedes xs = .ok ys) : Ascends P R ys := by
  cases xs with
  | nil =>
    cases hsort
    exact ⟨hall, .nil⟩
  | cons x xs =>
    obtain ⟨run, hcut, hsort⟩ := exists_of_bind_eq_ok hsort
    refine h.gather_ascends (fun z hz => hall z ?_) (h.cutRun_ascends hall hcut) (by simp) hsort
    exact (perm_of_cutRun hcut).mem_iff.mp (List.mem_append_right _ hz)

end Ranks

end DecisionDiagram.Order
