import DecisionDiagram.Proofs.CombineEvaluations
import DecisionDiagram.Proofs.SettledDiagrams
import DecisionDiagram.Proofs.SortFaults
import DecisionDiagram.Proofs.SortOrder
/-! The order of settled diagrams. It sees the size of a diagram and whether the diagram comes to
true in both directions. Two that do are equal in order, whatever their sizes, so the order is
transitive only if no other diagram has a size between theirs. -/
namespace DecisionDiagram

/-- What the order sees of a diagram: whether it comes to true in both directions, and its size. -/
structure Standing where
  affirmed : Bool
  size : Nat
deriving DecidableEq, Repr

namespace Standing

variable {a b c x y z : Standing}

def order (a b : Standing) : Ordering :=
  if a.affirmed && b.affirmed then .eq else compare a.size b.size

/-- The size of a diagram that is not affirmed lies between those of two that are, which differ. -/
def Between (z x y : Standing) : Prop :=
  z.affirmed = false ∧ x.affirmed = true ∧ y.affirmed = true ∧ x.size ≤ z.size ∧ z.size ≤ y.size ∧
    x.size < y.size

theorem order_swap (a b : Standing) : (a.order b).swap = b.order a := by
  unfold order
  rw [Bool.and_comm]
  split
  · rfl
  · exact Nat.compare_swap a.size b.size

/-- The order fails to be transitive where two affirmed diagrams are taken for equal, and the third
one, which is not affirmed, tells their sizes apart. -/
theorem order_eq_gt_iff (hab : (a.order b).isLE) (hbc : (b.order c).isLE) :
    a.order c = .gt ↔ c.size < a.size ∧ (c.Between b a ∨ a.Between c b) := by
  obtain ⟨ta, na⟩ := a
  obtain ⟨tb, nb⟩ := b
  obtain ⟨tc, nc⟩ := c
  cases ta <;> cases tb <;> cases tc <;>
    simp only [order, Between, Bool.and_true, Bool.and_false, Bool.false_eq_true, ↓reduceIte,
      Nat.isLE_compare, Nat.compare_eq_gt] at hab hbc ⊢ <;> simp <;> omega

theorem isLE_trans (hfirst : ¬ c.Between b a) (hsecond : ¬ a.Between c b) (hab : (a.order b).isLE)
    (hbc : (b.order c).isLE) : (a.order c).isLE := by
  rw [Ordering.isLE_iff_ne_gt]
  intro hgt
  exact ((order_eq_gt_iff hab hbc).mp hgt).2.elim hfirst hsecond

end Standing

namespace Store

def affirms (s : Store) (d : Ref) : Bool :=
  s.evaluate d (total fun _ => true) = .ok true && s.evaluate d (total fun _ => false) = .ok true

def standing (s : Store) (d : Ref) : Standing := ⟨s.affirms d, (s.registry? d).elim 0 Registry.size⟩

/-- The first diagram does not come behind the second one. -/
def NotAbove (s : Store) (a b : Ref) : Prop :=
  ∃ order, s.compareDiagrams a b = .ok order ∧ order.isLE

end Store

namespace Rooted

variable {s : Store} {a b first second yes no yes' no' : Ref} {g g' : Registry}

theorem standing_eq (h : Rooted s a g yes no first) : s.standing a =
    ⟨s.truth (fun _ => true) first && s.truth (fun _ => false) first, g.size⟩ := by
  simp [Store.standing, Store.affirms, h.evaluate_total, h.wired.registry?]

theorem compareDiagrams_eq (ha : Rooted s a g yes no first) (hb : Rooted s b g' yes' no' second) :
    s.compareDiagrams a b = .ok ((s.standing a).order (s.standing b)) := by
  unfold Store.compareDiagrams
  rw [combine_eq ha hb, ok_bind, ha.standing_eq, hb.standing_eq, ha.wired.registry,
    hb.wired.registry]
  have hboth : ∀ p q p' q' : Bool, ((p && p') && (q && q')) = ((p && q) && (p' && q')) := by decide
  simp only [Connective.apply, Standing.order, hboth]
  split <;> rfl

end Rooted

namespace Store

variable {s : Store} {a b : Ref} {ds : List Ref}

theorem Settled.compareDiagrams_eq (ha : s.Settled a) (hb : s.Settled b) :
    s.compareDiagrams a b = .ok ((s.standing a).order (s.standing b)) := by
  obtain ⟨g, yes, no, first, hfirst⟩ := ha.rooted
  obtain ⟨g', yes', no', second, hsecond⟩ := hb.rooted
  exact hfirst.compareDiagrams_eq hsecond

theorem Settled.notAbove_iff (ha : s.Settled a) (hb : s.Settled b) :
    s.NotAbove a b ↔ ((s.standing a).order (s.standing b)).isLE := by
  simp [NotAbove, ha.compareDiagrams_eq hb]

theorem ranks_of_not_between (hall : ∀ d ∈ ds, s.Settled d)
    (hbetween : ∀ x ∈ ds, ∀ y ∈ ds, ∀ z ∈ ds,
      ¬ (s.standing z).Between (s.standing x) (s.standing y)) :
    Order.Ranks (· ∈ ds) s.NotAbove fun a b => (s.compareDiagrams a b).map (· == .lt) where
  trans a b c ha hb hc hab hbc := by
    rw [(hall a ha).notAbove_iff (hall b hb)] at hab
    rw [(hall b hb).notAbove_iff (hall c hc)] at hbc
    rw [(hall a ha).notAbove_iff (hall c hc)]
    exact Standing.isLE_trans (hbetween b hb a ha c hc) (hbetween c hc b hb a ha) hab hbc
  before a b ha hb hanswer := by
    obtain ⟨order, hcompare, hlt⟩ := map_eq_ok_iff.mp hanswer
    exact ⟨order, hcompare, by rw [beq_iff_eq.mp hlt]; rfl⟩
  behind a b ha hb hanswer := by
    obtain ⟨order, hcompare, hlt⟩ := map_eq_ok_iff.mp hanswer
    rw [(hall b hb).notAbove_iff (hall a ha), ← Standing.order_swap]
    rw [(hall a ha).compareDiagrams_eq (hall b hb)] at hcompare
    rw [Except.ok.inj hcompare]
    cases order <;> simp_all

theorem exists_sortDiagrams (hall : ∀ d ∈ ds, s.Settled d) :
    ∃ sorted, s.sortDiagrams ds = .ok sorted :=
  Order.exists_sort fun a ha b hb => ⟨_, by rw [(hall a ha).compareDiagrams_eq (hall b hb)]; rfl⟩

end Store

/-- The comparison of settled diagrams turns round with its operands, and is transitive but for the
sizes that lie between those of affirmed diagrams. A list of diagrams is always sorted, and in order
where none does. -/
theorem sortDiagrams_ranks {s : Store} {ds : List Ref} (hall : ∀ d ∈ ds, s.Settled d) :
    (∀ a ∈ ds, ∀ b ∈ ds, ∃ order, s.compareDiagrams a b = .ok order ∧
      s.compareDiagrams b a = .ok order.swap) ∧
    (∀ a ∈ ds, ∀ b ∈ ds, ∀ c ∈ ds, s.NotAbove a b → s.NotAbove b c →
      (s.compareDiagrams a c = .ok .gt ↔ (s.standing c).size < (s.standing a).size ∧
        ((s.standing c).Between (s.standing b) (s.standing a) ∨
          (s.standing a).Between (s.standing c) (s.standing b)))) ∧
    ∃ sorted, s.sortDiagrams ds = .ok sorted ∧ sorted.Perm ds ∧
      ((∀ x ∈ ds, ∀ y ∈ ds, ∀ z ∈ ds, ¬ (s.standing z).Between (s.standing x) (s.standing y)) →
        sorted.Pairwise s.NotAbove) := by
  obtain ⟨sorted, hsorted⟩ := Store.exists_sortDiagrams hall
  refine ⟨fun a ha b hb => ?_, fun a ha b hb c hc hab hbc => ?_, sorted, hsorted,
    Order.perm_of_sort hsorted, ?_⟩
  · refine ⟨_, (hall a ha).compareDiagrams_eq (hall b hb), ?_⟩
    rw [(hall b hb).compareDiagrams_eq (hall a ha), Standing.order_swap]
  · rw [(hall a ha).notAbove_iff (hall b hb)] at hab
    rw [(hall b hb).notAbove_iff (hall c hc)] at hbc
    rw [(hall a ha).compareDiagrams_eq (hall c hc), Except.ok.injEq,
      Standing.order_eq_gt_iff hab hbc]
  · exact fun hbetween =>
      ((Store.ranks_of_not_between hall hbetween).sort_ascends (fun _ h => h) hsorted).pairwise

def threeDiagrams : Store :=
  ((Edit.after Diagram.create twoImplications).afterCalls 11 [.addNode 2 .nothing .nothing,
    .addNode 1 (.variable 2) .nothing]).updateRegistry 11 (·.setRoot 15)

theorem threeDiagrams_settled : ∀ d ∈ [5, 0, 11], threeDiagrams.Settled d := by
  have hfirst : threeDiagrams.Settled 0 := twoImplications_settled.1.beside (by decide)
  have hsecond : threeDiagrams.Settled 5 := twoImplications_settled.2.beside (by decide)
  have hthird : threeDiagrams.Settled 11 :=
    .fresh twoImplications [12, 13, 14, 15] rfl rfl rfl rfl rfl (by decide) (by decide)
  simp [hfirst, hsecond, hthird]

theorem sortDiagrams_ranks_threeDiagrams : (∀ d ∈ [5, 11], threeDiagrams.Settled d) ∧
    ∃ sorted, threeDiagrams.sortDiagrams [5, 11] = .ok sorted ∧ sorted.Perm [5, 11] ∧
      sorted.Pairwise threeDiagrams.NotAbove := by
  have hall : ∀ d ∈ [5, 11], threeDiagrams.Settled d := by
    have hfirst : threeDiagrams.Settled 5 := threeDiagrams_settled 5 (by simp)
    have hthird : threeDiagrams.Settled 11 := threeDiagrams_settled 11 (by simp)
    simp [hfirst, hthird]
  obtain ⟨-, -, sorted, hsorted, hperm, hranks⟩ := sortDiagrams_ranks hall
  have hfirst : threeDiagrams.standing 5 = ⟨true, 3⟩ := by decide +kernel
  have hsecond : threeDiagrams.standing 11 = ⟨false, 2⟩ := by decide +kernel
  exact ⟨hall, sorted, hsorted, hperm, hranks (by simp [hfirst, hsecond, Standing.Between])⟩

/-- The larger implication is equal to the smaller one, and that to the conjunction, which yet comes
before the larger implication; so these three stay as they are, out of order. -/
theorem compareDiagrams_threeDiagrams : (∀ d ∈ [5, 0, 11], threeDiagrams.Settled d) ∧
    threeDiagrams.compareDiagrams 5 0 = .ok .eq ∧ threeDiagrams.compareDiagrams 0 11 = .ok .eq ∧
    threeDiagrams.compareDiagrams 5 11 = .ok .gt ∧
    threeDiagrams.sortDiagrams [5, 0, 11] = .ok [5, 0, 11] :=
  ⟨threeDiagrams_settled, by decide +kernel, by decide +kernel, by decide +kernel,
    by decide +kernel⟩

end DecisionDiagram
