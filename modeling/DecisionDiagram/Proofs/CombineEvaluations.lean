import DecisionDiagram.Proofs.EvaluationSteps
import DecisionDiagram.Proofs.SettledDiagrams
/-! Walks in one direction through a validated diagram: they come to the terminal that an evaluation
comes to when all variables have the value of that direction. So the comparison of two diagrams
never fails. -/
namespace DecisionDiagram

namespace Rooted

variable {s : Store} {d a b first second root : Ref} {g g' : Registry} {yes no yes' no' : Ref}

theorem outcome_eq (h : Rooted s d g yes no root) (side : Bool) :
    s.outcome side d root = .ok (s.truth (fun _ => side) root) := by
  rw [h.charted.passable.outcome_eq h.validatedRoot, h.evaluate_total]

theorem combine_eq (ha : Rooted s a g yes no first) (hb : Rooted s b g' yes' no' second)
    (op : Connective) : s.combine op a b = .ok (op.apply
      (op.apply (s.truth (fun _ => true) first) (s.truth (fun _ => true) second))
      (op.apply (s.truth (fun _ => false) first) (s.truth (fun _ => false) second))) := by
  unfold Store.combine
  rw [Store.validatedPair_eq ha.validatedRoot hb.validatedRoot, ok_bind]
  dsimp only
  rw [ha.outcome_eq, ok_bind, hb.outcome_eq, ok_bind, ha.outcome_eq, ok_bind,
    hb.outcome_eq, ok_bind]
  rfl

theorem compareDiagrams_of_size_eq (ha : Rooted s a g yes no first)
    (hb : Rooted s b g' yes' no' second) (hsize : g.size = g'.size) :
    s.compareDiagrams a b = .ok .eq := by
  unfold Store.compareDiagrams
  rw [combine_eq ha hb, ok_bind]
  split
  · rfl
  · rw [ha.wired.registry, ok_bind, hb.wired.registry, ok_bind, hsize, Nat.compare_eq_eq.mpr rfl]
    rfl

end Rooted

theorem Store.Settled.passable {s : Store} {d : Ref} (h : s.Settled d) :
    ∃ root, s.validatedRoot d = .ok root ∧ s.Passable root := by
  obtain ⟨g, yes, no, root, hrooted⟩ := h.rooted
  exact ⟨root, hrooted.validatedRoot, hrooted.charted.passable⟩

/-- Two settled diagrams are compared by any connective without a fault, and what comes out is
combined from their evaluations with all variables true and with all false. In each diagram the walk
in one direction finds the one terminal that the evaluation is led to. -/
theorem combine_from_evaluations {s : Store} {a b : Ref} (ha : s.Settled a) (hb : s.Settled b) :
    (∀ op : Connective, ∃ w x y z, s.evaluate a (total fun _ => true) = .ok w ∧
      s.evaluate b (total fun _ => true) = .ok x ∧ s.evaluate a (total fun _ => false) = .ok y ∧
      s.evaluate b (total fun _ => false) = .ok z ∧
      s.combine op a b = .ok (op.apply (op.apply w x) (op.apply y z))) ∧
    ∀ d ∈ [a, b], ∀ side, ∃ root t, s.validatedRoot d = .ok root ∧
    s.terminalAlong side root = some t ∧
      (∀ q, s.EndsAt (fun _ => side) root q ↔ q = t) ∧
      s.evaluate d (total fun _ => side) = s.value t := by
  obtain ⟨first, hfirst, hpassFirst⟩ := ha.passable
  obtain ⟨second, hsecond, hpassSecond⟩ := hb.passable
  refine ⟨Store.combine_eq_of_passable hfirst hsecond hpassFirst hpassSecond, ?_⟩
  have hwalk : ∀ d root, s.validatedRoot d = .ok root → s.Passable root → ∀ side, ∃ root t,
      s.validatedRoot d = .ok root ∧ s.terminalAlong side root = some t ∧
        (∀ q, s.EndsAt (fun _ => side) root q ↔ q = t) ∧
            s.evaluate d (total fun _ => side) = s.value t := by
    intro d root hroot hpass side
    obtain ⟨t, ht⟩ := hpass.exists_endsAt .refl fun _ => side
    refine ⟨root, t, hroot, hpass.terminalAlong_eq ht, fun q => ⟨fun hq => hq.unique ht, ?_⟩,
      hpass.evaluate_eq hroot ht⟩
    rintro rfl
    exact ht
  simp only [List.forall_mem_cons, List.not_mem_nil, false_implies, implies_true, and_true]
  exact ⟨hwalk a first hfirst hpassFirst, hwalk b second hsecond hpassSecond⟩

theorem combine_from_evaluations_twoImplications :
    twoImplications.Settled 0 ∧ twoImplications.Settled 5 ∧
    ∀ op : Connective, ∃ p, twoImplications.combine op 0 5 = .ok p := by
  obtain ⟨hcombine, -⟩ :=
    combine_from_evaluations twoImplications_settled.1 twoImplications_settled.2
  refine ⟨twoImplications_settled.1, twoImplications_settled.2, fun op => ?_⟩
  obtain ⟨w, x, y, z, -, -, -, -, hop⟩ := hcombine op
  exact ⟨_, hop⟩

end DecisionDiagram
