import DecisionDiagram.Proofs.RootSearch
import Mathlib
/-! Validation, from first to last: when it finds a root, how it fails, and that a root once found
is the root for good, whatever is called afterwards. -/
namespace DecisionDiagram
open Numeral Relation

theorem Store.leads_updateRegistry {s : Store} {d : Ref} (f : Registry → Registry) :
    (s.updateRegistry d f).Leads = s.Leads := by
  funext a b
  unfold Leads successors updateRegistry
  rw [vertex?_modify]
  split
  · subst_vars
    cases s.vertex? a with
    | none => rfl
    | some x =>
      obtain ⟨kind, hi, lo, parents⟩ := x
      cases kind <;> rfl
  · rfl

section Ready

variable {s s' : Store} {d r : Ref} {g : Registry}

theorem registry_eq_ok (h : s.registry? d = some g) : s.registry d = .ok g := by
  rw [Store.registry, h]

theorem requireMutable_of_ready (h : s.registry? d = some g) (hready : g.ready = true) :
    Diagram.requireMutable d s = .error .alreadyValidated s := by
  unfold Diagram.requireMutable
  rw [bind_of_ok (observe_of_ok (registry_eq_ok h)), hready]
  rfl

theorem validate_of_root (h : s.registry? d = some g) (hroot : g.root = some r) :
    Diagram.validate d s = .ok r s := by
  unfold Diagram.validate
  rw [bind_of_ok (observe_of_ok (registry_eq_ok h)), hroot]
  rfl

theorem addNode_after_ready (h : s.registry? d = some g) (hready : g.ready = true) (v : Int)
    (hi lo : Reference) : Edit.after (Diagram.addNode d v hi lo) s = s := by
  unfold Diagram.addNode
  rw [Edit.after, bind_of_ok (observe_of_ok (registry_eq_ok h))]
  cases g.find? v with
  | some r => rfl
  | none => exact after_of_error (bind_of_error (requireMutable_of_ready h hready))

theorem setEdge_after_ready (h : s.registry? d = some g) (hready : g.ready = true)
    (source target : Reference) (selector : Selector) :
    Edit.after (Diagram.setEdge d source target selector) s = s := by
  unfold Diagram.setEdge
  exact after_of_error (bind_of_error (requireMutable_of_ready h hready))

theorem registry_dropParent {child parent : Ref} :
    Store.registry? (s.dropParent child parent) d = s.registry? d := by
  rw [Store.registry?_eq_body, Store.body?_dropParent, ← Store.registry?_eq_body]

end Ready

namespace Open

variable {s : Store} {d : Ref} {g : Registry} {yes no r : Ref}

theorem validate_of_ok (h : Open s d g yes no) (hfind : s.findRoot d g = .ok r) :
    Diagram.validate d s = .ok r (s.updateRegistry d (·.setRoot r)) := by
  rw [h.wired.validate_run, h.root, hfind]

theorem validate_of_error (h : Open s d g yes no) {e : Fault} (hfind : s.findRoot d g = .error e) :
    Diagram.validate d s = .error e s := by
  rw [h.wired.validate_run, h.root, hfind]

/-- How validation comes out, by the top nodes. -/
theorem validate_cases (h : Open s d g yes no) :
    (∃ r, s.topNodes g = {r} ∧ ¬ s.Circular r ∧
      Diagram.validate d s = .ok r (s.updateRegistry d (·.setRoot r))) ∨
    (((∃ r, s.topNodes g = {r} ∧ s.Circular r) ∨ s.topNodes g = ∅ ∧ g.nodes ≠ []) ∧
      ∃ a b, g.Member yes no b ∧ s.Closes a b ∧
      Diagram.validate d s = .error (s.raise (.cyclicPath a b)) s) ∨
    ((g.nodes = [] ∨ (s.topNodes g).Nontrivial) ∧
      ∃ l, (∀ r, r ∈ l ↔ r ∈ s.topNodes g) ∧
      Diagram.validate d s = .error (s.raise (.rootCount l)) s) := by
  rcases h.findRoot_cases with
    ⟨r, htop, hground, hfind⟩ | ⟨htop, a, b, hb, hcloses, hfind⟩ | ⟨htop, l, hl, hfind⟩
  · exact .inl ⟨r, htop, Store.grounded_iff.mp hground, h.validate_of_ok hfind⟩
  · refine .inr (.inl ⟨htop.imp_left ?_, a, b, hb, hcloses, h.validate_of_error hfind⟩)
    rintro ⟨r, hr, hground⟩
    exact ⟨r, hr, by rwa [Store.grounded_iff, not_not] at hground⟩
  · exact .inr (.inr ⟨htop, l, hl, h.validate_of_error hfind⟩)

theorem topNodes_of_nil (hnone : g.nodes = []) : s.topNodes g = ∅ :=
  Set.eq_empty_iff_forall_notMem.mpr fun r hr => by simpa [hnone] using hr.1

theorem not_settles_of_cycle
    (h : (∃ r, s.topNodes g = {r} ∧ s.Circular r) ∨ s.topNodes g = ∅ ∧ g.nodes ≠ []) :
    (∀ r, s.topNodes g = {r} → s.Circular r) ∧ ¬ (g.nodes = [] ∨ (s.topNodes g).Nontrivial) := by
  rcases h with ⟨q, htop, hcircular⟩ | ⟨htop, hnodes⟩
  · refine ⟨fun r hr => ?_, ?_⟩
    · rwa [← Set.singleton_eq_singleton_iff.mp (htop.symm.trans hr)]
    · rintro (hnone | hmany)
      · exact Set.singleton_ne_empty q (htop.symm.trans (topNodes_of_nil hnone))
      · exact Set.not_nontrivial_singleton (htop ▸ hmany)
  · refine ⟨fun r hr => absurd (hr.symm.trans htop) (Set.singleton_ne_empty r), ?_⟩
    rintro (hnone | hmany)
    · exact hnodes hnone
    · exact hmany.nonempty.ne_empty htop

theorem not_single_of_count (h : g.nodes = [] ∨ (s.topNodes g).Nontrivial) (r : Ref) :
    s.topNodes g ≠ {r} := by
  rintro hr
  rcases h with hnone | hmany
  · exact Set.singleton_ne_empty r (hr.symm.trans (topNodes_of_nil hnone))
  · exact Set.not_nontrivial_singleton (hr ▸ hmany)

theorem validate_ok_iff (h : Open s d g yes no) {s' : Store} : Diagram.validate d s = .ok r s' ↔
    s.topNodes g = {r} ∧ ¬ s.Circular r ∧ s' = s.updateRegistry d (·.setRoot r) := by
  rcases h.validate_cases with
    ⟨q, htop, hcircular, hrun⟩ | ⟨hcycle, a, b, -, -, hrun⟩ | ⟨hcount, l, -, hrun⟩
  · rw [hrun, htop, EStateM.Result.ok.injEq, Set.singleton_eq_singleton_iff]
    constructor
    · rintro ⟨rfl, rfl⟩
      exact ⟨rfl, hcircular, rfl⟩
    · rintro ⟨rfl, -, rfl⟩
      exact ⟨rfl, rfl⟩
  · rw [hrun]
    exact ⟨nofun, fun ⟨htop, hnot, _⟩ => absurd ((not_settles_of_cycle hcycle).1 r htop) hnot⟩
  · rw [hrun]
    exact ⟨nofun, fun ⟨htop, _⟩ => absurd htop (not_single_of_count hcount r)⟩

theorem validate_of_candidate (h : Open s d g yes no) (hone : s.rootCandidates d g = [r])
    (hground : s.Grounded r) :
    Diagram.validate d s = .ok r (s.updateRegistry d (·.setRoot r)) := by
  refine h.validate_ok_iff.mpr ⟨?_, Store.grounded_iff.mp hground, rfl⟩
  simp [h.topNodes_eq, hone]

end Open

theorem loneNode_validate : Diagram.validate 0 loneNode =
    .ok 3 (loneNode.updateRegistry 0 (·.setRoot 3)) := by
  obtain ⟨g, yes, no, h⟩ := Open.of_history loneNode_history
  obtain rfl : g = { table := [(5, 3)] } := Option.some.inj (h.wired.registry?.symm.trans rfl)
  have hbelow : ∀ r ∈ [1, 2, 3], ∀ q ∈ loneNode.successors r, q ∈ [1, 2, 3] ∧ q < r := by decide
  exact h.validate_of_candidate rfl (Store.grounded_of_lt hbelow 3 (by decide))

end DecisionDiagram
