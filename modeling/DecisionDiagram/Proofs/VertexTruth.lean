import DecisionDiagram.Proofs.BranchVariables
import Mathlib.Logic.Function.Basic
/-! The truth value that a vertex comes to when all variables have one. Each vertex below the root
of a validated diagram stands for a Boolean function, of the variables that are tested below it. -/
namespace DecisionDiagram
open Relation

/-- The assignment that gives every variable its value. -/
def total (σ : Int → Bool) : Assignment := fun v => some (σ v)

namespace Store

variable {s : Store} {r q : Ref} {v : Int}

def truth (s : Store) (σ : Int → Bool) (r : Ref) : Bool := s.follow (total σ) [] r = .ok true

/-- The truth value of `r` hangs on that of `v`. -/
def DependsOn (s : Store) (r : Ref) (v : Int) : Prop :=
  ∃ σ, s.truth (Function.update σ v true) r ≠ s.truth (Function.update σ v false) r

theorem exists_truth_ne (hr : s.DependsOn r v)
    (hq : ∀ σ, s.truth (Function.update σ v true) q = s.truth (Function.update σ v false) q) :
    ∃ σ, s.truth σ r ≠ s.truth σ q := by
  by_contra hall
  push Not at hall
  obtain ⟨σ, hσ⟩ := hr
  rw [hall, hall] at hσ
  exact hσ (hq σ)

end Store

namespace Rooted

variable {s : Store} {d : Ref} {g : Registry} {yes no root r q hi lo : Ref} {v : Int}
variable {σ τ : Int → Bool}

theorem follow_total (h : Rooted s d g yes no root) (hr : s.Reaches root r) :
    s.follow (total σ) [] r = .ok (s.truth σ r) := by
  have hvalue : ∃ b, s.follow (total σ) [] r = .ok b := by
    have hground := h.grounded.of_reaches hr
    induction hground with
    | intro r hbelow ih =>
      rcases h.reaches_member hr with rfl | rfl | hnode
      · exact ⟨true, h.wired.follow_yes⟩
      · exact ⟨false, h.wired.follow_no⟩
      · obtain ⟨v, hi, lo, hv, hbody, -⟩ := h.wired.exists_body hnode
        have hlead := Store.leads_of_body hbody (σ v)
        rw [h.wired.follow_node (.intro r hbelow) hv hbody]
        exact ih _ hlead (hr.tail hlead)
  obtain ⟨b, hb⟩ := hvalue
  rw [Store.truth, hb]
  cases b <;> rfl

theorem evaluate_total (h : Rooted s d g yes no root) (σ : Int → Bool) :
    s.evaluate d (total σ) = .ok (s.truth σ root) := by
  rw [h.evaluate_eq, h.follow_total .refl]

theorem truth_yes (h : Rooted s d g yes no root) : s.truth σ yes = true := by
  rw [Store.truth, h.wired.follow_yes]
  rfl

theorem truth_no (h : Rooted s d g yes no root) : s.truth σ no = false := by
  rw [Store.truth, h.wired.follow_no]
  rfl

theorem truth_node (h : Rooted s d g yes no root) (hr : s.Reaches root r) (hv : g.find? v = some r)
    (hbody : s.body? r = some (decisionBody v hi lo)) :
    s.truth σ r = s.truth σ (if σ v then hi else lo) := by
  rw [Store.truth, h.wired.follow_node (h.grounded.of_reaches hr) hv hbody]
  rfl

theorem truth_congr (h : Rooted s d g yes no root) (hr : s.Reaches root r)
    (hsame : ∀ v ∈ s.tested r, σ v = τ v) : s.truth σ r = s.truth τ r := by
  have hfollow : s.follow (total σ) [] r = s.follow (total τ) [] r :=
    h.wired.follow_congr (h.reaches_member hr) (h.grounded.of_reaches hr) fun v hv =>
      congrArg some (hsame v hv)
  rw [Store.truth, hfollow, ← Store.truth]

theorem truth_update (h : Rooted s d g yes no root) (hr : s.Reaches root r) (hv : v ∉ s.tested r)
    (b : Bool) : s.truth (Function.update σ v b) r = s.truth σ r := by
  refine h.truth_congr hr fun u hu => Function.update_of_ne ?_ b σ
  rintro rfl
  exact hv hu

/-- The node of a variable is reached from wherever the variable is tested. -/
theorem reaches_of_mem_tested (h : Rooted s d g yes no root) (hq : s.Reaches root q)
    (hv : g.find? v = some r) (htested : v ∈ s.tested q) : s.Reaches q r := by
  obtain ⟨c, hc, htests⟩ := htested
  have hfind := (h.wired.tests_iff (h.reaches_member (hq.trans hc))).mp htests
  obtain rfl := Option.some.inj (hv.symm.trans hfind)
  exact hc

end Rooted

end DecisionDiagram
