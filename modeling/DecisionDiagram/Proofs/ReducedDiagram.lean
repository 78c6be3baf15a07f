import DecisionDiagram.Proofs.LayeredProbability
import DecisionDiagram.Proofs.VertexTruth
/-! A validated diagram is reduced, though no step reduces it. Since a variable has one node, and a
node two different branches, different vertices come to different truth values somewhere, and no
variable that is tested can be left out. -/
namespace DecisionDiagram
open Relation

namespace Rooted

variable {s : Store} {d : Ref} {g : Registry} {yes no root r q n : Ref} {v : Int}

theorem mem_tested_of_dependsOn (h : Rooted s d g yes no root) (hr : s.Reaches root r)
    (hv : s.DependsOn r v) : v ∈ s.tested r := by
  by_contra hout
  obtain ⟨σ, hσ⟩ := hv
  exact hσ ((h.truth_update hr hout true).trans (h.truth_update hr hout false).symm)

theorem exists_truth_ne_of_not_reaches (h : Rooted s d g yes no root) (hv : g.find? v = some r)
    (hdepends : s.DependsOn r v) (hq : s.Reaches root q) (hout : ¬ s.Reaches q r) :
    ∃ σ, s.truth σ r ≠ s.truth σ q := by
  have htested : v ∉ s.tested q := fun hmem => hout (h.reaches_of_mem_tested hq hv hmem)
  refine Store.exists_truth_ne hdepends fun σ => ?_
  rw [h.truth_update hq htested, h.truth_update hq htested]

theorem truth_ne_of_isTerminal (h : Rooted s d g yes no root) {σ : Int → Bool}
    (hr : g.Member yes no r) (hq : g.Member yes no q) (hrEnd : s.isTerminal r = true)
    (hqEnd : s.isTerminal q = true) (hne : r ≠ q) : s.truth σ r ≠ s.truth σ q := by
  rcases h.wired.terminal_cases hr hrEnd with rfl | rfl
  · obtain rfl := (h.wired.terminal_cases hq hqEnd).resolve_left (Ne.symm hne)
    simp [h.truth_yes, h.truth_no]
  · obtain rfl := (h.wired.terminal_cases hq hqEnd).resolve_right (Ne.symm hne)
    simp [h.truth_yes, h.truth_no]

/-- Different vertices do not always agree, if nodes depend on their own variables. -/
theorem exists_truth_ne_of_dependsOn (h : Rooted s d g yes no root) (hr : s.Reaches root r)
    (hq : s.Reaches root q) (hne : r ≠ q) (hrOwn : ∀ v, g.find? v = some r → s.DependsOn r v)
    (hqOwn : ∀ v, g.find? v = some q → s.DependsOn q v) : ∃ σ, s.truth σ r ≠ s.truth σ q := by
  have hnode : ∀ {x}, s.Reaches root x → s.isTerminal x = false → ∃ v, g.find? v = some x :=
      fun hx hterm =>
    (Registry.mem_nodes_iff h.wired.ascending).mp
      ((h.wired.mem_nodes_iff_of_member (h.reaches_member hx)).mpr hterm)
  -- One of the two is a node that the other does not reach, unless both are terminals.
  by_cases hqr : s.Reaches q r
  · -- then `r` does not reach `q`, which is a node
    obtain ⟨c, hqc, hcr⟩ := (ReflTransGen.cases_head hqr).resolve_left (Ne.symm hne)
    obtain ⟨v, hv⟩ := hnode hq (Store.isTerminal_of_leads hqc)
    have hback : ¬ s.Reaches r q := fun hrq =>
      (h.grounded.of_reaches hq).not_reaches_back hqc (hcr.trans hrq)
    obtain ⟨σ, hσ⟩ := h.exists_truth_ne_of_not_reaches hv (hqOwn v hv) hr hback
    exact ⟨σ, Ne.symm hσ⟩
  · cases hterm : s.isTerminal r with
    | false =>
      obtain ⟨v, hv⟩ := hnode hr hterm
      exact h.exists_truth_ne_of_not_reaches hv (hrOwn v hv) hq hqr
    | true =>
      cases hother : s.isTerminal q with
      | false =>
        obtain ⟨v, hv⟩ := hnode hq hother
        have hback : ¬ s.Reaches r q := by
          intro hrq
          obtain ⟨c, hrc, -⟩ := (ReflTransGen.cases_head hrq).resolve_left hne
          simp [Store.isTerminal_of_leads hrc] at hterm
        obtain ⟨σ, hσ⟩ := h.exists_truth_ne_of_not_reaches hv (hqOwn v hv) hr hback
        exact ⟨σ, Ne.symm hσ⟩
      | true =>
        exact ⟨fun _ => false, h.truth_ne_of_isTerminal (h.reaches_member hr) (h.reaches_member hq)
          hterm hother hne⟩

theorem dependsOn_of_find? (h : Rooted s d g yes no root) (hr : s.Reaches root r)
    (hv : g.find? v = some r) : s.DependsOn r v := by
  have hground := h.grounded.of_reaches hr
  induction hground generalizing v with
  | intro r hbelow ih =>
    obtain ⟨-, hi, lo, hbody, hne, -⟩ := h.wired.node hv
    have hlead := Store.leads_of_body hbody
    have hhi : s.Reaches root hi := hr.tail (hlead true)
    have hlo : s.Reaches root lo := hr.tail (hlead false)
    obtain ⟨σ, hσ⟩ := h.exists_truth_ne_of_dependsOn hhi hlo hne
      (fun u hu => ih hi (hlead true) hhi hu) (fun u hu => ih lo (hlead false) hlo hu)
    refine ⟨σ, ?_⟩
    rw [h.truth_node hr hv hbody, h.truth_node hr hv hbody, Function.update_self,
      Function.update_self, if_pos rfl, if_neg Bool.false_ne_true,
      h.truth_update hhi (h.not_tested_below hr hv (hlead true)),
      h.truth_update hlo (h.not_tested_below hr hv (hlead false))]
    exact hσ

theorem exists_truth_ne (h : Rooted s d g yes no root) (hr : s.Reaches root r)
    (hq : s.Reaches root q) (hne : r ≠ q) : ∃ σ, s.truth σ r ≠ s.truth σ q :=
  h.exists_truth_ne_of_dependsOn hr hq hne (fun _ hv => h.dependsOn_of_find? hr hv)
    fun _ hv => h.dependsOn_of_find? hq hv

theorem dependsOn_of_leads (h : Rooted s d g yes no root) (hr : s.Reaches root r)
    (hlead : s.Leads r n) (hv : s.DependsOn n v) : s.DependsOn r v := by
  have hmember := h.reaches_member hr
  obtain ⟨u, hi, lo, hu, hbody, -⟩ := h.wired.exists_body
    ((h.wired.mem_nodes_iff_of_member hmember).mpr (Store.isTerminal_of_leads hlead))
  have hn : s.Reaches root n := hr.tail hlead
  obtain ⟨side, rfl⟩ : ∃ side : Bool, n = if side then hi else lo := by
    rw [Store.Leads, Store.successors_of_body hbody] at hlead
    rcases List.mem_pair.mp hlead with rfl | rfl
    · exact ⟨true, rfl⟩
    · exact ⟨false, rfl⟩
  have hfresh : u ∉ s.tested (if side then hi else lo) := h.not_tested_below hr hu hlead
  have huv : u ≠ v := by
    rintro rfl
    exact hfresh (h.mem_tested_of_dependsOn hn hv)
  obtain ⟨σ, hσ⟩ := hv
  refine ⟨Function.update σ u side, ?_⟩
  have hstep : ∀ b, s.truth (Function.update (Function.update σ u side) v b) r =
      s.truth (Function.update σ v b) (if side then hi else lo) := by
    intro b
    rw [h.truth_node hr hu hbody, Function.update_of_ne huv, Function.update_self,
      Function.update_comm huv, h.truth_update hn hfresh]
  rw [hstep, hstep]
  exact hσ

theorem dependsOn_of_reaches (h : Rooted s d g yes no root) (hr : s.Reaches root r)
    (hq : s.Reaches r q) (hv : s.DependsOn q v) : s.DependsOn r v := by
  induction hq using ReflTransGen.head_induction_on with
  | refl => exact hv
  | head hlead _ ih => exact h.dependsOn_of_leads hr hlead (ih (hr.tail hlead))

theorem dependsOn_iff (h : Rooted s d g yes no root) : s.DependsOn root v ↔ v ∈ s.tested root := by
  constructor
  · exact h.mem_tested_of_dependsOn .refl
  · intro hv
    obtain ⟨r, hi, lo, hr, hfind, -⟩ := h.exists_node hv
    exact h.dependsOn_of_reaches .refl hr (h.dependsOn_of_find? hr hfind)

theorem exists_truth_eq (h : Rooted s d g yes no root) (b : Bool) : ∃ σ, s.truth σ root = b := by
  obtain ⟨v, -, hv⟩ := h.exists_rootVariable
  obtain ⟨σ, hσ⟩ := h.dependsOn_iff.mpr hv
  by_cases hb : s.truth (Function.update σ v true) root = b
  · exact ⟨_, hb⟩
  · refine ⟨Function.update σ v false, ?_⟩
    rw [Bool.eq_not_of_ne hb] at hσ
    cases b <;> simpa using hσ.symm

end Rooted

/-- A validated diagram is reduced: evaluations from two different vertices below the root come to
different truth values under some assignment, and for each variable that is tested there are two
assignments that differ in it alone and tell the diagram apart. Hence the diagram comes out either
way. -/
theorem validated_reduced {s : Store} {d root : Ref} {g : Registry}
    (past : History (ownCalls d) d s) (hg : s.registry? d = some g) (hroot : g.root = some root) :
    (∀ r q, s.Reaches root r → s.Reaches root q → r ≠ q → ∃ σ x y,
      s.follow (total σ) [] r = .ok x ∧ s.follow (total σ) [] q = .ok y ∧ x ≠ y) ∧
    (∀ v ∈ s.tested root, ∃ σ x y, s.evaluate d (total (Function.update σ v true)) = .ok x ∧
      s.evaluate d (total (Function.update σ v false)) = .ok y ∧ x ≠ y) ∧
    ∀ b, ∃ σ, s.evaluate d (total σ) = .ok b := by
  obtain ⟨yes, no, h⟩ := Rooted.of_history past hg hroot
  refine ⟨fun r q hr hq hne => ?_, fun v hv => ?_, fun b => ?_⟩
  · obtain ⟨σ, hσ⟩ := h.exists_truth_ne hr hq hne
    exact ⟨σ, _, _, h.follow_total hr, h.follow_total hq, hσ⟩
  · obtain ⟨σ, hσ⟩ := h.dependsOn_iff.mpr hv
    exact ⟨σ, _, _, h.evaluate_total _, h.evaluate_total _, hσ⟩
  · obtain ⟨σ, hσ⟩ := h.exists_truth_eq b
    exact ⟨σ, by rw [h.evaluate_total, hσ]⟩

theorem validated_reduced_implication :
    (∃ σ x y, implication.follow (total σ) [] 4 = .ok x ∧
      implication.follow (total σ) [] 3 = .ok y ∧ x ≠ y) ∧
    ∃ σ x y, implication.evaluate 0 (total (Function.update σ 2 true)) = .ok x ∧
      implication.evaluate 0 (total (Function.update σ 2 false)) = .ok y ∧ x ≠ y := by
  obtain ⟨hdistinct, hdepends, -⟩ :=
    validated_reduced implication_settled.1 implication_registry? rfl
  have hlead : implication.Leads 4 3 := (by decide : 3 ∈ implication.successors 4)
  have htested : 2 ∈ implication.tested 4 :=
    Store.mem_testedVariables.mp (by simp [implication_testedVariables])
  exact ⟨hdistinct 4 3 .refl (.single hlead) (by decide), hdepends 2 htested⟩

end DecisionDiagram
