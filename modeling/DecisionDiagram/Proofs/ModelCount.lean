import DecisionDiagram.Proofs.EquivalentDiagrams
import DecisionDiagram.Proofs.SettledDiagrams
import Mathlib
/-! Models: the assignments under which a diagram comes out true. For even weights all assignments
weigh the same, so the probability is the share of the models among them, and the count that is read
off it is no less than their number: nothing is cut off. -/
namespace DecisionDiagram

section Shares

variable {ι : Type} [Fintype ι]

theorem assignmentWeight_half (σ : ι → Bool) :
    assignmentWeight (fun _ => 1 / 2) σ = (1 / 2) ^ Fintype.card ι := by
  have hhalf : ∀ v, (if σ v then (1 / 2 : Rat) else 1 - 1 / 2) = 1 / 2 :=
    fun v => by cases σ v <;> norm_num
  rw [assignmentWeight, Finset.prod_congr rfl fun v _ => hhalf v, Finset.prod_const,
    Finset.card_univ]

theorem mean_half [DecidableEq ι] (p : (ι → Bool) → Prop) [DecidablePred p] :
    mean (fun _ => 1 / 2) (fun σ => if p σ then 1 else 0) * 2 ^ Fintype.card
      ι = (Finset.univ.filter p).card := by
  unfold mean
  simp only [assignmentWeight_half]
  rw [← Finset.sum_mul, Finset.sum_boole, mul_assoc, ← mul_pow]
  norm_num

end Shares

theorem tdiv_eq_of_share {q : Rat} {n k : Nat} (h : q * 2 ^ n = k) :
    (q.num * Numeral.powTwo n).tdiv q.den = k := by
  have hparts : q.num * Numeral.powTwo n = k * q.den := by
    have hrat : (q.num : Rat) * 2 ^ n = k * q.den := by rw [← h, ← Rat.mul_den_eq_num q]; ring
    exact_mod_cast hrat
  rw [hparts, Int.mul_tdiv_cancel _ (Int.natCast_ne_zero.mpr q.den_nz)]

/-- The assignments to the variables below the root under which a diagram comes out true. -/
noncomputable def Store.models (s : Store) (d root : Ref) :
    Finset (s.testedVariables root → Bool) :=
  Finset.univ.filter fun σ => s.evaluate d (assign σ) = .ok true

theorem Rooted.chance_half {s : Store} {d : Ref} {g : Registry} {yes no root : Ref}
    (h : Rooted s d g yes no root) :
    s.chance root (fun _ => 1 / 2) root * 2 ^
      (s.testedVariables root).card = (s.models d root).card := by
  unfold Store.chance Store.models
  rw [← Fintype.card_coe, mean_half]
  simp only [h.evaluate_eq]

/-- The count of a validated diagram is the number of its models, and its probability without
weights is a whole number of parts: as many as there are models, of as many as there are
assignments. -/
theorem modelCount_eq_card {s : Store} {d root : Ref} {g : Registry}
    (past : History (ownCalls d) d s) (hg : s.registry? d = some g) (hroot : g.root = some root) :
    s.modelCount d = .ok ((s.models d root).card : Int) ∧
      ∃ q, s.probability d [] = .ok q ∧
      q * 2 ^ (s.testedVariables root).card = ((s.models d root).card : Rat) := by
  obtain ⟨yes, no, h⟩ := Rooted.of_history past hg hroot
  constructor
  · rw [h.modelCount_eq]
    exact congrArg _ (tdiv_eq_of_share h.chance_half)
  · exact ⟨_, h.probability_even, h.chance_half⟩

theorem modelCount_eq_card_implication :
    implication.modelCount 0 = .ok 3 ∧ (implication.models 0 4).card = 3 ∧
    ∃ q, implication.probability 0 [] = .ok q ∧
    q * 2 ^ (implication.testedVariables 4).card = 3 := by
  obtain ⟨hcount, q, hq, hparts⟩ :=
    modelCount_eq_card implication_settled.1 implication_registry? rfl
  have hthree : implication.modelCount 0 = .ok 3 := by cbv
  have hcard : (implication.models 0 4).card = 3 :=
    Int.ofNat_inj.mp (Except.ok.inj (hcount.symm.trans hthree))
  exact ⟨hthree, hcard, q, hq, by rw [hparts, hcard]; rfl⟩

end DecisionDiagram
