import Mathlib.Algebra.BigOperators.Ring.Finset
import Mathlib.Data.Fintype.BigOperators
import Mathlib.Data.Rat.Defs
import Mathlib.Algebra.Field.Rat
import Mathlib.Logic.Equiv.Prod
import Mathlib.Tactic.Ring
/-! Means over all assignments to finitely many variables, each of which is true by its own weight.
-/
namespace DecisionDiagram

variable {ι : Type} [Fintype ι] [DecidableEq ι]

/-- The weight of an assignment: the product of the weights of what it says. -/
def assignmentWeight (w : ι → Rat) (σ : ι → Bool) : Rat := ∏ v, if σ v then w v else 1 - w v

def mean (w : ι → Rat) (f : (ι → Bool) → Rat) : Rat := ∑ σ, f σ * assignmentWeight w σ

variable (w : ι → Rat)

theorem assignmentWeight_update (σ : ι → Bool) (v : ι) (b : Bool) :
    assignmentWeight w (Function.update σ v b) =
      (if b then w v else 1 - w v) * ∏ u ∈ Finset.univ.erase v, if σ u then w u else 1 - w u := by
  unfold assignmentWeight
  rw [← Finset.mul_prod_erase _ _ (Finset.mem_univ v), Function.update_self]
  congr 1
  refine Finset.prod_congr rfl fun u hu => ?_
  rw [Function.update_of_ne (Finset.ne_of_mem_erase hu)]

theorem sum_by_value (v : ι) (F : (ι → Bool) → Rat) : ∑ σ, F σ = ∑ τ : {u // u ≠ v} → Bool,
      (F ((Equiv.funSplitAt v Bool).symm (true, τ)) + F
        ((Equiv.funSplitAt v Bool).symm (false, τ))) := by
  rw [← (Equiv.funSplitAt v Bool).symm.sum_comp, Fintype.sum_prod_type, Fintype.sum_bool,
    Finset.sum_add_distrib]

omit [Fintype ι] in
theorem update_funSplitAt (v : ι) (b c : Bool) (τ : {u // u ≠ v} → Bool) :
    Function.update ((Equiv.funSplitAt v Bool).symm (b, τ)) v c = (Equiv.funSplitAt v Bool).symm
      (c, τ) := by
  funext u
  by_cases hu : u = v
  · subst hu
    simp
  · simp [hu]

theorem mean_split (v : ι) (f : (ι → Bool) → Rat) : mean w f =
    w v * mean w (fun σ => f (Function.update σ v true)) +
      (1 - w v) * mean w (fun σ => f (Function.update σ v false)) := by
  unfold mean
  rw [sum_by_value v, sum_by_value v, sum_by_value v, Finset.mul_sum,
    Finset.mul_sum, ← Finset.sum_add_distrib]
  refine Finset.sum_congr rfl fun τ _ => ?_
  have hweight : ∀ b, assignmentWeight w ((Equiv.funSplitAt v Bool).symm (b, τ)) =
      (if b then w v else 1 - w v) * ∏ u ∈ Finset.univ.erase v,
        if (Equiv.funSplitAt v Bool).symm (true, τ) u then w u else 1 - w u := by
    intro b
    rw [← update_funSplitAt v true b τ, assignmentWeight_update]
  simp only [update_funSplitAt, hweight, Bool.false_eq_true, ↓reduceIte]
  ring

theorem mean_one : mean w (fun _ => 1) = 1 := by
  unfold mean assignmentWeight
  have hprod :=
    Finset.prod_univ_sum (fun _ => Finset.univ) (fun v b => if b = true then w v else 1 - w v)
  rw [Fintype.piFinset_univ] at hprod
  simp only [one_mul]
  rw [← hprod]
  simp

theorem mean_zero : mean w (fun _ => 0) = 0 := by
  simp [mean]

end DecisionDiagram
