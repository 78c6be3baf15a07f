import Mathlib.Data.Set.Finite.Basic
import Mathlib.Logic.Relation
import Mathlib.Order.WellFounded
/-! Cycles of a relation that leads into a finite set. A walk that never ends has to come back, so
being free of cycles and having only finite walks is the same. -/
namespace DecisionDiagram.Cycle
open Relation

variable {α : Type} {R : α → α → Prop}

theorem exists_transGen_self {S : Set α} (hfin : S.Finite) (hne : S.Nonempty)
    (hstep : ∀ a ∈ S, ∃ b ∈ S, R a b) : ∃ a ∈ S, TransGen R a a := by
  by_contra hnone
  have : Finite S := hfin
  have : IsTrans S fun b a => TransGen R a.1 b.1 := ⟨fun _ _ _ hab hbc => hbc.trans hab⟩
  have : Std.Irrefl fun b a : S => TransGen R a.1 b.1 := ⟨fun a h => hnone ⟨a.1, a.2, h⟩⟩
  have hwf := Finite.wellFounded_of_trans_of_irrefl fun b a : S => TransGen R a.1 b.1
  obtain ⟨a, ha⟩ := hne
  obtain ⟨m, -, hmin⟩ := hwf.has_min Set.univ ⟨⟨a, ha⟩, trivial⟩
  obtain ⟨b, hb, hlead⟩ := hstep m.1 m.2
  exact hmin ⟨b, hb⟩ trivial (.single hlead)

theorem not_transGen_self_of_acc {a : α} (h : Acc (Function.swap R) a) : ¬ TransGen R a a := by
  have hacc : Acc (TransGen (Function.swap R)) a := h.transGen
  clear h
  induction hacc with
  | intro x _ ih => exact fun hloop => ih x (transGen_swap.mpr hloop) hloop

theorem acc_of_reflTransGen {a b : α} (h : Acc (Function.swap R) a) (hab : ReflTransGen R a b) :
    Acc (Function.swap R) b := by
  induction hab with
  | refl => exact h
  | tail _ hstep ih => exact ih.inv hstep

/-- All walks from `a` end if and only if none of them reaches a cycle. -/
theorem acc_iff {l : List α} (hl : ∀ a b, R a b → b ∈ l) (a : α) :
    Acc (Function.swap R) a ↔ ¬ ∃ b, ReflTransGen R a b ∧ TransGen R b b := by
  constructor
  · rintro h ⟨b, hab, hbb⟩
    exact not_transGen_self_of_acc (acc_of_reflTransGen h hab) hbb
  · intro hnone
    by_contra ha
    -- The vertices below `a` from which some walk never ends: each leads to another of them.
    let S : Set α := {b | ReflTransGen R a b ∧ ¬ Acc (Function.swap R) b}
    have hfin : S.Finite := by
      refine (List.finite_toSet (a :: l)).subset fun b hb => ?_
      rcases ReflTransGen.cases_tail hb.1 with rfl | ⟨c, -, hc⟩
      · exact List.mem_cons_self
      · exact List.mem_cons_of_mem _ (hl c b hc)
    have hstep : ∀ b ∈ S, ∃ c ∈ S, R b c := by
      intro b hb
      by_contra hall
      refine hb.2 (.intro b fun c hc => ?_)
      by_contra hcacc
      exact hall ⟨c, ⟨hb.1.tail hc, hcacc⟩, hc⟩
    obtain ⟨b, hb, hloop⟩ := exists_transGen_self hfin ⟨a, .refl, ha⟩ hstep
    exact hnone ⟨b, hb.1, hloop⟩

end DecisionDiagram.Cycle
