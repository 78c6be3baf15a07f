import DecisionDiagram.Equality
import DecisionDiagram.Proofs.EquivalentDiagrams
import DecisionDiagram.Proofs.PairedWalks
import Mathlib
/-! Equality of vertices ignores variables and sharing. Whatever is computed from the ends of the
branches up by the shapes of the vertices alone comes out the same for equal ones: the probability
for even weights, and what a diagram comes to when all variables have one value. -/
namespace DecisionDiagram
open Relation

namespace Store

variable {s : Store} {R : Ref → Ref → Prop} {seen : List (Ref × Ref)}
variable {pending : List (Option Ref × Option Ref)}
variable {a b first second r q : Ref} {x y : Vertex}

/-- Related vertices have one shape, and on either side branches to related vertices, or none. -/
def Bisimulation (s : Store) (R : Ref → Ref → Prop) : Prop :=
  ∀ a b, R a b → s.shape? a = s.shape? b ∧ ∀ side, Option.Rel R (s.branch side a) (s.branch side b)

def Assumed (seen : List (Ref × Ref)) (R : Ref → Ref → Prop) (a b : Ref) : Prop :=
  a = b ∨ (a, b) ∈ seen ∨ R a b

theorem rel_branch (hx : s.vertex? a = some x) (hy : s.vertex? b = some y)
    (hhi : Option.Rel R x.hi y.hi) (hlo : Option.Rel R x.lo y.lo) (side : Bool) :
    Option.Rel R (s.branch side a) (s.branch side b) := by
  rw [branch, branch, hx, hy]
  cases side with
  | true => exact hhi
  | false => exact hlo

theorem shape?_eq (hx : s.vertex? a = some x) : s.shape? a = some x.kind.shape := by
  rw [shape?, kind?, hx]
  rfl

theorem exists_of_agree (h : s.agree seen pending = true) : ∃ R : Ref → Ref → Prop,
    (∀ e ∈ pending, Option.Rel (Assumed seen R) e.1 e.2) ∧ ∀ a b, R a b →
      (∃ shape, s.shape? a = some shape ∧ s.shape? b = some shape) ∧
      ∀ side, Option.Rel (Assumed seen R) (s.branch side a) (s.branch side b) := by
  fun_induction Store.agree with
  | case1 => exact ⟨fun _ _ => False, by simp, by simp⟩
  | case2 seen e rest ih =>
    obtain ⟨R, hpending, hR⟩ := ih h
    exact ⟨R, List.forall_mem_cons.mpr ⟨rel_self (fun _ => .inl rfl) e, hpending⟩, hR⟩
  | case3 seen rest a b hseen _ ih =>
    obtain ⟨R, hpending, hR⟩ := ih h
    exact ⟨R, List.forall_mem_cons.mpr ⟨.some (.inr (.inl hseen)), hpending⟩, hR⟩
  | case4 seen rest a b _ x y hx hy hshape _ ih =>
    obtain ⟨R, hpending, hR⟩ := ih h
    simp only [List.forall_mem_cons] at hpending
    obtain ⟨hlo, hhi, hrest⟩ := hpending
    -- what was assumed of this pair is discharged: it joins the relation
    let S : Ref → Ref → Prop := fun c d => (c, d) = (a, b) ∨ R c d
    have hwide : ∀ c d, Assumed ((a, b) :: seen) R c d → Assumed seen S c d := by
      rintro c d (hcd | hcd | hcd)
      · exact .inl hcd
      · rcases List.mem_cons.mp hcd with hcd | hcd
        · exact .inr (.inr (.inl hcd))
        · exact .inr (.inl hcd)
      · exact .inr (.inr (.inr hcd))
    refine ⟨S, List.forall_mem_cons.mpr
      ⟨.some (.inr (.inr (.inl rfl))), fun e he => rel_mono hwide (hrest e he)⟩, ?_⟩
    rintro c d (hcd | hcd)
    · obtain ⟨rfl, rfl⟩ := Prod.mk.inj hcd
      have hbranch := rel_branch hx hy (rel_mono hwide hhi) (rel_mono hwide hlo)
      exact ⟨⟨_, shape?_eq hx, by rw [shape?_eq hy, hshape]⟩, hbranch⟩
    · obtain ⟨hcd, hside⟩ := hR c d hcd
      exact ⟨hcd, fun side => rel_mono hwide (hside side)⟩
  | case5 => cases h
  | case6 => cases h
  | case7 => cases h

theorem exists_bisimulation (h : s.equals a (.vertex b) = true) :
    ∃ R, s.Bisimulation R ∧ R a b := by
  rw [equals] at h
  by_cases hdiagram : (s.isDiagram a || s.isDiagram b) = true
  · rw [if_pos hdiagram] at h
    obtain rfl := beq_iff_eq.mp h
    refine ⟨Eq, ?_, rfl⟩
    rintro c _ rfl
    exact ⟨rfl, fun side => rel_self (fun _ => rfl) _⟩
  · rw [if_neg hdiagram] at h
    obtain ⟨R, hpending, hR⟩ := exists_of_agree h
    have hclosed : ∀ c d, Assumed [] R c d → c = d ∨ R c d := by
      rintro c d (hcd | hcd | hcd)
      · exact .inl hcd
      · cases hcd
      · exact .inr hcd
    refine ⟨fun c d => c = d ∨ R c d, ?_, ?_⟩
    · rintro c d (rfl | hcd)
      · exact ⟨rfl, fun side => rel_self (fun _ => .inl rfl) _⟩
      · obtain ⟨⟨shape, hc, hd⟩, hside⟩ := hR c d hcd
        exact ⟨hc.trans hd.symm, fun side => rel_mono hclosed (hside side)⟩
    · cases hpending (some a, some b) List.mem_cons_self with
      | some hab => exact hclosed a b hab

/-- The value of `f` at a vertex comes from its shape, and from the values at the ends of its
branches. -/
def Computes {α : Type} (s : Store) (leaf : Bool → α) (mix : α → α → α) (f : Ref → α) (r : Ref) :
    Prop :=
  (∃ value, s.shape? r = some (.terminal value) ∧ f r = leaf value) ∨
  (s.shape? r = some .decision ∧ ∃ v hi lo, s.body? r = some (decisionBody v hi lo) ∧
    f r = mix (f hi) (f lo))

theorem Bisimulation.computed_eq {α : Type} {leaf : Bool → α} {mix : α → α → α} {f f' : Ref → α}
    (h : s.Bisimulation R) (hrel : R first second) (hground : s.Grounded first)
    (hf : ∀ r, s.Reaches first r → s.Computes leaf mix f r)
    (hf' : ∀ r, s.Reaches second r → s.Computes leaf mix f' r) : f first = f' second := by
  -- Two terminals or two nodes: the shapes of related vertices exclude the mixed cases.
  induction hground generalizing second with
  | intro first _ ih =>
    obtain ⟨hshape, hbranch⟩ := h _ _ hrel
    rcases hf first .refl with ⟨value, hterm, hleaf⟩ | ⟨hdec, v, hi, lo, hbody, hmix⟩ <;>
      rcases hf' second .refl with ⟨value', hterm', hleaf'⟩ | ⟨hdec', v', hi', lo', hbody', hmix'⟩
    · rw [hterm, hterm'] at hshape
      cases hshape
      rw [hleaf, hleaf']
    · rw [hterm, hdec'] at hshape
      cases hshape
    · rw [hdec, hterm'] at hshape
      cases hshape
    · have hend : ∀ side : Bool, f (if side then hi else lo) = f' (if side then hi' else lo') := by
        intro side
        have hside := hbranch side
        rw [branch_of_body hbody, branch_of_body hbody'] at hside
        cases hside with
        | some hside =>
          have hlead := leads_of_body hbody side
          have hlead' := leads_of_body hbody' side
          exact ih _ hlead hside (fun r hr => hf r (.head hlead hr)) fun r hr =>
            hf' r (.head hlead' hr)
      rw [hmix, hmix']
      exact congrArg₂ mix (hend true) (hend false)

end Store

namespace Rooted

variable {s : Store} {d r first second a b : Ref} {g g' : Registry} {yes no yes' no' root : Ref}

theorem computes {α : Type} {leaf : Bool → α} {mix : α → α → α} {f : Ref → α}
    (h : Rooted s d g yes no root) (hyes : f yes = leaf true) (hno : f no = leaf false)
    (hnode : ∀ {r v hi lo}, s.Reaches root r → g.find? v = some r →
      s.body? r = some (decisionBody v hi lo) → f r = mix (f hi) (f lo))
    (hr : s.Reaches root r) : s.Computes leaf mix f r := by
  rcases h.reaches_member hr with rfl | rfl | hmem
  · exact .inl ⟨true, by rw [Store.shape?, Store.kind?_eq_body, h.wired.yesBody]; rfl, hyes⟩
  · exact .inl ⟨false, by rw [Store.shape?, Store.kind?_eq_body, h.wired.noBody]; rfl, hno⟩
  · obtain ⟨v, hi, lo, hv, hbody, -⟩ := h.wired.exists_body hmem
    exact .inr ⟨by rw [Store.shape?, Store.kind?_eq_body, hbody]; rfl, v, hi, lo, hbody,
      hnode hr hv hbody⟩

theorem chance_computes (h : Rooted s d g yes no root) (q : Rat) (hr : s.Reaches root r) :
    s.Computes (fun value => if value then 1 else 0) (fun hi lo => q * hi + (1 - q) * lo)
      (s.chance root fun _ => q) r :=
  h.computes h.chance_yes h.chance_no h.chance_node hr

theorem truth_computes (h : Rooted s d g yes no root) (side : Bool) (hr : s.Reaches root r) :
    s.Computes id (fun hi lo => if side then hi else lo) (s.truth fun _ => side) r :=
  h.computes h.truth_yes h.truth_no
    (fun hr hv hbody => by rw [h.truth_node hr hv hbody]; cases side <;> rfl) hr

end Rooted

/-- Two settled diagrams with equal roots have the same probability when no weights are given, and
compare alike with every settled diagram by every connective. -/
theorem resemble_of_equals {s : Store} {a b first second : Ref} (ha : s.Settled a)
    (hb : s.Settled b) (hfirst : s.validatedRoot a = .ok first)
    (hsecond : s.validatedRoot b = .ok second) (hequal : s.equals first (.vertex second) = true) :
    (∃ q, s.probability a [] = .ok q ∧ s.probability b [] = .ok q) ∧
      ∀ c, s.Settled c → ∀ op : Connective, ∃ x, s.combine op a c = .ok x ∧
      s.combine op b c = .ok x := by
  obtain ⟨g, yes, no, root, hrooted⟩ := ha.rooted
  obtain ⟨g', yes', no', root', hrooted'⟩ := hb.rooted
  obtain rfl := Except.ok.inj (hrooted.validatedRoot.symm.trans hfirst)
  obtain rfl := Except.ok.inj (hrooted'.validatedRoot.symm.trans hsecond)
  obtain ⟨R, hR, hrel⟩ := Store.exists_bisimulation hequal
  constructor
  · have hchance := hR.computed_eq hrel hrooted.grounded (fun r => hrooted.chance_computes (1 / 2))
      fun r => hrooted'.chance_computes (1 / 2)
    exact ⟨_, hrooted.probability_even, by rw [hrooted'.probability_even, hchance]⟩
  · intro c hc op
    obtain ⟨g'', yes'', no'', root'', hrooted''⟩ := hc.rooted
    have htruth : ∀ side : Bool, s.truth (fun _ => side) root = s.truth (fun _ => side) root' := by
      intro side
      exact hR.computed_eq hrel hrooted.grounded (fun r => hrooted.truth_computes side) fun r =>
        hrooted'.truth_computes side
    refine ⟨_, hrooted.combine_eq hrooted'' op, ?_⟩
    rw [hrooted'.combine_eq hrooted'' op, htruth true, htruth false]

theorem resemble_of_equals_bothOrders : bothOrders.equals 4 (.vertex 9) = true ∧
    (∃ q, bothOrders.probability 0 [] = .ok q ∧ bothOrders.probability 5 [] = .ok q) ∧
    ∀ op : Connective, ∃ x, bothOrders.combine op 0 0 = .ok x ∧
    bothOrders.combine op 5 0 = .ok x := by
  obtain ⟨hfirst, hsecond⟩ := bothOrders_rooted
  have hzero : bothOrders.Settled 0 := ⟨bothOrders_history.1, _, 4, hfirst.wired.registry?, rfl⟩
  have hfive : bothOrders.Settled 5 := ⟨bothOrders_history.2, _, 9, hsecond.wired.registry?, rfl⟩
  have hequal : bothOrders.equals 4 (.vertex 9) = true := by cbv
  obtain ⟨hchance, hcombine⟩ :=
    resemble_of_equals hzero hfive hfirst.validatedRoot hsecond.validatedRoot hequal
  exact ⟨hequal, hchance, hcombine 0 hzero⟩

end DecisionDiagram
