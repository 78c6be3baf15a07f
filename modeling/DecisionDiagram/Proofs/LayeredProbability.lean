import DecisionDiagram.Proofs.AssignmentMean
import DecisionDiagram.Proofs.BranchVariables
import DecisionDiagram.Proofs.SettledDiagrams
import Mathlib
/-! The probability that is found layer by layer is the mean over all assignments: what is entered
for a variable is the chance that an evaluation which starts at its vertex comes out true. -/
namespace DecisionDiagram
open Relation

def assign {V : Finset Int} (σ : V → Bool) : Assignment :=
  fun v => if h : v ∈ V then some (σ ⟨v, h⟩) else none

namespace Store

variable {s : Store} {root r : Ref} {v : Int}

theorem tested_finite (s : Store) (root : Ref) : (s.tested root).Finite := by
  refine (List.finite_toSet (s.refs.filterMap s.var?)).subset ?_
  rintro v ⟨r, -, hr⟩
  unfold Tests kind? at hr
  obtain ⟨x, hx, hkind⟩ := Option.map_eq_some_iff.mp hr
  refine List.mem_filterMap.mpr ⟨r, mem_refs.mpr (lt_size_of_vertex? hx), ?_⟩
  simp [var?, hx, hkind, Kind.var?]

noncomputable def testedVariables (s : Store) (root : Ref) :
    Finset Int := (s.tested_finite root).toFinset

theorem mem_testedVariables : v ∈ s.testedVariables root ↔ v ∈ s.tested root :=
  (s.tested_finite root).mem_toFinset

variable {d : Ref} {weights : Weights} {known : List (Int × Rat)} {w hi lo : Rat}

theorem enterProbability_of_known (h : (known.lookup v).isSome = true) :
    s.enterProbability d weights known v = .ok known := by
  rw [enterProbability, h, if_pos rfl]
  rfl

theorem enterProbability_of_new (h : (known.lookup v).isSome = false)
    (hw : (weights.of v).exact = .ok w) (hhi : s.branchEntry d known v true = .ok hi)
    (hlo : s.branchEntry d known v false = .ok lo) :
    s.enterProbability d weights known v = .ok ((v, w * hi + (1 - w) * lo) :: known) := by
  rw [enterProbability, h, if_neg Bool.false_ne_true, hw, hhi, hlo]
  rfl

theorem foldLayers_eq {α : Type} {enter : List (Int × α) → Int → Except Fault (List (Int × α))}
    {terminals entries : List (Int × α)} {layers : List (List Int)} {a : α}
    (hlayers : s.layers d = .ok layers) (hrun : layers.flatten.foldlM enter terminals = .ok entries)
    (hroot : s.validatedRoot d = .ok root) (hv : s.var? root = some v)
    (ha : entries.lookup v = some a) : s.foldLayers d enter terminals = .ok a := by
  unfold foldLayers
  rw [hlayers, ok_bind, hrun, ok_bind, hroot, ok_bind, requireVariable_of_var? hv, ok_bind, ha]
  rfl

/-- The chance that an evaluation from `r` comes out true, when the variables below `root` are
drawn. -/
noncomputable def chance (s : Store) (root : Ref) (w : Int → Rat) (r : Ref) : Rat :=
  mean (fun v : s.testedVariables root => w v) fun σ =>
    if s.follow (assign σ) [] r = .ok true then 1 else 0

/-- What is entered for a variable is the chance of its vertex; those in `done` and the terminals
are entered. -/
structure Known (s : Store) (d root : Ref) (w : Int → Rat) (done : List Int)
    (known : List (Int × Rat)) : Prop where
  right : ∀ v q r, known.lookup v = some q → s.vertexOf? d v = some r → q = s.chance root w r
  entered : ∀ v ∈ done, (known.lookup v).isSome
  terminals : (known.lookup trueVariable).isSome ∧ (known.lookup falseVariable).isSome

namespace Known

variable {d : Ref} {w : Int → Rat} {done : List Int} {known : List (Int × Rat)} {q : Rat}

theorem stay (h : s.Known d root w done known) (hentered : (known.lookup v).isSome) :
    s.Known d root w (done ++ [v]) known := by
  refine ⟨h.right, fun u hu => ?_, h.terminals⟩
  rcases List.mem_append.mp hu with hu | hu
  · exact h.entered u hu
  · exact List.mem_singleton.mp hu ▸ hentered

theorem cons (h : s.Known d root w done known)
    (hq : ∀ r, s.vertexOf? d v = some r → q = s.chance root w r) :
    s.Known d root w (done ++ [v]) ((v, q) :: known) := by
  have hlookup : ∀ u, (((v, q) :: known).lookup u).isSome ↔ u = v ∨ (known.lookup u).isSome := by
    intro u
    rw [lookup_cons_eq_ite]
    split <;> simp_all
  refine ⟨fun u p r hp hr => ?_, fun u hu => ?_, ?_⟩
  · rw [lookup_cons_eq_ite] at hp
    split at hp
    · rename_i huv
      obtain rfl : u = v := huv
      rw [← Option.some.inj hp]
      exact hq r hr
    · exact h.right u p r hp hr
  · rw [hlookup]
    rcases List.mem_append.mp hu with hu | hu
    · exact .inr (h.entered u hu)
    · exact .inl (List.mem_singleton.mp hu)
  · rw [hlookup, hlookup]
    exact ⟨.inr h.terminals.1, .inr h.terminals.2⟩

end Known

end Store

namespace Rooted

variable {s : Store} {d : Ref} {g : Registry} {yes no root r hi lo : Ref} {v : Int} {w : Int → Rat}
variable {weights : Weights} {done : List Int} {known : List (Int × Rat)}

theorem chance_yes (h : Rooted s d g yes no root) : s.chance root w yes = 1 := by
  unfold Store.chance
  simp only [h.wired.follow_yes, ↓reduceIte]
  exact mean_one _

theorem chance_no (h : Rooted s d g yes no root) : s.chance root w no = 0 := by
  unfold Store.chance
  simp only [h.wired.follow_no, Except.ok.injEq, Bool.false_eq_true, ↓reduceIte]
  exact mean_zero _

theorem chance_node (h : Rooted s d g yes no root) (hr : s.Reaches root r) (hv : g.find? v = some r)
    (hbody : s.body? r = some (decisionBody v hi lo)) :
    s.chance root w r = w v * s.chance root w hi + (1 - w v) * s.chance root w lo := by
  have htested : v ∈ s.testedVariables root :=
    Store.mem_testedVariables.mpr ⟨r, hr, (h.wired.tests_iff (h.reaches_member hr)).mpr hv⟩
  have hground := h.grounded.of_reaches hr
  have hlead := Store.leads_of_body hbody
  -- Fixing `v` sends the evaluation down one branch, where `v` is not tested again.
  have hside : ∀ side : Bool, ∀ σ : s.testedVariables root → Bool,
      s.follow (assign (Function.update σ ⟨v, htested⟩ side)) [] r =
        s.follow (assign σ) [] (if side then hi else lo) := by
    intro side σ
    have hvalue : assign (Function.update σ ⟨v, htested⟩ side) v = some side := by
      simp [assign, htested]
    rw [h.wired.follow_node hground hv hbody, hvalue, Option.elim_some]
    have hreach : s.Reaches root (if side then hi else lo) := hr.tail (hlead side)
    refine h.wired.follow_congr (h.reaches_member hreach) (hground.of_leads (hlead side))
      fun u hu => ?_
    have hne : u ≠ v := by
      rintro rfl
      exact h.not_tested_below hr hv (hlead side) hu
    unfold assign
    split
    · rw [Function.update_of_ne fun heq => hne (Subtype.ext_iff.mp heq)]
    · rfl
  unfold Store.chance
  rw [mean_split _ ⟨v, htested⟩]
  simp only [hside, Bool.false_eq_true, ↓reduceIte]

theorem branchEntry_eq (h : Rooted s d g yes no root) {u : Int} {side : Bool} {q : Rat}
    (hu : s.Branches d v side u) (hq : known.lookup u = some q) :
    s.branchEntry d known v side = .ok q := by
  unfold Store.branchEntry
  rw [h.branchVariable_of_branches hu]
  simp only [bind, Except.bind, hq]
  rfl

theorem enterProbability_known (h : Rooted s d g yes no root)
    (hweights : ∀ v ∈ s.tested root, (weights.of v).exact = .ok (w v))
    (hknown : s.Known d root w done known) (hr : s.Reaches root r) (hv : s.var? r = some v)
    (hover : ∀ u, s.Over root v u → u ∈ done) : ∃ known',
      s.enterProbability d weights known v = .ok known' ∧
      s.Known d root w (done ++ [v]) known' := by
  cases hentered : (known.lookup v).isSome with
  | true => exact ⟨known, Store.enterProbability_of_known hentered, hknown.stay hentered⟩
  | false =>
    rcases h.var?_cases hr hv with ⟨rfl, -⟩ | ⟨rfl, -⟩ | ⟨htested, hfind⟩
    · simp [hknown.terminals.1] at hentered
    · simp [hknown.terminals.2] at hentered
    obtain ⟨-, hi, lo, hbody, -⟩ := h.wired.node hfind
    -- The variables below `v` are in `done`, as every layer comes after those it depends on.
    have hbelow : ∀ side : Bool, s.branchEntry d known v side =
        .ok (s.chance root w (if side then hi else lo)) := by
      intro side
      obtain ⟨u, hu⟩ := h.exists_branches htested side
      obtain ⟨q, hq⟩ :=
        Option.isSome_iff_exists.mp (hknown.entered u (hover u (h.over_of_branches htested hu)))
      have hvertex := h.wired.vertexOf?_eq_some_iff.mpr
        ⟨h.reaches_member (hr.tail (Store.leads_of_body hbody side)),
          (h.branches_iff hr hfind hbody).mp hu⟩
      rw [h.branchEntry_eq hu hq, hknown.right u q _ hq hvertex]
    refine ⟨(v, s.chance root w r) :: known, ?_, hknown.cons fun q hq => ?_⟩
    · rw [Store.enterProbability_of_new hentered (hweights v htested) (hbelow true) (hbelow false),
        h.chance_node hr hfind hbody]
      rfl
    · rw [Option.some.inj ((h.wired.vertexOf?_of_find? hfind).symm.trans hq)]

theorem known_terminals (h : Rooted s d g yes no root) :
    s.Known d root w [] [(trueVariable, 1), (falseVariable, 0)] := by
  refine ⟨fun v q r hq hv => ?_, by simp, rfl, rfl⟩
  rw [h.wired.vertexOf?_eq] at hv
  rw [lookup_cons_eq_ite, lookup_cons_eq_ite] at hq
  split at hq
  · rename_i htrue
    rw [if_pos htrue] at hv
    obtain rfl := Option.some.inj hv
    exact (Option.some.inj hq).symm.trans h.chance_yes.symm
  · rename_i htrue
    rw [if_neg htrue] at hv
    split at hq
    · rename_i hfalse
      rw [if_pos hfalse] at hv
      obtain rfl := Option.some.inj hv
      exact (Option.some.inj hq).symm.trans h.chance_no.symm
    · simp at hq

theorem probability_eq_chance (h : Rooted s d g yes no root)
    (hweights : ∀ v ∈ s.tested root, (weights.of v).exact = .ok (w v)) :
    s.probability d weights = .ok (s.chance root w root) := by
  obtain ⟨layers, hlayers, horder, hmem⟩ := h.exists_layers
  obtain ⟨known, hrun, hknown⟩ := Dependencies.exists_foldlM_of_inOrder
    (fun done known v hv hknown hover => ((hmem v).mp hv).elim fun r hr =>
      h.enterProbability_known hweights hknown hr.1 hr.2 hover)
    horder h.known_terminals
  obtain ⟨v, hv⟩ := h.wired.exists_var h.member
  obtain ⟨q, hq⟩ := Option.isSome_iff_exists.mp (hknown.entered v ((hmem v).mpr ⟨root, .refl, hv⟩))
  have hright := hknown.right v q root hq (h.wired.vertexOf?_eq_some_iff.mpr ⟨h.member, hv⟩)
  rw [← hright]
  exact Store.foldLayers_eq hlayers hrun h.validatedRoot hv hq

end Rooted

theorem exact_of_weights {weights : Weights} {w : Int → Rat} {v : Int}
    (hgiven : ∀ x, weights.lookup v = some x → x.exact = .ok (w v))
    (hmissing : weights.lookup v = none → w v = 1 / 2) : (weights.of v).exact = .ok (w v) := by
  unfold Weights.of
  cases hx : weights.lookup v with
  | some x => exact hgiven x hx
  | none =>
    rw [hmissing hx]
    rfl

/-- The probability of a validated diagram is the sum of the weights of all assignments to the
variables below its root under which it comes out true. A variable without a weight has one half. -/
theorem probability_eq_sum {s : Store} {d root : Ref} {g : Registry}
    (past : History (ownCalls d) d s) (hg : s.registry? d = some g) (hroot : g.root = some root)
    {weights : Weights} {w : Int → Rat}
    (hgiven : ∀ v ∈ s.tested root, ∀ x, weights.lookup v = some x → x.exact = .ok (w v))
    (hmissing : ∀ v ∈ s.tested root, weights.lookup v = none → w v = 1 / 2) :
    s.probability d weights = .ok (∑ σ : s.testedVariables root → Bool,
      (if s.evaluate d (assign σ) = .ok true then 1 else 0) *
        ∏ v, if σ v then w v else 1 - w v) := by
  obtain ⟨g', yes, no, hsound⟩ := Sound.of_history past
  obtain rfl := Option.some.inj (hsound.wired.registry?.symm.trans hg)
  have h := hsound.rooted hroot
  rw [h.probability_eq_chance fun v hv => exact_of_weights (hgiven v hv) (hmissing v hv)]
  unfold Store.chance mean assignmentWeight
  simp only [h.evaluate_eq]

theorem implication_testedVariables : implication.testedVariables 4 = {1, 2} := by
  obtain ⟨yes, no, h⟩ := Rooted.of_history implication_settled.1 implication_registry? rfl
  ext v
  rw [Store.mem_testedVariables, Finset.mem_insert, Finset.mem_singleton]
  constructor
  · intro hv
    simpa using Registry.mem_keys_iff.mpr (h.isSome_find?_of_mem_tested hv)
  · have hlead : implication.Leads 4 3 := (by decide : 3 ∈ implication.successors 4)
    rintro (rfl | rfl)
    · exact h.mem_tested .refl rfl
    · exact h.mem_tested (.single hlead) rfl

theorem probability_eq_sum_implication :
    implication.probability 0 [(1, .ratio (1 / 3))] = .ok (5 / 6) ∧
    ∑ σ : implication.testedVariables 4 → Bool,
      (if implication.evaluate 0 (assign σ) = .ok true then 1 else 0) *
        ∏ v : implication.testedVariables 4,
          (if σ v then (if v.1 = 1 then 1 / 3 else 1 / 2)
            else 1 - (if v.1 = 1 then 1 / 3 else 1 / 2)) = (5 / 6 : Rat) := by
  have hvalue : implication.probability 0 [(1, .ratio (1 / 3))] = .ok (5 / 6) := by cbv
  have hgiven :
      ∀ v ∈ implication.tested 4, ∀ x, List.lookup v [(1, Weight.ratio (1 / 3))] = some x →
        x.exact = .ok (if v = 1 then 1 / 3 else 1 / 2) := by
    intro v _ x hx
    rw [lookup_cons_eq_ite] at hx
    split at hx
    · obtain rfl := Option.some.inj hx
      simp [*, Weight.exact]
    · simp at hx
  have hmissing : ∀ v ∈ implication.tested 4, List.lookup v [(1, Weight.ratio (1 / 3))] = none →
      (if v = 1 then 1 / 3 else 1 / 2 : Rat) = 1 / 2 := by
    intro v _ hnone
    rw [lookup_cons_eq_ite] at hnone
    split at hnone
    · cases hnone
    · rename_i hv
      simp [hv]
  have hsum := probability_eq_sum implication_settled.1 implication_registry? rfl hgiven hmissing
  exact ⟨hvalue, Except.ok.inj (hsum.symm.trans hvalue)⟩

end DecisionDiagram
