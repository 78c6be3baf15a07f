import DecisionDiagram.Comparison
import DecisionDiagram.Proofs.VertexTruth
/-! Evaluation step by step. From solid ground on which every vertex is a terminal or a node with
two branches, an assignment leads to one terminal. If all variables have one value, the walk in that
direction finds it too. -/
namespace DecisionDiagram
open Relation

namespace Store

variable {s : Store} {σ : Int → Bool} {d root r q t t' : Ref} {v : Int} {side : Bool}
variable {met : List Ref}

theorem walkOn_eq (s : Store) (side : Bool) (met : List Ref) (r : Ref) : s.walkOn side met r =
    if r ∈ met then [] else (s.next side r).elim [r] fun n => r :: s.walkOn side (r :: met) n := by
  rw [walkOn]
  split
  · rfl
  · split
    · rename_i hnone
      rw [hnone]
      rfl
    · rename_i n hn
      rw [hn]
      rfl

theorem next_of_isTerminal (h : s.isTerminal r = true) : s.next side r = none := by
  unfold isTerminal at h
  unfold next
  cases hx : s.vertex? r with
  | none => rfl
  | some x =>
    simp only [hx, Option.any_some] at h
    simp [Vertex.next, h]

/-- A step of an evaluation: from a node along the branch that the value of its variable selects. -/
def Follows (s : Store) (σ : Int → Bool) (r q : Ref) : Prop :=
  s.isTerminal r = false ∧ ∃ v, s.var? r = some v ∧ s.branch (σ v) r = some q

/-- An assignment leads from `r` to the terminal `t`. -/
def EndsAt (s : Store) (σ : Int → Bool) (r t : Ref) : Prop :=
  ReflTransGen (s.Follows σ) r t ∧ s.isTerminal t = true

theorem follows_rightUnique : Relator.RightUnique (s.Follows σ) := by
  rintro r q q' ⟨-, v, hv, hq⟩ ⟨-, v', hv', hq'⟩
  obtain rfl := Option.some.inj (hv.symm.trans hv')
  exact Option.some.inj (hq.symm.trans hq')

theorem Follows.leads (h : s.Follows σ r q) : s.Leads r q := by
  obtain ⟨hterm, v, -, hq⟩ := h
  exact leads_of_branch hterm hq

theorem Follows.next (h : s.Follows (fun _ => side) r q) : s.next side r = some q := by
  obtain ⟨hterm, v, -, hq⟩ := h
  rw [isTerminal] at hterm
  obtain ⟨x, hx, hq⟩ := Option.bind_eq_some_iff.mp hq
  simp only [hx, Option.any_some] at hterm
  simp [Store.next, hx, Vertex.next, hterm, hq]

theorem EndsAt.unique (h : s.EndsAt σ r t) (h' : s.EndsAt σ r t') : t = t' := by
  have hstay : ∀ {a b}, s.isTerminal a = true → ReflTransGen (s.Follows σ) a b → a = b := by
    intro a b ha hab
    rcases ReflTransGen.cases_head hab with rfl | ⟨c, ⟨hterm, -⟩, -⟩
    · rfl
    · simp [ha] at hterm
  rcases ReflTransGen.total_of_right_unique follows_rightUnique h.1 h'.1 with htt | htt
  · exact hstay h.2 htt
  · exact (hstay h'.2 htt).symm

theorem exists_value (h : s.isTerminal t = true) : ∃ b, s.value t = .ok b := by
  rw [isTerminal_eq_kind] at h
  unfold value
  cases hkind : s.kind? t with
  | none => simp [hkind] at h
  | some kind =>
    cases kind with
    | terminal v b => exact ⟨b, rfl⟩
    | _ => simp [hkind, Kind.isTerminal] at h

theorem EndsAt.follow_eq (h : s.EndsAt σ r t) (hground : s.Grounded r) :
    s.follow (total σ) [] r = s.value t := by
  obtain ⟨hpath, ht⟩ := h
  induction hpath using ReflTransGen.head_induction_on with
  | refl => rw [Store.follow_eq, if_neg List.not_mem_nil, if_pos ht]
  | head hstep _ ih =>
    have hlead := hstep.leads
    obtain ⟨hterm, v, hv, hq⟩ := hstep
    rw [follow_step hground hterm hv rfl hq]
    exact ih (hground.of_leads hlead)

theorem EndsAt.find?_walkOn (h : s.EndsAt (fun _ => side) r t) (hground : s.Grounded r)
    (hfree : ∀ q, s.Reaches r q → q ∉ met) : (s.walkOn side met r).find? s.isTerminal = some t := by
  obtain ⟨hpath, ht⟩ := h
  induction hpath using ReflTransGen.head_induction_on generalizing met with
  | refl =>
    rw [walkOn_eq, if_neg (hfree t .refl), next_of_isTerminal ht]
    exact List.find?_cons_of_pos ht
  | head hstep _ ih =>
    have hlead := hstep.leads
    rw [walkOn_eq, if_neg (hfree _ .refl), hstep.next, Option.elim_some,
      List.find?_cons_of_neg (by simp [hstep.1])]
    refine ih (hground.of_leads hlead) fun q hq hmem => ?_
    rcases List.mem_cons.mp hmem with rfl | hmet
    · exact hground.not_reaches_back hlead hq
    · exact hfree q (.head hlead hq) hmet

/-- Everything below is a terminal or a node with two branches, on solid ground. -/
structure Passable (s : Store) (root : Ref) : Prop where
  grounded : s.Grounded root
  passes : ∀ r, s.Reaches root r → s.isTerminal r = false →
    ∃ v hi lo, s.body? r = some (decisionBody v hi lo)

namespace Passable

theorem exists_endsAt (h : s.Passable root) (hr : s.Reaches root r) (σ : Int → Bool) :
    ∃ t, s.EndsAt σ r t := by
  have hground := h.grounded.of_reaches hr
  induction hground with
  | intro r _ ih =>
    cases hterm : s.isTerminal r with
    | true => exact ⟨r, .refl, hterm⟩
    | false =>
      obtain ⟨v, hi, lo, hbody⟩ := h.passes r hr hterm
      have hvar : s.var? r = some v := by
        rw [var?_eq_body, hbody]
        rfl
      have hstep : s.Follows σ r _ := ⟨hterm, v, hvar, branch_of_body hbody (σ v)⟩
      obtain ⟨t, hpath, ht⟩ := ih _ hstep.leads (hr.tail hstep.leads)
      exact ⟨t, .head hstep hpath, ht⟩

theorem evaluate_eq (h : s.Passable root) (hroot : s.validatedRoot d = .ok root)
    (ht : s.EndsAt σ root t) : s.evaluate d (total σ) = s.value t := by
  unfold evaluate
  rw [hroot]
  exact ht.follow_eq h.grounded

theorem terminalAlong_eq (h : s.Passable root) (ht : s.EndsAt (fun _ => side) root t) :
    s.terminalAlong side root = some t :=
  ht.find?_walkOn h.grounded fun _ _ => List.not_mem_nil

theorem outcome_eq (h : s.Passable root) (hroot : s.validatedRoot d = .ok root) (side : Bool) :
    s.outcome side d root = s.evaluate d (total fun _ => side) := by
  obtain ⟨t, ht⟩ := h.exists_endsAt .refl fun _ => side
  rw [outcome, h.terminalAlong_eq ht, h.evaluate_eq hroot ht]

theorem exists_evaluate (h : s.Passable root) (hroot : s.validatedRoot d = .ok root)
    (σ : Int → Bool) : ∃ b, s.evaluate d (total σ) = .ok b := by
  obtain ⟨t, ht⟩ := h.exists_endsAt .refl σ
  rw [h.evaluate_eq hroot ht]
  exact exists_value ht.2

end Passable

theorem registry_of_validatedRoot (h : s.validatedRoot d = .ok root) :
    ∃ g, s.registry d = .ok g ∧ g.root = some root := by
  unfold validatedRoot at h
  cases hg : s.registry d with
  | error e =>
    rw [hg] at h
    cases h
  | ok g =>
    rw [hg, ok_bind] at h
    cases hroot : g.root with
    | none => simp [hroot] at h
    | some r =>
      rw [hroot] at h
      exact ⟨g, rfl, hroot.trans (congrArg some (Except.ok.inj h))⟩

theorem validatedPair_eq {a b first second : Ref} (ha : s.validatedRoot a = .ok first)
    (hb : s.validatedRoot b = .ok second) : s.validatedPair a b = .ok (first, second) := by
  obtain ⟨g, hg, hfirst⟩ := registry_of_validatedRoot ha
  obtain ⟨g', hg', hsecond⟩ := registry_of_validatedRoot hb
  unfold validatedPair
  rw [hg, ok_bind, hfirst]
  dsimp only
  rw [hg', ok_bind, hsecond]
  rfl

theorem combine_eq_of_passable {a b first second : Ref} (ha : s.validatedRoot a = .ok first)
    (hb : s.validatedRoot b = .ok second) (hfirst : s.Passable first) (hsecond : s.Passable second)
    (op : Connective) : ∃ w x y z, s.evaluate a (total fun _ => true) = .ok w ∧
      s.evaluate b (total fun _ => true) = .ok x ∧ s.evaluate a (total fun _ => false) = .ok y ∧
      s.evaluate b (total fun _ => false) = .ok z ∧
      s.combine op a b = .ok (op.apply (op.apply w x) (op.apply y z)) := by
  obtain ⟨w, hw⟩ := hfirst.exists_evaluate ha fun _ => true
  obtain ⟨x, hx⟩ := hsecond.exists_evaluate hb fun _ => true
  obtain ⟨y, hy⟩ := hfirst.exists_evaluate ha fun _ => false
  obtain ⟨z, hz⟩ := hsecond.exists_evaluate hb fun _ => false
  refine ⟨w, x, y, z, hw, hx, hy, hz, ?_⟩
  unfold combine
  rw [validatedPair_eq ha hb, ok_bind]
  dsimp only
  rw [hfirst.outcome_eq ha, hw, ok_bind, hsecond.outcome_eq hb, hx, ok_bind, hfirst.outcome_eq ha,
    hy, ok_bind, hsecond.outcome_eq hb, hz, ok_bind]
  rfl

end Store

theorem Charted.passable {s : Store} {d root : Ref} {g : Registry} (h : Charted s d g root) :
    s.Passable root where
  grounded := h.grounded
  passes := by
    intro r hr hterm
    obtain ⟨v, hi, lo, -, -, hbody⟩ := h.exists_body hr hterm
    exact ⟨v, hi, lo, hbody⟩

end DecisionDiagram
