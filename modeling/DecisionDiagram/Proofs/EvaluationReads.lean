import DecisionDiagram.Proofs.LayeredProbability
import DecisionDiagram.Proofs.VertexTruth
/-! What an evaluation reads. The loop keeps no record of where it has been, and takes a value from
the assignment at each node it comes to. Below the root of a validated diagram it ends all the same,
reads no variable twice, and stops early only at a variable without a value. -/
namespace DecisionDiagram
open Relation

namespace Store

/-- The loop of an evaluation, as it runs from `r`: it reads variables, one after the other, up to
the vertex where it stops, with an outcome. -/
inductive Reads (s : Store) (assignment : Assignment) : Ref → List Int → Ref →
  Except Fault Bool → Prop
  | ended {r : Ref} (hterm : s.isTerminal r = true) : Reads s assignment r [] r (s.value r)
  | unnamed {r : Ref} (hterm : s.isTerminal r = false) (hv : s.var? r = none) :
      Reads s assignment r [] r (.error .notOffered)
  | unassigned {r : Ref} {v : Int} (hterm : s.isTerminal r = false) (hv : s.var? r = some v)
      (ha : assignment v = none) : Reads s assignment r [v] r (.error (.missingVariable v))
  | lost {r : Ref} {v : Int} {side : Bool} (hterm : s.isTerminal r = false) (hv : s.var? r = some v)
      (ha : assignment v = some side) (hn : s.branch side r = none) :
      Reads s assignment r [v] r (.error (s.raise (.missingBranch r)))
  | step {r n last : Ref} {v : Int} {side : Bool} {vs : List Int} {outcome : Except Fault Bool}
      (hterm : s.isTerminal r = false) (hv : s.var? r = some v) (ha : assignment v = some side)
      (hn : s.branch side r = some n) (rest : Reads s assignment n vs last outcome) :
      Reads s assignment r (v :: vs) last outcome

namespace Reads

variable {s : Store} {assignment assignment' : Assignment} {r last last' : Ref} {vs vs' : List Int}
variable {outcome outcome' : Except Fault Bool} {v : Int}

theorem unique (h : s.Reads assignment r vs last outcome)
    (h' : s.Reads assignment r vs' last' outcome') :
    vs' = vs ∧ last' = last ∧ outcome' = outcome := by
  induction h generalizing vs' with
  | ended hterm => cases h' <;> simp_all
  | unnamed hterm hv => cases h' <;> simp_all
  | unassigned hterm hv ha => cases h' <;> simp_all
  | lost hterm hv ha hn => cases h' <;> simp_all
  | step hterm hv ha hn rest ih =>
    cases h' with
    | step hterm' hv' ha' hn' rest' =>
      obtain rfl := Option.some.inj (hv.symm.trans hv')
      obtain rfl := Option.some.inj (ha.symm.trans ha')
      obtain rfl := Option.some.inj (hn.symm.trans hn')
      obtain ⟨rfl, rfl, rfl⟩ := ih rest'
      exact ⟨rfl, rfl, rfl⟩
    | _ => simp_all

theorem congr (h : s.Reads assignment r vs last outcome)
    (hsame : ∀ v ∈ vs, assignment' v = assignment v) : s.Reads assignment' r vs last outcome := by
  induction h with
  | ended hterm => exact .ended hterm
  | unnamed hterm hv => exact .unnamed hterm hv
  | unassigned hterm hv ha => exact .unassigned hterm hv ((hsame _ List.mem_cons_self).trans ha)
  | lost hterm hv ha hn => exact .lost hterm hv ((hsame _ List.mem_cons_self).trans ha) hn
  | step hterm hv ha hn rest ih =>
    exact .step hterm hv ((hsame _ List.mem_cons_self).trans ha) hn
      (ih fun u hu => hsame u (List.mem_cons_of_mem _ hu))

theorem follow_eq (h : s.Reads assignment r vs last outcome) (hground : s.Grounded r) :
    s.follow assignment [] r = outcome := by
  induction h with
  | ended hterm => rw [Store.follow_eq, if_neg List.not_mem_nil, if_pos hterm]
  | unnamed hterm hv =>
    rw [Store.follow_eq, if_neg List.not_mem_nil, hterm, if_neg Bool.false_ne_true, hv]
    rfl
  | unassigned hterm hv ha =>
    rw [Store.follow_eq, if_neg List.not_mem_nil, hterm, if_neg Bool.false_ne_true, hv,
      Option.elim_some, ha]
    rfl
  | lost hterm hv ha hn =>
    rw [Store.follow_eq, if_neg List.not_mem_nil, hterm, if_neg Bool.false_ne_true, hv,
      Option.elim_some, ha, Option.elim_some, hn]
    rfl
  | step hterm hv ha hn rest ih =>
    rw [follow_step hground hterm hv ha hn]
    exact ih (hground.of_leads (leads_of_branch hterm hn))

theorem outcome_of_find? (h : s.Reads assignment r vs last outcome)
    (hv : (vs.find? fun v => (assignment v).isNone) = some v) :
    outcome = .error (.missingVariable v) := by
  induction h with
  | ended | unnamed => cases hv
  | unassigned hterm hvar ha =>
    simp only [List.find?_singleton, ha, Option.isNone_none, ↓reduceIte, Option.some.injEq] at hv
    rw [hv]
  | lost hterm hvar ha hn => simp [ha] at hv
  | step hterm hvar ha hn rest ih =>
    rw [List.find?_cons_of_neg (by simp [ha])] at hv
    exact ih hv

end Reads

variable {s : Store} {r : Ref}

theorem Grounded.exists_reads (h : s.Grounded r) (assignment : Assignment) :
    ∃ vs last outcome, s.Reads assignment r vs last outcome := by
  induction h with
  | intro r _ ih =>
    cases hterm : s.isTerminal r with
    | true => exact ⟨_, _, _, .ended hterm⟩
    | false =>
      cases hv : s.var? r with
      | none => exact ⟨_, _, _, .unnamed hterm hv⟩
      | some v =>
        cases ha : assignment v with
        | none => exact ⟨_, _, _, .unassigned hterm hv ha⟩
        | some side =>
          cases hn : s.branch side r with
          | none => exact ⟨_, _, _, .lost hterm hv ha hn⟩
          | some n =>
            obtain ⟨vs, last, outcome, hrest⟩ := ih n (leads_of_branch hterm hn)
            exact ⟨_, _, _, .step hterm hv ha hn hrest⟩

theorem terminalValue?_of_isTerminal (h : s.isTerminal r = true) :
    ∃ b, s.terminalValue? r = some b ∧ s.value r = .ok b := by
  rw [isTerminal_eq_kind] at h
  rw [terminalValue?_eq_kind, value]
  cases hkind : s.kind? r with
  | none => simp [hkind] at h
  | some kind =>
    cases kind with
    | terminal v b => exact ⟨b, rfl, rfl⟩
    | _ => simp [hkind, Kind.isTerminal] at h

end Store

namespace Rooted

variable {s : Store} {d : Ref} {g : Registry} {yes no root r last : Ref} {assignment : Assignment}
variable {vs : List Int}
variable {outcome : Except Fault Bool}

theorem isSome_branch (h : Rooted s d g yes no root) (hr : s.Reaches root r)
    (hterm : s.isTerminal r = false) (side : Bool) : (s.branch side r).isSome := by
  obtain ⟨v, hi, lo, -, -, hbody⟩ := h.charted.exists_body hr hterm
  rw [Store.branch_of_body hbody side]
  rfl

theorem find?_of_var? (h : Rooted s d g yes no root) (hr : s.Reaches root r)
    (hterm : s.isTerminal r = false) {v : Int} (hv : s.var? r = some v) : g.find? v = some r :=
  h.charted.find?_of_var? hr hv ((h.charted.isReserved_eq hr hv).trans hterm)

theorem reads_nodup (h : Rooted s d g yes no root) (hr : s.Reaches root r)
    (hreads : s.Reads assignment r vs last outcome) : vs.Nodup ∧ ∀ v ∈ vs, v ∈ s.tested r := by
  have htests : ∀ {q v}, s.Reaches root q → s.isTerminal q = false → s.var? q = some v →
      s.Tests q v :=
    fun hq hterm hv => (h.charted.tests_iff hq).mpr ⟨hterm, hv⟩
  induction hreads with
  | ended | unnamed => simp
  | unassigned hterm hv | lost hterm hv =>
    exact ⟨List.nodup_singleton _, List.forall_mem_singleton.mpr ⟨_, .refl, htests hr hterm hv⟩⟩
  | step hterm hv ha hn rest ih =>
    have hlead := Store.leads_of_branch hterm hn
    obtain ⟨hnodup, hbelow⟩ := ih (hr.tail hlead)
    refine ⟨List.nodup_cons.mpr ⟨fun hmem => ?_, hnodup⟩,
      List.forall_mem_cons.mpr ⟨⟨_, .refl, htests hr hterm hv⟩, ?_⟩⟩
    · exact h.not_tested_below hr (h.find?_of_var? hr hterm hv) hlead (hbelow _ hmem)
    · intro v hv
      obtain ⟨q, hq, htested⟩ := hbelow v hv
      exact ⟨q, .head hlead hq, htested⟩

theorem reads_value (h : Rooted s d g yes no root) (hr : s.Reaches root r)
    (hreads : s.Reads assignment r vs last outcome) (hall : ∀ v ∈ vs, (assignment v).isSome) :
    ∃ b, s.terminalValue? last = some b ∧ outcome = .ok b := by
  induction hreads with
  | ended hterm => exact Store.terminalValue?_of_isTerminal hterm
  | unnamed hterm hv =>
    obtain ⟨v, hv', -⟩ := h.charted.exists_var hr
    cases hv.symm.trans hv'
  | unassigned hterm hv ha => simp [ha] at hall
  | lost hterm hv ha hn =>
    obtain ⟨n, hn'⟩ := Option.isSome_iff_exists.mp (h.isSome_branch hr hterm _)
    cases hn.symm.trans hn'
  | step hterm hv ha hn rest ih =>
    exact ih (hr.tail (Store.leads_of_branch hterm hn)) fun u hu =>
      hall u (List.mem_cons_of_mem _ hu)

end Rooted

/-- What the evaluation of a validated diagram reads, whatever the assignment. The loop ends and
comes to what the evaluation gives back. It reads variables of the table, each at most once. If all
of them have a value, the value of the terminal that is reached comes back; else the first one that
has none is missing. There is no other fault, and no assignment that agrees on what is read makes a
difference. -/
theorem evaluate_reads {s : Store} {d root : Ref} {g : Registry} (past : History (ownCalls d) d s)
    (hg : s.registry? d = some g) (hroot : g.root = some root) (assignment : Assignment) :
    ∃ vs last,
    (∀ vs' last' outcome, s.Reads assignment root vs' last' outcome ↔
      vs' = vs ∧ last' = last ∧ outcome = s.evaluate d assignment) ∧
    vs.Nodup ∧ (∀ v ∈ vs, (g.find? v).isSome) ∧ vs.length ≤ g.size ∧
    ((∀ v ∈ vs, (assignment v).isSome) →
      ∃ b, s.terminalValue? last = some b ∧ s.evaluate d assignment = .ok b) ∧
    (∀ v, (vs.find? fun u => (assignment u).isNone) = some v →
      s.evaluate d assignment = .error (.missingVariable v)) ∧
    (∀ e, s.evaluate d assignment = .error e → ∃ v ∈ vs, e = .missingVariable v) ∧
    ∀ other : Assignment, (∀ v ∈ vs, other v = assignment v) →
      s.evaluate d other = s.evaluate d assignment := by
  obtain ⟨yes, no, h⟩ := Rooted.of_history past hg hroot
  obtain ⟨vs, last, outcome, hreads⟩ := h.grounded.exists_reads assignment
  have hevaluate : ∀ {other : Assignment}, s.Reads other root vs last outcome →
      s.evaluate d other = outcome :=
    fun hother => (h.evaluate_eq _).trans (hother.follow_eq h.grounded)
  -- No variable is read twice, and each is a key of the table, which bounds their number.
  obtain ⟨hnodup, htested⟩ := h.reads_nodup .refl hreads
  have htable : ∀ v ∈ vs, (g.find? v).isSome :=
    fun v hv => h.isSome_find?_of_mem_tested (htested v hv)
  rw [hevaluate hreads]
  refine ⟨vs, last, fun vs' last' outcome' => ⟨hreads.unique, ?_⟩, hnodup, htable, ?_,
    h.reads_value .refl hreads, fun v => hreads.outcome_of_find?, fun e he => ?_,
    fun other hsame => hevaluate (hreads.congr hsame)⟩
  · rintro ⟨rfl, rfl, rfl⟩
    exact hreads
  · have hkeys : vs ⊆ g.table.map (·.1) := fun v hv => Registry.mem_keys_iff.mpr (htable v hv)
    simpa [Registry.size] using (hnodup.subperm hkeys).length_le
  · cases hfirst : vs.find? fun u => (assignment u).isNone with
    | some v =>
      exact ⟨v, List.mem_of_find?_eq_some hfirst,
        Except.error.inj (he.symm.trans (hreads.outcome_of_find? hfirst))⟩
    | none =>
      obtain ⟨b, -, hb⟩ :=
        h.reads_value .refl hreads (by simpa [Option.isSome_iff_ne_none] using hfirst)
      cases hb.symm.trans he

theorem evaluate_reads_implication :
    implication.Reads (total fun _ => true) 4 [1, 2] 1 (.ok true) ∧ [(1 : Int), 2].length ≤ 2 ∧
    ∀ other : Assignment, other 1 = some true → other 2 = some true →
    implication.evaluate 0 other = .ok true := by
  have hreads : implication.Reads (total fun _ => true) 4 [1, 2] 1 (implication.value 1) :=
    .step rfl rfl rfl (rfl : _ = some 3) (.step rfl rfl rfl (rfl : _ = some 1) (.ended rfl))
  obtain ⟨vs, last, hrun, -, -, hlength, -, -, -, hother⟩ :=
    evaluate_reads implication_settled.1 implication_registry? rfl (total fun _ => true)
  obtain ⟨rfl, rfl, houtcome⟩ := (hrun _ _ _).mp hreads
  refine ⟨hreads, hlength, fun other hone htwo => (hother other ?_).trans houtcome.symm⟩
  simp [total, hone, htwo]

end DecisionDiagram
