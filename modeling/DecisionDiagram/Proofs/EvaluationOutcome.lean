import DecisionDiagram.Evaluation
import DecisionDiagram.Proofs.CallHistory
/-! Evaluation on solid ground: it never comes back to where it was, so it takes one branch after
another to a terminal, and depends on the variables below its start alone. -/
namespace DecisionDiagram
open Relation

namespace Store

variable {s : Store} {assignment assignment' : Assignment} {passed : List Ref} {r n root : Ref}
variable {v : Int}
variable {side : Bool}

def Tests (s : Store) (r : Ref) (v : Int) : Prop := s.kind? r = some (.decision v)

/-- The variables that the nodes below `root` decide on. -/
def tested (s : Store) (root : Ref) : Set Int := {v | ∃ r, s.Reaches root r ∧ s.Tests r v}

theorem follow_eq (s : Store) (assignment : Assignment) (passed : List Ref) (r : Ref) :
    s.follow assignment passed r = if r ∈ passed then .error (.endlessPath r)
      else if s.isTerminal r then s.value r else (s.var? r).elim (.error .notOffered) fun v =>
        (assignment v).elim (.error (.missingVariable v)) fun side =>
          (s.branch side r).elim (.error (s.raise (.missingBranch r))) fun n =>
            s.follow assignment (r :: passed) n := by
  rw [follow]
  split
  · rfl
  · split
    · rfl
    · cases hv : s.var? r with
      | none => rfl
      | some v =>
        cases ha : assignment v with
        | none => simp [ha]
        | some side =>
          simp only [ha, Option.elim_some]
          split
          · rename_i hnone
            rw [hnone]
            rfl
          · rename_i n hn
            rw [hn]
            rfl

theorem leads_of_branch (hterm : s.isTerminal r = false) (hn : s.branch side r = some n) :
    s.Leads r n := by
  unfold Leads successors
  unfold branch at hn
  unfold isTerminal at hterm
  cases hx : s.vertex? r with
  | none => simp [hx] at hn
  | some x =>
    simp only [hx, Option.bind_some, Option.any_some] at hn hterm
    simp only [Option.elim_some, Vertex.successors, hterm, Bool.false_eq_true, ↓reduceIte]
    cases side
    · exact List.mem_append_right _ (by simpa [Vertex.branch] using hn)
    · exact List.mem_append_left _ (by simpa [Vertex.branch] using hn)

theorem leads_of_body {hi lo : Ref} (hbody : s.body? r = some (decisionBody v hi lo))
    (side : Bool) : s.Leads r (if side then hi else lo) := by
  rw [Leads, successors_of_body hbody]
  cases side <;> simp

theorem follow_passed (hground : s.Grounded r) (hfree : ∀ q, s.Reaches r q → q ∉ passed) :
    s.follow assignment passed r = s.follow assignment [] r := by
  induction hground generalizing passed with
  | intro r hbelow ih =>
    rw [follow_eq, follow_eq s assignment [] r, if_neg (hfree r .refl), if_neg List.not_mem_nil]
    have hground : s.Grounded r := .intro r hbelow
    cases hterm : s.isTerminal r with
    | true => rfl
    | false =>
      simp only [Bool.false_eq_true, ↓reduceIte]
      congr 1
      funext v
      congr 1
      funext side
      cases hn : s.branch side r with
      | none => rfl
      | some n =>
        have hlead : s.Leads r n := leads_of_branch hterm hn
        -- A grounded vertex is not reached from below it, so remembering `r` excludes nothing.
        have hback : ∀ q, s.Reaches n q → q ≠ r := by
          rintro q hq rfl
          exact hground.not_reaches_back hlead hq
        have hleft : s.follow assignment (r :: passed) n = s.follow assignment [] n := by
          refine ih n hlead fun q hq hmem => ?_
          rcases List.mem_cons.mp hmem with hqr | hpassed
          · exact hback q hq hqr
          · exact hfree q (.head hlead hq) hpassed
        have hright : s.follow assignment [r] n = s.follow assignment [] n :=
          ih n hlead fun q hq hmem => hback q hq (List.mem_singleton.mp hmem)
        rw [Option.elim_some, Option.elim_some, hleft, hright]

theorem follow_step (hground : s.Grounded r) (hterm : s.isTerminal r = false)
    (hv : s.var? r = some v) (ha : assignment v = some side) (hn : s.branch side r = some n) :
    s.follow assignment [] r = s.follow assignment [] n := by
  have hlead := leads_of_branch hterm hn
  rw [follow_eq, if_neg List.not_mem_nil, hterm, if_neg Bool.false_ne_true, hv,
    Option.elim_some, ha, Option.elim_some, hn, Option.elim_some]
  refine follow_passed (hground.of_leads hlead) fun q hq hmem => ?_
  obtain rfl := List.mem_singleton.mp hmem
  exact hground.not_reaches_back hlead hq

theorem follow_congr (hground : s.Grounded r)
    (hsame : ∀ q v, s.Reaches r q → s.isTerminal q = false → s.var? q = some v →
      assignment v = assignment' v) :
    s.follow assignment [] r = s.follow assignment' [] r := by
  induction hground with
  | intro r hbelow ih =>
    have hground : s.Grounded r := .intro r hbelow
    cases hterm : s.isTerminal r with
    | true => rw [follow_eq, follow_eq s assignment', hterm, if_pos rfl, if_pos rfl]
    | false =>
      cases hv : s.var? r with
      | none => rw [follow_eq, follow_eq s assignment', hterm, hv, if_neg Bool.false_ne_true]; rfl
      | some v =>
        have hva := hsame r v .refl hterm hv
        cases ha : assignment v with
        | none =>
          rw [follow_eq, follow_eq s assignment', hterm, hv, Option.elim_some,
            Option.elim_some, ← hva, ha]
          rfl
        | some side =>
          cases hn : s.branch side r with
          | none =>
            rw [follow_eq, follow_eq s assignment', hterm, hv, Option.elim_some,
              Option.elim_some, ← hva, ha, Option.elim_some, Option.elim_some, hn]
            rfl
          | some n =>
            have hlead := leads_of_branch hterm hn
            rw [follow_step hground hterm hv ha hn, follow_step hground hterm hv (hva ▸ ha) hn]
            exact ih n hlead fun q v hq => hsame q v (.head hlead hq)

end Store

namespace Wired

variable {s : Store} {d : Ref} {g : Registry} {yes no r hi lo : Ref} {v : Int}
variable {assignment : Assignment}

theorem tests_iff (h : Wired s d g yes no) (hr : g.Member yes no r) :
    s.Tests r v ↔ g.find? v = some r := by
  unfold Store.Tests
  rw [Store.kind?_eq_body]
  constructor
  · intro hkind
    rcases hr with rfl | rfl | hr
    · simp [h.yesBody] at hkind
    · simp [h.noBody] at hkind
    · obtain ⟨w, hi, lo, hw, hbody, -⟩ := h.exists_body hr
      obtain rfl : w = v := by simpa [hbody, decisionBody] using hkind
      exact hw
  · intro hv
    obtain ⟨-, hi, lo, hbody, -⟩ := h.node hv
    rw [hbody]
    rfl

theorem follow_yes (h : Wired s d g yes no) : s.follow assignment [] yes = .ok true := by
  have hkind : s.kind? yes = some (.terminal trueVariable true) := by
    rw [Store.kind?_eq_body, h.yesBody]
    rfl
  rw [Store.follow_eq, if_neg List.not_mem_nil, h.isTerminal_yes, if_pos rfl, Store.value, hkind]

theorem follow_no (h : Wired s d g yes no) : s.follow assignment [] no = .ok false := by
  have hkind : s.kind? no = some (.terminal falseVariable false) := by
    rw [Store.kind?_eq_body, h.noBody]
    rfl
  rw [Store.follow_eq, if_neg List.not_mem_nil, h.isTerminal_no, if_pos rfl, Store.value, hkind]

theorem follow_node (h : Wired s d g yes no) (hground : s.Grounded r) (hv : g.find? v = some r)
    (hbody : s.body? r = some (decisionBody v hi lo)) :
    s.follow assignment [] r = (assignment v).elim (.error (.missingVariable v)) fun side =>
      s.follow assignment [] (if side then hi else lo) := by
  have hterm := h.isTerminal_of_mem_nodes (h.mem_nodes hv)
  have hvar : s.var? r = some v := by
    rw [Store.var?_eq_body, hbody]
    rfl
  cases ha : assignment v with
  | none =>
    rw [Store.follow_eq, if_neg List.not_mem_nil, hterm, if_neg Bool.false_ne_true, hvar,
      Option.elim_some, ha]
    rfl
  | some side => exact Store.follow_step hground hterm hvar ha (Store.branch_of_body hbody side)

theorem follow_congr (h : Wired s d g yes no) (hr : g.Member yes no r) (hground : s.Grounded r)
    {assignment' : Assignment} (hsame : ∀ v ∈ s.tested r, assignment v = assignment' v) :
    s.follow assignment [] r = s.follow assignment' [] r := by
  refine Store.follow_congr hground fun q v hq hterm hv => hsame v ⟨q, hq, ?_⟩
  have hmember := h.reaches_member hr hq
  rw [h.tests_iff hmember]
  obtain ⟨w, hi, lo, hw, hbody, -⟩ := h.exists_body ((h.mem_nodes_iff_of_member hmember).mpr hterm)
  obtain rfl : w = v := by simpa [Store.var?_eq_body, hbody, decisionBody, Kind.var?] using hv
  exact hw

end Wired

end DecisionDiagram
