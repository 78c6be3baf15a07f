import DecisionDiagram.Proofs.CallHistory
/-! Calls that raise. They check before they change anything, except that an edge is recorded with
its target after the branch is set. If that fails, the branch stays where it leads now: nothing is
taken back. -/
namespace DecisionDiagram
open Numeral

/-- If the edit fails here, it leaves the store as it is. -/
def Edit.Spares {α : Type} (x : Edit α) (s : Store) : Prop := ∀ e s', x s = .error e s' → s' = s

section Spares

variable {α β : Type} {x : Edit α} {f : α → Edit β} {s s' : Store} {a : α} {e : Fault}

theorem spares_of_ok (h : x s = .ok a s') : Edit.Spares x s := by
  intro e t hrun
  cases h.symm.trans hrun

theorem spares_of_error (h : x s = .error e s) : Edit.Spares x s := by
  intro e' t hrun
  cases h.symm.trans hrun
  rfl

theorem spares_observe {question : Store → Except Fault α}
    (h : ∀ a, question s = .ok a → Edit.Spares (f a) s) :
    Edit.Spares (observe question >>= f) s := by
  cases hquestion : question s with
  | error e => exact spares_of_error (bind_of_error (observe_of_error hquestion))
  | ok a =>
    intro e t hrun
    rw [bind_of_ok (observe_of_ok hquestion)] at hrun
    exact h a hquestion e t hrun

end Spares

namespace Store

variable {s : Store} {r q a b d : Ref} {side : Bool}

def Present (s : Store) (r : Ref) : Prop :=
  r < s.size ∧ ∀ side q, s.branch side r = some q → q < s.size

theorem Present.hasBranch_fresh (h : s.Present r) : s.hasBranch r s.size = false := by
  rw [Bool.eq_false_iff]
  intro hbranch
  obtain ⟨side, hside⟩ := Wired.hasBranch_iff.mp hbranch
  exact Nat.lt_irrefl _ (h.2 side _ hside)

theorem hasBranch_redirected_iff (ha : a < s.size) :
    (s.redirected a side b).hasBranch b a = true ↔ b = a ∨ s.hasBranch b a = true := by
  rw [hasBranch_eq_body, body?_redirected]
  by_cases hab : a = b
  · subst hab
    obtain ⟨x, hx⟩ : ∃ x, s.vertex? a = some x := ⟨_, Array.getElem?_eq_getElem ha⟩
    rw [if_pos rfl, body?, hx]
    cases side <;> simp [Vertex.setBranch, Vertex.hasBranch]
  · rw [if_neg hab, ← hasBranch_eq_body]
    exact (or_iff_right (Ne.symm hab)).symm

end Store

/-- A reference that does not lead out of the store. -/
def Reference.Within (s : Store) : Reference → Prop
  | .vertex r => s.Present r
  | _ => True

namespace Call

def Within (s : Store) (c : Call) : Prop := ∀ ref ∈ c.references, ref.Within s

/-- The call on the diagram `d` raises `e`, and the store is `s'` then. -/
def Raises (d : Ref) (s : Store) (e : Fault) (s' : Store) : Call → Prop
  | addNode v hi lo => Diagram.addNode d v hi lo s = .error e s'
  | setEdge source target selector => Diagram.setEdge d source target selector s = .error e s'
  | removeEdge source target => Diagram.removeEdge d source target s = .error e s'
  | validate => Diagram.validate d s = .error e s'

end Call

namespace Wired

variable {s : Store} {d : Ref} {g : Registry} {yes no r : Ref} {v : Int} {side : Bool}
variable {ref hi lo : Reference}

theorem present (h : Wired s d g yes no) (hr : g.Member yes no r) : s.Present r :=
  ⟨h.member_lt_size hr, fun _ _ hq => h.member_lt_size (h.member_of_branch hr hq)⟩

theorem within_of_own (h : Wired s d g yes no) (hown : ref.Own s d) : ref.Within s := by
  cases ref with
  | vertex r => exact h.present (h.owns_iff.mp hown)
  | _ => trivial

theorem present_of_require (h : Wired s d g yes no) (hwithin : ref.Within s)
    (hr : s.require d ref = .ok r) : s.Present r := by
  cases ref with
  | nothing => cases hr
  | vertex q =>
    obtain rfl := Except.ok.inj hr
    exact hwithin
  | «variable» v =>
    have hown : Reference.Own s d (.variable v) := trivial
    exact h.present (h.member_of_require hown hr)

theorem present_listed (h : Wired s d g yes no) (hr : s.Present r) : s.Present (s.listed d r) := by
  unfold Store.listed
  cases s.var? r with
  | none => exact hr
  | some v =>
    rw [h.registry?]
    cases hfind : g.find? v with
    | none => simpa [hfind] using hr
    | some q => simpa [hfind] using h.present (.inr (.inr (h.mem_nodes hfind)))

theorem present_of_requireListed (h : Wired s d g yes no) (hwithin : ref.Within s)
    (hr : s.requireListed d ref = .ok r) : s.Present r := by
  obtain ⟨q, hq, rfl⟩ := map_eq_ok_iff.mp hr
  exact h.present_listed (h.present_of_require hwithin hq)

theorem present_of_branchTarget (h : Wired s d g yes no) (hwithin : ref.Within s)
    {target : Option Ref} (htarget : s.branchTarget d side ref = .ok target) :
    ∃ r, target = some r ∧ s.Present r := by
  cases ref with
  | nothing =>
    obtain rfl := Except.ok.inj htarget
    cases side with
    | true => exact ⟨yes, h.branch_true, h.present (.inl rfl)⟩
    | false => exact ⟨no, h.branch_false, h.present (.inr (.inl rfl))⟩
  | _ =>
    unfold Store.branchTarget at htarget
    obtain ⟨r, hr, rfl⟩ := map_eq_ok_iff.mp htarget
    exact ⟨r, rfl, h.present_of_requireListed hwithin hr⟩

theorem placeNode_spares (h : Wired s d g yes no) (hhi : hi.Within s) (hlo : lo.Within s) :
    Edit.Spares (Diagram.placeNode d v hi lo) s := by
  refine spares_observe fun hiTarget hhiTarget => spares_observe fun loTarget hloTarget => ?_
  obtain ⟨hiRef, rfl, hhiRef⟩ := h.present_of_branchTarget hhi hhiTarget
  obtain ⟨loRef, rfl, hloRef⟩ := h.present_of_branchTarget hlo hloTarget
  cases hcreate : Vertex.create (.decision v) (some d) (some hiRef) (some loRef) with
  | error e => exact spares_of_error (bind_of_error (createVertex_of_error s hcreate))
  | ok x =>
    have hold : ∀ {q}, s.Present q → (s.push x).body? q = s.body? q := by
      intro q hq
      rw [Store.body?_push, if_neg (Nat.ne_of_lt hq.1)]
    intro e s' hrun
    rw [bind_of_ok (createVertex_of_ok s hcreate),
      bind_of_ok (linkInner_run_fresh hhiRef.hasBranch_fresh (hold hhiRef)),
      bind_of_ok (linkInner_run_fresh hloRef.hasBranch_fresh
        (by rw [Store.body?_linkedInner, hold hloRef]))] at hrun
    cases hrun

theorem addNode_spares (h : Wired s d g yes no) (hhi : hi.Within s) (hlo : lo.Within s) :
    Edit.Spares (Diagram.addNode d v hi lo) s := by
  intro e s' hrun
  rw [h.addNode_run] at hrun
  split at hrun
  · cases hrun
  · split at hrun
    · cases hrun
      rfl
    · split at hrun
      · cases hrun
        rfl
      · exact h.placeNode_spares hhi hlo e s' hrun

theorem removeEdge_spares (h : Wired s d g yes no) (source target : Reference) :
    Edit.Spares (Diagram.removeEdge d source target) s := by
  refine spares_observe fun _ _ => spares_observe fun a _ => spares_observe fun b _ => ?_
  split
  · rcases h.requireMutable_cases with hclosed | ⟨-, hmutable⟩
    · exact spares_of_error (bind_of_error hclosed)
    · exact spares_of_ok (bind_of_ok hmutable)
  · exact spares_of_ok rfl

theorem validate_spares (h : Wired s d g yes no) : Edit.Spares (Diagram.validate d) s := by
  intro e s' hrun
  rw [h.validate_run] at hrun
  split at hrun
  · cases hrun
  · split at hrun
    · cases hrun
    · cases hrun
      rfl

end Wired

theorem Call.Own.within {s : Store} {d : Ref} {c : Call} (past : History (ownCalls d) d s)
    (hown : c.Own s d) : c.Within s := by
  obtain ⟨g, yes, no, hsound⟩ := Sound.of_history past
  exact fun ref href => hsound.wired.within_of_own (hown ref href)

/-- A call that raises leaves everything as it is, with one exception: an edge whose target is the
source itself, or has the source as a branch though the source does not record it as a parent. Such
an edge is refused after the branch of the source is set, when the former target has lost the source
as a parent and the target has lost the diagram. What is raised names the source, unless its text
holds an integer that is too long. -/
theorem store_of_raises {s s' : Store} {d : Ref} {c : Call} {e : Fault}
    (past : History (ownCalls d) d s) (hwithin : c.Within s) (hraises : c.Raises d s e s') :
    s' = s ∨ ∃ source target selector a b, c = .setEdge source target selector ∧
      s.require d source = .ok a ∧ s.requireListed d target = .ok b ∧ s.isTerminal a = false ∧
      s.checkTarget a selector.side b = .ok () ∧ (b = a ∨ s.hasBranch b a = true) ∧
      s' = (s.redirected a selector.side b).unheld d b ∧
      ((∀ i ∈ s'.integers a, Integer.Short i) → e = .branchAsParent a) ∧
      ((∃ i ∈ s'.integers a, ¬ Integer.Short i) → e = .longNumber) := by
  obtain ⟨g, yes, no, hsound⟩ := Sound.of_history past
  have h := hsound.wired
  -- Only `setEdge` can fail after it has written, in the check that `link` makes.
  cases c with
  | addNode v hi lo =>
    have hhi := hwithin hi (by simp [Call.references])
    have hlo := hwithin lo (by simp [Call.references])
    exact .inl (h.addNode_spares hhi hlo e s' hraises)
  | removeEdge source target => exact .inl (h.removeEdge_spares source target e s' hraises)
  | validate => exact .inl (h.validate_spares e s' hraises)
  | setEdge source target selector =>
    have hsource := hwithin source (by simp [Call.references])
    rcases h.setEdge_outcome source target
      selector with ⟨e', hrun⟩ | ⟨a, b, ha, hb, -, hterm, hcheck, hrun⟩
    · exact .inl (spares_of_error hrun e s' hraises)
    · have hfail := hrun.symm.trans hraises
      dsimp only at hfail
      split at hfail
      · rename_i hback
        obtain ⟨rfl, rfl⟩ := EStateM.Result.error.inj hfail
        exact .inr ⟨source, target, selector, a, b, rfl, ha, hb, hterm, hcheck,
          (Store.hasBranch_redirected_iff (h.present_of_require hsource ha).1).mp hback, rfl,
          fun hshort => Store.raise_of_short hshort, fun hlong => Store.raise_of_long hlong⟩
      · cases hfail

/-- An edge from the node for the variable 5 to itself is refused, and the branch leads there. The
node has lost the diagram as its parent, so it is no candidate for the root any more. -/
theorem selfLoop_changes_loneNode : History (ownCalls 0) 0 loneNode ∧
    (Call.setEdge (.variable 5) (.variable 5) (.flag true)).Own loneNode 0 ∧
    ∃ s', (Call.setEdge (.variable 5) (.variable 5) (.flag true)).Raises 0 loneNode
      (.branchAsParent 3) s' ∧
      loneNode.branch true 3 = some 1 ∧ s'.branch true 3 = some 3 ∧
      loneNode.parents 3 = [0] ∧ s'.parents 3 = [] := by
  have hraise :
      ((loneNode.redirected 3 true 3).unheld 0 3).raise (.branchAsParent 3) = .branchAsParent 3 :=
    Store.raise_of_small (by decide)
  have hown : (Call.setEdge (.variable 5) (.variable 5) (.flag true)).Own loneNode 0 := by
    simp [Call.Own, Call.references, Reference.Own]
  refine ⟨loneNode_history.mono fun _ _ hc => hc.2, hown, (loneNode.redirected 3 true 3).unheld 0 3,
    ?_, by decide, by decide, by decide, by decide⟩
  rw [← hraise]
  rfl

/-- Two nodes, for the variables 5 and 6, with a branch from the first to the second that is not
recorded. -/
def unrecordedPair : Store :=
  (Call.removeEdge (.variable 5) (.variable 6)).after 0
    ((Call.addNode 5 (.variable 6) .nothing).after 0
      ((Call.addNode 6 .nothing .nothing).after 0 (Edit.after Diagram.create {})))

theorem unrecordedPair_history : History (ownCalls 0) 0 unrecordedPair := by
  have hown : ∀ s, ownCalls 0 s (.addNode 6 .nothing .nothing) ∧
      ownCalls 0 s (.addNode 5 (.variable 6) .nothing) ∧
          ownCalls 0 s (.removeEdge (.variable 5) (.variable 6)) := by
    simp [ownCalls, Call.Own, Call.references, Reference.Own]
  have hfresh : History (ownCalls 0) 0 (Edit.after Diagram.create {}) := ⟨{}, _, rfl, .refl⟩
  exact ((hfresh.tail (.call _ (hown _).1)).tail (.call _ (hown _).2.1)).tail (.call _ (hown _).2.2)

theorem store_of_raises_unrecordedPair : ∃ s' e,
    (Call.setEdge (.variable 6) (.variable 5) (.flag true)).Raises 0 unrecordedPair e s' ∧
      e = .branchAsParent 3 ∧ s' = (unrecordedPair.redirected 3 true 4).unheld 0 4 ∧
      s'.branch true 3 = some 4 ∧
      s'.branch true 4 = some 3 := by
  have hown : (Call.setEdge (.variable 6) (.variable 5) (.flag true)).Own unrecordedPair 0 := by
    simp [Call.Own, Call.references, Reference.Own]
  refine ⟨_, _, rfl, ?_, ?_, by decide, by decide⟩ <;>
    rcases store_of_raises unrecordedPair_history (hown.within unrecordedPair_history) rfl with
      hsame | ⟨_, _, _, a, b, hc, ha, hb, -, -, -, hs, hshort, -⟩
  · exact absurd hsame (by decide)
  · cases hc
    obtain rfl : 3 = a := Except.ok.inj ha
    exact hshort fun i hi => Integer.short_of_small (by revert i; decide)
  · exact absurd hsame (by decide)
  · cases hc
    obtain rfl : 3 = a := Except.ok.inj ha
    obtain rfl : 4 = b := Except.ok.inj hb
    exact hs

end DecisionDiagram
