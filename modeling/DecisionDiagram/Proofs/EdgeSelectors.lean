import DecisionDiagram.Proofs.ParentLabels
/-! Edges under every selector. A selector picks a branch and gives a label, each by itself: the
edge is found again by its label, so on the side of its branch only if the two agree. They do for
truth values and for the label `hi`. The labels `lo` and `unknown` set the `hi` branch, and the edge
is not found there. -/
namespace DecisionDiagram

namespace Selector

variable {selector : Selector}

theorem side_of_toLabel (h : selector.toLabel = .hi) : selector.side = true := by
  cases selector with
  | label l => rfl
  | flag b =>
    cases b with
    | true => rfl
    | false => cases h

theorem toLabel_eq_side_iff : (selector.toLabel == .hi) = selector.side ↔
    selector ≠ .label .lo ∧ selector ≠ .label .unknown := by
  cases selector with
  | flag b => cases b <;> decide
  | label l => cases l <;> decide

end Selector

namespace Diagram

variable {s : Store} {d a b : Ref} {g : Registry} {yes no : Ref} {source target : Reference}

theorem edgeSide_eq (h : Wired s d g yes no) (ha : s.require d source = .ok a)
    (hb : s.require d target = .ok b) : edgeSide s d source target =
      (s.label? b a).elim (.error (s.raise (.unknownEdge a b))) fun l => .ok (l == .hi) := by
  unfold edgeSide
  rw [h.registry, ha, hb, ok_bind, ok_bind, ok_bind]
  cases s.label? b a <;> rfl

theorem edgeSide_eq_ok_iff (h : Wired s d g yes no) (ha : s.require d source = .ok a)
    (hb : s.require d target = .ok b) {side : Bool} :
    edgeSide s d source target = .ok side ↔ ∃ l, s.label? b a = some l ∧ (l == .hi) = side := by
  rw [edgeSide_eq h ha hb]
  cases s.label? b a <;> simp

end Diagram

theorem Marked.branch_of_edgeSide {permits : Selector → Prop} {s : Store} {d a : Ref} {g : Registry}
    {yes no : Ref} {source target : Reference} (h : Marked permits s d g yes no)
    (hw : Wired s d g yes no) (ha : s.require d source = .ok a) (hown : target.Own s d)
    (hhi : Diagram.edgeSide s d source target = .ok true) :
    ∃ b, s.require d target = .ok b ∧ s.branch true a = some b := by
  rcases hw.require_cases hown with ⟨b, hb, hmember⟩ | ⟨e, he⟩
  · obtain ⟨l, hlabel, hl⟩ := (Diagram.edgeSide_eq_ok_iff hw ha hb).mp hhi
    obtain rfl := eq_of_beq hl
    refine ⟨b, hb, ?_⟩
    rcases h b a .hi hmember hlabel with ⟨-, hunknown⟩ | ⟨-, selector, -, hmark, hleads⟩
    · cases hunknown
    · rwa [Selector.side_of_toLabel hmark.symm] at hleads
  · rw [Diagram.edgeSide, hw.registry, ha, he] at hhi
    cases hhi

namespace Store

variable {s : Store} {d a b q n : Ref} {side : Bool} {l : Label}

theorem integers_linked (hq : q ≠ a) :
    ((s.redirected a side b).linked d a b l).integers q = s.integers q := by
  refine integers_congr ?_ fun r => ?_
  · rw [body?_linked, body?_redirected, if_neg (Ne.symm hq)]
  · rw [var?_eq_body, body?_linked, body?_redirected, var?_eq_body]
    split
    · cases s.body? r with
      | none => rfl
      | some x => cases side <;> rfl
    · rfl

theorem raise_unknownEdge_linked (hq : q ≠ a) (hn : n ≠ a) :
    ((s.redirected a side b).linked d a b l).raise (.unknownEdge q n) = s.raise
      (.unknownEdge q n) :=
  raise_congr (congrArg₂ (· ++ ·) (integers_linked hq) (integers_linked hn))

end Store

/-- Whatever own calls have gone before, and whatever the selector is: an edge that is set is there
as its branch, and it is found again on the side of its label. This is the side of the branch unless
the selector is the label `lo` or `unknown`. No other target of the source is found on the `hi` side
after its `hi` branch is set, and the edges of other sources are found as before. Where such an edge
to the source is missed, only the text of the source may have changed. -/
theorem edgeSide_of_setEdge {s s' : Store} {d : Ref} {source target : Reference}
    {selector : Selector} {edge : Edge} (past : History (ownCalls d) d s) (hsource : source.Own s d)
    (htarget : target.Own s d) (hrun : Diagram.setEdge d source target selector s = .ok edge s') :
    s.require d source = .ok edge.source ∧ s.require d target = .ok edge.target ∧
    edge.side = selector.side ∧
      s'.branch edge.side edge.source = some edge.target ∧
      Diagram.edgeSide s' d source target = .ok (selector.toLabel == .hi) ∧
      (Diagram.edgeSide s' d source target = .ok edge.side ↔
        selector ≠ .label .lo ∧ selector ≠ .label .unknown) ∧
      (edge.side = true → ∀ other, other.Own s' d → Diagram.edgeSide s' d source other = .ok true →
        s'.require d other = .ok edge.target) ∧
      ∀ p t, s.require d p ≠ .ok edge.source → s.require d p ≠ .ok d →
        Diagram.edgeSide s' d p t = Diagram.edgeSide s d p t ∨
          ∃ q, Diagram.edgeSide s d p t = .error (s.raise (.unknownEdge q edge.source)) ∧
            Diagram.edgeSide s' d p t = .error (s'.raise (.unknownEdge q edge.source)) := by
  have hselect : History (selectingCalls (fun _ => True) d) d s := by
    refine past.mono fun _ c hc => ⟨hc, ?_⟩
    cases c <;> trivial
  obtain ⟨g, yes, no, hw, hmarked⟩ := Marked.of_history (fun _ => trivial) hselect
  obtain ⟨a, b, ha, hb, hnode, hmember, -, rfl, rfl, heffect⟩ :=
    hw.exists_of_setEdge hsource htarget hrun
  have hw' := hw.of_effect heffect
  have hmarked' :
      Marked _ ((s.redirected a selector.side b).linked d a b selector.toLabel) d g yes no :=
    hmarked.linked hw trivial hnode hmember
  have hlt : b < (s.redirected a selector.side b).size :=
    Store.size_redirected.symm ▸ hw.member_lt_size hmember
  have ha' := (hw.require_congr hw' source).trans ha
  have hb' := (hw.require_congr hw' target).trans hb
  have hset : ((s.redirected a selector.side b).linked d a b selector.toLabel).branch selector.side
      a = some b := by
    rw [Store.branch_linked, hw.branch_redirected hnode, if_pos ⟨rfl, rfl⟩]
  have hfound : Diagram.edgeSide ((s.redirected a selector.side b).linked d a b selector.toLabel) d
    source target =
      .ok (selector.toLabel == .hi) := by
    refine (Diagram.edgeSide_eq_ok_iff hw' ha' hb').mpr ⟨selector.toLabel, ?_, rfl⟩
    rw [Store.label?_linked hlt, if_pos ⟨rfl, rfl⟩]
  refine ⟨ha, hb, rfl, hset, hfound, ?_, fun hside other hother hhi => ?_, fun p t hpa hpd => ?_⟩
  · rw [hfound, Except.ok.injEq, Selector.toLabel_eq_side_iff]
  · obtain ⟨q, hq, hleads⟩ := hmarked'.branch_of_edgeSide hw' ha' hother hhi
    have hside : selector.side = true := hside
    rw [← hside, hset] at hleads
    rw [hq, Option.some.inj hleads]
  · -- Only the labels recorded for `a` and for the diagram itself change, and `p` is neither.
    have hlabel : ∀ q n, s.require d p = .ok q →
        ((s.redirected a selector.side b).linked d a b selector.toLabel).label? n
            q = s.label? n q := by
      intro q n hq
      have hqa : q ≠ a := fun heq => hpa (heq ▸ hq)
      have hqd : q ≠ d := fun heq => hpd (heq ▸ hq)
      rw [Store.label?_linked hlt, if_neg (fun hc => hqa hc.2), if_neg (fun hc => hqd hc.2),
        Store.label?_redirected, if_neg (fun hc => hqa hc.2.2)]
    have hcongr :=
      @Diagram.edgeSide_congr _ _ _ p t (hw'.registry.trans hw.registry.symm) (hw.require_congr hw')
      fun q n hq _ => hlabel q n hq
    cases hq : s.require d p with
    | error e => exact .inl (hcongr fun q _ hq' _ => nomatch hq.symm.trans hq')
    | ok q =>
      -- A fault about `a` itself is worded with its branches, and one of those has changed.
      by_cases hta : s.require d t = .ok a
      · rw [Diagram.edgeSide_eq hw hq hta,
          Diagram.edgeSide_eq hw' ((hw.require_congr hw' p).trans hq)
          ((hw.require_congr hw' t).trans hta), hlabel q a hq]
        cases s.label? a q with
        | none => exact .inr ⟨q, rfl, rfl⟩
        | some l => exact .inl rfl
      · refine .inl (hcongr fun q' n hq' hn => Store.raise_unknownEdge_linked ?_ ?_)
        · exact fun heq => hpa (heq ▸ hq')
        · exact fun heq => hta (heq ▸ hn)

def spareNode : Store := (Call.addNode 7 .nothing .nothing).after 0 linkedPair

theorem spareNode_history : History (ownCalls 0) 0 spareNode := by
  refine (linkedPair_history.mono fun _ _ hc => hc.1).tail (.call (.addNode 7 .nothing .nothing) ?_)
  simp [ownCalls, Call.Own, Call.references, Reference.Own]

theorem edgeSide_of_setEdge_spareNode :
    ∃ s', Diagram.setEdge 0 (.variable 5) (.variable 7) (.flag true) spareNode =
    .ok ⟨3, 5, true⟩ s' ∧ s'.branch true 3 = some 5 ∧
    Diagram.edgeSide s' 0 (.variable 5) (.variable 7) = .ok true ∧
      Diagram.edgeSide s' 0 (.variable 5) (.variable 6) ≠ .ok true ∧
      Diagram.edgeSide s' 0 (.variable 6) (.variable 7) = .error (.unknownEdge 4 5) := by
  have hrun : Diagram.setEdge 0 (.variable 5) (.variable 7) (.flag true) spareNode =
      .ok ⟨3, 5, true⟩
        ((Call.setEdge (.variable 5) (.variable 7) (.flag true)).after 0 spareNode) := rfl
  have hown : ∀ v, (Reference.variable v).Own spareNode 0 := fun _ => trivial
  obtain ⟨-, -, -, hbranch, -, hside, hothers, helse⟩ :=
    edgeSide_of_setEdge spareNode_history (hown 5) (hown 7) hrun
  refine ⟨_, hrun, hbranch, hside.mpr (by decide), fun hsix => ?_, ?_⟩
  · exact absurd (hothers rfl (.variable 6) trivial hsix) (by decide)
  · have hmissed : Diagram.edgeSide spareNode 0 (.variable 6) (.variable 7) =
        .error (spareNode.raise (.unknownEdge 4 5)) := rfl
    have hraise : spareNode.raise (.unknownEdge 4 5) = .unknownEdge 4 5 :=
      Store.raise_of_small (by decide)
    rcases helse (.variable 6) (.variable 7) (by decide) (by decide) with hsame | ⟨q, hbefore, -⟩
    · rw [hsame, hmissed, hraise]
    · rw [hmissed, hraise] at hbefore
      rcases spareNode.raise_cases
        (.unknownEdge q 3) with hq | hq <;> rw [hq] at hbefore <;> cases hbefore

def looseNodes : Store := (Call.addNode 6 .nothing .nothing).after 0 loneNode

/-- The label `lo` sets the `hi` branch of 5, and the edge is not found there. -/
theorem setEdge_lo_looseNodes : History (ownCalls 0) 0 looseNodes ∧
    ∃ s', Diagram.setEdge 0 (.variable 5) (.variable 6) (.label .lo) looseNodes =
        .ok ⟨3, 4, true⟩ s' ∧
      s'.branch true 3 = some 4 ∧
      Diagram.edgeSide s' 0 (.variable 5) (.variable 6) = .ok false := by
  refine ⟨(loneNode_history.mono fun _ _ hc => hc.2).tail (.call (.addNode 6 .nothing .nothing) ?_),
    _, rfl, rfl, rfl⟩
  simp [ownCalls, Call.Own, Call.references, Reference.Own]

end DecisionDiagram
