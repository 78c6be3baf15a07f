import DecisionDiagram.Proofs.SessionReplies
/-! Participants of a session do not notice one another: whatever the others do, each is told what
it would be told alone, and has the diagram that it would have alone. Only the references differ,
and they are paired off. -/
namespace DecisionDiagram
open List Relator

def Apart (Q R : Pairing) : Prop := ∀ a b c, Q a b → ¬ R a c

theorem Apart.symm {Q R : Pairing} (h : Apart Q R) : Apart R Q :=
  fun a b c hab hac => h a c b hac hab

theorem apart_update {κ : Type} [DecidableEq κ] {R : κ → Pairing}
    (hapart : ∀ i j, i ≠ j → Apart (R i) (R j)) {k : κ} {R' : Pairing}
    (hnew : ∀ j, j ≠ k → Apart (R j) R') {i j : κ} (hij : i ≠ j) :
    Apart (Function.update R k R' i) (Function.update R k R' j) := by
  by_cases hi : i = k
  · subst hi
    rw [Function.update_self, Function.update_of_ne hij.symm]
    exact (hnew j hij.symm).symm
  · rw [Function.update_of_ne hi]
    by_cases hj : j = k
    · subst hj
      rw [Function.update_self]
      exact hnew i hi
    · rw [Function.update_of_ne hj]
      exact hapart i j hij

namespace Advance

variable {s s' t t' u : Store} {Q R R' : Pairing}

theorem beside (h : Advance s t R s' t' R') (hQ : s.Twin u Q) (hapart : Apart Q R) :
    s'.Twin u Q := by
  refine ⟨hQ.unique, fun a b hab => ?_⟩
  obtain ⟨x, y, hx, hy, hxy⟩ := hQ.alike a b hab
  exact ⟨x, y, (h.apart a (hQ.lt_size hab).1 fun c => hapart a b c hab).trans hx, hy, hxy⟩

theorem keeps_apart (h : Advance s t R s' t' R') (hQ : s.Twin u Q) (hapart : Apart Q R) :
    Apart Q R' := by
  intro a b c hab hac
  rcases h.fresh a c hac with hac | hnew
  · exact hapart a b c hab hac
  · exact absurd (hQ.lt_size hab).1 (Nat.not_lt.mpr hnew)

end Advance

namespace Session

variable {κ : Type} {before : Store} {x x' y : Session κ} {k : κ} {R : Pairing}
variable {action : Action} {reply : Reply} {events : List (Event κ)}

/-- For one participant the sessions differ in nothing but references. -/
structure SameFor (k : κ) (R : Pairing) (x y : Session κ) : Prop where
  twin : x.store.Twin y.store R
  diagram : Option.Rel R (x.diagram k) (y.diagram k)

theorem SameFor.start (k : κ) (before before' : Store) :
    SameFor k (fun _ _ => False) (start before : Session κ) (start before') :=
  ⟨⟨⟨by rintro _ _ _ ⟨⟩, by rintro _ _ _ ⟨⟩⟩, by rintro _ _ ⟨⟩⟩, .none⟩

variable [DecidableEq κ]

theorem Step.exists_alike (hstep : x.Step k action reply x') (h : SameFor k R x y) :
    ∃ R' action' reply' y', y.Step k action' reply' y' ∧
    Advance x.store y.store R x'.store y'.store R' ∧
      SameFor k R' x' y' ∧ Event.Alike R' (κ := κ) ⟨k, action, reply⟩ ⟨k, action', reply'⟩ := by
  cases hstep with
  | @create d s hnone hcreate =>
    have hnone' := eq_none_of_rel h.diagram hnone
    obtain ⟨e, t, hcreate'⟩ : ∃ e t, Diagram.create y.store = .ok e t := ⟨_, _, rfl⟩
    have hresults := results_create h.twin
    rw [hcreate, hcreate'] at hresults
    cases hresults with
    | ok hadv hde =>
      refine ⟨_, _, _, _, .create hnone' hcreate', hadv, ⟨hadv.twin, ?_⟩, rfl, .create, .vertex hde⟩
      simp only [Function.update_self]
      exact .some hde
  | call hd c hown =>
    obtain ⟨e, he, hde⟩ := exists_of_rel_some h.diagram hd
    obtain ⟨c', hown', hc⟩ := h.twin.exists_call hde hown
    obtain ⟨R', hadv, hreply⟩ := Call.reply_alike h.twin hde hc
    exact ⟨R', _, _, _, .call he c' hown', hadv, ⟨hadv.twin, rel_mono hadv.wider h.diagram⟩, rfl,
      .call (hc.mono hadv.wider), hreply⟩
  | ask hd q hown =>
    obtain ⟨e, he, hde⟩ := exists_of_rel_some h.diagram hd
    obtain ⟨q', hown', hq⟩ := h.twin.exists_question hde hown
    exact ⟨R, _, _, _, .ask he q' hown', .refl h.twin, h, rfl, .ask hq,
      Question.reply_alike h.twin hde hq⟩

theorem SameFor.beside {j : κ} {Q R' : Pairing} {t t' : Store} (h : SameFor j Q x y) (hj : j ≠ k)
    (hstep : x.Step k action reply x') (hadv : Advance x.store t R x'.store t' R')
    (hapart : Apart Q R) : SameFor j Q x' y :=
  ⟨hadv.beside h.twin hapart, hstep.diagram_ne hj ▸ h.diagram⟩

theorem Runs.exists_alone (h : Runs (start before) events x) (before' : Store) :
    ∃ R : κ → Pairing, (∀ i j, i ≠ j → Apart (R i) (R j)) ∧
    ∀ k, ∃ events' y, Runs (start before') events' y ∧
      Forall₂ (Event.Alike (R k)) (events.filter (·.who = k)) events' ∧ SameFor k (R k) x y := by
  induction h with
  | refl =>
    exact ⟨fun _ _ _ => False, fun _ _ _ _ _ _ => nofun, fun k =>
      ⟨[], _, .refl, .nil, .start k _ _⟩⟩
  | @tail events x x' k action reply _ hstep ih =>
    obtain ⟨R, hapart, halone⟩ := ih
    obtain ⟨events', y, hruns, hevents, hsame⟩ := halone k
    obtain ⟨R', action', reply', y', hstep', hadv, hsame', halike⟩ := hstep.exists_alike hsame
    have hnew : ∀ j, j ≠ k → Apart (R j) R' := by
      intro j hj
      obtain ⟨_, _, -, -, hother⟩ := halone j
      exact hadv.keeps_apart hother.twin (hapart j k hj)
    -- The step is replayed for `k` alone; the other sessions keep the run they have.
    refine ⟨Function.update R k R', fun _ _ => apart_update hapart hnew, fun j => ?_⟩
    by_cases hj : j = k
    · subst hj
      rw [Function.update_self]
      refine ⟨events' ++ [⟨j, action', reply'⟩], y', hruns.tail hstep', ?_, hsame'⟩
      simp only [filter_append, filter_cons, filter_nil, decide_true, if_true]
      exact rel_append (hevents.imp fun _ _ => Event.Alike.mono hadv.wider) (.cons halike .nil)
    · obtain ⟨others, z, hothers, hevents', hother⟩ := halone j
      rw [Function.update_of_ne hj]
      refine ⟨others, z, hothers, ?_, hother.beside hj hstep hadv (hapart j k hj)⟩
      simpa [Ne.symm hj] using hevents'

/-- Each participant is told what it is told in the run of its own steps, and ends with the same
diagram. By `Runs.unique` there is no other run of these steps. -/
theorem Runs.isolated (h : Runs (start before) events x) (k : κ) (before' : Store) :
    ∃ R events' y, Runs (start before') events' y ∧
    Forall₂ (Event.Alike R) (events.filter (·.who = k)) events' ∧
      x.store.Twin y.store R ∧ Option.Rel R (x.diagram k) (y.diagram k) := by
  obtain ⟨R, -, halone⟩ := h.exists_alone before'
  obtain ⟨events', y, hruns, hevents, hsame⟩ := halone k
  exact ⟨R k, events', y, hruns, hevents, hsame.twin, hsame.diagram⟩

/-- Two participants who take turns, with references to vertices that were created in between. -/
def turns : List (Bool × Action) :=
  [(true, .create), (false, .create), (true, .call (.addNode 5 .nothing .nothing)),
    (false, .call (.addNode 6 .nothing .nothing)),
      (true, .call (.addNode 4 (.vertex 6) (.vertex 2))),
    (false, .ask (.document none)), (true, .ask (.edgeSide (.vertex 8) (.vertex 6)))]

theorem exists_turns :
    ∃ events x, Runs (start {}) events x ∧ events.map (fun e => (e.who, e.action)) = turns := by
  have hcreate : ∀ s, Diagram.create s = .ok s.size (Edit.after Diagram.create s) := fun _ => rfl
  have hplain : ∀ (s : Store) (d : Ref) (v : Int), (Call.addNode v .nothing .nothing).Own s d := by
    simp [Call.Own, Call.references, Reference.Own]
  have h₄ : Runs (start {}) _ _ :=
    (((Runs.refl.tail (k := true) (.create rfl (hcreate _))).tail (k := false)
    (.create rfl (hcreate _))).tail (k := true) (.call rfl _ (hplain _ _ 5))).tail (k :=
      false) (.call rfl _ (hplain _ _ 6))
  refine ⟨_, _,
    ((h₄.tail (k := true) (.call rfl (.addNode 4 (.vertex 6) (.vertex 2)) ?_)).tail (k := false)
    (.ask rfl (.document none) ?_)).tail (k :=
      true) (.ask rfl (.edgeSide (.vertex 8) (.vertex 6)) ?_), rfl⟩
  · rintro ref (_ | ⟨_, _ | ⟨_, ⟨⟩⟩⟩)
    · exact .inr (.inr ⟨_, rfl, by decide⟩)
    · exact .inr (.inl rfl)
  · simp [Question.Own, Question.references]
  · rintro ref (_ | ⟨_, _ | ⟨_, ⟨⟩⟩⟩)
    · exact .inr (.inr ⟨_, rfl, by decide⟩)
    · exact .inr (.inr ⟨_, rfl, by decide⟩)

theorem isolated_turns :
    ∃ events x, Runs (start {}) events x ∧ events.map (fun e => (e.who, e.action)) = turns ∧
    ∃ R events' y, Runs (start {}) events' y ∧
    Forall₂ (Event.Alike R) (events.filter (·.who = false)) events' ∧
      x.store.Twin y.store R ∧ Option.Rel R (x.diagram false) (y.diagram false) := by
  obtain ⟨events, x, hruns, hturns⟩ := exists_turns
  exact ⟨events, x, hruns, hturns, hruns.isolated false {}⟩

end Session

end DecisionDiagram
