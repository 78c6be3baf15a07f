import DecisionDiagram.Proofs.CallHistory
import DecisionDiagram.Proofs.PairedMethods
import Mathlib.Logic.Function.Basic
/-! Sessions with many diagrams in one store. Each participant creates a diagram, calls its methods
and asks questions about it, in any order between the participants. All that a participant gets to
see are the replies. -/
namespace DecisionDiagram
open List Relator

inductive Question
  | edgeSide (source target : Reference)
  | evaluate (assignment : Assignment)
  | probability (weights : Weights)
  | modelCount
  | layers
  | document (order : Option (List Document.Item))

inductive Finding
  | side (hi : Bool)
  | truth (value : Bool)
  | chance (q : Rat)
  | count (n : Int)
  | layers (l : List (List Int))
  | document (text : Text)

inductive Reply
  | vertex (r : Ref)
  | edge (edge : Edge)
  | done
  | found (finding : Finding)
  | refused (fault : Fault) (message : Option String)

inductive Action
  | create
  | call (c : Call)
  | ask (q : Question)

namespace Question

def references : Question → List Reference
  | edgeSide source target => [source, target]
  | _ => []

def Own (s : Store) (d : Ref) (q : Question) : Prop := ∀ ref ∈ q.references, ref.Own s d

def finding (d : Ref) (s : Store) : Question → Except Fault Finding
  | edgeSide source target => (Diagram.edgeSide s d source target).map .side
  | evaluate assignment => (s.evaluate d assignment).map .truth
  | probability weights => (s.probability d weights).map .chance
  | modelCount => (s.modelCount d).map .count
  | layers => (s.layers d).map .layers
  | document order => (Document.write s d order).map .document

end Question

def Reply.of {α : Type} (s : Store) (told : α → Reply) : Except Fault α → Reply
  | .ok a => told a
  | .error e => .refused e (e.message? s)

def Edit.reply {α : Type} (x : Edit α) (s : Store) (told : α → Reply) : Reply :=
  .of (x.after s) told (x.answer s)

def Call.reply (d : Ref) (s : Store) : Call → Reply
  | addNode v hi lo => (Diagram.addNode d v hi lo).reply s .vertex
  | setEdge source target selector => (Diagram.setEdge d source target selector).reply s .edge
  | removeEdge source target => (Diagram.removeEdge d source target).reply s fun _ => .done
  | validate => (Diagram.validate d).reply s .vertex

def Question.reply (d : Ref) (s : Store) (q : Question) : Reply := .of s .found (q.finding d s)

/-- One store for all, and the diagram of every participant that has created one. -/
structure Session (κ : Type) where
  store : Store
  diagram : κ → Option Ref

structure Event (κ : Type) where
  who : κ
  action : Action
  reply : Reply

namespace Session

variable {κ : Type} [DecidableEq κ] {x x' y y' : Session κ} {k : κ} {events : List (Event κ)}

def start (before : Store) : Session κ := ⟨before, fun _ => none⟩

/-- A participant creates its diagram, or acts on it with references to its own vertices. -/
inductive Step (x : Session κ) (k : κ) : Action → Reply → Session κ → Prop
  | create {d : Ref} {s : Store} (hnone : x.diagram k = none)
      (h : Diagram.create x.store = .ok d s) :
    Step x k .create (.vertex d) ⟨s, Function.update x.diagram k (some d)⟩
  | call {d : Ref} (hd : x.diagram k = some d) (c : Call) (hown : c.Own x.store d) :
    Step x k (.call c) (c.reply d x.store) ⟨c.after d x.store, x.diagram⟩
  | ask {d : Ref} (hd : x.diagram k = some d) (q : Question) (hown : q.Own x.store d) :
    Step x k (.ask q) (q.reply d x.store) x

/-- One participant after another takes a step. -/
inductive Runs (x : Session κ) : List (Event κ) → Session κ → Prop
  | refl : Runs x [] x
  | tail {events : List (Event κ)} {y z : Session κ} {k : κ} {action : Action} {reply : Reply}
      (h : Runs x events y)
    (hstep : y.Step k action reply z) : Runs x (events ++ [⟨k, action, reply⟩]) z

theorem Step.diagram_ne {action : Action} {reply : Reply} (h : x.Step k action reply y) {j : κ}
    (hj : j ≠ k) : y.diagram j = x.diagram j := by
  cases h with
  | create _ _ => exact Function.update_of_ne hj _ _
  | call _ _ _ => rfl
  | ask _ _ _ => rfl

theorem Step.unique {action : Action} {reply reply' : Reply} (h : x.Step k action reply y)
    (h' : x.Step k action reply' y') : reply = reply' ∧ y = y' := by
  cases h with
  | create _ h =>
    cases h' with
    | create _ h' =>
      obtain ⟨rfl, rfl⟩ := EStateM.Result.ok.inj (h.symm.trans h')
      exact ⟨rfl, rfl⟩
  | call hd c _ =>
    cases h' with
    | call hd' _ _ =>
      obtain rfl := Option.some.inj (hd.symm.trans hd')
      exact ⟨rfl, rfl⟩
  | ask hd q _ =>
    cases h' with
    | ask hd' _ _ =>
      obtain rfl := Option.some.inj (hd.symm.trans hd')
      exact ⟨rfl, rfl⟩

/-- The actions determine the run. -/
theorem Runs.unique {events' : List (Event κ)} (h : Runs x events y) (h' : Runs x events' y')
    (hsame : events.map (fun e => (e.who, e.action)) = events'.map fun e => (e.who, e.action)) :
    events = events' ∧ y = y' := by
  induction h generalizing events' y' with
  | refl =>
    cases h' with
    | refl => exact ⟨rfl, rfl⟩
    | tail _ _ => simp at hsame
  | tail _ hstep ih =>
    cases h' with
    | refl => simp at hsame
    | tail h' hstep' =>
      simp only [map_append, map_cons, map_nil] at hsame
      obtain ⟨hinit, hlast⟩ := append_inj' hsame rfl
      obtain ⟨rfl, rfl⟩ := ih h' hinit
      obtain ⟨rfl, rfl⟩ := Prod.mk.inj (cons.inj hlast).1
      obtain ⟨rfl, rfl⟩ := hstep.unique hstep'
      exact ⟨rfl, rfl⟩

end Session

section Alike

variable {R R' : Pairing}

inductive Call.Alike (R : Pairing) : Call → Call → Prop
  | addNode {hi hi' lo lo' : Reference} (v : Int) (hhi : Reference.Alike R hi hi')
      (hlo : Reference.Alike R lo lo') :
    Alike R (.addNode v hi lo) (.addNode v hi' lo')
  | setEdge {source source' target target' : Reference} (selector : Selector)
    (hsource : Reference.Alike R source source') (htarget : Reference.Alike R target target') :
    Alike R (.setEdge source target selector) (.setEdge source' target' selector)
  | removeEdge {source source' target target' : Reference}
      (hsource : Reference.Alike R source source')
    (htarget : Reference.Alike R target target') :
      Alike R (.removeEdge source target) (.removeEdge source' target')
  | validate : Alike R .validate .validate

inductive Question.Alike (R : Pairing) : Question → Question → Prop
  | edgeSide {source source' target target' : Reference}
      (hsource : Reference.Alike R source source')
    (htarget : Reference.Alike R target target') :
      Alike R (.edgeSide source target) (.edgeSide source' target')
  | bare {q : Question} (h : q.references = []) : Alike R q q

inductive Action.Alike (R : Pairing) : Action → Action → Prop
  | create : Alike R .create .create
  | call {c c' : Call} (h : Call.Alike R c c') : Alike R (.call c) (.call c')
  | ask {q q' : Question} (h : Question.Alike R q q') : Alike R (.ask q) (.ask q')

inductive Reply.Alike (R : Pairing) : Reply → Reply → Prop
  | vertex {a b : Ref} (h : R a b) : Alike R (.vertex a) (.vertex b)
  | edge {e e' : Edge} (h : Edge.Alike R e e') : Alike R (.edge e) (.edge e')
  | done : Alike R .done .done
  | found (x : Finding) : Alike R (.found x) (.found x)
  | refused {e f : Fault} (message : Option String) (h : Fault.Alike R e f) :
    Alike R (.refused e message) (.refused f message)

structure Event.Alike {κ : Type} (R : Pairing) (x y : Event κ) : Prop where
  who : x.who = y.who
  action : Action.Alike R x.action y.action
  reply : Reply.Alike R x.reply y.reply

theorem Call.Alike.mono (hle : ∀ a b, R a b → R' a b) {c c' : Call} (h : Call.Alike R c c') :
    Call.Alike R' c c' := by
  cases h with
  | addNode v hhi hlo => exact .addNode v (hhi.mono hle) (hlo.mono hle)
  | setEdge selector hsource htarget =>
    exact .setEdge selector (hsource.mono hle) (htarget.mono hle)
  | removeEdge hsource htarget => exact .removeEdge (hsource.mono hle) (htarget.mono hle)
  | validate => exact .validate

theorem Question.Alike.mono (hle : ∀ a b, R a b → R' a b) {q q' : Question}
    (h : Question.Alike R q q') : Question.Alike R' q q' := by
  cases h with
  | edgeSide hsource htarget => exact .edgeSide (hsource.mono hle) (htarget.mono hle)
  | bare hbare => exact .bare hbare

theorem Action.Alike.mono (hle : ∀ a b, R a b → R' a b) {a a' : Action} (h : Action.Alike R a a') :
    Action.Alike R' a a' := by
  cases h with
  | create => exact .create
  | call hc => exact .call (hc.mono hle)
  | ask hq => exact .ask (hq.mono hle)

theorem Reply.Alike.mono (hle : ∀ a b, R a b → R' a b) {r r' : Reply} (h : Reply.Alike R r r') :
    Reply.Alike R' r r' := by
  cases h with
  | vertex hab => exact .vertex (hle _ _ hab)
  | edge he => exact .edge ⟨hle _ _ he.1, hle _ _ he.2.1, he.2.2⟩
  | done => exact .done
  | found x => exact .found x
  | refused message hef => exact .refused message (hef.mono hle)

theorem Event.Alike.mono {κ : Type} (hle : ∀ a b, R a b → R' a b) {x y : Event κ}
    (h : Event.Alike R x y) : Event.Alike R' x y :=
  ⟨h.who, h.action.mono hle, h.reply.mono hle⟩

end Alike

section Replies

variable {s t : Store} {R : Pairing} {d e : Ref}

theorem Answers.reply {α β : Type} {S : α → β → Prop} {p : Except Fault α} {q : Except Fault β}
    {told : α → Reply} {told' : β → Reply} (h : Answers R S p q) (ht : s.Twin t R)
    (htold : ∀ a b, S a b → Reply.Alike R (told a) (told' b)) :
    Reply.Alike R (.of s told p) (.of t told' q) := by
  cases h with
  | ok hab => exact htold _ _ hab
  | error hef =>
    simp only [Reply.of, ht.message?_eq hef]
    exact .refused _ hef

theorem Results.reply {α β : Type} {S : Pairing → α → β → Prop} {x : Edit α} {y : Edit β}
    {told : α → Reply} {told' : β → Reply} (h : Results s t R S (x s) (y t))
    (htold : ∀ R a b, S R a b → Reply.Alike R (told a) (told' b)) :
    ∃ R', Advance s t R (x.after s) (y.after t) R' ∧
    Reply.Alike R' (x.reply s told) (y.reply t told') := by
  unfold Edit.reply Edit.after Edit.answer
  generalize x s = p, y t = q at h
  cases h with
  | ok h hab => exact ⟨_, h, Answers.reply (S := S _) (.ok hab) h.twin (htold _)⟩
  | error h hef => exact ⟨_, h, Answers.reply (S := S _) (.error hef) h.twin (htold _)⟩

theorem Call.reply_alike (h : s.Twin t R) (hd : R d e) {c c' : Call} (hc : Call.Alike R c c') :
    ∃ R', Advance s t R (c.after d s) (c'.after e t) R' ∧
    Reply.Alike R' (c.reply d s) (c'.reply e t) := by
  cases hc with
  | addNode v hhi hlo => exact (results_addNode h hd v hhi hlo).reply fun _ _ _ => .vertex
  | setEdge selector hsource htarget =>
    exact (results_setEdge h hd selector hsource htarget).reply fun _ _ _ => .edge
  | removeEdge hsource htarget =>
    exact (results_removeEdge h hd hsource htarget).reply fun _ _ _ _ => .done
  | validate => exact (results_validate h hd).reply fun _ _ _ => .vertex

theorem Question.finding_answers (h : s.Twin t R) (hd : R d e) {q q' : Question}
    (hq : Question.Alike R q q') : Answers R Eq (q.finding d s) (q'.finding e t) := by
  cases hq with
  | edgeSide hsource htarget =>
    exact (h.edgeSide_answers hd hsource htarget).map fun _ _ => congrArg _
  | bare hbare =>
    cases q with
    | edgeSide source target => cases hbare
    | evaluate assignment => exact (h.evaluate_answers hd assignment).map fun _ _ => congrArg _
    | probability weights => exact (h.probability_answers hd weights).map fun _ _ => congrArg _
    | modelCount => exact (h.modelCount_answers hd).map fun _ _ => congrArg _
    | layers => exact (h.layers_answers hd).map fun _ _ => congrArg _
    | document order => exact (h.write_answers hd order).map fun _ _ => congrArg _

theorem Question.reply_alike (h : s.Twin t R) (hd : R d e) {q q' : Question}
    (hq : Question.Alike R q q') : Reply.Alike R (q.reply d s) (q'.reply e t) := by
  refine (Question.finding_answers h hd hq).reply h ?_
  rintro x _ rfl
  exact .found x

end Replies

section Counterparts

variable {s t : Store} {R : Pairing} {d e r : Ref}

theorem Store.Twin.exists_owned (h : s.Twin t R) (hd : R d e) (hr : s.Owns d r) :
    ∃ q, t.Owns e q ∧ R r q := by
  rcases hr with hr | hr | ⟨g, hg, hr⟩
  · obtain ⟨q, hq, hrq⟩ := exists_of_rel_some (h.branch_rel hd true) hr
    exact ⟨q, .inl hq, hrq⟩
  · obtain ⟨q, hq, hrq⟩ := exists_of_rel_some (h.branch_rel hd false) hr
    exact ⟨q, .inr (.inl hq), hrq⟩
  · obtain ⟨g', hg', halike⟩ := exists_of_rel_some (h.registry?_rel hd) hg
    obtain ⟨i, hi, rfl⟩ := mem_iff_getElem.mp hr
    have hi' := hi.trans_eq halike.nodes_rel.length_eq
    exact ⟨_, .inr (.inr ⟨g', hg', getElem_mem hi'⟩), halike.nodes_rel.get hi hi'⟩

theorem Store.Twin.exists_reference (h : s.Twin t R) (hd : R d e) {ref : Reference}
    (hown : ref.Own s d) : ∃ ref', ref'.Own t e ∧ Reference.Alike R ref ref' := by
  cases ref with
  | nothing => exact ⟨.nothing, trivial, .nothing⟩
  | «variable» v => exact ⟨.variable v, trivial, .variable v⟩
  | vertex r =>
    obtain ⟨q, hq, hrq⟩ := h.exists_owned hd hown
    exact ⟨.vertex q, hq, .vertex hrq⟩

theorem Store.Twin.exists_references (h : s.Twin t R) (hd : R d e) {p q : Reference}
    (hown : ∀ ref ∈ [p, q], ref.Own s d) :
    ∃ p' q', (∀ ref ∈ [p', q'], ref.Own t e) ∧ Reference.Alike R p p' ∧ Reference.Alike R q q' := by
  obtain ⟨p', hp, hpp⟩ := h.exists_reference hd (hown p (by simp))
  obtain ⟨q', hq, hqq⟩ := h.exists_reference hd (hown q (by simp))
  refine ⟨p', q', ?_, hpp, hqq⟩
  rintro ref (_ | ⟨_, _ | ⟨_, ⟨⟩⟩⟩)
  · exact hp
  · exact hq

theorem Store.Twin.exists_call (h : s.Twin t R) (hd : R d e) {c : Call} (hown : c.Own s d) :
    ∃ c', c'.Own t e ∧ Call.Alike R c c' := by
  cases c with
  | addNode v hi lo =>
    obtain ⟨hi', lo', hown', hhi, hlo⟩ := h.exists_references hd hown
    exact ⟨.addNode v hi' lo', hown', .addNode v hhi hlo⟩
  | setEdge source target selector =>
    obtain ⟨source', target', hown', hsource, htarget⟩ := h.exists_references hd hown
    exact ⟨.setEdge source' target' selector, hown', .setEdge selector hsource htarget⟩
  | removeEdge source target =>
    obtain ⟨source', target', hown', hsource, htarget⟩ := h.exists_references hd hown
    exact ⟨.removeEdge source' target', hown', .removeEdge hsource htarget⟩
  | validate => exact ⟨.validate, by simp [Call.Own, Call.references], .validate⟩

theorem Store.Twin.exists_question (h : s.Twin t R) (hd : R d e) {q : Question} (hown : q.Own s d) :
    ∃ q', q'.Own t e ∧ Question.Alike R q q' := by
  cases q with
  | edgeSide source target =>
    obtain ⟨source', target', hown', hsource, htarget⟩ := h.exists_references hd hown
    exact ⟨.edgeSide source' target', hown', .edgeSide hsource htarget⟩
  | _ => exact ⟨_, by simp [Question.Own, Question.references], .bare rfl⟩

end Counterparts

end DecisionDiagram
