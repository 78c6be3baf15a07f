import DecisionDiagram.Proofs.DiagramLayers
import DecisionDiagram.Proofs.ValidateDecides
/-! Settled diagrams: each was changed through its own methods alone and has its root. Several of
them may stand beside one another in one store. -/
namespace DecisionDiagram

/-- A diagram that was changed through its own methods alone and is validated. -/
def Store.Settled (s : Store) (d : Ref) : Prop :=
  History (ownCalls d) d s ∧ ∃ g root, s.registry? d = some g ∧ g.root = some root

theorem Store.Settled.rooted {s : Store} {d : Ref} (h : s.Settled d) :
    ∃ g yes no root, Rooted s d g yes no root := by
  obtain ⟨past, g, root, hg, hroot⟩ := h
  obtain ⟨yes, no, hrooted⟩ := Rooted.of_history past hg hroot
  exact ⟨g, yes, no, root, hrooted⟩

def Reference.named : Reference → Bool
  | .vertex _ => false
  | .nothing | .variable _ => true

def Call.named : Call → Bool
  | addNode _ hi lo => hi.named && lo.named
  | setEdge source target _ => source.named && target.named
  | removeEdge .. | validate => false

theorem Reference.own_of_named {s : Store} {d : Ref} {reference : Reference}
    (h : reference.named = true) : reference.Own s d := by
  cases reference with
  | vertex r => cases h
  | nothing => trivial
  | «variable» v => trivial

theorem wiringCalls_of_named {s : Store} {d : Ref} {c : Call} (h : c.named = true) :
    wiringCalls d s c := by
  cases c with
  | addNode v hi lo =>
    obtain ⟨hhi, hlo⟩ := Bool.and_eq_true_iff.mp h
    refine ⟨trivial, ?_⟩
    simp [Call.Own, Call.references, Reference.own_of_named hhi, Reference.own_of_named hlo]
  | setEdge source target selector =>
    obtain ⟨hsource, htarget⟩ := Bool.and_eq_true_iff.mp h
    refine ⟨trivial, ?_⟩
    simp [Call.Own, Call.references, Reference.own_of_named hsource, Reference.own_of_named htarget]
  | removeEdge => cases h
  | validate => cases h

def Store.afterCalls (s : Store) (d : Ref) (calls : List Call) : Store :=
  calls.foldl (fun s c => c.after d s) s

theorem History.afterCalls {permits : Store → Call → Prop} {d : Ref} {s : Store} {calls : List Call}
    (past : History permits d s) (hcalls : ∀ c ∈ calls, ∀ s, permits s c) :
    History permits d (s.afterCalls d calls) := by
  induction calls generalizing s with
  | nil => exact past
  | cons c cs ih =>
    exact ih (past.tail (.call c (hcalls c List.mem_cons_self s))) fun c hc =>
      hcalls c (List.mem_cons_of_mem _ hc)

theorem History.fresh (before : Store) {d : Ref} {calls : List Call}
    (hcreate : Diagram.create before = .ok d (Edit.after Diagram.create before))
    (hcalls : calls.all Call.named = true) :
    History (wiringCalls d) d ((Edit.after Diagram.create before).afterCalls d calls) :=
  History.afterCalls ⟨before, _, hcreate, .refl⟩ fun c hc _ =>
    wiringCalls_of_named (List.all_eq_true.mp hcalls c hc)

theorem Store.Settled.beside {s s' : Store} {d : Ref} (h : s.Settled d)
    (hsame : ∀ r < s.size, s'.vertex? r = s.vertex? r) : s'.Settled d := by
  obtain ⟨g, yes, no, root, hrooted⟩ := h.rooted
  obtain ⟨past, hg⟩ := h
  have hd : d < s.size := Store.lt_size_of_body hrooted.wired.diagram
  refine ⟨past.tail (.elsewhere fun r hr => hsame r ?_), ?_⟩
  · rcases hr with rfl | hr
    · exact hd
    · exact hrooted.wired.member_lt_size (hrooted.wired.owns_iff.mp hr)
  · rwa [Store.registry?, hsame d hd, ← Store.registry?]

theorem Store.Settled.fresh (before : Store) {d r : Ref} {g : Registry} {calls : List Call}
    {s : Store} (rs : List Ref)
    (hcreate : Diagram.create before = .ok d (Edit.after Diagram.create before))
    (hcalls : calls.all Call.named = true)
    (hs : (Edit.after Diagram.create before).afterCalls d calls = s) (hg : s.registry? d = some g)
    (hone : s.rootCandidates d g = [r]) (hr : r ∈ rs)
    (hbelow : ∀ r ∈ rs, ∀ q ∈ s.successors r, q ∈ rs ∧ q < r) :
    (s.updateRegistry d (·.setRoot r)).Settled d := by
  have past : History (wiringCalls d) d s := hs ▸ History.fresh before hcreate hcalls
  obtain ⟨g', yes, no, hopen⟩ := Open.of_history past
  obtain rfl := Option.some.inj (hopen.wired.registry?.symm.trans hg)
  have hrun := hopen.validate_of_candidate hone (Store.grounded_of_lt hbelow r hr)
  have hlast :=
    (past.mono fun _ _ hc => hc.2).tail (.call .validate (by simp [Call.Own, Call.references]))
  rw [Call.after, after_of_ok hrun] at hlast
  refine ⟨hlast, g'.setRoot r, r, ?_, rfl⟩
  rw [Store.registry?_eq_body, Store.body?_updateRegistry_self _ hopen.wired.diagram]
  rfl

/-- The implication from 1 to 2, which comes to true in both directions, with two nodes. -/
def implication : Store :=
  ((Edit.after Diagram.create {}).afterCalls 0 [.addNode 2 .nothing .nothing,
    .addNode 1 (.variable 2) (.variable trueVariable)]).updateRegistry 0 (·.setRoot 4)

/-- Beside it the implication from 1 and 2 to 3, which comes to true as well, with three nodes. -/
def twoImplications : Store :=
  ((Edit.after Diagram.create implication).afterCalls 5 [.addNode 3 .nothing .nothing,
    .addNode 2 (.variable 3) (.variable trueVariable),
    .addNode 1 (.variable 2) (.variable trueVariable)]).updateRegistry 5 (·.setRoot 10)

theorem implication_settled : implication.Settled 0 :=
  .fresh {} [1, 2, 3, 4] rfl rfl rfl rfl rfl (by decide) (by decide)

theorem implication_registry? :
    implication.registry? 0 = some { table := [(1, 4), (2, 3)], root := some 4 } := rfl

theorem twoImplications_settled : twoImplications.Settled 0 ∧ twoImplications.Settled 5 :=
  ⟨implication_settled.beside (by decide),
    .fresh implication [6, 7, 8, 9, 10] rfl rfl rfl rfl rfl (by decide) (by decide)⟩

end DecisionDiagram
