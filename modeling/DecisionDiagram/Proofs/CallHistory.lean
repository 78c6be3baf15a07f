import DecisionDiagram.Proofs.DepthFirstWalk
import DecisionDiagram.Proofs.MethodEffects
/-! Histories of a diagram: it is created, and then its own methods are called, in any order and
whether they fail or not, while other vertices change as they please. Its vertices stay in order
throughout. -/
namespace DecisionDiagram
open Relation

inductive Call
  | addNode (v : Int) (hi lo : Reference)
  | setEdge (source target : Reference) (selector : Selector)
  | removeEdge (source target : Reference)
  | validate

namespace Call

def references : Call → List Reference
  | addNode _ hi lo => [hi, lo]
  | setEdge source target _ => [source, target]
  | removeEdge source target => [source, target]
  | validate => []

/-- Every vertex that is handed over belongs to the diagram. -/
def Own (s : Store) (d : Ref) (c : Call) : Prop := ∀ ref ∈ c.references, ref.Own s d

def Wires : Call → Prop
  | addNode .. | setEdge .. => True
  | removeEdge .. | validate => False

def after (d : Ref) (s : Store) : Call → Store
  | addNode v hi lo => Edit.after (Diagram.addNode d v hi lo) s
  | setEdge source target selector => Edit.after (Diagram.setEdge d source target selector) s
  | removeEdge source target => Edit.after (Diagram.removeEdge d source target) s
  | validate => Edit.after (Diagram.validate d) s

end Call

/-- A step in the life of a diagram: a permitted call, or changes to vertices that are not its own.
-/
inductive Step (permits : Store → Call → Prop) (d : Ref) (s : Store) : Store → Prop
  | call (c : Call) (hc : permits s c) : Step permits d s (c.after d s)
  | elsewhere {s' : Store} (same : ∀ r, r = d ∨ s.Owns d r → s'.vertex? r = s.vertex? r) :
    Step permits d s s'

/-- The store is reached from the creation of the diagram by permitted steps. -/
def History (permits : Store → Call → Prop) (d : Ref) (s : Store) : Prop :=
  ∃ before created, Diagram.create before = .ok d created ∧ ReflTransGen (Step permits d) created s

/-- Calls with variables and vertices of the diagram itself. -/
def ownCalls (d : Ref) (s : Store) (c : Call) : Prop := c.Own s d

def wiringCalls (d : Ref) (s : Store) (c : Call) : Prop := c.Wires ∧ c.Own s d

theorem Step.mono {permits permits' : Store → Call → Prop} (h : ∀ s c, permits s c → permits' s c)
    {d : Ref} {s s' : Store} (hstep : Step permits d s s') : Step permits' d s s' := by
  cases hstep with
  | call c hc => exact .call c (h s c hc)
  | elsewhere same => exact .elsewhere same

theorem History.mono {permits permits' : Store → Call → Prop}
    (h : ∀ s c, permits s c → permits' s c) {d : Ref} {s : Store} (past : History permits d s) :
    History permits' d s := by
  obtain ⟨before, created, hcreate, hsteps⟩ := past
  exact ⟨before, created, hcreate, ReflTransGen.mono (fun _ _ => Step.mono h) _ _ hsteps⟩

theorem History.induct {permits : Store → Call → Prop} {d : Ref} {motive : Store → Prop}
    (created : ∀ before s, Diagram.create before = .ok d s → motive s)
    (step : ∀ s s', motive s → Step permits d s s' → motive s') {s : Store}
    (past : History permits d s) : motive s := by
  obtain ⟨before, fresh, hcreate, hsteps⟩ := past
  induction hsteps with
  | refl => exact created before fresh hcreate
  | tail _ hstep ih => exact step _ _ ih hstep

theorem History.tail {permits : Store → Call → Prop} {d : Ref} {s s' : Store}
    (past : History permits d s) (hstep : Step permits d s s') : History permits d s' := by
  obtain ⟨before, created, hcreate, hsteps⟩ := past
  exact ⟨before, created, hcreate, hsteps.tail hstep⟩

def loneNode : Store := (Call.addNode 5 .nothing .nothing).after 0 (Edit.after Diagram.create {})

theorem loneNode_history : History (wiringCalls 0) 0 loneNode := by
  refine ⟨{}, Edit.after Diagram.create {}, rfl,
    .single (.call (.addNode 5 .nothing .nothing) ⟨trivial, ?_⟩)⟩
  simp [Call.Own, Call.references, Reference.Own]

/-- A diagram with a node for the variable 5 whose `hi` branch leads to a node for the variable 6.
-/
def linkedPair : Store :=
  (Call.setEdge (.variable 5) (.variable 6) (.flag true)).after 0
    ((Call.addNode 6 .nothing .nothing).after 0 loneNode)

namespace Wired

variable {s s' : Store} {d : Ref} {g : Registry} {yes no : Ref}

theorem congr (h : Wired s d g yes no)
    (hsame : ∀ r, r = d ∨ g.Member yes no r → s'.body? r = s.body? r) : Wired s' d g yes no where
  diagram := by rw [hsame d (.inl rfl), h.diagram]
  yesBody := by rw [hsame yes (.inr (.inl rfl)), h.yesBody]
  noBody := by rw [hsame no (.inr (.inr (.inl rfl))), h.noBody]
  ascending := h.ascending
  node := by
    intro v r hv
    rw [hsame r (.inr (.inr (.inr (h.mem_nodes hv))))]
    exact h.node hv
  root := h.root

theorem same_of_elsewhere (h : Wired s d g yes no)
    (same : ∀ r, r = d ∨ s.Owns d r → s'.vertex? r = s.vertex? r) {r : Ref}
    (hr : r = d ∨ g.Member yes no r) : s'.vertex? r = s.vertex? r ∧ s'.body? r = s.body? r := by
  have hvertex := same r (hr.imp_right h.owns_iff.mpr)
  exact ⟨hvertex, by rw [Store.body?, hvertex, ← Store.body?]⟩

theorem created {before : Store} (h : Diagram.create before = .ok d s) :
    Wired s d {} (d + 1) (d + 2) := by
  obtain ⟨rfl, rfl⟩ := EStateM.Result.ok.inj h
  refine ⟨?_, ?_, ?_, .nil, ?_, ?_⟩
  · have hd : before.size ≠ before.size + 1 + 1 := by omega
    simp [Store.body?_push, Store.size_push, Vertex.body, hd]
  · simp [Store.body?_push, Store.size_push, Vertex.body]
  · simp [Store.body?_push, Store.size_push, Vertex.body]
  · intro v r hv
    simp [Registry.find?] at hv
  · intro r hr
    simp at hr

theorem body?_grown_new (h : Wired s d g yes no) {v : Int} {hi lo : Ref} :
    (s.grown d v hi lo).body? s.size = some (decisionBody v hi lo) := by
  have hd : d ≠ s.size := Nat.ne_of_lt (Store.lt_size_of_body h.diagram)
  unfold Store.grown
  rw [Store.body?_updateRegistry_ne _ hd, Store.body?_linkedInner, Store.body?_linkedInner,
    Store.body?_push, if_pos rfl]
  rfl

theorem body?_grown_old {v : Int} {hi lo q : Ref} (hq : q ≠ s.size) (hqd : q ≠ d) :
    (s.grown d v hi lo).body? q = s.body? q := by
  unfold Store.grown
  rw [Store.body?_updateRegistry_ne _ (Ne.symm hqd), Store.body?_linkedInner,
    Store.body?_linkedInner, Store.body?_push, if_neg hq]

theorem body?_grown_diagram (h : Wired s d g yes no) {v : Int} {hi lo : Ref} :
    (s.grown d v hi lo).body? d =
      some { kind := .diagram (g.insert v s.size), hi := some yes, lo := some no } := by
  have hd : d ≠ s.size := Nat.ne_of_lt (Store.lt_size_of_body h.diagram)
  unfold Store.grown
  apply Store.body?_updateRegistry_self
  rw [Store.body?_linkedInner, Store.body?_linkedInner, Store.body?_push, if_neg hd, h.diagram]

theorem member_ne_size (h : Wired s d g yes no) {r : Ref} (hr : g.Member yes no r) : r ≠ s.size :=
  Nat.ne_of_lt (h.member_lt_size hr)

theorem member_insert (h : Wired s d g yes no) {v : Int} {r q : Ref} (hnew : g.find? v = none) :
    (g.insert v r).Member yes no q ↔ q = r ∨ g.Member yes no q := by
  unfold Registry.Member
  rw [Registry.mem_nodes_insert h.ascending hnew]
  constructor
  · rintro (hq | hq | hq | hq)
    · exact .inr (.inl hq)
    · exact .inr (.inr (.inl hq))
    · exact .inl hq
    · exact .inr (.inr (.inr hq))
  · rintro (hq | hq | hq | hq)
    · exact .inr (.inr (.inl hq))
    · exact .inl hq
    · exact .inr (.inl hq)
    · exact .inr (.inr (.inr hq))

theorem grown (h : Wired s d g yes no) {v : Int} {hi lo : Ref} (hnew : g.find? v = none)
    (hopen : g.root = none) (hfree : isReserved v = false) (hhi : g.Member yes no hi)
    (hlo : g.Member yes no lo) (hne : hi ≠ lo) :
    Wired (s.grown d v hi lo) d (g.insert v s.size) yes no where
  diagram := h.body?_grown_diagram
  yesBody := by
    rw [body?_grown_old (h.member_ne_size (.inl rfl)) (h.member_ne_diagram (.inl rfl)), h.yesBody]
  noBody := by
    rw [body?_grown_old (h.member_ne_size (.inr (.inl rfl)))
      (h.member_ne_diagram (.inr (.inl rfl))), h.noBody]
  ascending := h.ascending.insert
  node := by
    intro w r hw
    have hwide : ∀ {q}, g.Member yes no q → (g.insert v s.size).Member yes no q :=
      fun hq => (h.member_insert hnew).mpr (.inr hq)
    rw [Registry.find?_insert] at hw
    split at hw
    · rename_i hwv
      subst hwv
      obtain rfl := Option.some.inj hw
      exact ⟨hfree, hi, lo, h.body?_grown_new, hne, hwide hhi, hwide hlo⟩
    · obtain ⟨hwfree, hi', lo', hbody, hne', hhi', hlo'⟩ := h.node hw
      have hr : g.Member yes no r := .inr (.inr (h.mem_nodes hw))
      refine ⟨hwfree, hi', lo', ?_, hne', hwide hhi', hwide hlo'⟩
      rw [body?_grown_old (h.member_ne_size hr) (h.member_ne_diagram hr), hbody]
  root := by
    intro r hr
    simp [Registry.insert, hopen] at hr

theorem nodes_inj (h : Wired s d g yes no) {v w : Int} {r : Ref} (hv : g.find? v = some r)
    (hw : g.find? w = some r) : v = w := by
  obtain ⟨-, _, _, hbody, -⟩ := h.node hv
  obtain ⟨-, _, _, hbody', -⟩ := h.node hw
  rw [hbody] at hbody'
  simp only [decisionBody, Option.some.injEq, Vertex.mk.injEq, Kind.decision.injEq] at hbody'
  exact hbody'.1

theorem redirected (h : Wired s d g yes no) {a b : Ref} {side : Bool} (ha : a ∈ g.nodes)
    (hb : g.Member yes no b) (hother : s.branch (!side) a ≠ some b) :
    Wired (s.redirected a side b) d g yes no := by
  have hkeep : ∀ {q}, q ≠ a → (s.redirected a side b).body? q = s.body? q := by
    intro q hq
    rw [Store.body?_redirected, if_neg (Ne.symm hq)]
  have hterm := h.isTerminal_of_mem_nodes ha
  refine ⟨?_, ?_, ?_, h.ascending, ?_, h.root⟩
  · rw [hkeep (h.member_ne_diagram (.inr (.inr ha))).symm, h.diagram]
  · rw [hkeep, h.yesBody]
    rintro rfl
    simp [h.isTerminal_yes] at hterm
  · rw [hkeep, h.noBody]
    rintro rfl
    simp [h.isTerminal_no] at hterm
  · intro v r hv
    obtain ⟨hfree, hi, lo, hbody, hne, hhi, hlo⟩ := h.node hv
    by_cases hra : r = a
    · subst hra
      rw [Store.branch_eq_body, hbody] at hother
      rw [Store.body?_redirected, if_pos rfl, hbody]
      cases side
      · exact ⟨hfree, hi, b, rfl, fun hib => hother (congrArg some hib), hhi, hb⟩
      · exact ⟨hfree, b, lo, rfl, fun hbl => hother (congrArg some hbl.symm), hb, hlo⟩
    · rw [hkeep hra]
      exact ⟨hfree, hi, lo, hbody, hne, hhi, hlo⟩

theorem setRoot (h : Wired s d g yes no) {r : Ref} (hr : r ∈ g.nodes) :
    Wired (s.updateRegistry d (·.setRoot r)) d (g.setRoot r) yes no := by
  have hkeep : ∀ {q}, g.Member yes no q → (s.updateRegistry d (·.setRoot r)).body? q = s.body? q :=
    fun hq => Store.body?_updateRegistry_ne _ (h.member_ne_diagram hq).symm
  refine ⟨Store.body?_updateRegistry_self _ h.diagram, ?_, ?_, h.ascending, ?_, ?_⟩
  · rw [hkeep (.inl rfl), h.yesBody]
  · rw [hkeep (.inr (.inl rfl)), h.noBody]
  · intro v q hv
    rw [hkeep (.inr (.inr (h.mem_nodes hv)))]
    exact h.node hv
  · rintro q hq
    obtain rfl := Option.some.inj hq
    exact hr

theorem successors_member (h : Wired s d g yes no) {a b : Ref} (ha : g.Member yes no a)
    (hab : s.Leads a b) : g.Member yes no b := by
  have hbranch : ∃ side, s.branch side a = some b := by
    unfold Store.Leads Store.successors at hab
    unfold Store.branch
    cases hx : s.vertex? a with
    | none => simp [hx] at hab
    | some x =>
      simp only [hx, Option.elim_some, Vertex.successors] at hab
      split at hab
      · simp at hab
      · rcases List.mem_append.mp hab with hhi | hlo
        · exact ⟨true, by simpa [Vertex.branch] using hhi⟩
        · exact ⟨false, by simpa [Vertex.branch] using hlo⟩
  obtain ⟨side, hside⟩ := hbranch
  exact h.member_of_branch ha hside

theorem reaches_member (h : Wired s d g yes no) {a b : Ref} (ha : g.Member yes no a)
    (hab : s.Reaches a b) : g.Member yes no b := by
  induction hab with
  | refl => exact ha
  | tail _ hstep ih => exact h.successors_member ih hstep

theorem grounded_congr (h : Wired s d g yes no) {a : Ref} (ha : g.Member yes no a)
    (hground : s.Grounded a) (hsame : ∀ r, g.Member yes no r → s'.body? r = s.body? r) :
    s'.Grounded a :=
  hground.congr fun _ hab => Store.successors_congr (hsame _ (h.reaches_member ha hab))

end Wired

/-- What becomes of the store and the registry when an own call is made on a diagram in order. -/
inductive Effect (s : Store) (d : Ref) (g : Registry) (yes no : Ref) : Call → Store →
  Registry → Prop
  | unchanged (c : Call) : Effect s d g yes no c s g
  | grown {v : Int} {hi lo : Reference} {hiRef loRef : Ref} (hnew : g.find? v = none)
      (hopen : g.root = none) (hfree : isReserved v = false) (hhi : g.Member yes no hiRef)
      (hlo : g.Member yes no loRef) (hne : hiRef ≠ loRef) :
      Effect s d g yes no (.addNode v hi lo) (s.grown d v hiRef loRef) (g.insert v s.size)
  | halted {source target : Reference} {selector : Selector} {a b : Ref} (hopen : g.root = none)
      (ha : a ∈ g.nodes) (hb : g.Member yes no b) (hother : s.branch (!selector.side) a ≠ some b)
      (hparent : s.hasParent a b = false)
        (hback : (s.redirected a selector.side b).hasBranch b a = true) :
      Effect s d g yes no (.setEdge source target selector)
        ((s.redirected a selector.side b).unheld d b) g
  | linked {source target : Reference} {selector : Selector} {a b : Ref} (hopen : g.root = none)
      (ha : a ∈ g.nodes) (hb : g.Member yes no b) (hother : s.branch (!selector.side) a ≠ some b)
      (hforth : (s.redirected a selector.side b).hasBranch b a ≠ true) :
      Effect s d g yes no (.setEdge source target selector)
        ((s.redirected a selector.side b).linked d a b selector.toLabel) g
  | dropped {source target : Reference} {a b : Ref} (hopen : g.root = none) :
      Effect s d g yes no (.removeEdge source target) (s.dropParent b a) g
  | rooted {r : Ref} (hfind : s.findRoot d g = .ok r) :
      Effect s d g yes no .validate (s.updateRegistry d (·.setRoot r)) (g.setRoot r)

theorem Wired.effect {s : Store} {d : Ref} {g : Registry} {yes no : Ref} (h : Wired s d g yes no)
    {c : Call} (hown : c.Own s d) : ∃ g', Effect s d g yes no c (c.after d s) g' := by
  cases c with
  | addNode v hi lo =>
    rcases h.addNode_cases (v := v) (hown hi (by simp [Call.references]))
      (hown lo (by simp [Call.references]))
      with ⟨r, -, hrun⟩ | ⟨e, hrun⟩ | ⟨hiRef, loRef, hnew, hopen, hfree, hhi, hlo, hne, hrun⟩
    · exact ⟨g, by rw [Call.after, after_of_ok hrun]; exact .unchanged _⟩
    · exact ⟨g, by rw [Call.after, after_of_error hrun]; exact .unchanged _⟩
    · exact ⟨_, by rw [Call.after, after_of_ok hrun]; exact .grown hnew hopen hfree hhi hlo hne⟩
  | setEdge source target selector =>
    rcases h.setEdge_cases selector (hown source (by simp [Call.references]))
      (hown target (by simp [Call.references]))
      with ⟨e, hrun⟩ | ⟨a, b, -, -, ha, hb, hopen, hother, hparent, hrun⟩
    · exact ⟨g, by rw [Call.after, after_of_error hrun]; exact .unchanged _⟩
    · refine ⟨g, ?_⟩
      dsimp only at hrun
      split at hrun
      · rw [Call.after, after_of_error hrun]
        exact .halted hopen ha hb hother hparent ‹_›
      · rw [Call.after, after_of_ok hrun]
        exact .linked hopen ha hb hother ‹_›
  | removeEdge source target =>
    rcases h.removeEdge_cases (hown source (by simp [Call.references]))
      (hown target (by simp [Call.references]))
      with ⟨e, hrun⟩ | ⟨a, b, -, -, -, -, hopen, hrun⟩
    · exact ⟨g, by rw [Call.after, after_of_error hrun]; exact .unchanged _⟩
    · exact ⟨g, by rw [Call.after, after_of_ok hrun]; exact .dropped hopen⟩
  | validate =>
    have hrun := h.validate_run
    cases hroot : g.root with
    | some root =>
      rw [hroot] at hrun
      exact ⟨g, by rw [Call.after, after_of_ok hrun]; exact .unchanged _⟩
    | none =>
      rw [hroot] at hrun
      cases hfind : s.findRoot d g with
      | error e =>
        rw [hfind] at hrun
        exact ⟨g, by rw [Call.after, after_of_error hrun]; exact .unchanged _⟩
      | ok root =>
        rw [hfind] at hrun
        exact ⟨_, by rw [Call.after, after_of_ok hrun]; exact .rooted hfind⟩

theorem grounded_of_findRoot {s : Store} {d r : Ref} {g : Registry} (h : s.findRoot d g = .ok r) :
    r ∈ g.nodes ∧ s.Grounded r := by
  unfold Store.findRoot at h
  split at h
  · rename_i root hone
    split at h
    · cases h
    · rename_i hnone
      obtain rfl := Except.ok.inj h
      have hmem : root ∈ s.rootCandidates d g := hone ▸ List.mem_singleton_self root
      exact ⟨List.mem_of_mem_filter hmem, Store.cycle_depthFirst_nil_eq_none_iff.mp hnone⟩
  · split at h <;> cases h
  · cases h

namespace Wired

variable {s s' : Store} {d : Ref} {g g' : Registry} {yes no : Ref}

theorem of_effect (h : Wired s d g yes no) {c : Call} (heffect : Effect s d g yes no c s' g') :
    Wired s' d g' yes no := by
  cases heffect with
  | unchanged => exact h
  | grown hnew hopen hfree hhi hlo hne => exact h.grown hnew hopen hfree hhi hlo hne
  | halted _ ha hb hother => exact (h.redirected ha hb hother).congr fun r _ => Store.body?_unheld
  | linked _ ha hb hother => exact (h.redirected ha hb hother).congr fun r _ => Store.body?_linked
  | dropped => exact h.congr fun r _ => Store.body?_dropParent
  | rooted hfind => exact h.setRoot (grounded_of_findRoot hfind).1

theorem exists_of_setEdge (h : Wired s d g yes no) {source target : Reference} {selector : Selector}
    {edge : Edge} (hsource : source.Own s d) (htarget : target.Own s d)
    (hrun : Diagram.setEdge d source target selector s = .ok edge s') :
    ∃ a b, s.require d source = .ok a ∧
      s.require d target = .ok b ∧ a ∈ g.nodes ∧ g.Member yes no b ∧
      s.branch (!selector.side) a ≠ some b ∧
      edge = ⟨a, b, selector.side⟩ ∧
      s' = (s.redirected a selector.side b).linked d a b selector.toLabel ∧
      Effect s d g yes no (.setEdge source target selector) s' g := by
  rcases h.setEdge_cases selector hsource htarget with
    ⟨e, hfail⟩ | ⟨a, b, ha, hb, hnode, hmember, hopen, hother, -, hset⟩
  · cases hfail.symm.trans hrun
  rw [hrun] at hset
  dsimp only at hset
  split at hset
  · cases hset
  · rename_i hforth
    obtain ⟨rfl, rfl⟩ := EStateM.Result.ok.inj hset
    exact ⟨a, b, ha, hb, hnode, hmember, hother, rfl, rfl,
      .linked hopen hnode hmember hother hforth⟩

theorem elsewhere (h : Wired s d g yes no)
    (same : ∀ r, r = d ∨ s.Owns d r → s'.vertex? r = s.vertex? r) : Wired s' d g yes no :=
  h.congr fun _ hr => (h.same_of_elsewhere same hr).2

end Wired

/-- The vertices of a diagram are in order, and there is solid ground below its root if it has one.
-/
structure Sound (s : Store) (d : Ref) (g : Registry) (yes no : Ref) : Prop where
  wired : Wired s d g yes no
  grounded : ∀ r, g.root = some r → s.Grounded r

namespace Sound

variable {s s' : Store} {d : Ref} {g : Registry} {yes no : Ref}

theorem of_open (h : Wired s d g yes no) (hopen : g.root = none) : Sound s d g yes no :=
  ⟨h, fun r hr => by simp [hopen] at hr⟩

theorem congr (h : Sound s d g yes no)
    (hsame : ∀ r, r = d ∨ g.Member yes no r → s'.body? r = s.body? r) : Sound s' d g yes no :=
  ⟨h.wired.congr hsame, fun r hr => h.wired.grounded_congr (.inr (.inr (h.wired.root hr)))
    (h.grounded r hr) fun q hq => hsame q (.inr hq)⟩

theorem of_effect (h : Sound s d g yes no) {c : Call} {g' : Registry}
    (heffect : Effect s d g yes no c s' g') : Sound s' d g' yes no := by
  have hw := h.wired
  have hnext := hw.of_effect heffect
  cases heffect with
  | unchanged => exact h
  | grown _ hopen => exact of_open hnext hopen
  | halted hopen => exact of_open hnext hopen
  | linked hopen => exact of_open hnext hopen
  | dropped hopen => exact of_open hnext hopen
  | rooted hfind =>
    obtain ⟨hmem, hground⟩ := grounded_of_findRoot hfind
    refine ⟨hnext, fun r hr => ?_⟩
    obtain rfl := Option.some.inj hr
    refine hw.grounded_congr (.inr (.inr hmem)) hground fun q hq => ?_
    exact Store.body?_updateRegistry_ne _ (hw.member_ne_diagram hq).symm

theorem after (h : Sound s d g yes no) {c : Call} (hown : c.Own s d) :
    ∃ g', Sound (c.after d s) d g' yes no := by
  obtain ⟨g', heffect⟩ := h.wired.effect hown
  exact ⟨g', h.of_effect heffect⟩

theorem step (h : Sound s d g yes no) (hstep : Step (ownCalls d) d s s') :
    ∃ g', Sound s' d g' yes no := by
  cases hstep with
  | call c hc => exact h.after hc
  | elsewhere same => exact ⟨g, h.congr fun r hr => (h.wired.same_of_elsewhere same hr).2⟩

theorem of_history (past : History (ownCalls d) d s) : ∃ g yes no, Sound s d g yes no := by
  refine History.induct (motive := fun t => ∃ g yes no, Sound t d g yes no)
    (fun before s hcreate => ?_) (fun s s' h hstep => ?_) past
  · exact ⟨{}, _, _, of_open (Wired.created hcreate) rfl⟩
  · obtain ⟨g, yes, no, hsound⟩ := h
    obtain ⟨g', hnext⟩ := hsound.step hstep
    exact ⟨g', yes, no, hnext⟩

end Sound

end DecisionDiagram
