import DecisionDiagram.Proofs.CallHistory
/-! What holds of a diagram whatever vertices are handed to it. Edits of vertices change parents and
the ends of branches, but neither what kind of vertex it is nor that there is a branch; so the table
of a diagram holds each node under its variable, with two branches. -/
namespace DecisionDiagram

namespace Store

variable {s s' s'' : Store} {r q d : Ref}

/-- Every vertex is still of its kind, and has a branch where it had one. -/
def Keeps (s s' : Store) : Prop :=
  ∀ r k, s.kind? r = some k → s'.kind? r = some k ∧ ∀ side, (s.branch side r).isSome →
    (s'.branch side r).isSome

theorem Keeps.refl (s : Store) : s.Keeps s := fun _ _ hk => ⟨hk, fun _ hside => hside⟩

theorem Keeps.trans (h : s.Keeps s') (h' : s'.Keeps s'') : s.Keeps s'' := by
  intro r k hk
  obtain ⟨hk', hside⟩ := h r k hk
  obtain ⟨hk'', hside'⟩ := h' r k hk'
  exact ⟨hk'', fun side hs => hside' side (hside side hs)⟩

theorem keeps_modify {f : Vertex → Vertex} (hkind : ∀ x, (f x).kind = x.kind)
    (hbranch : ∀ x side, (x.branch side).isSome → ((f x).branch side).isSome) :
    s.Keeps (s.modify r f) := by
  intro q k hk
  unfold kind? branch at *
  obtain ⟨x, hx, rfl⟩ := Option.map_eq_some_iff.mp hk
  rw [vertex?_modify, hx]
  split
  · exact ⟨congrArg some (hkind x), fun side hs => hbranch x side hs⟩
  · exact ⟨rfl, fun _ hs => hs⟩

theorem keeps_push (x : Vertex) : s.Keeps (s.push x) := by
  intro q k hk
  unfold kind? branch at *
  obtain ⟨y, hy, rfl⟩ := Option.map_eq_some_iff.mp hk
  rw [vertex?_push, if_neg (Nat.ne_of_lt (lt_size_of_vertex? hy)), hy]
  exact ⟨rfl, fun _ hs => hs⟩

end Store

def Edit.Keeps {α : Type} (x : Edit α) : Prop := ∀ s : Store, s.Keeps (Edit.after x s)

section Keeps

variable {α β : Type} {x : Edit α} {f : α → Edit β} {s : Store}

theorem after_bind : Edit.after (x >>= f) s =
    match x s with
    | .ok a s' => Edit.after (f a) s'
    | .error _ s' => s' := by
  change Edit.after (EStateM.bind x f) s = _
  unfold Edit.after EStateM.bind
  cases x s with
  | ok a s' => rfl
  | error e s' => rfl

theorem keeps_bind (hx : Edit.Keeps x) (hf : ∀ a, Edit.Keeps (f a)) : Edit.Keeps (x >>= f) := by
  intro s
  have hstep := hx s
  rw [after_bind]
  unfold Edit.after at hstep
  cases hrun : x s with
  | ok a s' =>
    rw [hrun] at hstep
    exact hstep.trans (hf a s')
  | error e s' =>
    rw [hrun] at hstep
    exact hstep

theorem keeps_pure (a : α) : Edit.Keeps (pure a) := fun s => .refl s

theorem keeps_throw (e : Fault) : Edit.Keeps (throw e : Edit α) := fun s => .refl s

theorem keeps_get : Edit.Keeps get := fun s => .refl s

theorem keeps_observe {question : Store → Except Fault α} : Edit.Keeps (observe question) := by
  intro s
  cases hq : question s with
  | ok a => rw [after_of_ok (observe_of_ok hq)]; exact .refl s
  | error e => rw [after_of_error (observe_of_error hq)]; exact .refl s

theorem keeps_ite {p : Prop} [Decidable p] {y : Edit α} (hx : Edit.Keeps x) (hy : Edit.Keeps y) :
    Edit.Keeps (if p then x else y) := by
  split
  · exact hx
  · exact hy

variable {d r source target : Ref} {side : Bool} {l : Label}

theorem keeps_removeParent : Edit.Keeps (removeParent r source) :=
  fun _ => Store.keeps_modify (fun _ => rfl) fun _ _ hs => hs

theorem keeps_addParent : Edit.Keeps (addParent r source l) := by
  have hadd : Edit.Keeps (modify (·.addParent r source l)) := fun s =>
    Store.keeps_modify (fun _ => rfl) fun _ _ hs => hs
  exact keeps_bind keeps_get fun _ => keeps_ite (keeps_bind (keeps_throw _) fun _ => hadd) hadd

theorem keeps_setBranch : Edit.Keeps (modify (·.setBranch source side target)) := by
  refine fun s => Store.keeps_modify (fun x => ?_) fun x other hs => ?_
  · cases side <;> rfl
  · rw [Vertex.branch_setBranch]
    split
    · rfl
    · exact hs

theorem keeps_wireBranch : Edit.Keeps (wireBranch source side target) := by
  have hset : Edit.Keeps
      (do observe (·.checkTarget source side target); modify (·.setBranch source side target)) :=
    keeps_bind keeps_observe fun _ => keeps_setBranch
  exact keeps_bind keeps_get fun _ => keeps_ite (keeps_bind (keeps_throw _) fun _ => hset) hset

theorem keeps_link : Edit.Keeps (Diagram.link d source target l) :=
  keeps_bind keeps_get fun _ => keeps_ite (keeps_bind keeps_removeParent fun _ => keeps_addParent)
    keeps_addParent

theorem keeps_linkInner (target : Option Ref) :
    Edit.Keeps (Diagram.linkInner d source l target) := by
  cases target with
  | none => exact keeps_pure _
  | some target => exact keeps_bind keeps_get fun _ => keeps_ite keeps_link (keeps_pure _)

theorem keeps_requireMutable : Edit.Keeps (Diagram.requireMutable d) :=
  keeps_bind keeps_observe fun _ => keeps_ite (keeps_throw _) (keeps_pure _)

theorem keeps_setEdge {source target : Reference} {selector : Selector} :
    Edit.Keeps (Diagram.setEdge d source target selector) := by
  refine keeps_bind keeps_requireMutable fun _ => keeps_bind keeps_observe fun a =>
      keeps_bind keeps_observe fun b =>
    keeps_bind keeps_get fun _ => keeps_bind keeps_wireBranch fun _ => ?_
  have hlink :
      Edit.Keeps (do Diagram.link d a b selector.toLabel; return (⟨a, b, selector.side⟩ : Edge)) :=
    keeps_bind keeps_link fun _ => keeps_pure _
  dsimp only
  split
  · exact keeps_ite (keeps_bind keeps_removeParent fun _ => hlink) hlink
  · exact hlink

theorem keeps_removeEdge {source target : Reference} :
    Edit.Keeps (Diagram.removeEdge d source target) :=
  keeps_bind keeps_observe fun _ => keeps_bind keeps_observe fun _ =>
      keeps_bind keeps_observe fun _ =>
    keeps_ite (keeps_bind keeps_requireMutable fun _ => keeps_removeParent) keeps_removeParent

theorem after_bind_keeps {motive : Store → Prop} (hx : Edit.Keeps x)
    (hstop : ∀ s' : Store, s.Keeps s' → motive s')
    (hgo : ∀ a (s' : Store), s.Keeps s' → motive (Edit.after (f a) s')) :
    motive (Edit.after (x >>= f) s) := by
  have hstep := hx s
  rw [after_bind]
  unfold Edit.after at hstep
  cases hrun : x s with
  | ok a s' =>
    rw [hrun] at hstep
    exact hgo a s' hstep
  | error e s' =>
    rw [hrun] at hstep
    exact hstop s' hstep

end Keeps

namespace Store

variable {s : Store} {d r q : Ref} {k : Kind} {g : Registry}

theorem kind?_updateRegistry_ne (f : Registry → Registry) (h : d ≠ r) :
    (s.updateRegistry d f).kind? r = s.kind? r := by
  rw [kind?, updateRegistry, vertex?_modify_ne s h, ← kind?]

theorem kind?_updateRegistry_self (f : Registry → Registry) (h : s.kind? d = some (.diagram g)) :
    (s.updateRegistry d f).kind? d = some (.diagram (f g)) := by
  obtain ⟨x, hx, hkind⟩ := Option.map_eq_some_iff.mp h
  rw [kind?, updateRegistry, vertex?_modify_self, hx]
  simp [hkind]

theorem branch_updateRegistry (f : Registry → Registry) (side : Bool) :
    (s.updateRegistry d f).branch side r = s.branch side r := by
  unfold branch updateRegistry
  rw [vertex?_modify]
  split
  · cases s.vertex? r with
    | none => rfl
    | some x =>
      obtain ⟨kind, hi, lo, parents⟩ := x
      cases kind <;> rfl
  · rfl

end Store

/-- The table of a diagram holds each node under its variable, with two branches, and the diagram
has two branches itself. -/
structure Tabled (s : Store) (d : Ref) (g : Registry) : Prop where
  diagram : s.kind? d = some (.diagram g)
  sides : ∀ side, (s.branch side d).isSome
  ascending : g.Ascending
  node : ∀ v r, g.find? v = some r →
    isReserved v = false ∧ s.kind? r = some (.decision v) ∧ ∀ side, (s.branch side r).isSome

namespace Tabled

variable {s s' : Store} {d r : Ref} {g : Registry} {v : Int}

theorem keeps (h : Tabled s d g) (hkeeps : s.Keeps s') : Tabled s' d g where
  diagram := (hkeeps d _ h.diagram).1
  sides side := (hkeeps d _ h.diagram).2 side (h.sides side)
  ascending := h.ascending
  node := by
    intro v r hv
    obtain ⟨hfree, hkind, hsides⟩ := h.node v r hv
    obtain ⟨hkind', hsides'⟩ := hkeeps r _ hkind
    exact ⟨hfree, hkind', fun side => hsides' side (hsides side)⟩

theorem registry? (h : Tabled s d g) : s.registry? d = some g := by
  rw [Store.registry?_eq_kind, h.diagram]
  rfl

theorem registry (h : Tabled s d g) : s.registry d = .ok g := by rw [Store.registry, h.registry?]

theorem validatedRoot (h : Tabled s d g) (hroot : g.root = some r) : s.validatedRoot d = .ok r := by
  unfold Store.validatedRoot
  rw [h.registry, ok_bind, hroot]
  rfl

theorem isTerminal_of_find? (h : Tabled s d g) (hv : g.find? v = some r) :
    s.isTerminal r = false := by
  rw [Store.isTerminal_eq_kind, (h.node v r hv).2.1]
  rfl

theorem created {before : Store} (h : Diagram.create before = .ok d s) : Tabled s d {} := by
  obtain ⟨rfl, rfl⟩ := EStateM.Result.ok.inj h
  have hd : before.size ≠ before.size + 1 + 1 := by omega
  refine ⟨?_, ?_, .nil, fun v r hv => by simp [Registry.find?] at hv⟩
  · simp [Store.kind?, Store.vertex?_push, Store.size_push, hd]
  · intro side
    simp only [Store.branch, Store.vertex?_push, Store.size_push, if_neg hd]
    cases side <;> simp [Vertex.branch]

theorem kind?_update (h : Tabled s d g) (f : Registry → Registry)
    (hkind : s.kind? r = some (.decision v)) :
    (s.updateRegistry d f).kind? r = some (.decision v) := by
  have hdr : d ≠ r := by
    rintro rfl
    cases h.diagram.symm.trans hkind
  rwa [Store.kind?_updateRegistry_ne f hdr]

theorem insert (h : Tabled s d g) (hfree : isReserved v = false)
    (hkind : s.kind? r = some (.decision v)) (hsides : ∀ side, (s.branch side r).isSome) :
    Tabled (s.updateRegistry d (·.insert v r)) d (g.insert v r) where
  diagram := Store.kind?_updateRegistry_self _ h.diagram
  sides side := by rw [Store.branch_updateRegistry]; exact h.sides side
  ascending := h.ascending.insert
  node := by
    intro w q hw
    rw [Registry.find?_insert] at hw
    simp only [Store.branch_updateRegistry]
    split at hw
    · subst_vars
      obtain rfl := Option.some.inj hw
      exact ⟨hfree, h.kind?_update _ hkind, hsides⟩
    · obtain ⟨hwfree, hq, hqsides⟩ := h.node w q hw
      exact ⟨hwfree, h.kind?_update _ hq, hqsides⟩

theorem setRoot (h : Tabled s d g) (r : Ref) :
    Tabled (s.updateRegistry d (·.setRoot r)) d (g.setRoot r) where
  diagram := Store.kind?_updateRegistry_self _ h.diagram
  sides side := by rw [Store.branch_updateRegistry]; exact h.sides side
  ascending := h.ascending
  node := by
    intro w q hw
    obtain ⟨hfree, hkind, hsides⟩ := h.node w q hw
    simp only [Store.branch_updateRegistry]
    exact ⟨hfree, h.kind?_update _ hkind, hsides⟩

theorem isSome_of_branchTarget (h : Tabled s d g) {side : Bool} {ref : Reference}
    {target : Option Ref} (htarget : s.branchTarget d side ref = .ok target) : target.isSome := by
  cases ref with
  | nothing =>
    obtain rfl := Except.ok.inj htarget
    exact h.sides side
  | _ =>
    unfold Store.branchTarget at htarget
    obtain ⟨r, -, rfl⟩ := map_eq_ok_iff.mp htarget
    rfl

end Tabled

theorem held_of_create {kind : Kind} {parent hi lo : Option Ref} {x : Vertex}
    (h : Vertex.create kind parent hi lo = .ok x) :
    (∀ r, hi = some r → lo ≠ some r) ∧ Vertex.create.held kind parent hi lo = .ok x := by
  unfold Vertex.create at h
  split at h
  · split at h
    · cases h
    · rename_i target hne
      refine ⟨?_, h⟩
      rintro r ⟨⟩
      exact hne
  · exact ⟨by simp, h⟩

theorem create_eq {kind : Kind} {parent hi lo : Option Ref} {x : Vertex}
    (h : Vertex.create kind parent hi lo = .ok x) : x.kind = kind ∧ x.hi = hi ∧ x.lo = lo := by
  obtain ⟨-, hheld⟩ := held_of_create h
  unfold Vertex.create.held at hheld
  split at hheld
  · cases hheld
    exact ⟨rfl, rfl, rfl⟩
  · split at hheld
    · cases hheld
    · cases hheld
      exact ⟨rfl, rfl, rfl⟩

namespace Tabled

variable {s s' : Store} {d r : Ref} {g : Registry} {v : Int}

theorem enter (h : Tabled s d g) (hfree : isReserved v = false) {hi lo : Option Ref}
    (hkind : s.kind? r = some (.decision v)) (hsides : ∀ side, (s.branch side r).isSome) :
    ∃ g', Tabled (Edit.after (do
      Diagram.linkInner d r .hi hi
      Diagram.linkInner d r .lo lo
      modify (·.updateRegistry d (·.insert v r))
      return r) s) d g' ∧ g'.root = g.root := by
  refine after_bind_keeps (motive := fun s' => ∃ g', Tabled s' d g' ∧ g'.root = g.root)
    (keeps_linkInner hi)
    (fun s' hkeeps => ⟨g, h.keeps hkeeps, rfl⟩) fun _ s' hkeeps => ?_
  refine after_bind_keeps (motive := fun s' => ∃ g', Tabled s' d g' ∧ g'.root = g.root)
    (keeps_linkInner lo)
    (fun s'' hkeeps' => ⟨g, h.keeps (hkeeps.trans hkeeps'), rfl⟩) fun _ s'' hkeeps' => ?_
  obtain ⟨hkind', hsides'⟩ := hkeeps.trans hkeeps' r _ hkind
  exact ⟨_, (h.keeps (hkeeps.trans hkeeps')).insert hfree hkind' fun side =>
    hsides' side (hsides side), rfl⟩

theorem placeNode (h : Tabled s d g) (hfree : isReserved v = false) (hi lo : Reference) :
    ∃ g', Tabled (Edit.after (Diagram.placeNode d v hi lo) s) d g' ∧ g'.root = g.root := by
  have hstay : ∃ g', Tabled s d g' ∧ g'.root = g.root := ⟨g, h, rfl⟩
  unfold Diagram.placeNode
  rw [after_bind]
  cases hhi : s.branchTarget d true hi with
  | error e => rwa [observe_of_error hhi]
  | ok hiRef =>
    rw [observe_of_ok hhi]
    dsimp only
    rw [after_bind]
    cases hlo : s.branchTarget d false lo with
    | error e => rwa [observe_of_error hlo]
    | ok loRef =>
      rw [observe_of_ok hlo]
      dsimp only
      rw [after_bind]
      cases hcreate : Vertex.create (.decision v) (some d) hiRef loRef with
      | error e => rwa [createVertex_of_error s hcreate]
      | ok x =>
        obtain ⟨hkind, hxhi, hxlo⟩ := create_eq hcreate
        rw [createVertex_of_ok s hcreate]
        refine (h.keeps (Store.keeps_push x)).enter hfree ?_ fun side => ?_
        · rw [Store.kind?, Store.vertex?_push, if_pos rfl, Option.map_some, hkind]
        · rw [Store.branch, Store.vertex?_push, if_pos rfl, Option.bind_some]
          cases side with
          | true => exact (congrArg Option.isSome hxhi).trans (h.isSome_of_branchTarget hhi)
          | false => exact (congrArg Option.isSome hxlo).trans (h.isSome_of_branchTarget hlo)

theorem addNode (h : Tabled s d g) (v : Int) (hi lo : Reference) :
    ∃ g', Tabled (Edit.after (Diagram.addNode d v hi lo) s) d g' ∧ g'.root = g.root := by
  have hstay : ∃ g', Tabled s d g' ∧ g'.root = g.root := ⟨g, h, rfl⟩
  have hregistry : observe (·.registry d) s = .ok g s := observe_of_ok h.registry
  unfold Diagram.addNode
  rw [after_bind, hregistry]
  dsimp only
  cases g.find? v with
  | some r => exact hstay
  | none =>
    have hmutable : Diagram.requireMutable d s =
        if g.ready then .error .alreadyValidated s else .ok () s := by
      rw [Diagram.requireMutable, bind_of_ok hregistry]
      split <;> rfl
    dsimp only
    rw [after_bind, hmutable]
    cases g.ready with
    | true => exact hstay
    | false =>
      simp only [Bool.false_eq_true, ↓reduceIte]
      cases hfree : isReserved v with
      | true => exact hstay
      | false => exact h.placeNode hfree hi lo

theorem congr (h : Tabled s d g) (hsame : ∀ r, r = d ∨ s.Owns d r → s'.vertex? r = s.vertex? r) :
    Tabled s' d g := by
  have hkind : ∀ {r}, r = d ∨ s.Owns d r → s'.kind? r = s.kind? r := fun hr => by
    rw [Store.kind?, hsame _ hr, ← Store.kind?]
  have hbranch : ∀ {r side}, r = d ∨ s.Owns d r → s'.branch side r = s.branch side r := fun hr => by
    rw [Store.branch, hsame _ hr, ← Store.branch]
  refine ⟨by rw [hkind (.inl rfl), h.diagram],
    fun side => by rw [hbranch (.inl rfl)]; exact h.sides side, h.ascending,
    fun v r hv => ?_⟩
  have hown : s.Owns d r :=
    .inr (.inr ⟨g, h.registry?, (Registry.mem_nodes_iff h.ascending).mpr ⟨v, hv⟩⟩)
  rw [hkind (.inr hown)]
  simp only [hbranch (.inr hown)]
  exact h.node v r hv

end Tabled

def Call.Edits : Call → Prop
  | addNode .. | setEdge .. | removeEdge .. => True
  | validate => False

def anyEdit (_ : Store) (c : Call) : Prop := c.Edits

def ownEdit (d : Ref) (s : Store) (c : Call) : Prop := c.Edits ∧ c.Own s d

/-- Whatever is handed over, the table of a diagram stays in order until the diagram is validated.
-/
theorem Tabled.of_history {s : Store} {d : Ref} (past : History anyEdit d s) :
    ∃ g, Tabled s d g ∧ g.root = none := by
  refine History.induct (motive := fun t => ∃ g, Tabled t d g ∧ g.root = none)
    (fun before s hcreate => ⟨{}, Tabled.created hcreate, rfl⟩) (fun s s' h hstep => ?_) past
  obtain ⟨g, h, hopen⟩ := h
  cases hstep with
  | elsewhere same => exact ⟨g, h.congr same, hopen⟩
  | call c hc =>
    cases c with
    | addNode v hi lo =>
      obtain ⟨g', h', hroot⟩ := h.addNode v hi lo
      exact ⟨g', h', hroot.trans hopen⟩
    | setEdge source target selector => exact ⟨g, h.keeps (keeps_setEdge s), hopen⟩
    | removeEdge source target => exact ⟨g, h.keeps (keeps_removeEdge s), hopen⟩
    | validate => exact hc.elim

namespace Tabled

variable {s s' : Store} {d r : Ref} {g : Registry} {v : Int}

theorem body_of_find? (h : Tabled s d g) (hv : g.find? v = some r) :
    isReserved v = false ∧ ∃ hi lo, s.body? r = some (decisionBody v hi lo) := by
  obtain ⟨hfree, hkind, hsides⟩ := h.node v r hv
  obtain ⟨hi, hhi⟩ := Option.isSome_iff_exists.mp (hsides true)
  obtain ⟨lo, hlo⟩ := Option.isSome_iff_exists.mp (hsides false)
  obtain ⟨⟨kind, xhi, xlo, parents⟩, hx, rfl⟩ := Option.map_eq_some_iff.mp hkind
  simp only [Store.branch, hx, Option.bind_some, Vertex.branch, Bool.false_eq_true,
    ↓reduceIte] at hhi hlo
  exact ⟨hfree, hi, lo, by simp [Store.body?, hx, Vertex.body, decisionBody, hhi, hlo]⟩

theorem validate_eq_ok (h : Tabled s d g) (hopen : g.root = none)
    (hrun : Diagram.validate d s = .ok r s') :
    s.findRoot d g = .ok r ∧ s' = s.updateRegistry d (·.setRoot r) := by
  have hregistry : observe (·.registry d) s = .ok g s := observe_of_ok h.registry
  unfold Diagram.validate at hrun
  rw [bind_of_ok hregistry, hopen] at hrun
  obtain ⟨root, s₁, hfind, hset⟩ := bind_eq_ok_iff.mp hrun
  obtain ⟨hfind, rfl⟩ := observe_eq_ok_iff.mp hfind
  obtain ⟨rfl, rfl⟩ := EStateM.Result.ok.inj hset
  exact ⟨hfind, rfl⟩

end Tabled

end DecisionDiagram
