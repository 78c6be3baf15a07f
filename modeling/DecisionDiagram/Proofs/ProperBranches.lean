import DecisionDiagram.Proofs.TableInvariant
/-! Rules that no sequence of operations breaks, whatever vertices are handed over and however many
of the operations fail: the two branches of a vertex differ, none of them is a parent of the vertex
as well, and a terminal has none. Each vertex keeps to these rules by itself. -/
namespace DecisionDiagram

namespace Vertex

/-- The branches differ, no parent is a branch, and a terminal has no branch. -/
structure Proper (x : Vertex) : Prop where
  differ : ∀ r, x.hi = some r → x.lo ≠ some r
  apart : ∀ p, x.hasParent p = true → x.hasBranch p = false
  bare : x.isTerminal = true → ∀ side, x.branch side = none

variable {x : Vertex} {kind : Kind} {parent hi lo : Option Ref} {r p target : Ref} {side : Bool}
variable {l : Label}

theorem hasBranch_eq_true : x.hasBranch r = true ↔ ∃ side, x.branch side = some r := by
  simp [hasBranch, branch, or_comm]

theorem hasBranch_eq_false : x.hasBranch r = false ↔ ∀ side, x.branch side ≠ some r := by
  simpa using (hasBranch_eq_true (x := x) (r := r)).not

namespace Proper

theorem of_le {y : Vertex} (h : x.Proper) (hterm : y.isTerminal = x.isTerminal)
    (hbranch : ∀ side, y.branch side = x.branch side)
    (hparent : ∀ p, y.hasParent p = true → x.hasParent p = true) : y.Proper where
  differ r hhi hlo := h.differ r ((hbranch true).symm.trans hhi) ((hbranch false).symm.trans hlo)
  apart p hp := by
    rw [hasBranch_eq_false]
    simpa only [hbranch] using hasBranch_eq_false.mp (h.apart p (hparent p hp))
  bare hy side := (hbranch side).trans (h.bare (hterm ▸ hy) side)

theorem dropParent (h : x.Proper) (p : Ref) : (x.dropParent p).Proper := by
  refine h.of_le rfl (fun _ => rfl) fun q hq => ?_
  rw [hasParent, label?_dropParent] at hq
  split at hq
  · cases hq
  · exact hq

theorem addParent (h : x.Proper) (l : Label) (hp : x.hasBranch p = false) :
    (x.addParent p l).Proper := by
  refine ⟨h.differ, fun q hq => ?_, h.bare⟩
  change x.hasBranch q = false
  rw [hasParent, label?_addParent] at hq
  split at hq
  · subst_vars
    exact hp
  · exact h.apart q hq

theorem setBranch (h : x.Proper) (hterm : x.isTerminal = false)
    (hother : x.branch (!side) ≠ some target) (hparent : x.hasParent target = false) :
    (x.setBranch side target).Proper := by
  have hkind : (x.setBranch side target).isTerminal = false := by cases side <;> exact hterm
  have hparents : ∀ p, (x.setBranch side target).hasParent p = x.hasParent
    p := by cases side <;> exact fun _ => rfl
  refine ⟨?_, fun p hp => ?_, fun hx => ?_⟩
  · cases side with
    | true =>
      rintro r ⟨⟩
      exact hother
    | false =>
      rintro r hhi ⟨⟩
      exact hother hhi
  · rw [hparents] at hp
    rw [hasBranch_eq_false]
    intro other hbranch
    rw [branch_setBranch] at hbranch
    split at hbranch
    · obtain rfl := Option.some.inj hbranch
      simp [hparent] at hp
    · exact hasBranch_eq_false.mp (h.apart p hp) other hbranch
  · simp [hkind] at hx

theorem create (h : Vertex.create kind parent hi lo = .ok x)
    (hbare : kind.isTerminal = true → hi = none ∧ lo = none) : x.Proper := by
  obtain ⟨hdiffer, hheld⟩ := held_of_create h
  have hnone : kind.isTerminal = true → ∀ side : Bool, (if side then hi else lo) = none := by
    rintro hterm (_ | _)
    · exact (hbare hterm).2
    · exact (hbare hterm).1
  unfold Vertex.create.held at hheld
  split at hheld
  · cases hheld
    exact ⟨hdiffer, fun _ hp => Bool.noConfusion hp, hnone⟩
  · split at hheld
    · cases hheld
    · rename_i q hq
      cases hheld
      refine ⟨hdiffer, fun p hp => ?_, hnone⟩
      obtain rfl : p = q := by simpa [hasParent, label?, lookup_cons_eq_ite] using hp
      simpa [hasBranch] using hq

end Proper

end Vertex

namespace Store

variable {s : Store} {r : Ref} {x : Vertex} {f : Vertex → Vertex}

/-- Every vertex keeps to the rules. -/
def Proper (s : Store) : Prop := ∀ r x, s.vertex? r = some x → x.Proper

theorem Proper.modify (h : s.Proper) (hf : ∀ x, s.vertex? r = some x → x.Proper → (f x).Proper) :
    (s.modify r f).Proper := by
  intro q y hy
  rw [vertex?_modify] at hy
  split at hy
  · subst_vars
    obtain ⟨x, hx, rfl⟩ := Option.map_eq_some_iff.mp hy
    exact hf x hx (h _ x hx)
  · exact h q y hy

theorem Proper.push (h : s.Proper) (hx : x.Proper) : (s.push x).Proper := by
  intro q y hy
  rw [vertex?_push] at hy
  split at hy
  · exact Option.some.inj hy ▸ hx
  · exact h q y hy

theorem Proper.updateRegistry (h : s.Proper) (g : Registry → Registry) :
    (s.updateRegistry r g).Proper := by
  refine h.modify fun x _ hx => ?_
  split
  · rename_i g hkind
    exact hx.of_le (by simp [Vertex.isTerminal, hkind, Kind.isTerminal]) (fun _ => rfl)
      fun _ hp => hp
  · exact hx

end Store

/-- Whatever it comes to, the edit leaves behind a store with the invariant if it finds one. -/
def Edit.Preserves {α : Type} (invariant : Store → Prop) (x : Edit α) : Prop :=
  ∀ s, invariant s → invariant (Edit.after x s)

section Preserves

variable {α β : Type} {invariant : Store → Prop} {x : Edit α} {f : α → Edit β}

theorem preserves_bind (hx : x.Preserves invariant) (hf : ∀ a, (f a).Preserves invariant) :
    Edit.Preserves invariant (x >>= f) := by
  intro s hs
  have hstep := hx s hs
  rw [after_bind]
  unfold Edit.after at hstep
  cases hrun : x s with
  | ok a s' =>
    rw [hrun] at hstep
    exact hf a s' hstep
  | error e s' =>
    rw [hrun] at hstep
    exact hstep

theorem preserves_pure (a : α) : Edit.Preserves invariant (pure a) := fun _ hs => hs

theorem preserves_throw (e : Fault) : Edit.Preserves invariant (throw e : Edit α) := fun _ hs => hs

theorem preserves_get : Edit.Preserves invariant get := fun _ hs => hs

theorem preserves_observe {question : Store → Except Fault α} :
    Edit.Preserves invariant (observe question) := by
  intro s hs
  unfold Edit.after observe
  split <;> rename_i hrun <;> split at hrun <;> cases hrun <;> exact hs

theorem preserves_modify {f : Store → Store} (hf : ∀ s, invariant s → invariant (f s)) :
    Edit.Preserves invariant (modify f) := hf

theorem preserves_ite {p : Prop} [Decidable p] {y : Edit α} (hx : x.Preserves invariant)
    (hy : y.Preserves invariant) : Edit.Preserves invariant (if p then x else y) := by
  split
  · exact hx
  · exact hy

theorem preserves_createVertex {kind : Kind} {parent hi lo : Option Ref}
    (hpush : ∀ {s x}, Vertex.create kind parent hi lo = .ok x → invariant s →
      invariant (s.push x)) :
    (createVertex kind parent hi lo).Preserves invariant := by
  intro s hs
  cases hcreate : Vertex.create kind parent hi lo with
  | error e => rwa [after_of_error (createVertex_of_error s hcreate)]
  | ok x =>
    rw [after_of_ok (createVertex_of_ok s hcreate)]
    exact hpush hcreate hs

theorem preserves_removeParent {child parent : Ref}
    (hdrop : ∀ {s}, invariant s → invariant (s.dropParent child parent)) :
    (removeParent child parent).Preserves invariant := preserves_modify fun _ hs => hdrop hs

theorem preserves_addParent {child parent : Ref} {l : Label}
    (hadd : ∀ {s}, s.hasBranch child parent = false → invariant s →
      invariant (s.addParent child parent l)) :
    (addParent child parent l).Preserves invariant := by
  intro s hs
  unfold addParent
  change invariant (Edit.after (if s.hasBranch child parent then _ else _) s)
  split
  · exact hs
  · rename_i hfree
    exact hadd (Bool.eq_false_iff.mpr hfree) hs

theorem preserves_wireBranch {source target : Ref} {side : Bool}
    (hset : ∀ {s}, s.isTerminal source = false → s.checkTarget source side target = .ok () →
      invariant s → invariant (s.setBranch source side target)) :
    (wireBranch source side target).Preserves invariant := by
  intro s hs
  cases hterm : s.isTerminal source with
  | true => rwa [after_of_error (Wired.wireBranch_terminal hterm)]
  | false =>
    have hrun : wireBranch source side target s = _ := Wired.wireBranch_run hterm
    cases hcheck : s.checkTarget source side target with
    | error e =>
      rw [hcheck] at hrun
      rwa [after_of_error hrun]
    | ok u =>
      rw [hcheck] at hrun
      rw [after_of_ok hrun]
      exact hset hterm hcheck hs

theorem preserves_readBranch {r : Ref} {selector : Selector}
    (hwarned : ∀ {s : Store}, invariant s → invariant { s with warned := true }) :
    (readBranch r selector).Preserves invariant := by
  intro s hs
  unfold Edit.after
  rw [readBranch_run]
  cases s.isTerminal r with
  | true => exact hwarned hs
  | false => exact hs

end Preserves

def Diagram.relink (d source target : Ref) (former : Option Ref) (side : Bool) (l : Label) :
    Edit Edge := do
  match former with
  | some f => if f ≠ target then removeParent f source
  | none => pure ()
  link d source target l
  return ⟨source, target, side⟩

section Links

variable {invariant : Store → Prop} {d source : Ref} {l : Label}

theorem preserves_requireMutable : (Diagram.requireMutable d).Preserves invariant :=
  preserves_bind preserves_observe fun _ => preserves_ite (preserves_throw _) (preserves_pure _)

variable (hdrop : ∀ {s child parent}, invariant s → invariant (s.dropParent child parent))
  (hadd : ∀ {s child parent l}, s.hasBranch child parent = false → invariant s →
    invariant (s.addParent child parent l))
include hdrop hadd

theorem preserves_link (target : Ref) : (Diagram.link d source target l).Preserves invariant :=
  preserves_bind preserves_get fun _ => preserves_ite
    (preserves_bind (preserves_removeParent hdrop) fun _ => preserves_addParent hadd)
      (preserves_addParent hadd)

theorem preserves_linkInner (target : Option Ref) :
    (Diagram.linkInner d source l target).Preserves invariant := by
  cases target with
  | none => exact preserves_pure _
  | some target =>
    exact preserves_bind preserves_get fun _ => preserves_ite (preserves_link hdrop hadd target)
      (preserves_pure _)

theorem preserves_relink {former : Option Ref} {a b : Ref} {side : Bool} :
    (Diagram.relink d a b former side l).Preserves invariant := by
  have hlink : Edit.Preserves invariant (do Diagram.link d a b l; return (⟨a, b, side⟩ : Edge)) :=
    preserves_bind (preserves_link hdrop hadd b) fun _ => preserves_pure _
  unfold Diagram.relink
  dsimp only
  split
  · exact preserves_ite (preserves_bind (preserves_removeParent hdrop) fun _ => hlink) hlink
  · exact hlink

end Links

/-- An invariant that every single change to the vertices preserves, of which the operations are
made up. A terminal is created without branches, and no node for a reserved variable is entered, nor
a vertex that does not decide it. -/
structure Steady (invariant : Store → Prop) : Prop where
  dropParent {s child parent} (hs : invariant s) : invariant (s.dropParent child parent)
  addParent {s child parent l} (hfree : s.hasBranch child parent = false) (hs : invariant s) :
    invariant (s.addParent child parent l)
  setBranch {s source side target} (hterm : s.isTerminal source = false)
    (hcheck : s.checkTarget source side target = .ok ()) (hs : invariant s) :
    invariant (s.setBranch source side target)
  push {s kind parent hi lo x} (hcreate : Vertex.create kind parent hi lo = .ok x)
    (hbare : kind.isTerminal = true → hi = none ∧ lo = none)
      (hempty : ∀ g, kind.registry? = some g → g = {})
    (hs : invariant s) : invariant (s.push x)
  insert {s d v r} (hfree : isReserved v = false) (hkind : s.kind? r = some (.decision v))
    (hs : invariant s) :
    invariant (s.updateRegistry d (·.insert v r))
  setRoot {s d r} (hs : invariant s) : invariant (s.updateRegistry d (·.setRoot r))

structure Lasting (invariant : Store → Prop) : Prop extends Steady invariant where
  warn {s} (hs : invariant s) : invariant { s with warned := true }

namespace Steady

variable {invariant : Store → Prop} (h : Steady invariant) {d source : Ref} {l : Label}
variable {selector : Selector} {v : Int}
include h

theorem setBranch_edit {target : Reference} :
    (DecisionDiagram.setBranch source selector target).Preserves invariant := by
  unfold DecisionDiagram.setBranch
  cases target with
  | nothing => exact preserves_bind preserves_get fun _ => preserves_throw _
  | «variable» v =>
    exact preserves_bind preserves_get fun _ => preserves_ite (preserves_throw _)
      (preserves_throw _)
  | vertex r => exact preserves_wireBranch h.setBranch

theorem createVertex {kind : Kind} {parent hi lo : Option Ref}
    (hbare : kind.isTerminal = true → hi = none ∧ lo = none) (hother : kind.registry? = none) :
    (createVertex kind parent hi lo).Preserves invariant :=
  preserves_createVertex fun hcreate hs =>
    h.push hcreate hbare (fun g hg => by simp [hother] at hg) hs

theorem create : Diagram.create.Preserves invariant := by
  intro s hs
  have hdiagram : Vertex.create (.diagram {}) none (some (s.size + 1)) (some (s.size + 2)) =
      .ok { kind := .diagram {}, hi := some (s.size + 1), lo := some (s.size + 2) } := by
    simp [Vertex.create, Vertex.create.held]
  have hterminal : ∀ v value, Vertex.create (.terminal v value) (some s.size) none none =
      .ok { kind := .terminal v value, parents := [(s.size, .unknown)] } := fun _ _ => rfl
  have hpush : ∀ {t : Store} v value, invariant t →
      invariant (t.push { kind := .terminal v value, parents := [(s.size, .unknown)] }) := by
    intro t v value
    exact h.push (hterminal v value) (fun _ => ⟨rfl, rfl⟩) fun g hg => by cases hg
  exact hpush _ _ (hpush _ _ (h.push hdiagram (fun hterm => by cases hterm)
    (fun g hg => (Option.some.inj hg).symm) hs))

theorem linkInner (target : Option Ref) :
    (Diagram.linkInner d source l target).Preserves invariant :=
  preserves_linkInner h.dropParent h.addParent target

theorem enter (hfree : isReserved v = false) {r : Ref} {hi lo : Option Ref} {s : Store}
    (hkind : s.kind? r = some (.decision v)) (hs : invariant s) : invariant (Edit.after (do
      Diagram.linkInner d r .hi hi
      Diagram.linkInner d r .lo lo
      modify (·.updateRegistry d (·.insert v r))
      return r) s) := by
  have hlink : ∀ l target, Edit.Preserves (fun s => s.kind? r = some (.decision v) ∧ invariant s)
      (Diagram.linkInner d r l target) := fun l target s hs =>
    ⟨(keeps_linkInner target s r _ hs.1).1, h.linkInner target s hs.2⟩
  have hhi := hlink .hi hi s ⟨hkind, hs⟩
  rw [after_bind]
  unfold Edit.after at hhi
  split <;> rename_i hrun <;> rw [hrun] at hhi
  · have hlo := hlink .lo lo _ hhi
    rw [after_bind]
    unfold Edit.after at hlo
    split <;> rename_i hrun <;> rw [hrun] at hlo
    · exact h.insert hfree hlo.1 hlo.2
    · exact hlo.2
  · exact hhi.2

theorem placeNode (hfree : isReserved v = false) {hi lo : Reference} :
    (Diagram.placeNode d v hi lo).Preserves invariant := by
  refine preserves_bind preserves_observe fun hi => preserves_bind preserves_observe fun lo =>
    fun s hs => ?_
  rw [after_bind]
  cases hcreate : Vertex.create (.decision v) (some d) hi lo with
  | error e => rwa [createVertex_of_error s hcreate]
  | ok x =>
    rw [createVertex_of_ok s hcreate]
    refine h.enter hfree ?_
      (h.push hcreate (fun hterm => by cases hterm) (fun g hg => by cases hg) hs)
    rw [Store.kind?, Store.vertex?_push, if_pos rfl, Option.map_some, (create_eq hcreate).1]

theorem addNode {hi lo : Reference} : (Diagram.addNode d v hi lo).Preserves invariant := by
  refine preserves_bind preserves_observe fun g => ?_
  split
  · exact preserves_pure _
  · refine preserves_bind preserves_requireMutable fun _ => ?_
    cases hfree : isReserved v with
    | true => exact fun _ hs => hs
    | false => exact h.placeNode hfree

theorem setEdge {source target : Reference} :
    (Diagram.setEdge d source target selector).Preserves invariant :=
  preserves_bind preserves_requireMutable fun _ => preserves_bind preserves_observe fun _ =>
    preserves_bind preserves_observe fun _ => preserves_bind preserves_get fun _ =>
      preserves_bind (preserves_wireBranch h.setBranch) fun _ =>
        preserves_relink h.dropParent h.addParent

theorem removeEdge {source target : Reference} :
    (Diagram.removeEdge d source target).Preserves invariant := by
  have hremove : ∀ a b, (removeParent a b).Preserves invariant :=
    fun _ _ => preserves_removeParent h.dropParent
  exact preserves_bind preserves_observe fun _ => preserves_bind preserves_observe fun _ =>
    preserves_bind preserves_observe fun _ => preserves_ite
      (preserves_bind preserves_requireMutable fun _ => hremove _ _) (hremove _ _)

theorem validate : (Diagram.validate d).Preserves invariant := by
  refine preserves_bind preserves_observe fun g => ?_
  split
  · exact preserves_pure _
  · exact preserves_bind preserves_observe fun _ =>
      preserves_bind (preserves_modify fun _ hs => h.setRoot hs) fun _ => preserves_pure _

end Steady

/-- An operation on single vertices or on a diagram, with whatever vertices it is handed. What
merely asks a question does not change the store, but for the warning that `readBranch` may give. -/
inductive Operation
  | position (parent hi lo : Option Ref)
  | node (v : Int) (parent hi lo : Option Ref)
  | decision (v : Int) (parent hi lo : Option Ref)
  | terminal (v : Int) (value : Bool) (parent : Option Ref)
  | diagram
  | setBranch (source : Ref) (selector : Selector) (target : Reference)
  | addParent (child parent : Ref) (l : Label)
  | removeParent (child parent : Ref)
  | readBranch (r : Ref) (selector : Selector)
  | call (d : Ref) (c : Call)

namespace Operation

def after (s : Store) : Operation → Store
  | position parent hi lo => Edit.after (createVertex .plain parent hi lo) s
  | node v parent hi lo => Edit.after (createVertex (.node v) parent hi lo) s
  | decision v parent hi lo => Edit.after (createVertex (.decision v) parent hi lo) s
  | terminal v value parent => Edit.after (createTerminal v value parent) s
  | diagram => Edit.after Diagram.create s
  | setBranch source selector target =>
    Edit.after (DecisionDiagram.setBranch source selector target) s
  | addParent child parent l => Edit.after (DecisionDiagram.addParent child parent l) s
  | removeParent child parent => Edit.after (DecisionDiagram.removeParent child parent) s
  | readBranch r selector => Edit.after (DecisionDiagram.readBranch r selector) s
  | call d c => c.after d s

end Operation

def Store.afterOperations (s : Store) (os : List Operation) : Store := os.foldl Operation.after s

theorem Steady.after {invariant : Store → Prop} {s : Store} (h : Steady invariant)
    (hs : invariant s) (o : Operation) (hother : ∀ r selector, o ≠ .readBranch r selector) :
    invariant (o.after s) := by
  cases o with
  | position => exact h.createVertex (fun hterm => by cases hterm) rfl s hs
  | node => exact h.createVertex (fun hterm => by cases hterm) rfl s hs
  | decision => exact h.createVertex (fun hterm => by cases hterm) rfl s hs
  | terminal => exact h.createVertex (fun _ => ⟨rfl, rfl⟩) rfl s hs
  | diagram => exact h.create s hs
  | setBranch => exact h.setBranch_edit s hs
  | addParent => exact preserves_addParent h.addParent s hs
  | removeParent => exact preserves_removeParent h.dropParent s hs
  | readBranch r selector => exact absurd rfl (hother r selector)
  | call d c =>
    cases c with
    | addNode => exact h.addNode s hs
    | setEdge => exact h.setEdge s hs
    | removeEdge => exact h.removeEdge s hs
    | validate => exact h.validate s hs

namespace Lasting

variable {invariant : Store → Prop} {s : Store}

theorem after (h : Lasting invariant) (hs : invariant s) (o : Operation) :
    invariant (o.after s) := by
  cases o with
  | readBranch => exact preserves_readBranch h.warn s hs
  | _ => exact h.toSteady.after hs _ fun _ _ ho => by cases ho

theorem afterOperations (h : Lasting invariant) (hs : invariant s) (os : List Operation) :
    invariant (s.afterOperations os) := by
  induction os generalizing s with
  | nil => exact hs
  | cons o os ih => exact ih (h.after hs o)

end Lasting

theorem Store.Proper.lasting : Lasting Store.Proper where
  dropParent hs := hs.modify fun _ _ hx => hx.dropParent _
  addParent hfree hs := hs.modify fun x hx hproper =>
    hproper.addParent _ (by simpa [Store.hasBranch, hx] using hfree)
  setBranch hterm hcheck hs := by
    obtain ⟨hother, hparent⟩ := Wired.checkTarget_eq_ok_iff.mp hcheck
    refine hs.modify fun x hx hproper => hproper.setBranch ?_ ?_ ?_
    · simpa [Store.isTerminal, hx] using hterm
    · simpa [Store.branch, hx] using hother
    · simpa [Store.hasParent, Store.label?, hx, Vertex.hasParent] using hparent
  push hcreate hbare _ hs := hs.push (.create hcreate hbare)
  warn hs := hs
  insert _ _ hs := hs.updateRegistry _
  setRoot hs := hs.updateRegistry _

theorem Store.Proper.afterOperations {s : Store} (h : s.Proper) (os : List Operation) :
    (s.afterOperations os).Proper := Store.Proper.lasting.afterOperations h os

/-- From the empty store, no operations lead to a vertex whose branches are one, that has a branch
as its parent, or that is a terminal with a branch. -/
theorem proper_branches (os : List Operation) (r q : Ref) :
    let s := Store.afterOperations {} os
    ¬ (s.branch true r = some q ∧ s.branch false r = some q) ∧
      ¬ (q ∈ s.parents r ∧ ∃ side, s.branch side r = some q) ∧
      ¬ (s.isTerminal r = true ∧ ∃ side, s.branch side r = some q) := by
  intro s
  have hproper : s.Proper := Store.Proper.afterOperations (s := {}) (fun r x hx => by cases hx) os
  cases hx : s.vertex? r with
  | none => simp [Store.branch, hx]
  | some x =>
    obtain ⟨hdiffer, hapart, hbare⟩ := hproper r x hx
    have hbranch : ∀ side, s.branch side r = x.branch side :=
      fun side => by rw [Store.branch, hx]; rfl
    simp only [hbranch]
    refine ⟨?_, ?_, ?_⟩
    · rintro ⟨hhi, hlo⟩
      exact hdiffer q hhi hlo
    · rintro ⟨hparent, side, hside⟩
      have hrecorded : x.hasParent q = true := by
        simpa [Store.hasParent, Store.label?, hx, Vertex.hasParent]
          using Store.mem_parents_iff.mp hparent
      exact Vertex.hasBranch_eq_false.mp (hapart q hrecorded) side hside
    · rintro ⟨hterm, side, hside⟩
      rw [hbare (by simpa [Store.isTerminal, hx] using hterm)] at hside
      cases hside

end DecisionDiagram
