import DecisionDiagram.Proofs.FaultWording
import DecisionDiagram.Proofs.PairedWalks
/-! Stores that hold one thing under different references. Vertices are paired off, one with one,
such that paired vertices are of one kind and have paired branches, paired parents in the same
order, and paired nodes in their tables. No question about paired vertices tells the two stores
apart. -/
namespace DecisionDiagram
open List Relator

variable {R : Pairing}

structure Registry.Alike (R : Pairing) (g g' : Registry) : Prop where
  table : Forall₂ (fun e e' => e.1 = e'.1 ∧ R e.2 e'.2) g.table g'.table
  root : Option.Rel R g.root g'.root

inductive Kind.Alike (R : Pairing) : Kind → Kind → Prop
  | plain : Alike R .plain .plain
  | node (v : Int) : Alike R (.node v) (.node v)
  | decision (v : Int) : Alike R (.decision v) (.decision v)
  | terminal (v : Int) (value : Bool) : Alike R (.terminal v value) (.terminal v value)
  | diagram {g g' : Registry} (h : Registry.Alike R g g') : Alike R (.diagram g) (.diagram g')

structure Vertex.Alike (R : Pairing) (x y : Vertex) : Prop where
  kind : Kind.Alike R x.kind y.kind
  hi : Option.Rel R x.hi y.hi
  lo : Option.Rel R x.lo y.lo
  parents : Forall₂ (fun e e' => R e.1 e'.1 ∧ e.2 = e'.2) x.parents y.parents

/-- The pairing is one to one, and pairs off vertices that are alike. -/
structure Store.Twin (s t : Store) (R : Pairing) : Prop where
  unique : BiUnique R
  alike : ∀ a b, R a b → ∃ x y, s.vertex? a = some x ∧ t.vertex? b = some y ∧ Vertex.Alike R x y

section Lists

variable {κ α β : Type} {a b : Ref} {l l' : List Ref}

theorem lookup_rel [DecidableEq κ] {S : α → β → Prop} {es : List (κ × α)} {es' : List (κ × β)}
    (h : Forall₂ (fun e e' => e.1 = e'.1 ∧ S e.2 e'.2) es es') (k : κ) :
    Option.Rel S (es.lookup k) (es'.lookup k) := by
  induction h with
  | nil => exact .none
  | cons he _ ih =>
    rw [lookup_cons_eq_ite, lookup_cons_eq_ite, he.1]
    split
    · exact .some he.2
    · exact ih

theorem lookup_parent_eq (hR : BiUnique R) {es es' : List (Ref × Label)}
    (h : Forall₂ (fun e e' => R e.1 e'.1 ∧ e.2 = e'.2) es es') (hab : R a b) :
    es.lookup a = es'.lookup b := by
  induction h with
  | nil => rfl
  | cons he _ ih =>
    simp only [lookup_cons_eq_ite, BiUnique.eq_iff hR hab he.1, he.2, ih]

theorem eq_some_iff_of_rel (hR : BiUnique R) {x y : Option Ref} (h : Option.Rel R x y)
    (hab : R a b) : x = some a ↔ y = some b := by
  cases h with
  | none => simp
  | some hce => simp [BiUnique.eq_iff hR hce hab]

end Lists

namespace Registry.Alike

variable {g g' : Registry} {r q : Ref}

theorem find?_rel (h : Registry.Alike R g g') (v : Int) : Option.Rel R (g.find? v) (g'.find? v) :=
  lookup_rel h.table v

theorem nodes_rel (h : Registry.Alike R g g') : Forall₂ R g.nodes g'.nodes :=
  rel_map (fun _ _ he => he.2) h.table

theorem size_eq (h : Registry.Alike R g g') : g.size = g'.size := h.table.length_eq

theorem ready_eq (h : Registry.Alike R g g') : g.ready = g'.ready := isSome_eq_of_rel h.root

theorem insertEntry_rel {es es' : List (Int × Ref)}
    (h : Forall₂ (fun e e' => e.1 = e'.1 ∧ R e.2 e'.2) es es') (v : Int) (hrq : R r q) :
    Forall₂ (fun e e' => e.1 = e'.1 ∧ R e.2 e'.2) (insertEntry v r es) (insertEntry v q es') := by
  induction h with
  | nil => exact .cons ⟨rfl, hrq⟩ .nil
  | cons he hes ih =>
    unfold insertEntry
    rw [he.1]
    split
    · exact .cons ⟨rfl, hrq⟩ (.cons he hes)
    · split
      · exact .cons ⟨rfl, hrq⟩ hes
      · exact .cons he ih

theorem insert (h : Registry.Alike R g g') (v : Int) (hrq : R r q) :
    Registry.Alike R (g.insert v r) (g'.insert v q) :=
  ⟨insertEntry_rel h.table v hrq, h.root⟩

theorem setRoot (h : Registry.Alike R g g') (hrq : R r q) :
    Registry.Alike R (g.setRoot r) (g'.setRoot q) :=
  ⟨h.table, .some hrq⟩

end Registry.Alike

namespace Kind.Alike

variable {k m : Kind}

theorem isTerminal_eq (h : Kind.Alike R k m) : k.isTerminal = m.isTerminal := by cases h <;> rfl

theorem var?_eq (h : Kind.Alike R k m) : k.var? = m.var? := by cases h <;> rfl

theorem terminalValue?_eq (h : Kind.Alike R k m) : k.terminalValue? = m.terminalValue? := by
  cases h <;> rfl

theorem registry?_rel (h : Kind.Alike R k m) :
    Option.Rel (Registry.Alike R) k.registry? m.registry? := by
  cases h with
  | diagram hg => exact .some hg
  | _ => exact .none

end Kind.Alike

namespace Vertex.Alike

variable {x y : Vertex} {a b : Ref}

theorem isTerminal_eq (h : Vertex.Alike R x y) : x.isTerminal = y.isTerminal := h.kind.isTerminal_eq

theorem branch_rel (h : Vertex.Alike R x y) (side : Bool) :
    Option.Rel R (x.branch side) (y.branch side) := by
  cases side with
  | true => exact h.hi
  | false => exact h.lo

theorem next_rel (h : Vertex.Alike R x y) (side : Bool) :
    Option.Rel R (x.next side) (y.next side) := by
  unfold next
  rw [h.isTerminal_eq]
  split
  · exact .none
  · exact h.branch_rel side

theorem toList_rel {e e' : Option Ref} (h : Option.Rel R e e') : Forall₂ R e.toList e'.toList := by
  cases h with
  | none => exact .nil
  | some hab => exact .cons hab .nil

theorem successors_rel (h : Vertex.Alike R x y) : Forall₂ R x.successors y.successors := by
  unfold successors
  rw [h.isTerminal_eq]
  split
  · exact .nil
  · exact rel_append (toList_rel h.hi) (toList_rel h.lo)

theorem hasBranch_eq (h : Vertex.Alike R x y) (hR : BiUnique R) (hab : R a b) :
    x.hasBranch a = y.hasBranch b := by
  rw [Bool.eq_iff_iff]
  simp only [hasBranch, Bool.or_eq_true, beq_iff_eq, eq_some_iff_of_rel hR h.hi hab,
    eq_some_iff_of_rel hR h.lo hab]

theorem label?_eq (h : Vertex.Alike R x y) (hR : BiUnique R) (hab : R a b) :
    x.label? a = y.label? b :=
  lookup_parent_eq hR h.parents hab

end Vertex.Alike

namespace Store.Twin

variable {s t : Store} {a b p q : Ref} {v : Int} {side : Bool}

theorem lt_size (h : s.Twin t R) (hab : R a b) : a < s.size ∧ b < t.size := by
  obtain ⟨x, y, hx, hy, -⟩ := h.alike a b hab
  exact ⟨lt_size_of_vertex? hx, lt_size_of_vertex? hy⟩

theorem isTerminal_eq (h : s.Twin t R) (hab : R a b) : s.isTerminal a = t.isTerminal b := by
  obtain ⟨x, y, hx, hy, hxy⟩ := h.alike a b hab
  rw [isTerminal, isTerminal, hx, hy]
  exact hxy.isTerminal_eq

theorem var?_eq (h : s.Twin t R) (hab : R a b) : s.var? a = t.var? b := by
  obtain ⟨x, y, hx, hy, hxy⟩ := h.alike a b hab
  rw [var?, var?, hx, hy]
  exact hxy.kind.var?_eq

theorem terminalValue?_eq (h : s.Twin t R) (hab : R a b) :
    s.terminalValue? a = t.terminalValue? b := by
  obtain ⟨x, y, hx, hy, hxy⟩ := h.alike a b hab
  rw [terminalValue?, terminalValue?, hx, hy]
  exact hxy.kind.terminalValue?_eq

theorem registry?_rel (h : s.Twin t R) (hab : R a b) :
    Option.Rel (Registry.Alike R) (s.registry? a) (t.registry? b) := by
  obtain ⟨x, y, hx, hy, hxy⟩ := h.alike a b hab
  unfold registry?
  rw [hx, hy]
  exact hxy.kind.registry?_rel

theorem branch_rel (h : s.Twin t R) (hab : R a b) (side : Bool) :
    Option.Rel R (s.branch side a) (t.branch side b) := by
  obtain ⟨x, y, hx, hy, hxy⟩ := h.alike a b hab
  rw [branch, branch, hx, hy]
  exact hxy.branch_rel side

theorem next_rel (h : s.Twin t R) (hab : R a b) (side : Bool) :
    Option.Rel R (s.next side a) (t.next side b) := by
  obtain ⟨x, y, hx, hy, hxy⟩ := h.alike a b hab
  rw [next, next, hx, hy]
  exact hxy.next_rel side

theorem abreast (h : s.Twin t R) : s.Abreast t R := by
  intro a b hab
  obtain ⟨x, y, hx, hy, hxy⟩ := h.alike a b hab
  rw [successors, successors, hx, hy]
  exact hxy.successors_rel

theorem parents_rel (h : s.Twin t R) (hab : R a b) : Forall₂ R (s.parents a) (t.parents b) := by
  obtain ⟨x, y, hx, hy, hxy⟩ := h.alike a b hab
  rw [parents, parents, hx, hy]
  exact rel_map (fun _ _ he => he.1) hxy.parents

theorem label?_eq (h : s.Twin t R) (hab : R a b) (hpq : R p q) : s.label? a p = t.label? b q := by
  obtain ⟨x, y, hx, hy, hxy⟩ := h.alike a b hab
  rw [label?, label?, hx, hy]
  exact hxy.label?_eq h.unique hpq

theorem hasParent_eq (h : s.Twin t R) (hab : R a b) (hpq : R p q) :
    s.hasParent a p = t.hasParent b q := by
  rw [hasParent, hasParent, h.label?_eq hab hpq]

theorem hasBranch_eq (h : s.Twin t R) (hab : R a b) (hpq : R p q) :
    s.hasBranch a p = t.hasBranch b q := by
  obtain ⟨x, y, hx, hy, hxy⟩ := h.alike a b hab
  rw [hasBranch, hasBranch, hx, hy]
  exact hxy.hasBranch_eq h.unique hpq

theorem bind_var?_eq (h : s.Twin t R) {e e' : Option Ref} (he : Option.Rel R e e') :
    e.bind s.var? = e'.bind t.var? := by
  cases he with
  | none => rfl
  | some hab => exact h.var?_eq hab

theorem showNode_eq (h : s.Twin t R) {x y : Vertex} (hxy : Vertex.Alike R x y) (name : String)
    (v : Int) : s.showNode name v x = t.showNode name v y := by
  simp only [showNode, showBranch, h.bind_var?_eq hxy.hi, h.bind_var?_eq hxy.lo]

theorem showRegistry_eq (h : s.Twin t R) {g g' : Registry} (hg : Registry.Alike R g g') :
    s.showRegistry g = t.showRegistry g' := by
  unfold showRegistry
  rw [h.bind_var?_eq hg.root, hg.size_eq, hg.ready_eq]

theorem show?_eq (h : s.Twin t R) (hab : R a b) : s.show? a = t.show? b := by
  obtain ⟨x, y, hx, hy, hxy⟩ := h.alike a b hab
  have hnode := h.showNode_eq hxy
  have hkind := hxy.kind
  simp only [show?, hx, hy]
  generalize x.kind = k, y.kind = k' at hkind
  cases hkind with
  | plain => rfl
  | node v | decision v => exact congrArg (Except.map some) (hnode _ v)
  | terminal v value => rfl
  | diagram hg => exact congrArg (Except.map some) (h.showRegistry_eq hg)

theorem showAll?_eq (h : s.Twin t R) {l l' : List Ref} (hl : Forall₂ R l l') :
    s.showAll? l = t.showAll? l' := by
  have hmap : l.mapM s.show? = l'.mapM t.show? := by
    induction hl with
    | nil => rfl
    | cons hab _ ih => rw [mapM_cons, mapM_cons, h.show?_eq hab, ih]
  rw [showAll?, hmap, ← showAll?]

end Store.Twin

def Fault.names : Fault → List Ref
  | equalBranches a | absentTarget a | secondBranch a | parentAsBranch a | branchAsParent a
  | terminalSource a | notValidated a | lostWalk _ a | missingBranch a | endlessPath a => [a]
  | unknownEdge a b | cyclicPath a b => [a, b]
  | rootCount as => as
  | _ => []

/-- Faults of one kind that name paired vertices. -/
inductive Fault.Alike (R : Pairing) : Fault → Fault → Prop
  | equalBranches {a b : Ref} (h : R a b) : Alike R (.equalBranches a) (.equalBranches b)
  | absentTarget {a b : Ref} (h : R a b) : Alike R (.absentTarget a) (.absentTarget b)
  | secondBranch {a b : Ref} (h : R a b) : Alike R (.secondBranch a) (.secondBranch b)
  | parentAsBranch {a b : Ref} (h : R a b) : Alike R (.parentAsBranch a) (.parentAsBranch b)
  | branchAsParent {a b : Ref} (h : R a b) : Alike R (.branchAsParent a) (.branchAsParent b)
  | terminalSource {a b : Ref} (h : R a b) : Alike R (.terminalSource a) (.terminalSource b)
  | unknownEdge {a b c e : Ref} (h : R a b) (h' : R c e) :
      Alike R (.unknownEdge a c) (.unknownEdge b e)
  | rootCount {l l' : List Ref} (h : Forall₂ R l l') : Alike R (.rootCount l) (.rootCount l')
  | cyclicPath {a b c e : Ref} (h : R a b) (h' : R c e) :
      Alike R (.cyclicPath a c) (.cyclicPath b e)
  | notValidated {a b : Ref} (h : R a b) : Alike R (.notValidated a) (.notValidated b)
  | lostWalk {a b : Ref} (side : Bool) (h : R a b) : Alike R (.lostWalk side a) (.lostWalk side b)
  | missingBranch {a b : Ref} (h : R a b) : Alike R (.missingBranch a) (.missingBranch b)
  | endlessPath {a b : Ref} (h : R a b) : Alike R (.endlessPath a) (.endlessPath b)
  | bare {e : Fault} (h : e.names = []) : Alike R e e

theorem Fault.wording_of_bare {e : Fault} (h : e.names = []) (s t : Store) :
    e.wording s = e.wording t := by
  cases e with
  | rootCount l =>
    obtain rfl : l = [] := h
    rfl
  | unknownNode key => cases key <;> rfl
  | _ => first | rfl | cases h

namespace Store.Twin

variable {s t : Store} {e f : Fault}

theorem wording_eq (h : s.Twin t R) (hef : Fault.Alike R e f) : e.wording s = f.wording t := by
  cases hef with
  | bare hbare => exact Fault.wording_of_bare hbare s t
  | unknownEdge hab hce | cyclicPath hab hce =>
    simp only [Fault.wording, h.show?_eq hab, h.show?_eq hce]
  | rootCount hl => simp only [Fault.wording, h.showAll?_eq hl, hl.length_eq]
  | endlessPath => rfl
  | lostWalk side hab => simp only [Fault.wording, h.show?_eq hab]
  | _ hab => simp only [Fault.wording, h.show?_eq hab]

theorem message?_eq (h : s.Twin t R) (hef : Fault.Alike R e f) : e.message? s = f.message? t := by
  unfold Fault.message?
  rw [h.wording_eq hef]

/-- Faults of one kind are raised alike: both as they are, or both for a number that is too long. -/
theorem raise_rel (h : s.Twin t R) (hef : Fault.Alike R e f) :
    Fault.Alike R (s.raise e) (t.raise f) := by
  have hwording := h.wording_eq hef
  have hshows := e.shows_wording s
  unfold raise
  rw [← hwording]
  generalize e.wording s = x at hshows
  cases hshows with
  | written => exact hef
  | long => exact .bare rfl

end Store.Twin

end DecisionDiagram
