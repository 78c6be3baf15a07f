import DecisionDiagram.Vertex
/-!
The store holds every vertex in order of creation, and the trails of walks that share what they have
visited. Reading outside the store finds nothing, so a walk that leaves it comes to a dead end.
-/
namespace DecisionDiagram

structure Store where
  vertices : Array Vertex := #[]
  trails : Array (List Ref) := #[]
  /-- A branch of a terminal has been asked for, which is worth one warning. -/
  warned : Bool := false
deriving DecidableEq, Repr

namespace Store

def size (s : Store) : Nat := s.vertices.size

def vertex? (s : Store) (r : Ref) : Option Vertex := s.vertices[r]?

def push (s : Store) (x : Vertex) : Store := { s with vertices := s.vertices.push x }

def modify (s : Store) (r : Ref) (f : Vertex → Vertex) : Store :=
  { s with vertices := s.vertices.modify r f }

def kind? (s : Store) (r : Ref) : Option Kind := (s.vertex? r).map Vertex.kind

def isTerminal (s : Store) (r : Ref) : Bool := (s.vertex? r).any (·.isTerminal)

def var? (s : Store) (r : Ref) : Option Int := (s.vertex? r).bind (·.kind.var?)

def registry? (s : Store) (r : Ref) : Option Registry := (s.vertex? r).bind (·.kind.registry?)

def terminalValue? (s : Store) (r : Ref) : Option Bool := (s.vertex? r).bind (·.kind.terminalValue?)

def branch (s : Store) (side : Bool) (r : Ref) : Option Ref := (s.vertex? r).bind (·.branch side)

def next (s : Store) (side : Bool) (r : Ref) : Option Ref := (s.vertex? r).bind (·.next side)

def successors (s : Store) (r : Ref) : List Ref := (s.vertex? r).elim [] (·.successors)

def hasBranch (s : Store) (r target : Ref) : Bool := (s.vertex? r).any (·.hasBranch target)

def label? (s : Store) (r parent : Ref) : Option Label := (s.vertex? r).bind (·.label? parent)

def hasParent (s : Store) (r parent : Ref) : Bool := (s.label? r parent).isSome

def parents (s : Store) (r : Ref) : List Ref := (s.vertex? r).elim [] (·.parents.map (·.1))

theorem vertex?_modify (s : Store) (r q : Ref) (f : Vertex → Vertex) :
    (s.modify r f).vertex? q = if r = q then (s.vertex? q).map f else s.vertex? q := by
  simp only [vertex?, modify, Array.getElem?_modify]

theorem vertex?_modify_self (s : Store) (r : Ref) (f : Vertex → Vertex) :
    (s.modify r f).vertex? r = (s.vertex? r).map f := by simp [vertex?_modify]

theorem vertex?_modify_ne (s : Store) {r q : Ref} (h : r ≠ q) (f : Vertex → Vertex) :
    (s.modify r f).vertex? q = s.vertex? q := by simp [vertex?_modify, h]

theorem vertex?_push (s : Store) (x : Vertex) (q : Ref) :
    (s.push x).vertex? q = if q = s.size then some x else s.vertex? q := Array.getElem?_push

theorem size_modify (s : Store) (r : Ref) (f : Vertex → Vertex) : (s.modify r f).size = s.size := by
  simp [size, modify]

theorem size_push (s : Store) (x : Vertex) : (s.push x).size = s.size + 1 := by
  simp [size, push]

theorem lt_size_of_vertex? {s : Store} {r : Ref} {x : Vertex} (h : s.vertex? r = some x) :
    r < s.size :=
  (Array.getElem?_eq_some_iff.mp h).1

theorem vertex?_of_next {s : Store} {side : Bool} {r n : Ref} (h : s.next side r = some n) :
    ∃ x, s.vertex? r = some x ∧ x.next side = some n := Option.bind_eq_some_iff.mp h

theorem lt_size_of_next {s : Store} {side : Bool} {r n : Ref} (h : s.next side r = some n) :
    r < s.size :=
  (vertex?_of_next h).elim fun _ hx => lt_size_of_vertex? hx.1

theorem lt_size_of_mem_successors {s : Store} {r n : Ref} (h : n ∈ s.successors r) :
    r < s.size := by
  unfold successors at h
  cases hx : s.vertex? r with
  | none => simp [hx] at h
  | some x => exact lt_size_of_vertex? hx

end Store

end DecisionDiagram
