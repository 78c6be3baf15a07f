import DecisionDiagram.Keyed
/-!
Vertices: everything that can take a position in a decision diagram. A vertex points down through a
`hi` and a `lo` branch and records its parents with the label of the branch that leads here.
-/
namespace DecisionDiagram

/-- A vertex is named by its place in the order of creation. -/
abbrev Ref := Nat

/-- Which branch of a parent leads to a vertex; a diagram holds its fresh nodes by `unknown`. -/
inductive Label
  | hi
  | lo
  | unknown
deriving DecidableEq, Repr

def Label.ofSide (side : Bool) : Label := if side then hi else lo

/-- How a caller picks a branch: by a truth value, or by a label. -/
inductive Selector
  | flag (b : Bool)
  | label (l : Label)
deriving DecidableEq, Repr

namespace Selector

/-- The branch that is read or written: every label, `lo` too, picks the `hi` branch. -/
def side : Selector → Bool
  | flag b => b
  | label _ => true

def toLabel : Selector → Label
  | flag b => .ofSide b
  | label l => l

end Selector

/-- What a diagram knows of itself: its decision nodes by variable, in ascending order, and its
root. It has a root from its validation on. -/
structure Registry where
  table : List (Int × Ref) := []
  root : Option Ref := none
deriving DecidableEq, Repr

def insertEntry (v : Int) (r : Ref) : List (Int × Ref) → List (Int × Ref)
  | [] => [(v, r)]
  | e :: es =>
    if v < e.1 then (v, r) :: e :: es
    else if v = e.1 then (v, r) :: es
    else e :: insertEntry v r es

theorem lookup_insertEntry (v w : Int) (r : Ref) (es : List (Int × Ref)) :
    (insertEntry v r es).lookup w = if w = v then some r else es.lookup w := by
  induction es with
  | nil => simp [insertEntry, lookup_cons_eq_ite]
  | cons e es ih =>
    unfold insertEntry
    split
    · rw [lookup_cons_eq_ite]
    · split <;> simp only [lookup_cons_eq_ite, ih]
      · subst_vars; split <;> rfl
      · split <;> split <;> simp_all

namespace Registry

def ready (g : Registry) : Bool := g.root.isSome

def find? (g : Registry) (v : Int) : Option Ref := g.table.lookup v

def insert (g : Registry) (v : Int) (r : Ref) : Registry :=
  { g with table := insertEntry v r g.table }

def setRoot (g : Registry) (r : Ref) : Registry := { g with root := some r }

theorem find?_insert (g : Registry) (v w : Int) (r : Ref) :
    (g.insert v r).find? w = if w = v then some r else g.find? w :=
  lookup_insertEntry ..

def nodes (g : Registry) : List Ref := g.table.map (·.2)

def size (g : Registry) : Nat := g.table.length

end Registry

/-- `plain` is a bare position, `node` tests a variable without deciding, `decision` continues
through the selected branch, `terminal` ends with a value, and `diagram` owns a registry. -/
inductive Kind
  | plain
  | node (v : Int)
  | decision (v : Int)
  | terminal (v : Int) (value : Bool)
  | diagram (registry : Registry)
deriving DecidableEq, Repr

/-- What equality of vertices sees of a kind: variables and registries do not count. -/
inductive Shape
  | plain
  | node
  | decision
  | terminal (value : Bool)
  | diagram
deriving DecidableEq, Repr

namespace Kind

def shape : Kind → Shape
  | plain => .plain
  | node _ => .node
  | decision _ => .decision
  | terminal _ value => .terminal value
  | diagram _ => .diagram

def var? : Kind → Option Int
  | node v => some v
  | decision v => some v
  | terminal v _ => some v
  | _ => none

def registry? : Kind → Option Registry
  | diagram g => some g
  | _ => none

def isTerminal : Kind → Bool
  | terminal .. => true
  | _ => false

def terminalValue? : Kind → Option Bool
  | terminal _ value => some value
  | _ => none

end Kind

structure Vertex where
  kind : Kind
  hi : Option Ref := none
  lo : Option Ref := none
  parents : List (Ref × Label) := []
deriving DecidableEq, Repr

namespace Vertex

def branch (x : Vertex) (side : Bool) : Option Ref := if side then x.hi else x.lo

def setBranch (x : Vertex) (side : Bool) (target : Ref) : Vertex :=
  if side then { x with hi := some target } else { x with lo := some target }

def isTerminal (x : Vertex) : Bool := x.kind.isTerminal

def successors (x : Vertex) : List Ref :=
  if x.isTerminal then [] else x.hi.toList ++ x.lo.toList

def next (x : Vertex) (side : Bool) : Option Ref :=
  if x.isTerminal then none else x.branch side

def hasBranch (x : Vertex) (r : Ref) : Bool := x.hi == some r || x.lo == some r

def label? (x : Vertex) (parent : Ref) : Option Label := x.parents.lookup parent

def hasParent (x : Vertex) (parent : Ref) : Bool := (x.label? parent).isSome

/-- Records a label for a parent: a parent that is known keeps its place, another comes last. -/
def addParent (x : Vertex) (parent : Ref) (l : Label) : Vertex :=
  { x with parents := upsert parent l x.parents }

def dropParent (x : Vertex) (parent : Ref) : Vertex :=
  { x with parents := x.parents.filter (·.1 ≠ parent) }

theorem label?_addParent (x : Vertex) (p q : Ref) (l : Label) :
    (x.addParent p l).label? q = if q = p then some l else x.label? q := lookup_upsert ..

theorem label?_dropParent (x : Vertex) (p q : Ref) :
    (x.dropParent p).label? q = if q = p then none else x.label? q := by
  simp only [label?, dropParent]
  induction x.parents with
  | nil => simp
  | cons e es ih =>
    by_cases he : e.1 = p
    · rw [List.filter_cons_of_neg (by simp [he]), ih, lookup_cons_eq_ite]
      split <;> simp_all
    · rw [List.filter_cons_of_pos (by simp [he]), lookup_cons_eq_ite, ih, lookup_cons_eq_ite]
      split <;> split <;> simp_all

theorem branch_setBranch (x : Vertex) (side : Bool) (target : Ref) (other : Bool) :
    (x.setBranch side target).branch other =
      if other = side then some target else x.branch other := by
  cases side <;> cases other <;> rfl

end Vertex

end DecisionDiagram
