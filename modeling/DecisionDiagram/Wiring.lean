import DecisionDiagram.Wording
/-!
Wiring of single vertices. An edit changes the store and may fail; what it changed before failing
stays. Setting a branch leaves the parents of its target alone: callers record them.
-/
namespace DecisionDiagram

abbrev Edit := EStateM Fault Store

/-- What a caller hands over for a vertex: nothing, a variable to look up, or a vertex itself. -/
inductive Reference
  | nothing
  | variable (v : Int)
  | vertex (r : Ref)
deriving DecidableEq, Repr

def observe {α : Type} (question : Store → Except Fault α) : Edit α := fun s =>
  match question s with
  | .ok a => .ok a s
  | .error fault => .error fault s

/-- A fresh vertex: its branches differ, and its parent is none of them. -/
def Vertex.create (kind : Kind) (parent hi lo : Option Ref) : Except Fault Vertex :=
  match hi with
  | some target => if lo = some target then .error (.equalBranches target) else held
  | none => held
where
  held : Except Fault Vertex :=
    match parent with
    | none => .ok { kind, hi, lo }
    | some p =>
      if hi = some p || lo = some p then .error (.branchAsParent p)
      else .ok { kind, hi, lo, parents := [(p, .unknown)] }

namespace Store

/-- A branch of a vertex may be set to `target` unless the other branch or a parent is `target`. -/
def checkTarget (s : Store) (source : Ref) (side : Bool) (target : Ref) : Except Fault Unit :=
  if s.branch (!side) source = some target then .error (s.raise (.secondBranch target))
  else if s.hasParent source target then .error (s.raise (.parentAsBranch target))
  else .ok ()

def setBranch (s : Store) (source : Ref) (side : Bool) (target : Ref) : Store :=
  s.modify source (·.setBranch side target)

def dropParent (s : Store) (child parent : Ref) : Store := s.modify child (·.dropParent parent)

def addParent (s : Store) (child parent : Ref) (l : Label) : Store :=
  s.modify child (·.addParent parent l)

/-- A decision is not a value yet, hence false; a node that does not decide has none. -/
def value (s : Store) (r : Ref) : Except Fault Bool :=
  match s.kind? r with
  | some (.terminal _ value) => .ok value
  | some (.decision _) => .ok false
  | some (.node _) => .error .noValue
  | _ => .error .notOffered

def warnings (s : Store) : List String :=
  if s.warned then ["A terminal node has no branches"] else []

def holds (s : Store) (r : Ref) (expected : Bool) : Except Fault Bool :=
  match s.terminalValue? r with
  | some value => .ok (value == expected)
  | none => .error .notOffered

end Store

def createVertex (kind : Kind) (parent hi lo : Option Ref) : Edit Ref := do
  let x ← observe fun s => (Vertex.create kind parent hi lo).mapError s.raise
  modifyGet fun s => (s.size, s.push x)

def createTerminal (v : Int) (value : Bool) (parent : Option Ref) : Edit Ref :=
  createVertex (.terminal v value) parent none none

/-- Reads a branch. A terminal has none, and asking it for one is worth a warning. -/
def readBranch (r : Ref) (selector : Selector) : Edit (Option Ref) := do
  let s ← get
  if s.isTerminal r then
    set { s with warned := true }
    return none
  return s.branch selector.side r

def wireBranch (source : Ref) (side : Bool) (target : Ref) : Edit Unit := do
  let s ← get
  if s.isTerminal source then throw (s.raise (.terminalSource source))
  observe (·.checkTarget source side target)
  modify (·.setBranch source side target)

def setBranch (source : Ref) (selector : Selector) (target : Reference) : Edit Unit := do
  match target with
  | .vertex r => wireBranch source selector.side r
  | .variable _ =>
    let s ← get
    if s.isTerminal source then throw (s.raise (.terminalSource source)) else throw .notOffered
  | .nothing =>
    let s ← get
    throw (s.raise (if s.isTerminal source then .terminalSource source else .absentTarget source))

def addParent (child parent : Ref) (l : Label) : Edit Unit := do
  let s ← get
  if s.hasBranch child parent then throw (s.raise (.branchAsParent parent))
  modify (·.addParent child parent l)

def removeParent (child parent : Ref) : Edit Unit := modify (·.dropParent child parent)

end DecisionDiagram
