import DecisionDiagram.Wiring
/-!
Decision diagrams. A diagram owns two terminals, its own branches, and one decision node for each
variable. A fresh node has the diagram as its parent until an edge from another vertex takes its
place. Once validated, a diagram takes no more nodes and edges.
-/
namespace DecisionDiagram

/-- The variable under which a diagram finds its `hi` branch, the true terminal. -/
def trueVariable : Int := -1

/-- The variable under which a diagram finds its `lo` branch, the false terminal. -/
def falseVariable : Int := -2

def isReserved (v : Int) : Bool := v == trueVariable || v == falseVariable

structure Edge where
  source : Ref
  target : Ref
  side : Bool
deriving DecidableEq, Repr

namespace Store

def registry (s : Store) (d : Ref) : Except Fault Registry :=
  match s.registry? d with
  | some g => .ok g
  | none => .error .notOffered

/-- The vertex of a variable: a terminal for a reserved one, else the node in the table. -/
def vertexOf? (s : Store) (d : Ref) (v : Int) : Option Ref :=
  if v = trueVariable then s.branch true d
  else if v = falseVariable then s.branch false d
  else (s.registry? d).bind (·.find? v)

def find (s : Store) (d : Ref) (v : Int) : Except Fault (Option Ref) :=
  (s.registry d).map fun _ => s.vertexOf? d v

/-- The vertex that a reference names; a vertex names itself, whatever diagram it belongs to. -/
def require (s : Store) (d : Ref) : Reference → Except Fault Ref
  | .vertex r => .ok r
  | .variable v =>
    match s.vertexOf? d v with
    | some r => .ok r
    | none => .error (s.raise (.unknownNode (some v)))
  | .nothing => .error (.unknownNode none)

/-- The node that the table holds for the variable of `r`, if it holds one. -/
def listed (s : Store) (d : Ref) (r : Ref) : Ref :=
  match s.var? r with
  | some v => ((s.registry? d).bind (·.find? v)).getD r
  | none => r

def requireListed (s : Store) (d : Ref) (reference : Reference) : Except Fault Ref :=
  (s.require d reference).map (s.listed d)

def branchTarget (s : Store) (d : Ref) (side : Bool) : Reference → Except Fault (Option Ref)
  | .nothing => .ok (s.branch side d)
  | reference => (s.requireListed d reference).map some

def updateRegistry (s : Store) (d : Ref) (f : Registry → Registry) : Store :=
  s.modify d fun x =>
    match x.kind with
    | .diagram g => { x with kind := .diagram (f g) }
    | _ => x

def nodes (s : Store) (d : Ref) : Except Fault (List Ref) := (s.registry d).map Registry.nodes

end Store

namespace Diagram

def create : Edit Ref := modifyGet fun s =>
  let d := s.size
  (d, ((s.push { kind := .diagram {}, hi := some (d + 1), lo := some (d + 2) }).push
    { kind := .terminal trueVariable true, parents := [(d, .unknown)] }).push
    { kind := .terminal falseVariable false, parents := [(d, .unknown)] })

def requireMutable (d : Ref) : Edit Unit := do
  if (← observe (·.registry d)).ready then throw .alreadyValidated

/-- Records `source` as a parent of `target`, in the place of the diagram if that is a parent. -/
def link (d source target : Ref) (l : Label) : Edit Unit := do
  if (← get).hasParent target d then removeParent target d
  addParent target source l

/-- Terminals below a new node do not record it as a parent. -/
def linkInner (d source : Ref) (l : Label) : Option Ref → Edit Unit
  | some target => do if !(← get).isTerminal target then link d source target l
  | none => pure ()

/-- The node of a variable, which is added on first use; the branches count for a new node only. -/
def addNode (d : Ref) (v : Int) (hi lo : Reference) : Edit Ref := do
  match (← observe (·.registry d)).find? v with
  | some r => return r
  | none =>
    requireMutable d
    if isReserved v then throw (.reservedVariable v)
    let hi ← observe (·.branchTarget d true hi)
    let lo ← observe (·.branchTarget d false lo)
    let r ← createVertex (.decision v) (some d) hi lo
    linkInner d r .hi hi
    linkInner d r .lo lo
    modify (·.updateRegistry d (·.insert v r))
    return r

/-- Points a branch of the source at the target. The vertex it led to before loses the source as a
parent, and the target records it. -/
def setEdge (d : Ref) (source target : Reference) (selector : Selector) : Edit Edge := do
  requireMutable d
  let source ← observe (·.require d source)
  let target ← observe (·.requireListed d target)
  let side := selector.side
  let former := (← get).next side source
  wireBranch source side target
  match former with
  | some f => if f ≠ target then removeParent f source
  | none => pure ()
  link d source target selector.toLabel
  return ⟨source, target, side⟩

def edgeSide (s : Store) (d : Ref) (source target : Reference) : Except Fault Bool := do
  let _ ← s.registry d
  let source ← s.require d source
  let target ← s.require d target
  match s.label? target source with
  | some l => return l == .hi
  | none => throw (s.raise (.unknownEdge source target))

/-- Takes the source off the parents of the target; the branch of the source stays. The diagram
itself may be taken off at any time. -/
def removeEdge (d : Ref) (source target : Reference) : Edit Unit := do
  let _ ← observe (·.registry d)
  let source ← observe (·.require d source)
  let target ← observe (·.require d target)
  if source ≠ d then requireMutable d
  removeParent target source

end Diagram

end DecisionDiagram
