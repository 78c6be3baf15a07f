import DecisionDiagram.Counting
import DecisionDiagram.Document
import DecisionDiagram.Layers
/-!
From node lines to a diagram. Only lines that the root line reaches count; they are built layer by
layer, so that the children of a node stand before the node.
-/
namespace DecisionDiagram.Document

abbrev Lines := List (Int × Rule)

/-- The numbers reached from pending ones, given those that are done. The last child of a line goes
first. -/
def reach (lines : Lines) (done pending : List Int) : Except Fault (List Int) :=
  match pending with
  | [] => .ok done
  | id :: rest =>
    if id ∈ done then reach lines done rest
    else
      match _h : lines.lookup id with
      | none => .error (Store.raise {} (.undefinedLine id))
      | some rule => reach lines (id :: done) (rule.children.reverse ++ rest)
termination_by (unseenCount (lines.map (·.1)) done, pending.length)
decreasing_by
  · apply Prod.Lex.right; simp
  · apply Prod.Lex.left
    refine unseenCount_lt (fun _ h => List.mem_cons_of_mem _ h) ?_ ‹_› List.mem_cons_self
    obtain ⟨_, _, hmem, _⟩ := List.lookup_eq_some_iff.mp _h
    simp_all

def reachable (lines : Lines) (root : Int) : Except Fault (List Int) :=
  (reach lines [] [root]).map ascending

def dependencies (lines : Lines) (ids : List Int) : Dependencies :=
  ids.filterMap fun id =>
    match lines.lookup id with
    | some (.test _ lo hi) => some (id, ascending [lo, hi])
    | _ => none

def builtVertex (built : List (Int × Ref)) (id : Int) : Except Fault Ref :=
  match built.lookup id with
  | some r => .ok r
  | none => .error (.missingLine id)

def buildLine (d : Ref) (lines : Lines) (built : List (Int × Ref)) (id : Int) :
    Edit (List (Int × Ref)) := do
  match lines.lookup id with
  | none => throw (.missingLine id)
  | some (.constant value) =>
    match (← get).branch value d with
    | some r => return (id, r) :: built
    | none => throw .notOffered
  | some (.test v lo hi) =>
    let s ← get
    if ((← observe (·.registry d)).find? v).isSome then throw (s.raise (.repeatedVariable v))
    let hiRef ← observe fun _ => builtVertex built hi
    let loRef ← observe fun _ => builtVertex built lo
    return (id, ← Diagram.addNode d v (.vertex hiRef) (.vertex loRef)) :: built

/-- Builds and validates the diagram below the root line. The root that is found has to be that of
the root line. -/
def build (lines : Lines) (root : Int) : Edit Ref := do
  let ids ← observe fun _ => reachable lines root
  match (dependencies lines ids).layers? with
  | none => throw .cyclicLines
  | some layers =>
    let d ← Diagram.create
    let built ← layers.flatten.foldlM (buildLine d lines) []
    let found ← Diagram.validate d
    let declared ← observe fun _ => builtVertex built root
    if found ≠ declared then throw ((← get).raise (.misplacedRoot root))
    return d

def load (document : Document) (file : String) : Edit (List Text × Ref) := do
  match document.root with
  | some root => return (document.order, ← build document.lines root)
  | none => throw (.noLines file)

def parse (bytes : Text.Bytes) (file : String) : Edit (List Text × Ref) := do
  (← observe fun _ => ofBytes bytes).load file

end DecisionDiagram.Document
