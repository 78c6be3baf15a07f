import DecisionDiagram.Fault
import DecisionDiagram.Numeral.Integer
/-!
Node lines. A line names a node by number and says what the node is: a truth value, or a test of a
variable with the numbers of a lo and a hi child. The last word of a line only ends it.
-/
namespace DecisionDiagram.Document

open Numeral

inductive Rule
  | constant (value : Bool)
  | test (v lo hi : Int)
deriving DecidableEq, Repr

def Rule.children : Rule → List Int
  | constant _ => []
  | test _ lo hi => [lo, hi]

structure Line where
  id : Int
  rule : Rule
deriving DecidableEq, Repr

def readRule (id : Int) : List Text → Except Fault Rule
  | [] => .error (.missingType id)
  | type :: children =>
    if type = ['T'] then .ok (.constant true)
    else if type = ['F'] then .ok (.constant false)
    else if type = ['C'] then .error (.conjunction id)
    else
      match (type :: children).mapM Integer.read? with
      | some [v, lo, hi] => .ok (.test v lo hi)
      | some _ => .error (.childCount id)
      | none => .error (.malformedDecision id (type :: children))

def readLine : List Text → Except Fault Line
  | [] => .error .emptyLine
  | first :: rest =>
    match Integer.read? (Text.dropEnd (· == ':') first) with
    | none => .error (.malformedId (first :: rest))
    | some id => (readRule id rest.dropLast).map (⟨id, ·⟩)

end DecisionDiagram.Document
