import DecisionDiagram.Fault
import DecisionDiagram.Numeral.Integer
import DecisionDiagram.Store
/-!
How a vertex is shown in messages and reports. A plain position has no text of its own, and nothing
is shown of a vertex whose text would hold a number that is too long.
-/
namespace DecisionDiagram

open Numeral

def Numeral.Integer.written (n : Int) : Except Fault Text :=
  if isShort n then .ok (render n) else .error .longNumber

def showInt (n : Int) : Except Fault String := (Integer.written n).map Text.toString

/-- What is counted in the store is never too long to be shown. -/
def showCount (n : Nat) : String := Text.toString (digits n)

def showBool (b : Bool) : String := if b then "True" else "False"

namespace Store

/-- A branch is shown by the variable at its end, or as an empty quotation. -/
def showBranch (s : Store) (branch : Option Ref) : Except Fault String :=
  (branch.bind s.var?).elim (.ok "''") showInt

def showNode (s : Store) (name : String) (v : Int) (x : Vertex) : Except Fault String := do
  let tested ← showInt v
  let hi ← s.showBranch x.hi
  let lo ← s.showBranch x.lo
  return name ++ "(" ++ tested ++ ", true_branch:" ++ hi ++ ", false_branch:" ++ lo ++ ")"

def showTerminal (v : Int) (value : Bool) : Except Fault String := do
  return "TerminalNode(" ++ (← showInt v) ++ ", value:" ++ showBool value ++ ")"

def showRegistry (s : Store) (g : Registry) : Except Fault String := do
  let root ← (g.root.bind s.var?).elim (.ok "") showInt
  return "ObddGraph(nodes:" ++ showCount g.size ++ ", root:" ++ root
    ++ ", initialized:" ++ showBool g.ready ++ ")"

def show? (s : Store) (r : Ref) : Except Fault (Option String) :=
  match s.vertex? r with
  | none => .ok none
  | some x =>
    match x.kind with
    | .plain => .ok none
    | .node v => (s.showNode "ObddNode" v x).map some
    | .decision v => (s.showNode "DecisionNode" v x).map some
    | .terminal v value => (showTerminal v value).map some
    | .diagram g => (s.showRegistry g).map some

def showAll? (s : Store) (rs : List Ref) : Except Fault (Option String) := do
  let texts ← rs.mapM s.show?
  return (texts.mapM id).map fun texts => "[" ++ ", ".intercalate texts ++ "]"

end Store

end DecisionDiagram
