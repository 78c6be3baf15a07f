import DecisionDiagram.Comparison
import DecisionDiagram.Document.Build
import DecisionDiagram.Numeral.Fraction
import DecisionDiagram.Probability
import DecisionDiagram.WeightTable
/-!
Reports: what is printed of a diagram, and of the comparison of two.
-/
namespace DecisionDiagram.Report

open Numeral

def describe (s : Store) (label : String) (d : Ref) (weights : Option Weights) :
    Except Fault (List String) := do
  let shown := label ++ ": " ++ (← s.show? d).getD ""
  let models := label ++ " models: " ++ (← showInt (← s.modelCount d))
  match weights with
  | none => return [shown, models]
  | some w =>
    return [shown, models, label ++ " probability: " ++ (fraction (← s.probability d w)).toString]

def orderingText : Ordering → String
  | .lt => "-1"
  | .eq => "0"
  | .gt => "1"

def compare (s : Store) (op : Connective) (a b : Ref) (weights : Option Weights) :
    Except Fault (List String) := do
  let result ← s.combine op a b
  let ordering ← s.compareDiagrams a b
  let first ← describe s "First obdd" a weights
  let second ← describe s "Second obdd" b weights
  return ("Result of " ++ op.name ++ " comparison: " ++ showBool result)
    :: ("Ordering: " ++ orderingText ordering) :: first ++ second

end DecisionDiagram.Report
