import DecisionDiagram.Fault
import DecisionDiagram.Keyed
import DecisionDiagram.Numeral.Real
import DecisionDiagram.Weight
/-!
Weight files: a variable and a weight to a line, separated by a comma. The last weight of a variable
counts, at the place of its first line.
-/
namespace DecisionDiagram.WeightTable

open Numeral

abbrev Table := List (Int × Binary64)

def readEntry? (line : Text) : Option (Int × Binary64) :=
  match line.splitOnP (· == ',') with
  | [v, w] => do return (← Integer.read? v, ← Real.read? w)
  | _ => none

def enter (file : String) (table : Table) (line : Text) : Except Fault Table :=
  if Text.isBlankLine line then .ok table
  else
    match readEntry? line with
    | some (v, w) => .ok (upsert v w table)
    | none => .error (.malformedWeight (Text.strip line) file)

/-- Reads a text, of which blanks at both ends are dropped first. -/
def read (file : String) (t : Text) : Except Fault Table :=
  (Text.lines (Text.strip t)).foldlM (enter file) []

def ofBytes (file : String) (bytes : Text.Bytes) : Except Fault Table := do
  match Text.decodeAll bytes with
  | .ok t => read file (Text.unifyLineEnds t)
  | .error flaw => throw (.notDecodable flaw)

def toWeights (table : Table) : Weights := table.map fun (v, w) => (v, .binary w)

end DecisionDiagram.WeightTable
