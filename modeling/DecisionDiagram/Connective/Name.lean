import DecisionDiagram.Connective
import DecisionDiagram.Fault
import DecisionDiagram.Text.Capital
/-!
Names of connectives as they are typed: in letters of any case, with blanks around them.
-/
namespace DecisionDiagram.Connective

def spelling (typed : Text) : String := (Text.capitals (Text.strip typed)).toString

def read (typed : Text) : Except Fault Connective :=
  match ofName? (spelling typed) with
  | some op => .ok op
  | none => .error (.missingName (spelling typed))

end DecisionDiagram.Connective
