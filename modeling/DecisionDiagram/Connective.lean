/-!
The connectives that fold the outcomes of two diagrams into one truth value. `not` takes two
operands like the others and holds when they differ.
-/
namespace DecisionDiagram

inductive Connective
  | and
  | or
  | not
  | nand
  | nor
  | xor
deriving DecidableEq, Repr

namespace Connective

def apply : Connective → Bool → Bool → Bool
  | and, a, b => a && b
  | or, a, b => a || b
  | not, a, b => a != b
  | nand, a, b => !(a && b)
  | nor, a, b => !(a || b)
  | xor, a, b => a ^^ b

def all : List Connective := [and, or, not, nand, nor, xor]

def name : Connective → String
  | and => "AND"
  | or => "OR"
  | not => "NOT"
  | nand => "NAND"
  | nor => "NOR"
  | xor => "XOR"

def ofName? (text : String) : Option Connective := all.find? (·.name == text)

theorem ofName?_name (op : Connective) : ofName? op.name = some op := by cases op <;> rfl

end Connective

end DecisionDiagram
