import DecisionDiagram.Document
import DecisionDiagram.Layers
/-!
From a diagram to the text of a document: headings, then a line for each vertex below the root,
children before parents. The variable order may be any list of integers and texts; what has too many
digits, or holds a lone surrogate, cannot be written.
-/
namespace DecisionDiagram.Document

open Numeral

/-- A character as a caller may hand it over: a lone surrogate has a code too, but no bytes. -/
abbrev CodePoint := Fin 0x110000

def CodePoint.ofChar (c : Char) : CodePoint := Fin.ofNat 0x110000 c.toNat

def CodePoint.char? (c : CodePoint) : Option Char :=
  if 0xD800 ≤ c.val ∧ c.val ≤ 0xDFFF then none else some (Char.ofNat c.val)

inductive Item
  | number (n : Int)
  | text (codes : List CodePoint)
deriving DecidableEq, Repr

def Item.shown : Item → Except Fault (List CodePoint)
  | number n => (Integer.written n).map (·.map CodePoint.ofChar)
  | text codes => .ok codes

def encodable (codes : List CodePoint) : Except Fault Text :=
  match codes.mapM CodePoint.char? with
  | some t => .ok t
  | none => .error .notEncodable

/-- All elements of an order are shown before the first of them is written. -/
def orderWords (items : List Item) : Except Fault (List Text) := do
  (← items.mapM Item.shown).mapM encodable

def lookupNumber (numbers : List (Int × Int)) (v : Int) : Except Fault Int :=
  match numbers.lookup v with
  | some n => .ok n
  | none => .error (.missingVariable v)

def childNumber (s : Store) (numbers : List (Int × Int)) (side : Bool) (r : Ref) :
    Except Fault Int :=
  match (s.branch side r).bind s.var? with
  | some v => lookupNumber numbers v
  | none => .error .notOffered

def constantText (number : Int) (value : Bool) : Text :=
  Integer.render number ++ ":\t".toList ++ (if value then 'T' else 'F') :: " 0\n".toList

def testText (number : Int) (tested : Text) (lo hi : Int) : Text :=
  Integer.render number ++ ":\t".toList ++ tested ++ ' ' :: Integer.render lo
    ++ ' ' :: Integer.render hi ++ " 0\n".toList

/-- The node line of a vertex, under the numbers given to variables. These count lines, and are
never too long to be written. -/
def lineText (s : Store) (numbers : List (Int × Int)) (r : Ref) : Except Fault Text := do
  let v ← s.requireVariable r
  let number ← lookupNumber numbers v
  match s.terminalValue? r with
  | some value => return constantText number value
  | none =>
    let lo ← childNumber s numbers false r
    let hi ← childNumber s numbers true r
    return testText number (← Integer.written v) lo hi

def headingText (order : List Text) (size root : Int) : Text :=
  orderHeading ++ order.flatMap (' ' :: ·) ++ '\n' :: sizeHeading ++ ' ' :: Integer.render size
    ++ '\n' :: rootHeading ++ ' ' :: Integer.render root ++ ['\n']

def defaultOrder (numbers : List (Int × Int)) : List Item :=
  (ascending ((numbers.map (·.1)).filter (!isReserved ·))).map Item.number

def write (s : Store) (d : Ref) (order : Option (List Item)) : Except Fault Text := do
  let numbers ← s.numbering d
  let order ← orderWords (order.getD (defaultOrder numbers))
  let root ← lookupNumber numbers (← s.requireVariable (← s.validatedRoot d))
  let lines ← numbers.mapM fun (v, _) =>
    match s.vertexOf? d v with
    | some r => lineText s numbers r
    | none => .error .notOffered
  return headingText order numbers.length root ++ lines.flatten

end DecisionDiagram.Document
