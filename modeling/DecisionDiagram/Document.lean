import DecisionDiagram.Document.Line
import DecisionDiagram.Keyed
/-!
Documents: the text form of a diagram, with a variable order, the number of the root and node lines.
`read` takes a document from lines of text; without a root line the last node line is the root.
-/
namespace DecisionDiagram

/-- A line that repeats the number of an earlier one takes its place. -/
structure Document where
  order : List Text := []
  root : Option Int := none
  lines : List (Int × Document.Rule) := []
deriving DecidableEq, Repr

namespace Document

open Numeral

def orderHeading : Text := "Variable order:".toList

def sizeHeading : Text := "Number of nodes:".toList

def rootHeading : Text := "Root node:".toList

structure Draft where
  document : Document := {}
  last : Option Int := none
deriving DecidableEq, Repr

/-- Takes in a line. A heading counts at the very start of a line only; blank lines and the number
of nodes say nothing. -/
def Draft.enter (draft : Draft) (line : Text) : Except Fault Draft :=
  let words := Text.words line
  match words.getLast? with
  | none => .ok draft
  | some last =>
    if orderHeading.isPrefixOf line then
      .ok { draft with document := { draft.document with order := words.drop 2 } }
    else if sizeHeading.isPrefixOf line then .ok draft
    else if rootHeading.isPrefixOf line then
      match Integer.read? last with
      | some root => .ok { draft with document := { draft.document with root := some root } }
      | none => .error (.malformedRoot (Text.strip line))
    else do
      let ⟨id, rule⟩ ← readLine words
      return ⟨{ draft.document with lines := upsert id rule draft.document.lines }, some id⟩

def Draft.finish (draft : Draft) : Document :=
  { draft.document with root := draft.document.root.or draft.last }

def read (lines : List Text) : Except Fault Document := do
  return (← lines.foldlM Draft.enter {}).finish

def ofText (t : Text) : Except Fault Document := read (Text.lines (Text.unifyLineEnds t))

/-- Reads a file line by line: a fault in a line before a flaw of the encoding comes first. -/
def ofBytes (bytes : Text.Bytes) : Except Fault Document := do
  let delivery := Text.deliver bytes
  let document ← ofText delivery.text
  match delivery.flaw with
  | some flaw => throw (.notDecodable flaw)
  | none => return document

end Document

end DecisionDiagram
