import DecisionDiagram.Text.Utf8
import DecisionDiagram.Vertex
/-!
Faults: every way in which an operation fails, with what it failed on. The kind groups faults that a
caller treats alike.
-/
namespace DecisionDiagram

/-- Why a file cannot be opened. -/
inductive FileDefect
  | missing
  | underFile
  | directory
  | nameTooLong
deriving DecidableEq, Repr

inductive Fault
  /-- Both branches would lead to one vertex. -/
  | equalBranches (target : Ref)
  | absentTarget (source : Ref)
  | secondBranch (target : Ref)
  | parentAsBranch (target : Ref)
  | branchAsParent (parent : Ref)
  | terminalSource (terminal : Ref)
  | reservedVariable (v : Int)
  | unknownNode (key : Option Int)
  | unknownEdge (source target : Ref)
  | rootCount (candidates : List Ref)
  /-- A walk meets a vertex of its own path. -/
  | cyclicPath (source target : Ref)
  | notValidated (diagram : Ref)
  | pairNotValidated
  | alreadyValidated
  /-- A walk in one direction ends without a terminal. -/
  | lostWalk (side : Bool) (diagram : Ref)
  | missingBranch (source : Ref)
  /-- An evaluation comes back to a vertex it has passed, and would go round for ever. -/
  | endlessPath (source : Ref)
  | malformedId (tokens : List Text)
  | missingType (id : Int)
  | conjunction (id : Int)
  | malformedDecision (id : Int) (tokens : List Text)
  | childCount (id : Int)
  | malformedRoot (line : Text)
  | emptyLine
  | noLines (file : String)
  | undefinedLine (id : Int)
  | misplacedRoot (id : Int)
  | cyclicLines
  | repeatedVariable (v : Int)
  | malformedWeight (line : Text) (file : String)
  | notDecodable (flaw : Text.Flaw)
  /-- A text holds a lone surrogate, which has no bytes. -/
  | notEncodable
  | unreadable (defect : FileDefect) (path : String)
  /-- A file name holds the character zero. -/
  | nullInPath
  | pathNotGiven
  | nameNotGiven
  | weightNotNumber
  | weightInfinite
  | weightTooLarge
  | weightAbsent
  /-- A number has too many digits to be shown. -/
  | longNumber
  | missingVariable (v : Int)
  | missingLine (id : Int)
  | missingName (name : String)
  /-- A vertex is asked for what its kind does not have. -/
  | notOffered
  /-- A node that tests a variable without deciding has no value. -/
  | noValue
  | circularVariables
deriving DecidableEq, Repr

inductive FaultKind
  | configuration
  | notFound
  | root
  | reference
  | notReady
  | frozen
  | value
  | decoding
  | encoding
  | file (defect : FileDefect)
  | key
  | index
  | member
  | valueless
  | overflow
  | operand
  | circular
  | endless
deriving DecidableEq, Repr

namespace Fault

def kind : Fault → FaultKind
  | equalBranches _ | absentTarget _ | secondBranch _ | parentAsBranch _ | branchAsParent _
  | terminalSource _ | reservedVariable _ => .configuration
  | malformedId _ | missingType _ | conjunction _ | malformedDecision .. | childCount _
  | malformedRoot _ | repeatedVariable _ => .configuration
  | unknownNode _ | unknownEdge .. | undefinedLine _ => .notFound
  | rootCount _ | noLines _ | misplacedRoot _ => .root
  | cyclicPath .. | lostWalk .. | missingBranch _ | cyclicLines => .reference
  | notValidated _ | pairNotValidated => .notReady
  | alreadyValidated => .frozen
  | malformedWeight .. | weightNotNumber | longNumber | nullInPath => .value
  | notDecodable _ => .decoding
  | notEncodable => .encoding
  | unreadable defect _ => .file defect
  | missingVariable _ | missingLine _ | missingName _ => .key
  | emptyLine => .index
  | notOffered | nameNotGiven => .member
  | noValue => .valueless
  | weightInfinite | weightTooLarge => .overflow
  | weightAbsent | pathNotGiven => .operand
  | circularVariables => .circular
  | endlessPath _ => .endless

end Fault

theorem ok_bind {ε α β : Type} (a : α) (f : α → Except ε β) : (Except.ok a >>= f) = f a := rfl

theorem map_eq_ok_iff {ε α β : Type} {x : Except ε α} {f : α → β} {b : β} :
    x.map f = .ok b ↔ ∃ a, x = .ok a ∧ f a = b := by
  cases x <;> simp [Except.map]

end DecisionDiagram
