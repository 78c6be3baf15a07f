import DecisionDiagram.Display
import DecisionDiagram.Text.Quoted
/-!
The wording of faults. A fault is worded before it is raised: where its wording would show a number
that is too long, that is the fault instead.
-/
namespace DecisionDiagram

namespace Fault

def joined (tokens : List Text) : String := " ".intercalate (tokens.map Text.toString)

def fileText : FileDefect → String
  | .missing => "[Errno 2] No such file or directory: "
  | .underFile => "[Errno 20] Not a directory: "
  | .directory => "[Errno 21] Is a directory: "
  | .nameTooLong => "[Errno 36] File name too long: "

/-- The wording of a fault in the store that it leaves behind. There is none where it would show a
plain position, or where the kind says all there is to say. -/
def wording (s : Store) : Fault → Except Fault (Option String)
  | equalBranches target =>
    return (← s.show? target).map ("True and false branch are the same node: " ++ ·)
  | absentTarget source =>
    return (← s.show? source).map fun t => "Branch target of " ++ t ++ " must not be None"
  | secondBranch target =>
    return (← s.show? target).map ("No two identical objects can function as branches: " ++ ·)
  | parentAsBranch target =>
    return (← s.show? target).map ("A parent cannot also be a branch: " ++ ·)
  | branchAsParent parent =>
    return (← s.show? parent).map
      ("No two identical objects can function as branches or parents: " ++ ·)
  | terminalSource terminal =>
    return (← s.show? terminal).map fun t => "Terminal node " ++ t ++ " cannot have branches"
  | reservedVariable v =>
    return some ("Variable " ++ (← showInt v) ++ " is reserved for terminal nodes")
  | unknownNode (some v) => return some ("Node with id " ++ (← showInt v) ++ " does not exist")
  | unknownNode none => return some "Node with id None does not exist"
  | unknownEdge source target => do
    let source ← s.show? source
    let target ← s.show? target
    return (do some ("No edge from " ++ (← source) ++ " to " ++ (← target)))
  | rootCount candidates => do
    return (← s.showAll? candidates).map fun texts =>
      "Expected exactly one root node, found " ++ showCount candidates.length ++ ": " ++ texts
  | cyclicPath source target => do
    let source ← s.show? source
    let target ← s.show? target
    return (do some ("Cyclic reference from " ++ (← source) ++ " back to " ++ (← target)))
  | notValidated diagram => return (← s.show? diagram).map (· ++ " is not initialized")
  | pairNotValidated => return some "One of the obdds is not initialized"
  | alreadyValidated => return some "Graph is initialized, its structure cannot change anymore"
  | lostWalk side diagram =>
    return (← s.show? diagram).map fun t => "Walking the " ++ (if side then "true" else "false")
      ++ " branches of " ++ t ++ " did not reach a terminal node"
  | missingBranch source => return (← s.show? source).map (· ++ " has no branch to follow")
  | malformedId tokens => return some ("Malformed node id in line: " ++ joined tokens)
  | missingType id => return some ("Node " ++ (← showInt id) ++ " has no type")
  | conjunction id => return some ("Conjunction node " ++ (← showInt id) ++ " is not supported")
  | malformedDecision id tokens =>
    return some ("Malformed decision node " ++ (← showInt id) ++ ": " ++ joined tokens)
  | childCount id =>
    return some ("Decision node " ++ (← showInt id) ++ " needs exactly a lo and a hi child")
  | malformedRoot line => return some ("Malformed root node line: " ++ line.toString)
  | noLines file => return some ("No node lines in " ++ file)
  | undefinedLine id => return some ("Node " ++ (← showInt id) ++ " is referenced but not defined")
  | misplacedRoot id =>
    return some ("Declared root node " ++ (← showInt id) ++ " is not the root of the graph")
  | cyclicLines => return some "Cyclic reference between node lines"
  | repeatedVariable v =>
    return some ("Variable " ++ (← showInt v) ++ " appears on more than one node line")
  | malformedWeight line file =>
    return some ("Malformed weight line \"" ++ line.toString ++ "\" in " ++ file)
  | notDecodable flaw => return some flaw.message
  | unreadable defect path => return some (fileText defect ++ (Text.quoted path.toList).toString)
  | nullInPath => return some "embedded null byte"
  | weightNotNumber => return some "can not convert NaN to MPQ"
  | longNumber => return some ("Exceeds the limit (4300 digits) for integer string conversion; "
      ++ "use sys.set_int_max_str_digits() to increase the limit")
  | missingVariable v => return some (← showInt v)
  | missingLine id => return some (← showInt id)
  | missingName name => return some name
  | endlessPath _ | emptyLine | weightInfinite | weightTooLarge | weightAbsent | notOffered
  | noValue | pathNotGiven | nameNotGiven | circularVariables | notEncodable => return none

def message? (s : Store) (e : Fault) : Option String :=
  match e.wording s with
  | .ok words => words
  | .error _ => none

end Fault

/-- What is raised for a fault: the fault itself if it can be worded. -/
def Store.raise (s : Store) (e : Fault) : Fault :=
  match e.wording s with
  | .ok _ => e
  | .error long => long

end DecisionDiagram
