import DecisionDiagram.Validation
/-!
Layers of a dependency relation: each layer holds the items whose dependencies all lie in the layers
before it. The items of a diagram are the variables below its root, each depending on the variables
that its branches lead to.

`Dependencies.layers?` stands for the function of the package `toposort`, which is no part of the
program: what is relied on is that an item is freed of itself, that items which are only depended on
come first, that a layer holds all items whose dependencies lie in the layers before it, and that
items in a circle are an error.
-/
namespace DecisionDiagram

abbrev Dependencies := List (Int × List Int)

namespace Dependencies

/-- An item does not wait for itself, and an item that is only depended on waits for nothing. -/
def complete (deps : Dependencies) : Dependencies :=
  let own := deps.map fun (item, needs) => (item, needs.filter (· ≠ item))
  let keys := own.map (·.1)
  let others := ascending ((own.flatMap (·.2)).filter (!keys.contains ·))
  own ++ others.map (·, [])

def free (deps : Dependencies) : List Int := (deps.filter (·.2.isEmpty)).map (·.1)

def withoutFree (deps : Dependencies) : Dependencies :=
  let free := deps.free
  (deps.filter (!·.2.isEmpty)).map fun (item, needs) => (item, needs.filter (!free.contains ·))

theorem length_withoutFree_lt {deps : Dependencies} (h : deps.free ≠ []) :
    deps.withoutFree.length < deps.length := by
  simp only [withoutFree, List.length_map]
  refine Nat.lt_of_le_of_ne (List.length_filter_le ..) fun he => h ?_
  have hall := List.length_filter_eq_length_iff.mp he
  simp only [free, List.map_eq_nil_iff, List.filter_eq_nil_iff]
  exact fun e hm => by simpa using hall e hm

/-- Takes the free items off, layer by layer, and returns what is left when none is free. -/
def peel (deps : Dependencies) : List (List Int) × Dependencies :=
  if _h : deps.free = [] then ([], deps)
  else
    let (layers, left) := peel deps.withoutFree
    (ascending deps.free :: layers, left)
termination_by deps.length
decreasing_by exact length_withoutFree_lt _h

/-- The layers, unless some items wait for each other. It stands for `toposort`. -/
def layers? (deps : Dependencies) : Option (List (List Int)) :=
  match deps.complete.peel with
  | (layers, []) => some layers
  | _ => none

end Dependencies

namespace Store

def requireVariable (s : Store) (r : Ref) : Except Fault Int :=
  match s.var? r with
  | some v => .ok v
  | none => .error .notOffered

def enterEdges (s : Store) (deps : Dependencies) (r : Ref) : Except Fault Dependencies :=
  if s.isTerminal r then .ok deps else do
    let children ← (s.successors r).mapM s.requireVariable
    return upsert (← s.requireVariable r) (ascending children) deps

def edges (s : Store) (d : Ref) : Except Fault Dependencies := do
  let pass := s.depthFirst none [] (← s.validatedRoot d)
  let deps ← pass.met.foldlM s.enterEdges []
  match pass.cycle with
  | some (source, target) => throw (s.raise (.cyclicPath source target))
  | none => return deps

def layers (s : Store) (d : Ref) : Except Fault (List (List Int)) := do
  match (← s.edges d).layers? with
  | some layers => return layers
  | none => throw .circularVariables

def enterNumber (numbers : List (Int × Int)) (v : Int) : List (Int × Int) :=
  if (numbers.lookup v).isSome then numbers else numbers ++ [(v, (numbers.length : Int))]

/-- The numbers under which a diagram is written: the false terminal 0, the true terminal 1, then
the nodes layer by layer. -/
def numbering (s : Store) (d : Ref) : Except Fault (List (Int × Int)) := do
  return (← s.layers d).flatten.foldl enterNumber [(falseVariable, 0), (trueVariable, 1)]

end Store

end DecisionDiagram
