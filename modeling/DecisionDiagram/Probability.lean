import DecisionDiagram.Layers
import DecisionDiagram.Weight
/-!
Probabilities and model counts. The probability that a diagram holds is found layer by layer: that
of a variable mixes those at the ends of its two branches by its weight. `logProbability` does the
same with logarithms of floating-point numbers.

`logSum` stands for `logaddexp` of the package `numpy`, which is no part of the program. Nothing is
proved of its values.
-/
namespace DecisionDiagram

open Numeral

namespace Store

def branchVariable (s : Store) (d : Ref) (v : Int) (side : Bool) : Except Fault Int :=
  match ((s.vertexOf? d v).bind (s.branch side)).bind s.var? with
  | some child => .ok child
  | none => .error .notOffered

def branchEntry {α : Type} (s : Store) (d : Ref) (known : List (Int × α)) (v : Int) (side : Bool) :
    Except Fault α := do
  let child ← s.branchVariable d v side
  match known.lookup child with
  | some a => return a
  | none => throw (.missingVariable child)

def enterProbability (s : Store) (d : Ref) (weights : Weights) (known : List (Int × Rat))
    (v : Int) : Except Fault (List (Int × Rat)) := do
  if (known.lookup v).isSome then return known
  let w ← (weights.of v).exact
  let hi ← s.branchEntry d known v true
  let lo ← s.branchEntry d known v false
  return (v, w * hi + (1 - w) * lo) :: known

/-- The entry of the root, once the variables of all layers are entered in order. -/
def foldLayers {α : Type} (s : Store) (d : Ref)
    (enter : List (Int × α) → Int → Except Fault (List (Int × α))) (terminals : List (Int × α)) :
    Except Fault α := do
  let known ← (← s.layers d).flatten.foldlM enter terminals
  let v ← s.requireVariable (← s.validatedRoot d)
  match known.lookup v with
  | some a => return a
  | none => throw (.missingVariable v)

def probability (s : Store) (d : Ref) (weights : Weights) : Except Fault Rat :=
  s.foldLayers d (s.enterProbability d weights) [(trueVariable, 1), (falseVariable, 0)]

def modelCount (s : Store) (d : Ref) : Except Fault Int := do
  let tested := (← s.layers d).flatten.filter (!isReserved ·)
  let q ← s.probability d []
  return (q.num * powTwo tested.length).tdiv q.den

end Store

/-- The logarithm of `1 + x`, also for an `x` that is lost when added to one. -/
def logOnePlus (x : Float) : Float :=
  let u := 1.0 + x
  if u == 1.0 then x else u.log * (x / (u - 1.0))

/-- The logarithm of the sum of two numbers, from their logarithms. It stands for `logaddexp`. -/
def logSum (x y : Float) : Float :=
  if x == y then x + (2.0 : Float).log
  else
    let gap := x - y
    if gap > 0.0 then x + logOnePlus (-gap).exp
    else if gap ≤ 0.0 then y + logOnePlus gap.exp
    else gap

namespace Store

def enterLogProbability (s : Store) (d : Ref) (weights : Weights) (known : List (Int × Float))
    (v : Int) : Except Fault (List (Int × Float)) := do
  if (known.lookup v).isSome then return known
  let w := (← (weights.of v).approximate).toFloat
  let lo ← s.branchEntry d known v false
  let hi ← s.branchEntry d known v true
  return (v, logSum ((1.0 - w).log + lo) (w.log + hi)) :: known

def logProbability (s : Store) (d : Ref) (weights : Weights) : Except Fault Binary64 := do
  let x ← s.foldLayers d (s.enterLogProbability d weights)
    [(trueVariable, 0.0), (falseVariable, -(1.0 / 0.0))]
  return .ofFloat x

end Store

end DecisionDiagram
