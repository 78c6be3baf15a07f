import DecisionDiagram.Fault
import DecisionDiagram.Numeral.Binary64
/-!
Weights: the probability that a variable is true, as an integer, a fraction or a binary number. A
weight is used by its exact value, or by the binary number it comes to; one that is left open cannot
be used.

`Weight.exact` stands for `mpq` of the package `gmpy2`, which is no part of the program: what is
relied on is that an integer, a fraction or a finite number has its own value, and that the others
are errors.
-/
namespace DecisionDiagram

open Numeral

inductive Weight
  | whole (n : Int)
  | ratio (q : Rat)
  | binary (x : Binary64)
  | absent
deriving DecidableEq

namespace Weight

def half : Weight := ratio (1 / 2)

/-- The fraction that a weight is equal to. It stands for `mpq`. -/
def exact : Weight → Except Fault Rat
  | whole n => .ok n
  | ratio q => .ok q
  | binary x =>
    match x with
    | .nan => .error .weightNotNumber
    | .infinite _ => .error .weightInfinite
    | .finite .. => .ok (x.value?.getD 0)
  | absent => .error .weightAbsent

def nearestFinite (negative : Bool) (num den : Nat) : Except Fault Binary64 :=
  match Binary64.nearest negative num den with
  | .infinite _ => .error .weightTooLarge
  | x => .ok x

def approximate : Weight → Except Fault Binary64
  | whole n => nearestFinite (n < 0) n.natAbs 1
  | ratio q => nearestFinite (q < 0) q.num.natAbs q.den
  | binary x => .ok x
  | absent => .error .weightAbsent

end Weight

/-- Weights by variable; a variable without one is as likely true as false. -/
abbrev Weights := List (Int × Weight)

def Weights.of (weights : Weights) (v : Int) : Weight := (weights.lookup v).getD .half

end DecisionDiagram
