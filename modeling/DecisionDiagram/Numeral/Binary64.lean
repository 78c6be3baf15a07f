import DecisionDiagram.Numeral.Power
/-!
Binary floating-point numbers of 64 bits, as exact values. `nearest` takes a quotient to the nearest
of them, a half to the even neighbour.
-/
namespace DecisionDiagram.Numeral

/-- The finite values are ± significand · 2 ^ exponent. -/
inductive Binary64
  | finite (negative : Bool) (significand : Nat) (exponent : Int)
  | infinite (negative : Bool)
  | nan
deriving DecidableEq, Repr

def roundDiv (num den : Nat) : Nat :=
  let q := num / den
  let twice := 2 * (num % den)
  if den < twice || (twice == den && q % 2 == 1) then q + 1 else q

namespace Binary64

/-- The least exponent of a significand: below it numbers lose precision, not the exponent. -/
def leastExponent : Int := -1074

def binaryOrder (num den : Nat) : Int :=
  let k : Int := (num.log2 : Int) - (den.log2 : Int)
  if den * powTwo k.toNat ≤ num * powTwo (-k).toNat then k else k - 1

/-- The number nearest to `num / den`; past the largest finite one it is infinite. -/
def nearest (negative : Bool) (num den : Nat) : Binary64 :=
  if num = 0 then finite negative 0 0 else
  let e := max (binaryOrder num den - 52) leastExponent
  let s := roundDiv (num * powTwo (-e).toNat) (den * powTwo e.toNat)
  if e + s.log2 ≥ 1024 then infinite negative else finite negative s e

def value? : Binary64 → Option Rat
  | finite negative s e =>
    let q : Rat := mkRat (s * powTwo e.toNat) (powTwo (-e).toNat)
    some (if negative then -q else q)
  | _ => none

def ofFloat (x : Float) : Binary64 :=
  let bits := x.toBits.toNat
  let negative := bits / powTwo 63 == 1
  let order : Nat := bits / powTwo 52 % powTwo 11
  let fraction : Nat := bits % powTwo 52
  if order = 2047 then if fraction = 0 then infinite negative else nan
  else if order = 0 then finite negative fraction leastExponent
  else finite negative (fraction + powTwo 52) ((order : Int) - 1075)

def toFloat : Binary64 → Float
  | finite negative s e =>
    let x := (Float.ofNat s).scaleB e
    if negative then -x else x
  | infinite negative => if negative then -(1.0 / 0.0) else 1.0 / 0.0
  | nan => 0.0 / 0.0

end Binary64

end DecisionDiagram.Numeral
