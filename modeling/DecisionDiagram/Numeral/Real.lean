import DecisionDiagram.Numeral.Binary64
import DecisionDiagram.Numeral.Integer
/-!
Decimal reals: digits with an optional point and exponent, or a name of infinity or of no number. A
real is read as the nearest binary number of 64 bits.
-/
namespace DecisionDiagram.Numeral

/-- An unsigned decimal: digits, then the power of ten that scales the integer they write. -/
structure Decimal where
  digits : Text
  exponent : Int
deriving DecidableEq, Repr

namespace Decimal

def exponent? (t : Text) : Option Int :=
  match t with
  | [] => some 0
  | c :: t =>
    if c != 'e' && c != 'E' then none else
    let (negative, ds) := match t with
      | '-' :: ds => (true, ds)
      | '+' :: ds => (false, ds)
      | ds => (false, ds)
    if ds.isEmpty || !ds.all Char.isDigit then none
    else some (if negative then -(ofDigits ds : Int) else ofDigits ds)

def read? (t : Text) : Option Decimal :=
  let whole := t.takeWhile Char.isDigit
  let (fraction, rest) := match t.dropWhile Char.isDigit with
    | '.' :: u => (u.takeWhile Char.isDigit, u.dropWhile Char.isDigit)
    | u => ([], u)
  if whole.isEmpty && fraction.isEmpty then none
  else (exponent? rest).map fun e => ⟨whole ++ fraction, e - fraction.length⟩

/-- The nearest binary number. A decimal of an order that no finite number reaches is settled by the
order alone, so that its power of ten is never formed. -/
def toBinary64 (negative : Bool) (d : Decimal) : Binary64 :=
  let ds := d.digits.dropWhile (· == '0')
  let order : Int := ds.length + d.exponent
  if ds.isEmpty || order < -400 then .finite negative 0 0
  else if order > 400 then .infinite negative
  else .nearest negative (ofDigits ds * powTen d.exponent.toNat) (powTen (-d.exponent).toNat)

end Decimal

namespace Real

def unsigned? (negative : Bool) (t : Text) : Option Binary64 :=
  match String.ofList (t.map Char.toLower) with
  | "inf" => some (.infinite negative)
  | "infinity" => some (.infinite negative)
  | "nan" => some .nan
  | _ => (Decimal.read? t).map (·.toBinary64 negative)

def read? (t : Text) : Option Binary64 :=
  match normalize? t with
  | some ('-' :: u) => unsigned? true u
  | some ('+' :: u) => unsigned? false u
  | some u => unsigned? false u
  | none => none

end Real

end DecisionDiagram.Numeral
