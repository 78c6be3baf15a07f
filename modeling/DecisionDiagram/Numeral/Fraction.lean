import DecisionDiagram.Numeral.Binary64
import DecisionDiagram.Numeral.Integer
/-!
Written forms of exact numbers: fractions in lowest terms, binary numbers by their exact value, and
decimals with a fixed number of places.
-/
namespace DecisionDiagram.Numeral

def fraction (q : Rat) : Text :=
  if q.den = 1 then Integer.render q.num else Integer.render q.num ++ '/' :: digits q.den

/-- The exact value as a fraction, or the name of a number that has none. A negative zero keeps its
sign. -/
def Binary64.exact (x : Binary64) : Text :=
  match x with
  | .nan => "nan".toList
  | .infinite negative => if negative then "-inf".toList else "inf".toList
  | .finite negative s _ =>
    if s = 0 then if negative then "-0".toList else "0".toList else (x.value?.elim [] fraction)

/-- Six decimal places, a half to the even neighbour; what rounds to zero has no sign. -/
def sixPlaces (x : Binary64) : Text :=
  match x with
  | .nan => "nan".toList
  | .infinite negative => if negative then "-inf".toList else "inf".toList
  | .finite negative s e =>
    let millionths := roundDiv (s * powTen 6 * powTwo e.toNat) (powTwo (-e).toNat)
    let places := digits (millionths % powTen 6)
    let unsigned :=
      digits (millionths / powTen 6) ++ '.' :: (List.replicate (6 - places.length) '0' ++ places)
    if negative && millionths != 0 then '-' :: unsigned else unsigned

end DecisionDiagram.Numeral
