import DecisionDiagram.Numeral.Digit
import DecisionDiagram.Numeral.Power
/-!
Decimal integers: `render` writes the shortest form, `read?` accepts every form.
-/
namespace DecisionDiagram.Numeral

def digits (n : Nat) : Text :=
  if n < 10 then [digitChar n] else digits (n / 10) ++ [digitChar (n % 10)]

/-- The longest run of digits that is read as an integer, or that an integer is shown with. -/
def digitLimit : Nat := 4300

def natural? (ds : Text) : Option Nat :=
  if !ds.isEmpty && ds.all Char.isDigit && ds.length ≤ digitLimit then some (ofDigits ds) else none

namespace Integer

def render : Int → Text
  | .ofNat n => digits n
  | .negSucc n => '-' :: digits (n + 1)

@[irreducible]
def isShort (n : Int) : Bool := n.natAbs < powTen digitLimit

def read? (t : Text) : Option Int :=
  match normalize? t with
  | some ('-' :: ds) => (natural? ds).map fun n => -(n : Int)
  | some ('+' :: ds) => (natural? ds).map Int.ofNat
  | some ds => (natural? ds).map Int.ofNat
  | none => none

end Integer

end DecisionDiagram.Numeral
