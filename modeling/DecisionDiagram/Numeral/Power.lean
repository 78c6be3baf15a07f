/-!
Powers of the two bases in which numbers are scaled.
-/
namespace DecisionDiagram.Numeral

def powTwo (n : Nat) : Nat := Nat.pow 2 n

def powTen (n : Nat) : Nat := Nat.pow 10 n

end DecisionDiagram.Numeral
