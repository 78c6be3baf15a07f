import DecisionDiagram.Text.Blank
import DecisionDiagram.Text.Unprintable
/-!
Quoted texts: between single quotes, or double ones if only single quotes occur inside. Backslashes,
the quote itself and unprintable characters are escaped.
-/
namespace DecisionDiagram.Text

def hexadecimal : Nat → Nat → Text
  | 0, _ => []
  | width + 1, n => hexadecimal width (n / 16) ++ [Nat.digitChar (n % 16)]

def escapeCode (c : Char) : Text :=
  let n := c.toNat
  if n ≤ 0xFF then "\\x".toList ++ hexadecimal 2 n
  else if n ≤ 0xFFFF then "\\u".toList ++ hexadecimal 4 n
  else "\\U".toList ++ hexadecimal 8 n

def escape (mark : Char) (c : Char) : Text :=
  if c = mark || c = '\\' then ['\\', c]
  else if c = '\t' then ['\\', 't']
  else if c = '\n' then ['\\', 'n']
  else if c = '\r' then ['\\', 'r']
  else if isUnprintable c then escapeCode c
  else [c]

def quoted (t : Text) : Text :=
  let mark := if t.contains '\'' && !t.contains '"' then '"' else '\''
  mark :: t.flatMap (escape mark) ++ [mark]

end DecisionDiagram.Text
