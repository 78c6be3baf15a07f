/-!
Texts are lists of characters. Blank characters separate words, and `strip` takes them off both
ends.
-/
namespace DecisionDiagram

abbrev Text := List Char

namespace Text

def toString (t : Text) : String := String.ofList t

/-- The characters that separate words: white space, and the four separators U+001C to U+001F. -/
def isBlank (c : Char) : Bool :=
  let n := c.toNat
  (0x09 ≤ n && n ≤ 0x0D) || (0x1C ≤ n && n ≤ 0x20) || n == 0x85 || n == 0xA0 || n == 0x1680
    || (0x2000 ≤ n && n ≤ 0x200A) || n == 0x2028 || n == 0x2029 || n == 0x202F || n == 0x205F
    || n == 0x3000

def dropEnd (p : Char → Bool) (t : Text) : Text := (t.reverse.dropWhile p).reverse

def trim (p : Char → Bool) (t : Text) : Text := dropEnd p (t.dropWhile p)

def strip (t : Text) : Text := trim isBlank t

def words (t : Text) : List Text := (t.splitOnP isBlank).filter (!·.isEmpty)

def isBlankLine (t : Text) : Bool := t.all isBlank

end Text

end DecisionDiagram
