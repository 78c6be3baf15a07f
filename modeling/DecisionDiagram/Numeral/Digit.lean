import DecisionDiagram.Text.Blank
/-!
Decimal digits of every script, and the form in which a numeral is read: blanks off both ends, each
digit as its ASCII twin, and underscores dropped where they stand between two digits.
-/
namespace DecisionDiagram.Numeral

/-- The zeros of the scripts that have decimal digits; the nine digits after a zero follow it in
order. -/
def zeros : List Nat := [
  0x30, 0x660, 0x6F0, 0x7C0, 0x966, 0x9E6, 0xA66, 0xAE6, 0xB66, 0xBE6, 0xC66, 0xCE6, 0xD66, 0xDE6,
  0xE50, 0xED0, 0xF20, 0x1040, 0x1090, 0x17E0, 0x1810, 0x1946, 0x19D0, 0x1A80, 0x1A90, 0x1B50,
  0x1BB0, 0x1C40, 0x1C50, 0xA620, 0xA8D0, 0xA900, 0xA9D0, 0xA9F0, 0xAA50, 0xABF0, 0xFF10, 0x104A0,
  0x10D30, 0x11066, 0x110F0, 0x11136, 0x111D0, 0x112F0, 0x11450, 0x114D0, 0x11650, 0x116C0, 0x11730,
  0x118E0, 0x11950, 0x11C50, 0x11D50, 0x11DA0, 0x16A60, 0x16AC0, 0x16B50, 0x1D7CE, 0x1D7D8, 0x1D7E2,
  0x1D7EC, 0x1D7F6, 0x1E140, 0x1E2F0, 0x1E950, 0x1FBF0]

def digit? (c : Char) : Option Nat :=
  (zeros.find? fun z => z ≤ c.toNat && c.toNat < z + 10).map (c.toNat - ·)

def digitChar (d : Nat) : Char := Char.ofNat (0x30 + d)

def asciiDigit (c : Char) : Char := (digit? c).elim c digitChar

/-- The blanks that may surround a numeral: all but the four separators U+001C to U+001F. -/
def isMargin (c : Char) : Bool := Text.isBlank c && !(0x1C ≤ c.toNat && c.toNat ≤ 0x1F)

/-- Drops the underscores of a numeral, or fails if one does not stand between two digits. The first
argument says whether a digit comes just before. -/
def dropUnderscores? : Bool → Text → Option Text
  | _, [] => some []
  | afterDigit, '_' :: c :: t =>
    if afterDigit && c.isDigit then (dropUnderscores? true t).map (c :: ·) else none
  | _, ['_'] => none
  | _, c :: t => (dropUnderscores? c.isDigit t).map (c :: ·)

def normalize? (t : Text) : Option Text :=
  dropUnderscores? false ((Text.trim isMargin t).map asciiDigit)

def ofDigits (ds : Text) : Nat := ds.foldl (fun n c => 10 * n + (c.toNat - 0x30)) 0

theorem digit?_ofAscii (d : Fin 10) : digit? (digitChar d) = some d.val := by
  revert d; decide

end DecisionDiagram.Numeral
