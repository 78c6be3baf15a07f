import DecisionDiagram.Text.Lines
/-!
Decoding of UTF-8: the characters of a byte sequence up to its end, to a sequence that lacks bytes,
or to the first flaw. `deliver` decodes block by block, and keeps the lines that come before a flaw.
-/
namespace DecisionDiagram.Text

abbrev Bytes := List UInt8

inductive Defect
  | start
  | continuation
  | truncated
deriving DecidableEq, Repr

/-- Some bytes that are not a character, with their place in the block. -/
structure Flaw where
  offset : Nat
  bytes : Bytes
  defect : Defect
deriving DecidableEq, Repr

inductive Sequence
  | character (c : Char) (length : Nat)
  | unfinished
  | flawed (defect : Defect) (length : Nat)
deriving DecidableEq, Repr

/-- The payload of a first byte, and the bounds of the bytes that follow it. Bounds tighter than
0x80 to 0xBF refuse overlong forms, surrogates and codes past the last character. -/
def lead? (b : Nat) : Option (Nat × List (Nat × Nat)) :=
  let any := (0x80, 0xBF)
  if b < 0x80 then some (b, [])
  else if b < 0xC2 then none
  else if b < 0xE0 then some (b - 0xC0, [any])
  else if b = 0xE0 then some (0, [(0xA0, 0xBF), any])
  else if b = 0xED then some (0xD, [(0x80, 0x9F), any])
  else if b < 0xF0 then some (b - 0xE0, [any, any])
  else if b = 0xF0 then some (0, [(0x90, 0xBF), any, any])
  else if b < 0xF4 then some (b - 0xF0, [any, any, any])
  else if b = 0xF4 then some (4, [(0x80, 0x8F), any, any])
  else none

def extend (payload count : Nat) : List (Nat × Nat) → Bytes → Sequence
  | [], _ => .character (Char.ofNat payload) count
  | _ :: _, [] => .unfinished
  | (low, high) :: bounds, b :: bytes =>
    if low ≤ b.toNat && b.toNat ≤ high then extend (64 * payload + b.toNat % 64) (count + 1)
      bounds bytes
    else .flawed .continuation count

def sequence (b : UInt8) (bytes : Bytes) : Sequence :=
  match lead? b.toNat with
  | some (payload, bounds) => extend payload 1 bounds bytes
  | none => .flawed .start 1

inductive Ending
  | complete
  | unfinished (rest : Bytes)
  | flawed (flaw : Flaw)
deriving DecidableEq, Repr

def decode (offset : Nat) : Bytes → Text × Ending
  | [] => ([], .complete)
  | b :: bytes =>
    match sequence b bytes with
    | .character c length =>
      let (t, ending) := decode (offset + length) (bytes.drop (length - 1))
      (c :: t, ending)
    | .unfinished => ([], .unfinished (b :: bytes))
    | .flawed defect length => ([], .flawed ⟨offset, (b :: bytes).take length, defect⟩)
termination_by bytes => bytes.length
decreasing_by simp only [List.length_drop, List.length_cons]; omega

def decodeAll (bytes : Bytes) : Except Flaw Text :=
  match decode 0 bytes with
  | (t, .complete) => .ok t
  | (_, .unfinished rest) => .error ⟨bytes.length - rest.length, rest, .truncated⟩
  | (_, .flawed flaw) => .error flaw

def startsSurrogate : Bytes → Bool
  | [a, b] => a.toNat == 0xED && 0xA0 ≤ b.toNat && b.toNat ≤ 0xBF
  | _ => false

/-- Decodes a block that more bytes may follow. The start of a surrogate at its end waits for the
third byte before it is a flaw. -/
def decodeOpen (block : Bytes) : Text × Ending :=
  match decode 0 block with
  | (t, .flawed flaw) =>
    let rest := block.drop flaw.offset
    (t, if startsSurrogate rest then .unfinished rest else .flawed flaw)
  | result => result

def blockSize : Nat := 8192

/-- Decodes block by block; `pending` are the bytes left over from the block before. A flaw stops
the decoding, and its place counts from the start of the pending bytes. -/
def decodeBlocks (pending bytes : Bytes) : Text × Option Flaw :=
  match bytes with
  | [] =>
    match decodeAll pending with
    | .ok t => (t, none)
    | .error flaw => ([], some flaw)
  | b :: rest =>
    match decodeOpen (pending ++ (b :: rest).take blockSize) with
    | (t, .complete) =>
      let (u, flaw) := decodeBlocks [] ((b :: rest).drop blockSize)
      (t ++ u, flaw)
    | (t, .unfinished left) =>
      let (u, flaw) := decodeBlocks left ((b :: rest).drop blockSize)
      (t ++ u, flaw)
    | (_, .flawed flaw) => ([], some flaw)
termination_by bytes.length
decreasing_by all_goals simp only [blockSize, List.length_drop, List.length_cons]; omega

structure Delivery where
  text : Text
  flaw : Option Flaw
deriving DecidableEq, Repr

/-- Before a flaw a carriage return at the end is held back, for a line feed might follow. -/
def deliver (bytes : Bytes) : Delivery :=
  match decodeBlocks [] bytes with
  | (t, none) => ⟨t, none⟩
  | (t, some flaw) =>
    let settled := if t.getLast? = some '\r' then t.dropLast else t
    ⟨finishedLines (unifyLineEnds settled), some flaw⟩

def hexByte (b : UInt8) : String :=
  String.ofList [Nat.digitChar (b.toNat / 16), Nat.digitChar (b.toNat % 16)]

def Defect.message : Defect → String
  | start => "invalid start byte"
  | continuation => "invalid continuation byte"
  | truncated => "unexpected end of data"

def Flaw.message (flaw : Flaw) : String :=
  let place := match flaw.bytes with
    | [b] => "byte 0x" ++ hexByte b ++ " in position " ++ Nat.repr flaw.offset
    | bytes =>
      "bytes in position " ++ Nat.repr flaw.offset ++ "-" ++
        Nat.repr (flaw.offset + bytes.length - 1)
  "'utf-8' codec can't decode " ++ place ++ ": " ++ flaw.defect.message

end DecisionDiagram.Text
