set_option autoImplicit false

/-!
Bytes are read as a text one at a time. Where they are not UTF-8, the replacement character stands
for each byte that starts no character, and for each start of a character that is not completed.
-/

namespace LayerGraph.Text

/-- The start of a character: the number of bytes that it lacks, the bounds of the next one, and
the number that its bits stand for so far. -/
structure CharStart where
  lacks : Nat
  least : Nat
  greatest : Nat
  value : Nat
  deriving DecidableEq, Repr

def replacement : Char := Char.ofNat 0xFFFD

/-- What a byte adds to a text, and the character that it starts or leaves unfinished. -/
abbrev ByteStep := List Char × Option CharStart

/-- Reads a byte where a character starts. The bounds rule out surrogates, code points that are too
great, and characters in more bytes than they need. -/
def firstByte (b : Nat) : ByteStep :=
  if b < 0x80 then ([Char.ofNat b], none)
  else if 0xC2 ≤ b ∧ b < 0xE0 then ([], some ⟨1, 0x80, 0xBF, b - 0xC0⟩)
  else if 0xE0 ≤ b ∧ b < 0xF0 then
    ([], some ⟨2, if b = 0xE0 then 0xA0 else 0x80, if b = 0xED then 0x9F else 0xBF, b - 0xE0⟩)
  else if 0xF0 ≤ b ∧ b < 0xF5 then
    ([], some ⟨3, if b = 0xF0 then 0x90 else 0x80, if b = 0xF4 then 0x8F else 0xBF, b - 0xF0⟩)
  else ([replacement], none)

def nextByte (start : CharStart) (b : Nat) : ByteStep :=
  if start.least ≤ b ∧ b ≤ start.greatest then
    let value := 64 * start.value + (b - 0x80)
    if start.lacks = 1 then ([Char.ofNat value], none)
    else ([], some ⟨start.lacks - 1, 0x80, 0xBF, value⟩)
  else
    let (shown, next) := firstByte b
    (replacement :: shown, next)

def readBytes : Option CharStart → List Nat → List Char
  | none, [] => []
  | some _, [] => [replacement]
  | none, b :: bytes =>
    let (shown, next) := firstByte b
    shown ++ readBytes next bytes
  | some start, b :: bytes =>
    let (shown, next) := nextByte start b
    shown ++ readBytes next bytes

def ofUtf8 (bytes : List Nat) : String := String.ofList (readBytes none bytes)

end LayerGraph.Text
