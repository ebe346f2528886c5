set_option autoImplicit false

namespace LayerGraph.Json

inductive ByteOrder where
  | greatestFirst | leastFirst
  deriving DecidableEq, Repr

inductive Encoding where
  | utf8
  | utf16 (order : ByteOrder)
  | utf32 (order : ByteOrder)
  deriving DecidableEq, Repr

namespace Encoding

def ofBytes : List Nat → Encoding
  | [a, b] =>
    if a = 0 then .utf16 .greatestFirst else if b = 0 then .utf16 .leastFirst else .utf8
  | a :: b :: c :: d :: _ =>
    if a = 0 then if b = 0 then .utf32 .greatestFirst else .utf16 .greatestFirst
    else if b ≠ 0 then .utf8
    else if c = 0 ∧ d = 0 then .utf32 .leastFirst
    else .utf16 .leastFirst
  | _ => .utf8

def pair : ByteOrder → Nat → Nat → Nat
  | .greatestFirst, a, b => 256 * a + b
  | .leastFirst, a, b => a + 256 * b

def pairs? (order : ByteOrder) : List Nat → Option (List Nat)
  | [] => some []
  | [_] => none
  | a :: b :: bytes => (pairs? order bytes).map (pair order a b :: ·)

def ofUnits : List Nat → List Nat
  | high :: low :: units =>
    if 0xD800 ≤ high ∧ high < 0xDC00 ∧ 0xDC00 ≤ low ∧ low < 0xE000 then
      (0x10000 + 1024 * (high - 0xD800) + (low - 0xDC00)) :: ofUnits units
    else high :: ofUnits (low :: units)
  | units => units

/-- The code points that pairs of bytes stand for two by two, if they are code points. -/
def ofHalves? (order : ByteOrder) : List Nat → Option (List Nat)
  | [] => some []
  | [_] => none
  | a :: b :: halves =>
    let point := match order with
      | .greatestFirst => 65536 * a + b
      | .leastFirst => a + 65536 * b
    if point < 0x110000 then (ofHalves? order halves).map (point :: ·) else none

/-- The character of a code point; a surrogate that stands alone is none. -/
def character? (point : Nat) : Option Char :=
  if 0xD800 ≤ point ∧ point < 0xE000 then none else some (Char.ofNat point)

end Encoding

def utf8Bytes (cs : List Char) : List Nat :=
  cs.flatMap fun c => (String.utf8EncodeChar c).map (·.toNat)

/-- The characters of a document that was sent as the bytes of a text, or nothing if the bytes say
that they are in an encoding which they break. A byte order mark says that they are in UTF-8. -/
def characters? (text : List Char) : Option (List Char) :=
  if text.head? = some (Char.ofNat 0xFEFF) then some (text.drop 1)
  else
    match Encoding.ofBytes (utf8Bytes (text.take 4)) with
    | .utf8 => some text
    | .utf16 order =>
      (Encoding.pairs? order (utf8Bytes text)).bind fun units =>
        (Encoding.ofUnits units).mapM Encoding.character?
    | .utf32 order =>
      ((Encoding.pairs? order (utf8Bytes text)).bind (Encoding.ofHalves? order)).bind
        (·.mapM Encoding.character?)

end LayerGraph.Json
