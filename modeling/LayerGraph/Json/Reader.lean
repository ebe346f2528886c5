import LayerGraph.Value
set_option autoImplicit false

namespace LayerGraph.Json

inductive Problem where
  | value
  | name
  | colon
  | comma
  | extra
  | openText
  | controlCharacter
  | badEscape
  | badCodePoint
  deriving DecidableEq, Repr

def Problem.message : Problem → String
  | .value => "Expecting value"
  | .name => "Expecting property name enclosed in double quotes"
  | .colon => "Expecting ':' delimiter"
  | .comma => "Expecting ',' delimiter"
  | .extra => "Extra data"
  | .openText => "Unterminated string starting at"
  | .controlCharacter => "Invalid control character at"
  | .badEscape => "Invalid \\escape"
  | .badCodePoint => "Invalid \\uXXXX escape"

inductive ReadError where
  | malformed (problem : Problem) (offset : Nat)
  | integerTooLong
  | loneSurrogate
  deriving DecidableEq, Repr

/-- Why reading stops, and the rest of the text where it does. -/
inductive Stop where
  | problem (problem : Problem) (rest : List Char)
  | integerTooLong
  | loneSurrogate

abbrev Scan (α : Type) := Except Stop (α × List Char)

def isBlank (c : Char) : Bool := c == ' ' || c == '\t' || c == '\n' || c == '\r'

def skip (cs : List Char) : List Char := cs.dropWhile isBlank

def hexDigit? (c : Char) : Option Nat :=
  if c.isDigit then some (c.toNat - '0'.toNat)
  else if 'a' ≤ c ∧ c ≤ 'f' then some (c.toNat - 'a'.toNat + 10)
  else if 'A' ≤ c ∧ c ≤ 'F' then some (c.toNat - 'A'.toNat + 10)
  else none

def unit? (a b c d : Char) : Option Nat := do
  let a ← hexDigit? a
  let b ← hexDigit? b
  let c ← hexDigit? c
  let d ← hexDigit? d
  return ((a * 16 + b) * 16 + c) * 16 + d

def escaped? : Char → Option Char
  | '"' => some '"'
  | '\\' => some '\\'
  | '/' => some '/'
  | 'b' => some (Char.ofNat 8)
  | 'f' => some (Char.ofNat 12)
  | 'n' => some '\n'
  | 'r' => some '\r'
  | 't' => some '\t'
  | _ => none

def pair? (high low : Nat) : Option Nat :=
  if 0xD800 ≤ high ∧ high < 0xDC00 ∧ 0xDC00 ≤ low ∧ low < 0xE000 then
    some (0x10000 + (high - 0xD800) * 0x400 + (low - 0xDC00))
  else none

def prepend (c : Char) (scan : Scan (List Char)) : Scan (List Char) :=
  scan.map fun (cs, rest) => (c :: cs, rest)

/-- Adds the character of a code point to a text; half of a pair alone is none, and in no text. -/
def prependPoint (n : Nat) (scan : Scan (List Char)) : Scan (List Char) :=
  if 0xD800 ≤ n ∧ n < 0xE000 then scan.bind fun _ => .error .loneSurrogate
  else prepend (Char.ofNat n) scan

/-- Reads a text to its closing quote; `start` is the rest from the opening quote on. -/
def textBody (start : List Char) : List Char → Scan (List Char)
  | [] => .error (.problem .openText start)
  | '"' :: rest => .ok ([], rest)
  | ['\\'] => .error (.problem .openText start)
  | '\\' :: 'u' :: a :: b :: c :: d :: '\\' :: 'u' :: e :: f :: g :: h :: more :: rest =>
    match unit? a b c d with
    | none =>
      .error (.problem .badCodePoint
        ('u' :: a :: b :: c :: d :: '\\' :: 'u' :: e :: f :: g :: h :: more :: rest))
    | some high =>
      if 0xD800 ≤ high ∧ high < 0xDC00 then
        match unit? e f g h with
        | none => .error (.problem .badCodePoint ('u' :: e :: f :: g :: h :: more :: rest))
        | some low =>
          match pair? high low with
          | some n => prepend (Char.ofNat n) (textBody start (more :: rest))
          | none =>
            prependPoint high
              (textBody start ('\\' :: 'u' :: e :: f :: g :: h :: more :: rest))
      else
        prependPoint high (textBody start ('\\' :: 'u' :: e :: f :: g :: h :: more :: rest))
  | '\\' :: 'u' :: a :: b :: c :: d :: more :: rest =>
    match unit? a b c d with
    | none => .error (.problem .badCodePoint ('u' :: a :: b :: c :: d :: more :: rest))
    | some n => prependPoint n (textBody start (more :: rest))
  | '\\' :: 'u' :: rest => .error (.problem .badCodePoint ('u' :: rest))
  | '\\' :: c :: rest =>
    match escaped? c with
    | some c => prepend c (textBody start rest)
    | none => .error (.problem .badEscape ('\\' :: c :: rest))
  | c :: rest =>
    if c.toNat < 0x20 then .error (.problem .controlCharacter (c :: rest))
    else prepend c (textBody start rest)

def text (rest : List Char) : Scan String :=
  (textBody ('"' :: rest) rest).map fun (cs, rest) => (String.ofList cs, rest)

/-- The digits before the point: a zero alone, or digits that start with none. -/
def wholeDigits : List Char → List Char × List Char
  | '0' :: rest => (['0'], rest)
  | cs => (cs.takeWhile Char.isDigit, cs.dropWhile Char.isDigit)

def fractionDigits : List Char → List Char × List Char
  | '.' :: d :: rest =>
    if d.isDigit then
      ('.' :: d :: rest.takeWhile Char.isDigit, rest.dropWhile Char.isDigit)
    else ([], '.' :: d :: rest)
  | cs => ([], cs)

def powerDigits (cs : List Char) : List Char × List Char :=
  match cs with
  | e :: rest =>
    let (sign, body) := match rest with
      | '-' :: body => (['-'], body)
      | '+' :: body => (['+'], body)
      | _ => ([], rest)
    let digits := body.takeWhile Char.isDigit
    if (e = 'e' ∨ e = 'E') ∧ digits ≠ [] then
      (e :: sign ++ digits, body.dropWhile Char.isDigit)
    else ([], cs)
  | [] => ([], [])

def number (cs : List Char) : Scan Value :=
  let (negative, body) := match cs with
    | '-' :: body => (true, body)
    | _ => (false, cs)
  let (whole, rest) := wholeDigits body
  if whole = [] then .error (.problem .value cs)
  else
    let (fraction, rest) := fractionDigits rest
    let (power, rest) := powerDigits rest
    if fraction = [] ∧ power = [] then
      if digitLimit < whole.length then .error .integerTooLong
      else
        let n := Numeral.ofDigits (whole.filterMap Text.asciiDigit?)
        .ok (.int (Numeral.signed negative n), rest)
    else
      let shown := whole ++ fraction ++ power
      let x := (Numeral.plainFloat? (if negative then '-' :: shown else shown)).getD .nan
      .ok (.float x, rest)

def word? : List Char → Option (Value × List Char)
  | 'n' :: 'u' :: 'l' :: 'l' :: rest => some (.null, rest)
  | 't' :: 'r' :: 'u' :: 'e' :: rest => some (.bool true, rest)
  | 'f' :: 'a' :: 'l' :: 's' :: 'e' :: rest => some (.bool false, rest)
  | 'N' :: 'a' :: 'N' :: rest => some (.float .nan, rest)
  | 'I' :: 'n' :: 'f' :: 'i' :: 'n' :: 'i' :: 't' :: 'y' :: rest =>
    some (.float (.infinite false), rest)
  | '-' :: 'I' :: 'n' :: 'f' :: 'i' :: 'n' :: 'i' :: 't' :: 'y' :: rest =>
    some (.float (.infinite true), rest)
  | _ => none

def key (cs : List Char) : Scan String :=
  match cs with
  | '"' :: rest =>
    match text rest with
    | .error stop => .error stop
    | .ok (k, rest) =>
      match skip rest with
      | ':' :: rest => .ok (k, skip rest)
      | rest => .error (.problem .colon rest)
  | _ => .error (.problem .name cs)

mutual
/-- Reads a value. A bound of one more than twice the characters left is enough: a step to the items
of a value spends two on its bracket, and so does a step to the next item on its comma. -/
def value : Nat → List Char → Scan Value
  | 0, cs => .error (.problem .value cs)
  | n + 1, cs =>
    match cs with
    | '"' :: rest => (text rest).map fun (s, rest) => (.str s, rest)
    | '[' :: rest =>
      match skip rest with
      | ']' :: rest => .ok (.list [], rest)
      | rest => (items n rest).map fun (vs, rest) => (.list vs, rest)
    | '\x7b' :: rest =>
      match skip rest with
      | '\x7d' :: rest => .ok (.object [], rest)
      | rest => (fields n [] rest).map fun (fs, rest) => (.object fs, rest)
    | _ =>
      match word? cs with
      | some found => .ok found
      | none => number cs
def items : Nat → List Char → Scan (List Value)
  | 0, cs => .error (.problem .value cs)
  | n + 1, cs =>
    match value n cs with
    | .error stop => .error stop
    | .ok (v, rest) =>
      match skip rest with
      | ']' :: rest => .ok ([v], rest)
      | ',' :: rest => (items n (skip rest)).map fun (vs, rest) => (v :: vs, rest)
      | rest => .error (.problem .comma rest)
def fields : Nat → Fields → List Char → Scan Fields
  | 0, _, cs => .error (.problem .value cs)
  | n + 1, before, cs =>
    match key cs with
    | .error stop => .error stop
    | .ok (k, rest) =>
      match value n rest with
      | .error stop => .error stop
      | .ok (v, rest) =>
        match skip rest with
        | '\x7d' :: rest => .ok (before.put k v, rest)
        | ',' :: rest => fields n (before.put k v) (skip rest)
        | rest => .error (.problem .comma rest)
end

def readChars (cs : List Char) : Except ReadError Value :=
  let scan : Except Stop Value := do
    let (v, rest) ← value (2 * cs.length + 1) (skip cs)
    if skip rest = [] then .ok v else .error (.problem .extra (skip rest))
  match scan with
  | .ok v => .ok v
  | .error .integerTooLong => .error .integerTooLong
  | .error .loneSurrogate => .error .loneSurrogate
  | .error (.problem problem rest) => .error (.malformed problem (cs.length - rest.length))

def read (s : String) : Except ReadError Value := readChars s.toList

end LayerGraph.Json
