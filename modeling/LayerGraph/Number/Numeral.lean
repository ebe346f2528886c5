import LayerGraph.Fault
import LayerGraph.Number.Binary64
import LayerGraph.Text.Blank
import LayerGraph.Text.DecimalDigit
set_option autoImplicit false

namespace LayerGraph.Numeral

def digits? (digit? : Char → Option Nat) : List Char → Option (List Nat)
  | [] => none
  | [c] => (digit? c).map ([·])
  | c :: '_' :: rest => do
    let d ← digit? c
    let ds ← digits? digit? rest
    some (d :: ds)
  | c :: rest => do
    let d ← digit? c
    let ds ← digits? digit? rest
    some (d :: ds)

def ofDigits (ds : List Nat) : Nat := ds.foldl (fun n d => 10 * n + d) 0

def sign : List Char → Bool × List Char
  | '-' :: rest => (true, rest)
  | '+' :: rest => (false, rest)
  | cs => (false, cs)

def signed (negative : Bool) (n : Nat) : Int := if negative then -n else n

def isFigure (c : Char) : Bool := (Text.decimalDigit? c).isSome || c == '_'

/-- Reads an integer of at most 4300 digits. That there are more is said before it is known what
follows them. -/
def integer (s : String) : Except Fault Int :=
  let (negative, body) := sign (Text.trimChars Text.isSpace s.toList)
  match digits? Text.decimalDigit? (body.takeWhile isFigure) with
  | none => .error (.notANumeral s)
  | some ds =>
    if digitLimit < ds.length then .error (.numeralTooLong ds.length)
    else if (body.dropWhile isFigure).isEmpty then .ok (signed negative (ofDigits ds))
    else .error (.notANumeral s)

/-- The power of ten at the end of a number: nothing, or a mark, an optional sign and digits. -/
def power? : List Char → Option Int
  | [] => some 0
  | e :: rest =>
    let (negative, body) := sign rest
    if (e = 'e' ∨ e = 'E') ∧ body ≠ [] ∧ body.all Char.isDigit then
      some (signed negative (ofDigits (body.filterMap Text.asciiDigit?)))
    else none

def plainFloat? (cs : List Char) : Option Binary64 :=
  let (negative, body) := sign cs
  let word := String.ofList (body.map Char.toLower)
  if word = "inf" ∨ word = "infinity" then some (.infinite negative)
  else if word = "nan" then some .nan
  else
    let whole := body.takeWhile Char.isDigit
    let rest := body.dropWhile Char.isDigit
    let (fraction, tail) := match rest with
      | '.' :: more => (more.takeWhile Char.isDigit, more.dropWhile Char.isDigit)
      | _ => ([], rest)
    let digits := whole ++ fraction
    if digits.isEmpty then none
    else do
      let power ← power? tail
      let coefficient := ofDigits (digits.filterMap Text.asciiDigit?)
      some (.ofDecimal negative coefficient (power - fraction.length))

def joinDigits? : List Char → Option (List Char)
  | [] => some []
  | '_' :: _ => none
  | c :: '_' :: d :: rest =>
    if c.isDigit ∧ d.isDigit then (joinDigits? (d :: rest)).map (c :: ·) else none
  | c :: rest => (joinDigits? rest).map (c :: ·)

def asciiDigit (c : Char) : Char :=
  match Text.decimalDigit? c with
  | some d => Char.ofNat ('0'.toNat + d)
  | none => c

/-- Reads a floating point number, blanks, underscores and digits of every script allowed. -/
def float? (s : String) : Option Binary64 := do
  let cs ← joinDigits? ((Text.trimChars Text.isSpace s.toList).map asciiDigit)
  plainFloat? cs

end LayerGraph.Numeral
