import LayerGraph.Number.Numeral
import LayerGraph.Text.Lines
set_option autoImplicit false

/-!
A text in a document that stands for a number is read by looser rules than other numerals. White
space may surround it and only the digits `0` to `9` count. An integer may start with zeros, with
underscores of any number among them, and may end in a point and zeros. Elsewhere underscores must
stand alone between other characters.
-/

namespace LayerGraph.LooseNumeral

inductive Problem where
  | form
  | size
  deriving DecidableEq, Repr

def isFiller (c : Char) : Bool := c == '0' || c == '_'

/-- An integer without the zeros at its start. A zero stays where no other digit is left, and a
minus sign may follow the zeros. -/
def dropZeros? : List Char → Option (List Char)
  | [] => none
  | '0' :: cs =>
    let zeros := '0' :: cs.takeWhile isFiller
    match cs.dropWhile isFiller with
    | [] => if zeros.getLast? = some '0' then some ['0'] else none
    | '.' :: rest => if zeros.getLast? = some '0' then some ('0' :: '.' :: rest) else none
    | c :: rest => if c.isDigit || c == '-' then some (c :: rest) else none
  | c :: cs => if c.isDigit then some (c :: cs) else none

/-- An integer without a point and the zeros after it, of which there must be one. -/
def dropFraction (cs : List Char) : List Char :=
  match cs.reverse with
  | '0' :: rest =>
    match rest.dropWhile (· == '0') with
    | '.' :: whole => whole.reverse
    | _ => cs
  | _ => cs

def joined? (cs : List Char) : Option (List Char) :=
  let pieces := Text.splitChars '_' cs
  if pieces.any List.isEmpty then none else some pieces.flatten

/-- Reads an integer of digits alone; `negative` tells of a sign that was read before. Too many
digits are told before anything that follows them. -/
def plain (negative : Bool) (cs : List Char) : Except Problem Int :=
  let (minus, body) := match cs with
    | '-' :: body => (true, body)
    | _ => (false, cs)
  let shown := body.takeWhile Char.isDigit
  let below := negative || minus
  if (negative && minus) || shown.isEmpty || (shown.head? == some '0' && shown.length != 1) then
    .error .form
  else if digitLimit < shown.length then .error .size
  else if shown.length < body.length then .error .form
  else .ok (Numeral.signed below (Numeral.ofDigits (shown.filterMap Text.asciiDigit?)))

def integer (s : String) : Except Problem Int :=
  let (negative, body) := Numeral.sign (Text.trimChars Text.isSpace s.toList)
  match dropZeros? body with
  | none => .error .form
  | some cs =>
    let whole := dropFraction cs
    plain negative ((joined? whole).getD whole)

/-- A floating point number; white space may surround it only if it has no underscores. -/
def float? (s : String) : Option Binary64 :=
  (Numeral.plainFloat? (Text.trimChars Text.isSpace s.toList)).or
    ((joined? s.toList).bind Numeral.plainFloat?)

end LayerGraph.LooseNumeral
