import LayerGraph.Text.Quoted
set_option autoImplicit false

/-!
What can go wrong while layers are sized, checked, counted and written. Each fault is a cause with
the data that its message shows. An integer of more than 4300 digits cannot be written, so a fault
that would show one is raised as `Fault.integerTooLong` in its place.
-/

namespace LayerGraph

/-- The greatest number of digits of an integer that is read or written. -/
def digitLimit : Nat := 4300

def isWritable (n : Int) : Bool := n.natAbs < Nat.pow 10 digitLimit

inductive Form where
  | null | boolean | integer | float | text | list | object
  deriving DecidableEq, Repr

def Form.name : Form → String
  | .null => "NoneType"
  | .boolean => "bool"
  | .integer => "int"
  | .float => "float"
  | .text => "str"
  | .list => "list"
  | .object => "dict"

inductive ShapeFault where
  | stride (value : Int)
  | flattenRange (start stop : Int) (rank : Nat)
  | rank (kind : String) (ranks : List Nat) (layout : Option String) (shape : List Int)
  | noFeatureAxis (shape : List Int)
  | noOutput (kind : String) (height width : Int)
  | concatAxis (dim : Int) (rank : Nat)
  deriving DecidableEq, Repr

def bracketed (ns : List Int) : String := "[" ++ ", ".intercalate (ns.map Text.decimal) ++ "]"

def ShapeFault.shown : ShapeFault → List Int
  | .stride n => [n]
  | .flattenRange start stop _ => [start, stop]
  | .rank _ _ _ shape => shape
  | .noFeatureAxis shape => shape
  | .noOutput _ height width => [height, width]
  | .concatAxis dim _ => [dim]

def ShapeFault.message : ShapeFault → String
  | .stride n => "Stride must be positive, got " ++ Text.decimal n
  | .flattenRange start stop n =>
    "Flatten range [" ++ Text.decimal start ++ ", " ++ Text.decimal stop ++ "] is invalid for a "
      ++ Text.decimal n ++ "D input"
  | .rank kind ranks layout shape =>
    kind ++ " expects " ++ " or ".intercalate (ranks.map fun (n : Nat) => Text.decimal n ++ "D")
      ++ " input" ++ layout.elim "" (" " ++ ·) ++ ", got shape " ++ bracketed shape
  | .noFeatureAxis shape => "Linear expects at least 2D input, got shape " ++ bracketed shape
  | .noOutput kind height width =>
    kind ++ " output dimensions are non-positive: (" ++ Text.decimal height ++ ", "
      ++ Text.decimal width ++ ")"
  | .concatAxis dim n =>
    "Concat dim " ++ Text.decimal dim ++ " is out of range for a " ++ Text.decimal n ++ "D input"

inductive Fault where
  | shape (why : ShapeFault)
  | unknownKey (key : String)
  | notANumeral (text : String)
  | numeralTooLong (digits : Nat)
  | integerTooLong
  | notANumber
  | infinity
  | notNumeric (form : Form)
  | notIterable (form : Form)
  | unhashable (form : Form)
  | notAnObject (form : Form)
  | nestedTooDeep
  | failed (message : String)
  deriving DecidableEq, Repr

def Fault.message : Fault → String
  | .shape why => why.message
  | .unknownKey key => Text.quoted key
  | .notANumeral text =>
    "invalid literal for int() with base 10: "
      ++ String.ofList ((Text.quotedChars text.toList).take 200)
  | .numeralTooLong digits =>
    "Exceeds the limit (4300 digits) for integer string conversion: value has "
      ++ Text.decimal digits
      ++ " digits; use sys.set_int_max_str_digits() to increase the limit"
  | .integerTooLong =>
    "Exceeds the limit (4300 digits) for integer string conversion; "
      ++ "use sys.set_int_max_str_digits() to increase the limit"
  | .notANumber => "cannot convert float NaN to integer"
  | .infinity => "cannot convert float infinity to integer"
  | .notNumeric form =>
    "int() argument must be a string, a bytes-like object or a real number, not '"
      ++ form.name ++ "'"
  | .notIterable form => "'" ++ form.name ++ "' object is not iterable"
  | .unhashable form => "unhashable type: '" ++ form.name ++ "'"
  | .notAnObject form => "'" ++ form.name ++ "' object has no attribute 'get'"
  | .nestedTooDeep =>
    "Error serializing to JSON: ValueError: Circular reference detected (depth exceeded)"
  | .failed message => message

def ShapeFault.raise {α : Type} (why : ShapeFault) : Except Fault α :=
  .error (if why.shown.all isWritable then .shape why else .integerTooLong)

end LayerGraph
