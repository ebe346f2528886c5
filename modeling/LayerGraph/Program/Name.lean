import LayerGraph.Text.Quoted
set_option autoImplicit false

namespace LayerGraph.Program

def keywords : List String := ["False", "None", "True", "and", "as", "assert", "async", "await",
  "break", "class", "continue", "def", "del", "elif", "else", "except", "finally", "for", "from",
  "global", "if", "import", "in", "is", "lambda", "nonlocal", "not", "or", "pass", "raise",
  "return", "try", "while", "with", "yield"]

/-- The names that the program uses itself. -/
def reserved : List String := ["inputs", "self", "torch", "nn", "F", "identity"]

def isNameChar (c : Char) : Bool := c.isAlphanum || c == '_'

def inputName (position : Nat) : String :=
  if position = 0 then "x" else "x_" ++ Text.decimal position

def looksLikeInput (cs : List Char) : Bool :=
  match cs with
  | ['x'] => true
  | 'x' :: '_' :: d :: ds => (d :: ds).all Char.isDigit
  | _ => false

def startName (cs : List Char) : List Char :=
  match cs with
  | [] => ['n', '_']
  | c :: _ => if c.isDigit then 'n' :: '_' :: cs else cs

def escapeName (cs : List Char) : List Char :=
  let name := String.ofList cs
  if keywords.contains name || reserved.contains name || looksLikeInput cs then cs ++ ['_'] else cs

def identifier (id : String) : String :=
  let word := id.toList.map fun c => if isNameChar c then c else '_'
  String.ofList (escapeName (startName word))

end LayerGraph.Program
