set_option autoImplicit false

namespace LayerGraph.Text

/-- The pieces between the occurrences of a separator; there is always at least one. -/
def splitChars (separator : Char) : List Char → List (List Char)
  | [] => [[]]
  | c :: cs =>
    match splitChars separator cs with
    | [] => [[c]]
    | piece :: pieces => if c = separator then [] :: piece :: pieces else (c :: piece) :: pieces

def splitOn (separator : Char) (s : String) : List String :=
  (splitChars separator s.toList).map String.ofList

def lines (s : String) : List String := splitOn '\n' s

def unlines (ls : List String) : String := "\n".intercalate ls

/-- Shifts a line to the right by a number of levels of four columns; an empty line stays empty. -/
def indentLine (level : Nat) (line : String) : String :=
  if line.isEmpty then line else String.ofList (List.replicate (4 * level) ' ') ++ line

def indent (level : Nat) (ls : List String) : List String := ls.map (indentLine level)

def commentLine (line : String) : String := if line.isEmpty then "#" else "# " ++ line

def comment (ls : List String) : List String := ls.map commentLine

end LayerGraph.Text
