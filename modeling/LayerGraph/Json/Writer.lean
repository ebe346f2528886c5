import LayerGraph.Value
set_option autoImplicit false

namespace LayerGraph

namespace Value

mutual
/-- How many values stand within each other, the value itself and the innermost one counted. -/
def depth : Value → Nat
  | .list items => depthItems items + 1
  | .object fields => depthFields fields + 1
  | _ => 1
def depthItems : List Value → Nat
  | [] => 0
  | v :: vs => max v.depth (depthItems vs)
def depthFields : List (String × Value) → Nat
  | [] => 0
  | (_, v) :: rest => max v.depth (depthFields rest)
end

end Value

namespace Json

def escapeChar (c : Char) : List Char :=
  if c = '"' then ['\\', '"']
  else if c = '\\' then ['\\', '\\']
  else if c = '\n' then ['\\', 'n']
  else if c = '\r' then ['\\', 'r']
  else if c = '\t' then ['\\', 't']
  else if c.toNat = 8 then ['\\', 'b']
  else if c.toNat = 12 then ['\\', 'f']
  else if c.toNat < 0x20 then '\\' :: 'u' :: Text.hex 4 c.toNat
  else [c]

def textChars (s : String) : List Char := '"' :: s.toList.flatMap escapeChar ++ ['"']

/-- What stands before an item: nothing, or a new line indented to its level. -/
def lead (columns : Option Nat) (level : Nat) : List Char :=
  match columns with
  | none => []
  | some n => '\n' :: List.replicate (n * level) ' '

def colon (columns : Option Nat) : List Char := if columns.isSome then [':', ' '] else [':']

def keyChars (columns : Option Nat) (key : String) : List Char := textChars key ++ colon columns

mutual
def chars (columns : Option Nat) (level : Nat) : Value → List Char
  | .null => "null".toList
  | .bool b => (if b then "true" else "false").toList
  | .int n => Text.decimalChars n
  | .float x => Layout.json.write x
  | .str s => textChars s
  | .list [] => ['[', ']']
  | .list (v :: vs) =>
    '[' :: lead columns (level + 1) ++ chars columns (level + 1) v ++ moreItems columns level vs
  | .object [] => ['\x7b', '\x7d']
  | .object ((k, v) :: rest) =>
    '\x7b' :: lead columns (level + 1) ++ keyChars columns k ++ chars columns (level + 1) v
      ++ moreFields columns level rest
def moreItems (columns : Option Nat) (level : Nat) : List Value → List Char
  | [] => lead columns level ++ [']']
  | v :: vs =>
    ',' :: lead columns (level + 1) ++ chars columns (level + 1) v ++ moreItems columns level vs
def moreFields (columns : Option Nat) (level : Nat) : List (String × Value) → List Char
  | [] => lead columns level ++ ['\x7d']
  | (k, v) :: rest =>
    ',' :: lead columns (level + 1) ++ keyChars columns k ++ chars columns (level + 1) v
      ++ moreFields columns level rest
end

def write (v : Value) (columns : Option Nat := none) : String := String.ofList (chars columns 0 v)

/-- How many values may stand within each other: the serializer takes what is deeper for a
circle. -/
def nestingLimit : Nat := 255

end Json

end LayerGraph
