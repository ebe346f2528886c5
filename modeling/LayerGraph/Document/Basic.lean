import LayerGraph.Number.LooseNumeral
import LayerGraph.Value
set_option autoImplicit false

namespace LayerGraph

namespace Document

inductive Step where
  | key (name : String)
  | index (position : Nat)
  deriving DecidableEq, Repr

def Step.toValue : Step → Value
  | .key name => .str name
  | .index position => .int position

inductive Problem where
  | missing
  | unexpected
  | notText
  | notList
  | notObject
  | notModel (model : String)
  | notAttributes
  | notAmong (options : List String)
  | notInteger
  | notIntegerText
  | oversized
  | fraction
  | notFinite
  | notFloat
  | notFloatText
  | notFlag
  | notFlagWord
  deriving DecidableEq, Repr

namespace Problem

def code : Problem → String
  | .missing => "missing"
  | .unexpected => "extra_forbidden"
  | .notText => "string_type"
  | .notList => "list_type"
  | .notObject => "dict_type"
  | .notModel _ => "model_type"
  | .notAttributes => "model_attributes_type"
  | .notAmong _ => "literal_error"
  | .notInteger => "int_type"
  | .notIntegerText => "int_parsing"
  | .oversized => "int_parsing_size"
  | .fraction => "int_from_float"
  | .notFinite => "finite_number"
  | .notFloat => "float_type"
  | .notFloatText => "float_parsing"
  | .notFlag => "bool_type"
  | .notFlagWord => "bool_parsing"

def alternatives : List String → String
  | [] => ""
  | [a] => "'" ++ a ++ "'"
  | [a, b] => "'" ++ a ++ "' or '" ++ b ++ "'"
  | a :: more => "'" ++ a ++ "', " ++ alternatives more

def message : Problem → String
  | .missing => "Field required"
  | .unexpected => "Extra inputs are not permitted"
  | .notText => "Input should be a valid string"
  | .notList => "Input should be a valid list"
  | .notObject => "Input should be a valid dictionary"
  | .notModel model => "Input should be a valid dictionary or instance of " ++ model
  | .notAttributes => "Input should be a valid dictionary or object to extract fields from"
  | .notAmong options => "Input should be " ++ alternatives options
  | .notInteger => "Input should be a valid integer"
  | .notIntegerText => "Input should be a valid integer, unable to parse string as an integer"
  | .oversized => "Unable to parse input string as an integer, exceeded maximum size"
  | .fraction => "Input should be a valid integer, got a number with a fractional part"
  | .notFinite => "Input should be a finite number"
  | .notFloat => "Input should be a valid number"
  | .notFloatText => "Input should be a valid number, unable to parse string as a number"
  | .notFlag => "Input should be a valid boolean"
  | .notFlagWord => "Input should be a valid boolean, unable to interpret input"

end Problem

structure Defect where
  problem : Problem
  path : List Step := []
  input : Value
  deriving DecidableEq, Repr

def Defect.toValue (d : Defect) : Value :=
  .object ([("type", .str d.problem.code), ("loc", .list (d.path.map (·.toValue))),
    ("msg", .str d.problem.message), ("input", d.input)]
    ++ match d.problem with
      | .notAmong options =>
        [("ctx", .object [("expected", .str (Problem.alternatives options))])]
      | _ => [])

structure Rejection where
  model : String
  defects : List Defect
  deriving DecidableEq, Repr

inductive Checked (α : Type) where
  | valid (value : α)
  | invalid (defects : List Defect)
  deriving Repr

namespace Checked

variable {α β : Type}

def map (f : α → β) : Checked α → Checked β
  | .valid a => .valid (f a)
  | .invalid defects => .invalid defects

/-- Applies a function if it and its argument are valid; else the defects of both count. -/
def seq (f : Checked (α → β)) (a : Unit → Checked α) : Checked β :=
  match f, a () with
  | .valid f, .valid a => .valid (f a)
  | .valid _, .invalid defects => .invalid defects
  | .invalid defects, .valid _ => .invalid defects
  | .invalid defects, .invalid more => .invalid (defects ++ more)

instance : Applicative Checked where
  pure := .valid
  seq := seq

def under (step : Step) : Checked α → Checked α
  | .valid a => .valid a
  | .invalid defects => .invalid (defects.map fun d => { d with path := step :: d.path })

def refuse (problem : Problem) (input : Value) : Checked α := .invalid [{ problem, input }]

def collect : List (Checked α) → Checked (List α)
  | [] => .valid []
  | a :: as => List.cons <$> a <*> collect as

def orReject (model : String) : Checked α → Except Rejection α
  | .valid a => .ok a
  | .invalid defects => .error ⟨model, defects⟩

end Checked

abbrev Decoder (α : Type) := Value → Checked α

namespace Decoder

variable {α : Type}

def text : Decoder String
  | .str s => .valid s
  | v => .refuse .notText v

def optional (decode : Decoder α) : Decoder (Option α)
  | .null => .valid none
  | v => (decode v).map some

def list (decode : Decoder α) : Decoder (List α)
  | .list items =>
    .collect (items.mapIdx fun position item => (decode item).under (.index position))
  | v => .refuse .notList v

def fields : Decoder Fields
  | .object fields => .valid fields
  | v => .refuse .notObject v

def table (decode : Decoder α) : Decoder (Table α)
  | .object fields =>
    .collect (fields.map fun (key, v) => ((decode v).under (.key key)).map fun a => (key, a))
  | v => .refuse .notObject v

def among (values : List α) (name : α → String) : Decoder α := fun v =>
  let found := match v with
    | .str s => values.find? (name · == s)
    | _ => none
  match found with
  | some a => .valid a
  | none => .refuse (.notAmong (values.map name)) v

/-- The distance from zero that a floating point number has to stay below to be read as an integer
or as a flag. -/
def wordLimit : Nat := 9223372036854775808

def integerText (s : String) : Checked Int :=
  match LooseNumeral.integer s with
  | .ok n => .valid n
  | .error .form => .refuse .notIntegerText (.str s)
  | .error .size => .refuse .oversized (.str s)

/-- An integer, a flag as 0 or 1, a number without a fraction, or a text that shows an integer. -/
def integer : Decoder Int
  | .int n => .valid n
  | .bool b => .valid (if b then 1 else 0)
  | .float x =>
    if x.isFinite then
      match x.whole? with
      | some n => if n.natAbs < wordLimit then .valid n else .refuse .oversized (.float x)
      | none => .refuse .fraction (.float x)
    else .refuse .notFinite (.float x)
  | .str s => integerText s
  | v => .refuse .notInteger v

def float : Decoder Binary64
  | .float x => .valid x
  | .int n => if (Binary64.ofInt n).isFinite then .valid (.ofInt n) else .refuse .notFloat (.int n)
  | .bool b => .valid (.ofInt (if b then 1 else 0))
  | .str s =>
    match LooseNumeral.float? s with
    | some x => .valid x
    | none => .refuse .notFloatText (.str s)
  | v => .refuse .notFloat v

def flagWord? (s : String) : Option Bool :=
  let word := String.ofList (s.toList.map Char.toLower)
  if ["0", "off", "f", "false", "n", "no"].contains word then some false
  else if ["1", "on", "t", "true", "y", "yes"].contains word then some true
  else none

def flagNumber (v : Value) (n : Int) : Checked Bool :=
  if n = 0 then .valid false else if n = 1 then .valid true else .refuse .notFlagWord v

def flag : Decoder Bool
  | .bool b => .valid b
  | .int n =>
    if -wordLimit ≤ n ∧ n < wordLimit then flagNumber (.int n) n else .refuse .notFlag (.int n)
  | .float x =>
    match x.whole?.filter (·.natAbs < wordLimit) with
    | some n => flagNumber (.float x) n
    | none => .refuse .notFlag (.float x)
  | .str s =>
    match flagWord? s with
    | some b => .valid b
    | none => .refuse .notFlagWord (.str s)
  | v => .refuse .notFlag v

def model (name : String) (read : Fields → Checked α) : Decoder α
  | .object fields => read fields
  | v => .refuse (.notModel name) v

end Decoder

/-- Reads a field under the first of its names that is there, even if its value is null. -/
def field {α : Type} (fields : Fields) (name : String) (decode : Decoder α) (default : Option α)
    (aliases : List String) : Checked α :=
  match (name :: aliases).find? fields.has with
  | some key => (decode (fields.get key)).under (.key key)
  | none =>
    match default with
    | some a => .valid a
    | none => .invalid [{ problem := .missing, path := [.key name], input := .object fields }]

def required {α : Type} (fields : Fields) (name : String) (decode : Decoder α)
    (aliases : List String := []) : Checked α :=
  field fields name decode none aliases

def defaulted {α : Type} (fields : Fields) (name : String) (decode : Decoder α) (default : α)
    (aliases : List String := []) : Checked α :=
  field fields name decode (some default) aliases

end Document

end LayerGraph
