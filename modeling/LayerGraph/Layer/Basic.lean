import LayerGraph.Severity
import LayerGraph.Shape
import LayerGraph.Value
set_option autoImplicit false

namespace LayerGraph

inductive ParamType where
  | number | boolean | select | text | numbers
  deriving DecidableEq, Repr

def ParamType.name : ParamType → String
  | .number => "number"
  | .boolean => "boolean"
  | .select => "select"
  | .text => "text"
  | .numbers => "number-array"

def ParamType.all : List ParamType := [.number, .boolean, .select, .text, .numbers]

structure Param where
  label : String
  type : ParamType
  default : Value
  min : Option Binary64 := none
  max : Option Binary64 := none
  step : Option Binary64 := none
  options : Option (List String) := none
  required : Bool := false
  help : Option String := none
  deriving DecidableEq, Repr

abbrev Schema := Table Param

def Schema.defaults (schema : Schema) : Fields := schema.map fun (key, p) => (key, p.default)

/-- Lays given parameters over the defaults; further ones follow in their own order. -/
def Schema.resolve (schema : Schema) (params : Fields) : Fields :=
  schema.map (fun (key, p) => (key, (params.get? key).getD p.default))
    ++ params.filter fun (key, _) => !schema.has key

/-- What a check of a layer's inputs finds. Inputs are counted from one, axes from zero. -/
inductive Finding where
  | inFeatures (expected received : Int)
  | inChannels (expected received : Int)
  | numFeatures (kind : String) (expected received : Int)
  | inputSize (kind : String) (expected received : Int)
  | unequalInput (input : Nat)
  | concatRank (input rank expected : Nat)
  | concatSize (input axis : Nat)
  | blockChannels (expected received : Int)
  | blockShortcut
  deriving DecidableEq, Repr

namespace Finding

def severity : Finding → Severity
  | .inFeatures .. | .inChannels .. | .numFeatures .. | .inputSize .. | .unequalInput .. => .error
  | .concatRank .. | .concatSize .. | .blockChannels .. | .blockShortcut => .warning

def shown : Finding → List Int
  | .inFeatures a b | .inChannels a b | .numFeatures _ a b | .inputSize _ a b
  | .blockChannels a b => [a, b]
  | .unequalInput _ | .concatRank _ _ _ | .concatSize _ _ | .blockShortcut => []

def message : Finding → String
  | .inFeatures expected received =>
    "Expected in_features=" ++ Text.decimal expected ++ " but received " ++ Text.decimal received
  | .inChannels expected received =>
    "Conv2d expected in_channels=" ++ Text.decimal expected ++ " but received "
      ++ Text.decimal received
  | .numFeatures kind expected received =>
    kind ++ " expected num_features=" ++ Text.decimal expected ++ " but received "
      ++ Text.decimal received
  | .inputSize kind expected received =>
    "Expected " ++ kind ++ " input_size " ++ Text.decimal expected ++ " but received "
      ++ Text.decimal received
  | .unequalInput input => "Input " ++ Text.decimal input ++ " shape mismatch for Add"
  | .concatRank input rank expected =>
    "Concat input " ++ Text.decimal input ++ " has rank " ++ Text.decimal rank ++ ", expected "
      ++ Text.decimal expected
  | .concatSize input axis =>
    "Concat input " ++ Text.decimal input ++ " mismatch on dim " ++ Text.decimal axis
  | .blockChannels expected received =>
    "Residual expects in_channels " ++ Text.decimal expected ++ " but received "
      ++ Text.decimal received
  | .blockShortcut => "Identity shortcut cannot match the block output; enable use_projection"

def report (finding : Finding) : Except Fault (List Finding) :=
  if finding.shown.all isWritable then .ok [finding] else .error .integerTooLong

end Finding

abbrev ShapeRule := List Shape → Fields → Except Fault (Option Shape)

abbrev CheckRule := List Shape → Fields → Except Fault (List Finding)

abbrev CountRule := Fields → Except Fault Int

structure Layer where
  kind : String
  description : String
  category : String
  schema : Schema
  shape : ShapeRule
  minInputs : Nat := 1
  maxInputs : Option Nat := none
  outputs : Nat := 1
  check : Option CheckRule := none
  module : Option String := none
  count : Option CountRule := none
  stateful : Bool := false

def Layer.resolve (layer : Layer) (params : Fields) : Fields := layer.schema.resolve params

abbrev Catalogue := List Layer

def Catalogue.find? (catalogue : Catalogue) (kind : String) : Option Layer :=
  List.find? (·.kind == kind) catalogue

theorem Catalogue.find?_spec {catalogue : Catalogue} {kind : String} {layer : Layer}
    (h : catalogue.find? kind = some layer) : layer ∈ catalogue ∧ layer.kind = kind :=
  ⟨List.mem_of_find?_eq_some h, by simpa using List.find?_some h⟩

def Catalogue.find (catalogue : Catalogue) (kind : String) : Except Fault Layer :=
  match catalogue.find? kind with
  | some layer => .ok layer
  | none => .error (.unknownKey kind)

def Catalogue.defaults (catalogue : Catalogue) (kind : String) : Except Fault Fields :=
  (catalogue.find kind).map (·.schema.defaults)

end LayerGraph
