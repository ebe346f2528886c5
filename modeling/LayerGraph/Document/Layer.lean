import LayerGraph.Document.Graph
import LayerGraph.Layer.Basic
set_option autoImplicit false

namespace LayerGraph

open Document

namespace Param

def toValue (p : Param) : Value :=
  .object [("label", .str p.label), ("type", .str p.type.name), ("default", p.default),
    ("min", .ofOption .float p.min), ("max", .ofOption .float p.max),
    ("step", .ofOption .float p.step),
    ("options", .ofOption (fun options => .list (options.map .str)) p.options),
    ("required", .bool p.required), ("help", .ofOption .str p.help)]

def decode : Decoder Param := .model "ParamDef" fun fields =>
  Param.mk <$> Document.required fields "label" .text
    <*> Document.required fields "type" (.among ParamType.all ParamType.name)
    <*> Document.required fields "default" .valid
    <*> defaulted fields "min" (.optional .float) none
    <*> defaulted fields "max" (.optional .float) none
    <*> defaulted fields "step" (.optional .float) none
    <*> defaulted fields "options" (.optional (.list .text)) none
    <*> defaulted fields "required" .flag false
    <*> defaulted fields "help" (.optional .text) none

end Param

structure LayerInfo where
  kind : String
  description : String
  category : String
  params : Schema
  minInputs : Int
  maxInputs : Option Int := none
  outputs : Int
  deriving DecidableEq, Repr

def Layer.describe (layer : Layer) : LayerInfo where
  kind := layer.kind
  description := layer.description
  category := layer.category
  params := layer.schema
  minInputs := layer.minInputs
  maxInputs := layer.maxInputs.map fun (most : Nat) => most
  outputs := layer.outputs

namespace LayerInfo

def toFields (info : LayerInfo) : Fields :=
  [("kind", .str info.kind), ("description", .str info.description),
    ("category", .str info.category),
    ("params", .object (info.params.map fun (key, p) => (key, p.toValue))),
    ("min_inputs", .int info.minInputs), ("max_inputs", .ofOption .int info.maxInputs),
    ("outputs", .int info.outputs)]

def toValue (info : LayerInfo) : Value := .object info.toFields

def decode : Decoder LayerInfo := .model "NodeKindInfo" fun fields =>
  LayerInfo.mk <$> required fields "kind" .text <*> required fields "description" .text
    <*> required fields "category" .text <*> required fields "params" (.table Param.decode)
    <*> required fields "min_inputs" .integer
    <*> defaulted fields "max_inputs" (.optional .integer) none
    <*> required fields "outputs" .integer

end LayerInfo

end LayerGraph
