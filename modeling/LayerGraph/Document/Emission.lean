import LayerGraph.Document.Basic
import LayerGraph.Program.Script
set_option autoImplicit false

namespace LayerGraph.Program.Emission

open Document

def toValue (emission : Emission) : Value :=
  .object [("code", .str emission.code), ("errors", .list (emission.errors.map .str)),
    ("warnings", .list (emission.warnings.map .str))]

def decode : Decoder Emission := .model "CodegenResult" fun fields =>
  Emission.mk <$> defaulted fields "code" .text "" <*> defaulted fields "errors" (.list .text) []
    <*> defaulted fields "warnings" (.list .text) []

end LayerGraph.Program.Emission
