import LayerGraph.Document.Basic
set_option autoImplicit false

namespace LayerGraph.Service

open Document

structure Settings where
  name : String := "ShapeCanvas API"
  logLevel : String := "INFO"
  allowedOrigins : String := "http://localhost:3000,http://127.0.0.1:3000"
  className : String := "VisualNet"
  datasetSize : Int := 4
  deriving DecidableEq, Repr

namespace Settings

def fieldNames : List String :=
  ["app_name", "log_level", "allowed_origins", "model_class_name", "synthetic_dataset_size"]

/-- The fields under the names of settings, which are known in upper and lower case; of several
spellings the first one counts. Other names are kept. -/
def named : Fields → Fields :=
  List.foldl (fun fields (key, v) =>
    let lowered := Text.lower key
    let name := if fieldNames.contains lowered then lowered else key
    if fields.has name then fields else fields.put name v) []

def others (fields : Fields) : Checked Unit :=
  match fields.filter fun (key, _) => !fieldNames.contains key with
  | [] => .valid ()
  | extra => .invalid (extra.map fun (key, v) => ⟨.unexpected, [.key key], v⟩)

def decodeFields (fields : Fields) : Checked Settings :=
  let d : Settings := {}
  (fun settings _ => settings) <$>
    (Settings.mk <$> defaulted fields "app_name" .text d.name
      <*> defaulted fields "log_level" .text d.logLevel
      <*> defaulted fields "allowed_origins" .text d.allowedOrigins
      <*> defaulted fields "model_class_name" .text d.className
      <*> defaulted fields "synthetic_dataset_size" .integer d.datasetSize)
    <*> others fields

def decode : Decoder Settings := .model "Settings" fun fields => decodeFields (named fields)

def origins (settings : Settings) : List String :=
  ((Text.splitOn ',' settings.allowedOrigins).map Text.trim).filter fun origin => !origin.isEmpty

def toValue (settings : Settings) : Value :=
  .object [("app_name", .str settings.name), ("log_level", .str settings.logLevel),
    ("allowed_origins", .str settings.allowedOrigins),
    ("model_class_name", .str settings.className),
    ("synthetic_dataset_size", .int settings.datasetSize)]

end Settings

end LayerGraph.Service
