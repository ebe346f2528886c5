import LayerGraph.Document.Graph
import LayerGraph.Graph.Inference
import LayerGraph.Program.Text
set_option autoImplicit false

/-!
The whole program for a graph: imports, a header with the graph it was made from, the model,
training, the data set and the command line. Nothing is generated for a graph with a node in error.
-/

namespace LayerGraph.Program

/-- A point in time, with the distance from universal time in seconds if it is known. -/
structure Moment where
  year : Nat
  month : Nat
  day : Nat
  hour : Nat := 0
  minute : Nat := 0
  second : Nat := 0
  microsecond : Nat := 0
  offset : Option Int := none
  deriving DecidableEq, Repr

namespace Moment

def padded (width n : Nat) : String :=
  let digits := Nat.toDigits 10 n
  String.ofList (List.replicate (width - digits.length) '0' ++ digits)

def offsetText (offset : Int) : String :=
  let seconds := offset.natAbs
  (if offset < 0 then "-" else "+") ++ padded 2 (seconds / 3600) ++ ":"
    ++ padded 2 (seconds / 60 % 60)
    ++ if seconds % 60 = 0 then "" else ":" ++ padded 2 (seconds % 60)

def text (m : Moment) : String :=
  padded 4 m.year ++ "-" ++ padded 2 m.month ++ "-" ++ padded 2 m.day ++ "T" ++ padded 2 m.hour
    ++ ":" ++ padded 2 m.minute ++ ":" ++ padded 2 m.second
    ++ (if m.microsecond = 0 then "" else "." ++ padded 6 m.microsecond)
    ++ m.offset.elim "" offsetText

def stamp (m : Moment) : String := "Generated on " ++ m.text

end Moment

def importLines : List String := [
  "import argparse",
  "",
  "import torch",
  "import torch.nn as nn",
  "import torch.nn.functional as F",
  "from torch.utils.data import DataLoader, Dataset"]

def residualLines : List String := [
  "class ResidualBlock(nn.Module):",
  "    def __init__(self, in_channels, out_channels, stride=1, use_projection=False):",
  "        super().__init__()",
  "        self.conv1 = nn.Conv2d(in_channels, out_channels, kernel_size=3, stride=stride, "
    ++ "padding=1, bias=False)",
  "        self.bn1 = nn.BatchNorm2d(out_channels)",
  "        self.relu = nn.ReLU(inplace=True)",
  "        self.conv2 = nn.Conv2d(out_channels, out_channels, kernel_size=3, stride=1, "
    ++ "padding=1, bias=False)",
  "        self.bn2 = nn.BatchNorm2d(out_channels)",
  "        self.use_projection = use_projection",
  "        if use_projection:",
  "            self.proj = nn.Sequential(",
  "                nn.Conv2d(in_channels, out_channels, kernel_size=1, stride=stride, bias=False),",
  "                nn.BatchNorm2d(out_channels),",
  "            )",
  "        else:",
  "            self.proj = nn.Identity()",
  "",
  "    def forward(self, x):",
  "        identity = self.proj(x)",
  "        out = self.relu(self.bn1(self.conv1(x)))",
  "        out = self.bn2(self.conv2(out))",
  "        return self.relu(out + identity)"]

def headerLines (document : String) (now : Moment) : List String :=
  Text.comment (["PyTorch model generated by ShapeCanvas", now.stamp, "Serialized graph:"]
    ++ Text.lines document)

def inputSample (graph : Graph) (context : Context) (node : Node) : Except Fault String :=
  match context.results.get? node.id with
  | none => .error (.unknownKey node.id)
  | some result =>
    let shape := match result.shape with
      | some (size :: sizes) => size :: sizes
      | _ => graph.input.shape
    sampleText shape (result.type.any ElementType.isIntegral)

/-- A sample for each graph input in the order of declaration, or one of the input spec if there
are none. -/
def sampleTexts (graph : Graph) (context : Context) : Except Fault (List String) := do
  let samples ←
    (graph.nodes.filter (·.kind == Graph.inputKind)).mapM (inputSample graph context)
  if samples.isEmpty then
    return [← sampleText graph.input.shape graph.input.type.isIntegral]
  else return samples

def joinSections : List (List String) → List String
  | [] => []
  | [ls] => ls
  | ls :: more => ls ++ ["", ""] ++ joinSections more

structure Emission where
  code : String := ""
  errors : List String := []
  warnings : List String := []
  deriving DecidableEq, Repr

structure Settings where
  className : String := "VisualNet"
  datasetSize : Int := 4
  now : Moment
  /-- How deep the params of a graph may be nested in its document. -/
  nesting : Nat := Json.nestingLimit
  deriving DecidableEq, Repr

def scriptLines (graph : Graph) (context : Context) (model : Model) (settings : Settings) :
    Except Fault (List String) := do
  let samples ← sampleTexts graph context
  let document ← graph.dump settings.nesting
  let target ← targetText graph.training
  let dataset ← datasetLines samples target settings.datasetSize
  let main ← mainLines graph.training settings.className
  return joinSections ([importLines ++ [""] ++ headerLines document settings.now]
    ++ (if model.residual then [residualLines] else [])
    ++ [model.render, trainingLines graph.training model.multiInput, dataset, main])
    ++ [""]

def emitWith (catalogue : Catalogue) (graph : Graph) (context : Context) (settings : Settings) :
    Except Fault Emission :=
  if context.hasErrors then
    let errors := context.messages Status.error.name
    .ok { errors :=
      if errors.isEmpty then ["Graph contains errors. Fix issues before exporting."] else errors }
  else do
    let (model, warnings) ← Model.ofGraph catalogue graph settings.className
    let lines ← scriptLines graph context model settings
    return {
      code := Text.unlines lines
      warnings := context.messages Status.warning.name ++ warnings }

def emit (catalogue : Catalogue) (graph : Graph) (settings : Settings) : Except Fault Emission := do
  let context ← graph.infer catalogue
  emitWith catalogue graph context settings

end LayerGraph.Program
