import LayerGraph.Graph.Basic
import LayerGraph.Program.Model
import LayerGraph.Text.Lines
set_option autoImplicit false

namespace LayerGraph.Program

open Text (indent lines)

def Declaration.text (d : Declaration) : String := "self." ++ d.name ++ " = " ++ d.call

def Statement.text (s : Statement) : String :=
  if s.unpack then s.target ++ ", _ = " ++ s.expression else s.target ++ " = " ++ s.expression

namespace Model

def multiInput (model : Model) : Bool := 1 < model.inputs.length

def constructorLines (model : Model) : List String :=
  "super().__init__()" :: (model.declarations.map (·.text)).eraseDups.flatMap lines

def signature (model : Model) : String :=
  if model.multiInput then "def forward(self, *inputs):" else "def forward(self, x):"

def inputTexts (model : Model) : List String :=
  if model.multiInput then
    model.inputs.mapIdx fun position name =>
      name ++ " = inputs[" ++ Text.decimal position ++ "]"
  else []

def resultText (model : Model) : String :=
  match model.result with
  | [] => "return x"
  | [tensor] => "return " ++ tensor
  | tensors => "return (" ++ ", ".intercalate tensors ++ ")"

def forwardLines (model : Model) : List String :=
  (model.inputTexts ++ model.statements.map (·.text) ++ [model.resultText]).flatMap lines

def render (model : Model) : List String :=
  lines ("class " ++ model.className ++ "(nn.Module):")
    ++ indent 1 ("def __init__(self):" :: indent 1 model.constructorLines
      ++ ["", model.signature] ++ indent 1 model.forwardLines)

end Model

/-- A random tensor of the shape of one sample: without the batch axis, and with one element along
axes of unknown size. -/
def sampleText (shape : Shape) (integral : Bool) : Except Fault String := do
  let axes := if 1 < shape.length then shape.drop 1 else shape
  let sizes ← axes.mapM fun n => writeInt (if 0 < n then n else 1)
  let size := "(" ++ ", ".intercalate sizes ++ (if sizes.length = 1 then "," else "") ++ ")"
  return if integral then "torch.randint(0, 2, " ++ size ++ ")" else "torch.randn(" ++ size ++ ")"

def classCount (training : Training) : Int := max 1 (training.classes.getD 1)

def targetText (training : Training) : Except Fault String := do
  let classes ← writeInt (classCount training)
  if training.loss = .binaryCrossEntropy then
    return "torch.randint(0, 2, (" ++ classes ++ ",)).float()"
  else if training.task = .classification then return "torch.randint(0, " ++ classes ++ ", ())"
  else return "torch.randn(" ++ classes ++ ")"

def samplesText : List String → String
  | [sample] => sample
  | samples => "[" ++ ", ".intercalate samples ++ "]"

def datasetLines (samples : List String) (target : String) (size : Int) :
    Except Fault (List String) := do
  let size ← writeInt size
  return [
    "class SyntheticDataset(Dataset):",
    "    \"\"\"Random samples shaped like the graph input, so the script runs standalone.\"\"\"",
    "",
    "    def __init__(self, size=" ++ size ++ "):",
    "        self.size = size",
    "",
    "    def __len__(self):",
    "        return self.size",
    "",
    "    def __getitem__(self, index):"]
    ++ lines ("        sample = " ++ samplesText samples)
    ++ lines ("        target = " ++ target)
    ++ ["        return sample, target"]

def stepLines (mixed : Bool) (call : String) : List String :=
  if mixed then [
    "optimizer.zero_grad()",
    "with torch.autocast(device_type=device.type, enabled=scaler.is_enabled()):",
    "    outputs = " ++ call,
    "    loss = criterion(outputs, targets)",
    "scaler.scale(loss).backward()",
    "scaler.step(optimizer)",
    "scaler.update()"]
  else [
    "optimizer.zero_grad()",
    "outputs = " ++ call,
    "loss = criterion(outputs, targets)",
    "loss.backward()",
    "optimizer.step()"]

def trainingLines (training : Training) (multiInput : Bool) : List String :=
  let toDevice :=
    if multiInput then "[tensor.to(device) for tensor in inputs]" else "inputs.to(device)"
  let call := if multiInput then "model(*inputs)" else "model(inputs)"
  [
    "def train_one_epoch(model, dataloader, criterion, optimizer, device, scaler=None):",
    "    model.train()",
    "    loss_total = 0.0",
    "    for inputs, targets in dataloader:",
    "        inputs = " ++ toDevice,
    "        targets = targets.to(device)"]
    ++ indent 2 (stepLines training.mixedPrecision call)
    ++ [
    "        loss_total += loss.item()",
    "    return loss_total / max(1, len(dataloader))",
    "",
    "",
    "def evaluate(model, dataloader, criterion, device):",
    "    model.eval()",
    "    loss_total = 0.0",
    "    with torch.no_grad():",
    "        for inputs, targets in dataloader:",
    "            inputs = " ++ toDevice,
    "            targets = targets.to(device)",
    "            outputs = " ++ call,
    "            loss_total += criterion(outputs, targets).item()",
    "    return loss_total / max(1, len(dataloader))"]

def optimizerText : Optimizer → String
  | .adam => "torch.optim.Adam(model.parameters(), lr=args.lr)"
  | .sgd => "torch.optim.SGD(model.parameters(), lr=args.lr, momentum=0.9)"
  | .adamW => "torch.optim.AdamW(model.parameters(), lr=args.lr)"

def lossText (loss : Loss) : String := "nn." ++ loss.name ++ "()"

def scalerText (mixed : Bool) : String :=
  if mixed then
    "scaler = torch.amp.GradScaler(device.type, enabled=device.type == \"cuda\")"
  else "scaler = None"

def mainLines (training : Training) (className : String) : Except Fault (List String) := do
  let epochs ← writeInt training.epochs
  let batch ← writeInt training.batchSize
  let rate := String.ofList (Layout.literal.write training.learningRate)
  return ["def main():"]
    ++ lines ("    parser = argparse.ArgumentParser(description=\"" ++ className
      ++ " training stub\")")
    ++ [
    "    parser.add_argument(\"--epochs\", type=int, default=" ++ epochs ++ ")",
    "    parser.add_argument(\"--batch-size\", type=int, default=" ++ batch ++ ")",
    "    parser.add_argument(\"--lr\", type=float, default=" ++ rate ++ ")",
    "    parser.add_argument(\"--device\", type=str, default=\"" ++ training.device.name
      ++ "\", choices=[\"auto\", \"cpu\", \"cuda\"])",
    "    args = parser.parse_args()",
    "",
    "    if args.device == \"cuda\" and torch.cuda.is_available():",
    "        device = torch.device(\"cuda\")",
    "    elif args.device == \"cpu\":",
    "        device = torch.device(\"cpu\")",
    "    else:",
    "        device = torch.device(\"cuda\" if torch.cuda.is_available() else \"cpu\")",
    ""]
    ++ lines ("    model = " ++ className ++ "().to(device)")
    ++ [
    "    criterion = " ++ lossText training.loss,
    "    optimizer = " ++ optimizerText training.optimizer,
    "    " ++ scalerText training.mixedPrecision,
    "",
    "    dataloader = DataLoader(SyntheticDataset(), batch_size=args.batch_size)",
    "    for epoch in range(args.epochs):",
    "        train_loss = train_one_epoch(model, dataloader, criterion, optimizer, device, scaler)",
    "        val_loss = evaluate(model, dataloader, criterion, device)",
    "        print(f\"Epoch \x7bepoch + 1\x7d: train_loss=\x7btrain_loss:.4f\x7d "
      ++ "val_loss=\x7bval_loss:.4f\x7d\")",
    "",
    "",
    "if __name__ == \"__main__\":",
    "    main()"]

end LayerGraph.Program
