import LayerGraph.Document.Context
import LayerGraph.Document.Emission
import LayerGraph.Document.Layer
import LayerGraph.Graph.Count
import LayerGraph.Graph.Import
import LayerGraph.Graph.Template
import LayerGraph.Service.Address
import LayerGraph.Service.Http
import LayerGraph.Service.Settings
set_option autoImplicit false

namespace LayerGraph.Service

open Document

inductive Method where
  | get | post
  deriving DecidableEq, Repr

def Method.name : Method → String
  | .get => "GET"
  | .post => "POST"

inductive Route where
  | root
  | health
  | kinds
  | defaults (kind : String)
  | infer
  | validate
  | normalize
  | templates
  | template (name : String)
  | program
  | download
  deriving DecidableEq, Repr

namespace Route

def ofWords? : List String → Option Route
  | ["", ""] => some .root
  | ["", "health"] => some .health
  | ["", "api", "registry"] => some .kinds
  | ["", "api", "registry", kind, "defaults"] =>
    if kind.isEmpty then none else some (.defaults kind)
  | ["", "api", "graphs", "infer"] => some .infer
  | ["", "api", "graphs", "validate"] => some .validate
  | ["", "api", "graphs", "normalize"] => some .normalize
  | ["", "api", "graphs", "templates"] => some .templates
  | ["", "api", "codegen", "pytorch"] => some .program
  | ["", "api", "codegen", "pytorch", "download"] => some .download
  | _ => none

/-- The route of a path. A line break at the end of the path belongs to a name that stands there,
and does not count after a fixed word. -/
def ofSegments? : List String → Option Route
  | ["", "api", "graphs", "templates", name] =>
    if name.isEmpty then none else some (.template name)
  | segments => ofWords? (Address.dropBreak segments)

def method : Route → Method
  | .root | .health | .kinds | .defaults _ | .templates | .template _ => .get
  | .infer | .validate | .normalize | .program | .download => .post

end Route

def answer (result : Except Response Response) : Response :=
  match result with
  | .ok response => response
  | .error response => response

def orBroken {α : Type} (result : Except Fault α) : Except Response α :=
  result.mapError fun _ => .broken

def graphOf (request : Request) : Except Response Graph :=
  request.payload.decode fun v => orAttributes (Graph.decode v)

def report (graph : Graph) : Except Fault Report := do
  let context ← graph.infer .standard
  if context.hasErrors then return ⟨context, graph.issues, none⟩
  else
    let parameters ← graph.countParameters .standard
    return ⟨context, graph.issues, some parameters⟩

def emission (settings : Settings) (now : Program.Moment) (graph : Graph) :
    Except Fault Program.Emission :=
  Program.emit .standard graph
    { className := settings.className, datasetSize := settings.datasetSize, now }

def snakeCase (name : String) : String :=
  match name.toList with
  | [] => ""
  | c :: cs =>
    String.ofList (c.toLower :: cs.flatMap fun c => if c.isUpper then ['_', c.toLower] else [c])

def fileResponse (settings : Settings) (emission : Program.Emission) : Response :=
  if emission.code.isEmpty then .detail 422 (.list (emission.errors.map .str))
  else
    { status := 200, contentType := "text/x-python; charset=utf-8"
      disposition :=
        some ("attachment; filename=\"" ++ snakeCase settings.className ++ ".py\"")
      body := .text emission.code }

def importResponse (fields : Fields) : Response :=
  match Graph.ofDocument .standard (.object fields) with
  | .ok graph => if graph.nestsWithin Json.nestingLimit then .json graph.toValue else .broken
  | .error (.rejected rejection) => .defects rejection.defects
  | .error (.fault _) => .broken

def Route.respond (settings : Settings) (now : Program.Moment) (request : Request) :
    Route → Except Response Response
  | .root => .ok (.json (.object [("status", .str "ok"), ("service", .str settings.name)]))
  | .health =>
    .ok (.json (.object [("status", .str "healthy"),
      ("node_kinds", .int Catalogue.standard.length)]))
  | .kinds =>
    .ok (.json (.list (Catalogue.standard.map fun layer => layer.describe.toValue)))
  | .defaults kind =>
    match Catalogue.standard.find? kind with
    | none => .ok (.notFound ("Unknown node kind: " ++ kind))
    | some layer => .ok (.json (.object layer.schema.defaults))
  | .infer => do
    let graph ← graphOf request
    let report ← orBroken (report graph)
    return .json report.toValue
  | .validate => do
    let graph ← graphOf request
    return .json (.list (graph.issues.map (·.toValue)))
  | .normalize => do
    let fields ← request.payload.decode Decoder.fields
    return importResponse fields
  | .templates => .ok (.json (.list (Template.names.map .str)))
  | .template name =>
    match Template.all.get? name with
    | none => .ok (.notFound ("Unknown template: " ++ name))
    | some graph => .ok (.json graph.toValue)
  | .program => do
    let graph ← graphOf request
    let emission ← orBroken (emission settings now graph)
    return .json emission.toValue
  | .download => do
    let graph ← graphOf request
    let emission ← orBroken (emission settings now graph)
    return fileResponse settings emission

def handle (settings : Settings) (now : Program.Moment) (request : Request) : Response :=
  match Route.ofSegments? (Address.segments request.address) with
  | none => .notFound "Not Found"
  | some route =>
    if request.method = route.method.name then answer (route.respond settings now request)
    else .wrongMethod route.method.name

end LayerGraph.Service
