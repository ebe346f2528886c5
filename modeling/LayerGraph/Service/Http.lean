import LayerGraph.Document.Basic
import LayerGraph.Json.Encoding
import LayerGraph.Json.Reader
set_option autoImplicit false

namespace LayerGraph.Service

open Document

inductive Payload where
  | nothing
  | text (s : String)
  | data (v : Value)
  deriving DecidableEq, Repr

structure Request where
  method : String
  address : String
  payload : Payload := .nothing
  deriving DecidableEq, Repr

inductive Body where
  | json (v : Value)
  | text (s : String)
  deriving DecidableEq, Repr

structure Response where
  status : Nat
  contentType : String
  disposition : Option String := none
  allow : Option String := none
  body : Body
  deriving DecidableEq, Repr

namespace Response

def broken : Response :=
  ⟨500, "text/plain; charset=utf-8", none, none, .text "Internal Server Error"⟩

/-- A value as the answer; integers that are too long to be written break it. -/
def json (v : Value) (status : Nat := 200) : Response :=
  if v.writable then ⟨status, "application/json", none, none, .json v.finiteOnly⟩ else broken

def detail (status : Nat) (v : Value) : Response :=
  if v.finiteOnly = v then json (.object [("detail", v)]) status else broken

def notFound (message : String) : Response := detail 404 (.str message)

def wrongMethod (allowed : String) : Response :=
  { detail 405 (.str "Method Not Allowed") with allow := some allowed }

end Response

def Response.defects (defects : List Defect) : Response :=
  .detail 422 (.list (defects.map (·.toValue)))

def unreadable (problem : Json.Problem) (offset : Nat) : Response :=
  .detail 422 (.list [.object [("type", .str "json_invalid"),
    ("loc", .list [.str "body", .int offset]), ("msg", .str "JSON decode error"),
    ("input", .object []), ("ctx", .object [("error", .str problem.message)])]])

def unparsed : Response := .detail 400 (.str "There was an error parsing the body")

def Payload.read? : Payload → Except Response (Option Value)
  | .nothing => .ok none
  | .data v => .ok (some v)
  | .text s =>
    if s.isEmpty then .ok none
    else
      match (Json.characters? s.toList).map Json.readChars with
      | some (.ok v) => .ok (some v)
      | some (.error (.malformed problem offset)) => .error (unreadable problem offset)
      | some (.error .integerTooLong) | some (.error .loneSurrogate) | none => .error unparsed

/-- Decodes the payload of a request, which has to be there; null is there, too. -/
def Payload.decode {α : Type} (payload : Payload) (decode : Decoder α) : Except Response α := do
  let checked ← match payload.read? with
    | .error response => .error response
    | .ok none => .ok (.refuse .missing .null)
    | .ok (some v) => .ok (decode v)
  match checked.under (.key "body") with
  | .valid a => .ok a
  | .invalid defects => .error (.defects defects)

/-- A model may also come from an object with attributes, which is said when it is neither. -/
def orAttributes {α : Type} : Checked α → Checked α
  | .valid a => .valid a
  | .invalid defects => .invalid (defects.map fun d =>
      match d.problem with
      | .notModel _ => { d with problem := .notAttributes }
      | _ => d)

end LayerGraph.Service
