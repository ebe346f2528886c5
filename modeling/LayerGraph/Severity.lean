import LayerGraph.Fault
set_option autoImplicit false

namespace LayerGraph

inductive Severity where
  | warning | error
  deriving DecidableEq, Repr

inductive Status where
  | pending | valid | warning | error
  deriving DecidableEq, Repr

def Severity.name : Severity → String
  | .warning => "warning"
  | .error => "error"

def Severity.all : List Severity := [.warning, .error]

def Severity.status : Severity → Status
  | .warning => .warning
  | .error => .error

namespace Status

def name : Status → String
  | .pending => "pending"
  | .valid => "valid"
  | .warning => "warning"
  | .error => "error"

def all : List Status := [.pending, .valid, .warning, .error]

def rank : Status → Nat
  | .pending => 0
  | .valid => 1
  | .warning => 2
  | .error => 3

def escalate (current new : Status) : Status := if current.rank < new.rank then new else current

end Status

end LayerGraph
