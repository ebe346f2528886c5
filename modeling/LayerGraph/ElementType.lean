set_option autoImplicit false

namespace LayerGraph

inductive ElementType where
  | float32 | float16 | bfloat16 | int64 | int32
  deriving DecidableEq, Repr

namespace ElementType

def name : ElementType → String
  | .float32 => "float32"
  | .float16 => "float16"
  | .bfloat16 => "bfloat16"
  | .int64 => "int64"
  | .int32 => "int32"

def all : List ElementType := [.float32, .float16, .bfloat16, .int64, .int32]

def ofName? (s : String) : Option ElementType := all.find? (·.name == s)

def isIntegral : ElementType → Bool
  | .int64 | .int32 => true
  | .float32 | .float16 | .bfloat16 => false

end ElementType

end LayerGraph
