import LayerGraph.Json.Reader
import LayerGraph.Text.Lines
import LayerGraph.Text.Utf8
set_option autoImplicit false

namespace LayerGraph.Service.Address

def bytes : List Char → List Nat
  | '%' :: a :: b :: rest =>
    match Json.hexDigit? a, Json.hexDigit? b with
    | some a, some b => (16 * a + b) :: bytes rest
    | _, _ => 37 :: bytes (a :: b :: rest)
  | c :: rest => (String.utf8EncodeChar c).map (·.toNat) ++ bytes rest
  | [] => []

/-- The segments of an address; the first is empty if the path starts with a slash. -/
def segments (address : String) : List String :=
  Text.splitOn '/' (Text.ofUtf8 (bytes (address.toList.takeWhile (· != '?'))))

def dropBreak : List String → List String
  | [] => []
  | [last] =>
    match last.toList.reverse with
    | '\n' :: rest => [String.ofList rest.reverse]
    | _ => [last]
  | segment :: more => segment :: dropBreak more

end LayerGraph.Service.Address
