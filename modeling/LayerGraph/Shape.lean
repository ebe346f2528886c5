import LayerGraph.Fault
set_option autoImplicit false

/-!
A shape lists the sizes of the axes of a tensor, the batch axis first. A negative size is symbolic:
it is not known before the tensor is. The modules on layers build their output shapes from the
operations here: collapsing a range of axes, sliding a window along an axis, and comparing sizes.
-/

namespace LayerGraph

abbrev Shape := List Int

namespace Shape

def sizeLabel (n : Int) : String := if n = -1 then "B" else Text.decimal n

def label : Option Shape → Except Fault String
  | none => .ok "?"
  | some shape =>
    if shape.all isWritable then .ok ("[" ++ ",".intercalate (shape.map sizeLabel) ++ "]")
    else .error .integerTooLong

def wrapAxis (axis : Int) (rank : Nat) : Int := if axis < 0 then axis + rank else axis

/-- The number of elements along some axes together, symbolic if one of them is. -/
def extent (sizes : Shape) : Int := if sizes.any (· < 0) then -1 else sizes.foldr (· * ·) 1

/-- Collapses the axes from `start` to `stop`, both included, into one. -/
def flatten (shape : Shape) (start stop : Int) : Except Fault Shape :=
  let rank := shape.length
  let first := wrapAxis start rank
  let last := wrapAxis stop rank
  if shape.isEmpty then .ok []
  else if 0 ≤ first ∧ first ≤ last ∧ last < rank then
    let before := shape.take first.toNat
    let collapsed := (shape.take (last.toNat + 1)).drop first.toNat
    .ok (before ++ extent collapsed :: shape.drop (last.toNat + 1))
  else (ShapeFault.flattenRange start stop rank).raise

def window (size kernel stride padding dilation : Int) : Except Fault Int :=
  if size < 0 then .ok (-1)
  else if stride ≤ 0 then (ShapeFault.stride stride).raise
  else .ok ((size + 2 * padding - dilation * (kernel - 1) - 1) / stride + 1)

structure Window where
  kernel : Int × Int
  stride : Int × Int
  padding : Int × Int
  dilation : Int × Int := (1, 1)
  deriving DecidableEq, Repr

/-- The numbers of positions of a window along height and width. An axis of known size on which no
position is left is a fault. -/
def Window.slide (kind : String) (height width : Int) (w : Window) : Except Fault (Int × Int) := do
  let h ← window height w.kernel.1 w.stride.1 w.padding.1 w.dilation.1
  let v ← window width w.kernel.2 w.stride.2 w.padding.2 w.dilation.2
  if (0 ≤ height ∧ h ≤ 0) ∨ (0 ≤ width ∧ v ≤ 0) then (ShapeFault.noOutput kind h v).raise
  else return (h, v)

def mismatch (actual expected : Int) : Bool := actual != expected && 0 ≤ actual && 0 ≤ expected

def requireRank (kind : String) (shape : Shape) (ranks : List Nat) (layout : Option String) :
    Except Fault Unit :=
  if shape.length ∈ ranks then .ok () else (ShapeFault.rank kind ranks layout shape).raise

end Shape

end LayerGraph
