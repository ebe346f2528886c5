import LayerGraph.Number.Binary64
import LayerGraph.Text.Quoted
set_option autoImplicit false

namespace LayerGraph

structure Decimal where
  coefficient : Nat
  exponent : Int
  deriving DecidableEq, Repr

namespace Decimal

def rank (d : Decimal) : Nat :=
  Binary64.nearestRank (d.coefficient * Nat.pow 10 d.exponent.toNat)
    (Nat.pow 10 (-d.exponent).toNat)

def floorLog10 (num den : Nat) : Int :=
  let e : Int := (Nat.toDigits 10 num).length - (Nat.toDigits 10 den).length
  if den * Nat.pow 10 e.toNat ≤ num * Nat.pow 10 (-e).toNat then e else e - 1

/-- On the grid of the multiples of `10 ^ exponent`, the neighbour of a magnitude that reads back
to it; the nearer neighbour if both do. -/
def onGrid? (rank : Nat) (exponent : Int) : Option Decimal :=
  let (num, den) := Binary64.ratio rank
  let num := num * Nat.pow 10 (-exponent).toNat
  let den := den * Nat.pow 10 exponent.toNat
  let near := Binary64.divNearest num den
  let below := num / den
  let far := if near = below then below + 1 else below
  if Decimal.rank ⟨near, exponent⟩ = rank then some ⟨near, exponent⟩
  else if Decimal.rank ⟨far, exponent⟩ = rank then some ⟨far, exponent⟩
  else none

def exact (rank : Nat) : Decimal :=
  let q := Binary64.scale rank
  ⟨Binary64.significand rank * Nat.pow 2 q.toNat * Nat.pow 5 (-q).toNat, min q 0⟩

/-- The decimal with the fewest digits that reads back to a magnitude. -/
def shortest (rank : Nat) : Decimal :=
  let (num, den) := Binary64.ratio rank
  let top := floorLog10 num den
  ((List.range 17).findSome? fun (more : Nat) => onGrid? rank (top - more)).getD (exact rank)

/-- The digits from the first to the last that is not zero, and the number of places that the point
stands to the right of their start. -/
def places (d : Decimal) : List Char × Int :=
  let all := Nat.toDigits 10 d.coefficient
  match (all.reverse.dropWhile (· == '0')).reverse with
  | [] => (['0'], 1)
  | digits => (digits, (all.length : Int) + d.exponent)

end Decimal

/-- How a decimal is laid out: positionally if its first digit stands for a power of ten from
`least` to `greatest`, else with an exponent of at least `exponentWidth` digits. -/
structure Layout where
  least : Int
  greatest : Int
  exponentWidth : Nat
  nan : String
  infinity : String
  negativeInfinity : String
  deriving Repr

namespace Layout

def literal : Layout := ⟨-4, 15, 2, "nan", "inf", "-inf"⟩

def json : Layout := ⟨-5, 15, 1, "null", "null", "null"⟩

def zeros (n : Nat) : List Char := List.replicate n '0'

def positional (digits : List Char) (point : Int) : List Char :=
  if point ≤ 0 then '0' :: '.' :: zeros (-point).toNat ++ digits
  else if digits.length ≤ point.toNat then
    digits ++ zeros (point.toNat - digits.length) ++ ['.', '0']
  else digits.take point.toNat ++ '.' :: digits.drop point.toNat

def scientific (width : Nat) (digits : List Char) (point : Int) : List Char :=
  let power := point - 1
  let sign := if power < 0 then '-' else '+'
  let shown := Nat.toDigits 10 power.natAbs
  let mantissa := match digits with
    | d :: d' :: rest => d :: '.' :: d' :: rest
    | _ => digits
  mantissa ++ 'e' :: sign :: zeros (width - shown.length) ++ shown

def magnitude (layout : Layout) (rank : Nat) : List Char :=
  let (digits, point) := (Decimal.shortest rank).places
  if layout.least < point ∧ point ≤ layout.greatest + 1 then positional digits point
  else scientific layout.exponentWidth digits point

def write (layout : Layout) : Binary64 → List Char
  | .nan => layout.nan.toList
  | .infinite negative => (if negative then layout.negativeInfinity else layout.infinity).toList
  | .finite negative rank =>
    if negative then '-' :: layout.magnitude rank.val else layout.magnitude rank.val

end Layout

end LayerGraph
