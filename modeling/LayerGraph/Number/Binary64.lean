set_option autoImplicit false

/-!
A finite number is a sign and the rank of its magnitude among the magnitudes in increasing order:
the rank `e * 2 ^ 52 + f` stands for `f * 2 ^ -1074` when `e = 0` and for `(2 ^ 52 + f) * 2 ^ (e -
1075)` otherwise. All arithmetic is exact; rounding goes to the nearest magnitude, a half to the
even rank.
-/

namespace LayerGraph

def binade : Nat := 4503599627370496

inductive Binary64 where
  | nan
  | infinite (negative : Bool)
  | finite (negative : Bool) (rank : Fin (2047 * binade))
  deriving DecidableEq, Repr

namespace Binary64

/-- The magnitude of a rank is `significand rank * 2 ^ scale rank`. -/
def significand (rank : Nat) : Nat :=
  if rank < binade then rank else binade + rank % binade

def scale (rank : Nat) : Int :=
  if rank < binade then -1074 else ((rank / binade : Nat) : Int) - 1075

def ratio (rank : Nat) : Nat × Nat :=
  let q := scale rank
  (significand rank * Nat.pow 2 q.toNat, Nat.pow 2 (-q).toNat)

def divNearest (num den : Nat) : Nat :=
  let q := num / den
  let r := num % den
  if 2 * r < den then q else if den < 2 * r then q + 1 else if q % 2 = 0 then q else q + 1

def floorLog2 (num den : Nat) : Int :=
  let e : Int := (num.log2 : Int) - (den.log2 : Int)
  if den * Nat.pow 2 e.toNat ≤ num * Nat.pow 2 (-e).toNat then e else e - 1

/-- The rank nearest to a quotient; it is beyond the finite ranks if the quotient is too great. -/
def nearestRank (num den : Nat) : Nat :=
  if num = 0 then 0
  else
    let q := max (floorLog2 num den - 52) (-1074)
    (q + 1074).toNat * binade
      + divNearest (num * Nat.pow 2 (-q).toNat) (den * Nat.pow 2 q.toNat)

def ofRank (negative : Bool) (rank : Nat) : Binary64 :=
  if h : rank < 2047 * binade then .finite negative ⟨rank, h⟩ else .infinite negative

def ofRatio (negative : Bool) (num den : Nat) : Binary64 := ofRank negative (nearestRank num den)

def ofInt (n : Int) : Binary64 := ofRatio (n < 0) n.natAbs 1

/-- The nearest number to `coefficient * 10 ^ exponent`. Beyond 400 decimal places on either side
of the point only the outcome matters, so no such power is computed. -/
def ofDecimal (negative : Bool) (coefficient : Nat) (exponent : Int) : Binary64 :=
  let places : Int := (Nat.toDigits 10 coefficient).length + exponent
  if coefficient = 0 ∨ places < -400 then ofRank negative 0
  else if 400 < places then .infinite negative
  else ofRatio negative (coefficient * Nat.pow 10 exponent.toNat) (Nat.pow 10 (-exponent).toNat)

def isZero : Binary64 → Bool
  | .finite _ rank => rank.val == 0
  | _ => false

def isFinite : Binary64 → Bool
  | .finite _ _ => true
  | _ => false

def truncate? : Binary64 → Option Int
  | .finite negative rank =>
    let (num, den) := ratio rank.val
    let n : Int := (num / den : Nat)
    some (if negative then -n else n)
  | _ => none

def whole? : Binary64 → Option Int
  | .finite negative rank =>
    let (num, den) := ratio rank.val
    let n : Int := (num / den : Nat)
    if num % den = 0 then some (if negative then -n else n) else none
  | _ => none

end Binary64

end LayerGraph
