import LayerGraph.Proofs.Writable
import Mathlib.Algebra.Order.Field.Power
import Mathlib.Data.Int.Log
import Mathlib.Data.Rat.Floor
import Mathlib.Tactic.Positivity
set_option autoImplicit false

/-!
The rank nearest to a quotient depends on its value alone, and a rank is the nearest to its own
magnitude. The bounds beyond which no power of ten is computed leave the outcome as it is.
-/

namespace LayerGraph.Binary64

variable {num den num' den' : Nat}

theorem zpow_eq_div {b : Nat} (hb : b ≠ 0) (e : Int) :
    (b : ℚ) ^ e = (Nat.pow b e.toNat : Nat) / (Nat.pow b (-e).toNat : Nat) := by
  have hb' : (b : ℚ) ≠ 0 := Nat.cast_ne_zero.2 hb
  rcases Int.le_total 0 e with h | h
  · obtain ⟨n, rfl⟩ := Int.eq_ofNat_of_zero_le h
    simp
  · obtain ⟨n, hn⟩ := Int.eq_ofNat_of_zero_le (show 0 ≤ -e by omega)
    obtain rfl : e = -(n : Int) := by omega
    simp

theorem le_shifted_iff {b : Nat} (hb : 0 < b) (hden : 0 < den) (e : Int) :
    den * Nat.pow b e.toNat ≤ num * Nat.pow b (-e).toNat ↔ (b : ℚ) ^ e ≤ num / den := by
  have hdown : (0 : ℚ) < (Nat.pow b (-e).toNat : Nat) := Nat.cast_pos.2 (Nat.pow_pos hb)
  have hden' : (0 : ℚ) < den := Nat.cast_pos.2 hden
  rw [zpow_eq_div (by omega), div_le_div_iff₀ hdown hden', mul_comm]
  norm_cast

theorem two_zpow_le_iff {x : ℚ} (hx : 0 < x) {e : Int} : (2 : ℚ) ^ e ≤ x ↔ e ≤ Int.log 2 x := by
  simpa using Int.zpow_le_iff_le_log (b := 2) (by decide) hx

theorem lt_two_zpow_iff {x : ℚ} (hx : 0 < x) {e : Int} : x < (2 : ℚ) ^ e ↔ Int.log 2 x < e := by
  simpa using Int.lt_zpow_iff_log_lt (b := 2) (by decide) hx

theorem floorLog2_eq (hnum : 0 < num) (hden : 0 < den) :
    floorLog2 num den = Int.log 2 ((num : ℚ) / den) := by
  have hpos : (0 : ℚ) < num / den := div_pos (Nat.cast_pos.2 hnum) (Nat.cast_pos.2 hden)
  have htwo : (2 : ℚ) ≠ 0 := two_ne_zero
  have hnumLow : (2 : ℚ) ^ num.log2 ≤ num := mod_cast Nat.log2_self_le (by omega)
  have hnumHigh : (num : ℚ) < 2 ^ (num.log2 + 1) := mod_cast Nat.lt_log2_self
  have hdenLow : (2 : ℚ) ^ den.log2 ≤ den := mod_cast Nat.log2_self_le (by omega)
  have hdenHigh : (den : ℚ) < 2 ^ (den.log2 + 1) := mod_cast Nat.lt_log2_self
  -- Between the powers around both numbers, the quotient is off by a factor of two at most.
  have hlow : (2 : ℚ) ^ ((num.log2 : Int) - den.log2 - 1) ≤ num / den := by
    rw [le_div_iff₀ (by positivity), sub_sub, zpow_sub₀ htwo, div_mul_eq_mul_div,
      div_le_iff₀ (by positivity)]
    calc
      (2 : ℚ) ^ (num.log2 : Int) * den ≤ num * 2 ^ (den.log2 + 1) := by
        rw [zpow_natCast]
        exact mul_le_mul hnumLow hdenHigh.le (by positivity) (by positivity)
      _ = num * 2 ^ ((den.log2 : Int) + 1) := by norm_cast
  have hhigh : (num : ℚ) / den < 2 ^ ((num.log2 : Int) - den.log2 + 1) := by
    rw [div_lt_iff₀ (by positivity), sub_add_eq_add_sub, zpow_sub₀ htwo, div_mul_eq_mul_div,
      lt_div_iff₀ (by positivity)]
    calc
      (num : ℚ) * 2 ^ (den.log2 : Int) < 2 ^ (num.log2 + 1) * den := by
        rw [zpow_natCast]
        exact mul_lt_mul hnumHigh hdenLow (by positivity) (by positivity)
      _ = 2 ^ ((num.log2 : Int) + 1) * den := by norm_cast
  have hle := (two_zpow_le_iff hpos).1 hlow
  have hlt := (lt_two_zpow_iff hpos).1 hhigh
  unfold floorLog2
  extract_lets e
  have hcase : den * Nat.pow 2 e.toNat ≤ num * Nat.pow 2 (-e).toNat ↔
      e ≤ Int.log 2 ((num : ℚ) / den) :=
    (le_shifted_iff (by decide) hden e).trans (mod_cast two_zpow_le_iff hpos)
  split
  · have := hcase.1 ‹_›
    omega
  · have := mt hcase.2 ‹_›
    omega

theorem divNearest_mul {k : Nat} (hk : 0 < k) (num den : Nat) :
    divNearest (num * k) (den * k) = divNearest num den := by
  have hrest : 2 * (num * k % (den * k)) = 2 * (num % den) * k := by
    rw [Nat.mul_mod_mul_right, Nat.mul_assoc]
  simp only [divNearest, Nat.mul_div_mul_right _ _ hk, hrest, Nat.mul_lt_mul_right hk]

theorem divNearest_multiple {k : Nat} (hk : 0 < k) (n : Nat) : divNearest (n * k) k = n := by
  simp only [divNearest, Nat.mul_div_cancel _ hk, Nat.mul_mod_left, Nat.mul_zero, hk, if_true]

theorem divNearest_eq_zero (h : num * 2 < den) : divNearest num den = 0 := by
  have hbelow : num < den := by omega
  rw [divNearest, Nat.div_eq_of_lt hbelow, Nat.mod_eq_of_lt hbelow, Nat.mul_comm, if_pos h]

theorem nearestRank_zero (den : Nat) : nearestRank 0 den = 0 := rfl

theorem nearestRank_mul {k : Nat} (hk : 0 < k) (hden : 0 < den) (num : Nat) :
    nearestRank (num * k) (den * k) = nearestRank num den := by
  rcases Nat.eq_zero_or_pos num with rfl | hnum
  · rw [Nat.zero_mul, nearestRank_zero, nearestRank_zero]
  have hlog : floorLog2 (num * k) (den * k) = floorLog2 num den := by
    rw [floorLog2_eq (by positivity) (by positivity), floorLog2_eq hnum hden, Nat.cast_mul,
      Nat.cast_mul, mul_div_mul_right _ _ (Nat.cast_ne_zero.2 hk.ne')]
  have hnonzero : num * k ≠ 0 := by positivity
  simp only [nearestRank, hlog, if_neg hnonzero, if_neg hnum.ne', Nat.mul_right_comm _ k,
    divNearest_mul hk]

theorem nearestRank_congr (hden : 0 < den) (hden' : 0 < den')
    (h : (num : ℚ) / den = num' / den') : nearestRank num den = nearestRank num' den' := by
  rw [div_eq_div_iff (by positivity) (by positivity)] at h
  have hcross : num * den' = num' * den := mod_cast h
  rw [← nearestRank_mul hden' hden, ← nearestRank_mul hden hden', hcross, Nat.mul_comm den]

theorem ratio_eq (rank : Nat) :
    ratio rank = (significand rank * Nat.pow 2 (scale rank).toNat,
      Nat.pow 2 (-scale rank).toNat) := rfl

theorem ratio_den_pos (rank : Nat) : 0 < (ratio rank).2 := Nat.pow_pos (by decide)

theorem ratio_value (rank : Nat) :
    ((ratio rank).1 : ℚ) / (ratio rank).2 = significand rank * (2 : ℚ) ^ scale rank := by
  have hpow := zpow_eq_div (b := 2) (by decide) (scale rank)
  rw [Nat.cast_ofNat] at hpow
  rw [ratio_eq, hpow, Nat.cast_mul, mul_div_assoc]

theorem rank_eq (rank : Nat) :
    (scale rank + 1074).toNat * binade + significand rank = rank := by
  have hbinade : 0 < binade := by decide
  unfold scale significand
  split
  · simp
  · have hdiv := Nat.div_add_mod rank binade
    have hone := (Nat.one_le_div_iff hbinade).2 (show binade ≤ rank by omega)
    obtain ⟨n, hn⟩ : ∃ n, rank / binade = n + 1 := ⟨rank / binade - 1, by omega⟩
    rw [hn, show (((n + 1 : Nat) : Int) - 1075 + 1074).toNat = n by omega]
    rw [hn, Nat.mul_add, Nat.mul_one, Nat.mul_comm] at hdiv
    omega

theorem scale_eq {rank : Nat} (h : 0 < significand rank) :
    max (Int.log 2 (significand rank * (2 : ℚ) ^ scale rank) - 52) (-1074) = scale rank := by
  have hpos : (0 : ℚ) < significand rank * 2 ^ scale rank := by positivity
  have hbelow : (significand rank : ℚ) * 2 ^ scale rank < 2 ^ (53 + scale rank) := by
    rw [zpow_add₀ two_ne_zero]
    exact mul_lt_mul_of_pos_right (mod_cast significand_lt rank) (by positivity)
  have hlt := (lt_two_zpow_iff hpos).1 hbelow
  by_cases hsmall : rank < binade
  · have hscale : scale rank = -1074 := if_pos hsmall
    omega
  · have habove : (2 : ℚ) ^ (52 + scale rank) ≤ significand rank * 2 ^ scale rank := by
      have hsignificand : 2 ^ 52 ≤ significand rank := by
        rw [significand, if_neg hsmall]
        exact Nat.le_add_right _ _
      rw [zpow_add₀ two_ne_zero]
      exact mul_le_mul_of_nonneg_right (mod_cast hsignificand) (by positivity)
    have hle := (two_zpow_le_iff hpos).1 habove
    have hone := (Nat.one_le_div_iff (by decide)).2 (show binade ≤ rank by omega)
    have hscale : scale rank = ((rank / binade : Nat) : Int) - 1075 := if_neg hsmall
    omega

/-- A rank is the nearest to its own magnitude. -/
theorem nearestRank_ratio (rank : Nat) :
    nearestRank (ratio rank).1 (ratio rank).2 = rank := by
  rcases Nat.eq_zero_or_pos (significand rank) with hzero | hpos
  · have hrank := rank_eq rank
    have hsmall : rank < binade := by
      by_contra hge
      rw [significand, if_neg hge] at hzero
      exact absurd hzero (by unfold binade; omega)
    rw [significand, if_pos hsmall] at hzero
    subst hzero
    rfl
  · have hnum : 0 < (ratio rank).1 := Nat.mul_pos hpos (Nat.pow_pos (by decide))
    have hlog : max (floorLog2 (ratio rank).1 (ratio rank).2 - 52) (-1074) = scale rank := by
      rw [floorLog2_eq hnum (ratio_den_pos rank), ratio_value, scale_eq hpos]
    have hdiv : divNearest ((ratio rank).1 * Nat.pow 2 (-scale rank).toNat)
        ((ratio rank).2 * Nat.pow 2 (scale rank).toNat) = significand rank := by
      rw [ratio_eq, Nat.mul_assoc, Nat.mul_comm (Nat.pow 2 (-scale rank).toNat)]
      exact divNearest_multiple (Nat.mul_pos (Nat.pow_pos (by decide)) (Nat.pow_pos (by decide))) _
    simp only [nearestRank, if_neg hnum.ne', hlog, hdiv]
    exact rank_eq rank

theorem half_lt {k : Nat} {e : Int} (he : e = -(k + 1)) (hden : 0 < den)
    (h : (num : ℚ) / den < 2 ^ e) : num * Nat.pow 2 k * 2 < den := by
  have hden' : (0 : ℚ) < den := Nat.cast_pos.2 hden
  have hpow : (0 : ℚ) < 2 ^ (k + 1) := by positivity
  rw [he, zpow_neg, div_lt_iff₀ hden', inv_mul_eq_div,
    show (k + 1 : Int) = (k + 1 : Nat) from rfl, zpow_natCast, lt_div_iff₀ hpow] at h
  rw [Nat.pow_eq, Nat.mul_assoc, ← Nat.pow_succ]
  exact_mod_cast h

theorem nearestRank_eq_zero (hden : 0 < den) (h : (num : ℚ) / den < 2 ^ (-1075 : Int)) :
    nearestRank num den = 0 := by
  rcases Nat.eq_zero_or_pos num with rfl | hnum
  · exact nearestRank_zero den
  have hpos : (0 : ℚ) < num / den := div_pos (Nat.cast_pos.2 hnum) (Nat.cast_pos.2 hden)
  have hlog := (lt_two_zpow_iff hpos).1 h
  have hscale : max (floorLog2 num den - 52) (-1074) = -1074 := by
    rw [floorLog2_eq hnum hden]
    omega
  have hrounded := divNearest_eq_zero (half_lt (k := (-(-1074) : Int).toNat) (by decide) hden h)
  have hone : den * Nat.pow 2 (-1074 : Int).toNat = den := Nat.mul_one den
  simp only [nearestRank, if_neg hnum.ne', hscale, hone, hrounded]
  rfl

theorem le_nearestRank (hden : 0 < den) (h : (2 : ℚ) ^ (1025 : Int) ≤ num / den) :
    2047 * binade ≤ nearestRank num den := by
  have hpos : (0 : ℚ) < num / den := lt_of_lt_of_le (by positivity) h
  have hnum : 0 < num := by
    by_contra hzero
    simp [show num = 0 by omega] at hpos
  have hlog := (two_zpow_le_iff hpos).1 h
  rw [← floorLog2_eq hnum hden] at hlog
  simp only [nearestRank, if_neg hnum.ne']
  exact Nat.le_add_right_of_le (Nat.mul_le_mul_right _ (by omega))

theorem decimal_value (coefficient : Nat) (exponent : Int) :
    ((coefficient * Nat.pow 10 exponent.toNat : Nat) : ℚ) / (Nat.pow 10 (-exponent).toNat : Nat) =
      coefficient * (10 : ℚ) ^ exponent := by
  have hpow := zpow_eq_div (b := 10) (by decide) exponent
  rw [Nat.cast_ofNat] at hpow
  rw [hpow, Nat.cast_mul, mul_div_assoc]

theorem coefficient_bounds {coefficient : Nat} (h : coefficient ≠ 0) :
    10 ^ ((Nat.toDigits 10 coefficient).length - 1) ≤ coefficient ∧
      coefficient < 10 ^ (Nat.toDigits 10 coefficient).length := by
  have hlength : 0 < (Nat.toDigits 10 coefficient).length := Nat.length_toDigits_pos
  refine ⟨?_, (Nat.length_toDigits_le_iff (by decide) hlength).1 (Nat.le_refl _)⟩
  by_contra hlt
  rcases Nat.eq_zero_or_pos ((Nat.toDigits 10 coefficient).length - 1) with hone | hmore
  · rw [hone] at hlt
    omega
  · have hle : (Nat.toDigits 10 coefficient).length ≤ (Nat.toDigits 10 coefficient).length - 1 :=
      (Nat.length_toDigits_le_iff (by decide) hmore).2 (by omega)
    omega

theorem two_pow_le {k : Nat} (h : k ≤ 3 * 400) : (2 : ℚ) ^ k ≤ 10 ^ 400 :=
  calc
    (2 : ℚ) ^ k ≤ 2 ^ (3 * 400) := pow_le_pow_right₀ (by norm_num) h
    _ = (2 ^ 3) ^ 400 := pow_mul _ _ _
    _ ≤ 10 ^ 400 := pow_le_pow_left₀ (by norm_num) (by norm_num) _

theorem nearestRank_of_small {coefficient : Nat} {exponent : Int} (h : coefficient ≠ 0)
    (hplaces : (Nat.toDigits 10 coefficient).length + exponent < -400) :
    nearestRank (coefficient * Nat.pow 10 exponent.toNat) (Nat.pow 10 (-exponent).toNat) = 0 := by
  refine nearestRank_eq_zero (Nat.pow_pos (by decide)) ?_
  rw [decimal_value]
  calc
    (coefficient : ℚ) * 10 ^ exponent
        < 10 ^ (Nat.toDigits 10 coefficient).length * 10 ^ exponent :=
      mul_lt_mul_of_pos_right (mod_cast (coefficient_bounds h).2) (by positivity)
    _ = 10 ^ ((Nat.toDigits 10 coefficient).length + exponent) := by
      rw [← zpow_natCast, ← zpow_add₀ (by norm_num)]
    _ ≤ 10 ^ (-400 : Int) := zpow_le_zpow_right₀ (by norm_num) (by omega)
    _ ≤ 2 ^ (-1075 : Int) := by
      rw [zpow_neg, zpow_neg, zpow_ofNat, zpow_ofNat]
      exact inv_anti₀ (by positivity) (two_pow_le (by decide))

theorem le_nearestRank_of_great {coefficient : Nat} {exponent : Int} (h : coefficient ≠ 0)
    (hplaces : 400 < (Nat.toDigits 10 coefficient).length + exponent) :
    2047 * binade ≤ nearestRank (coefficient * Nat.pow 10 exponent.toNat)
      (Nat.pow 10 (-exponent).toNat) := by
  have hlength : 0 < (Nat.toDigits 10 coefficient).length := Nat.length_toDigits_pos
  refine le_nearestRank (Nat.pow_pos (by decide)) ?_
  rw [decimal_value]
  calc
    (2 : ℚ) ^ (1025 : Int) ≤ 10 ^ (400 : Int) := by
      rw [zpow_ofNat, zpow_ofNat]
      exact two_pow_le (by decide)
    _ ≤ 10 ^ ((Nat.toDigits 10 coefficient).length + exponent - 1) :=
      zpow_le_zpow_right₀ (by norm_num) (by omega)
    _ = 10 ^ ((Nat.toDigits 10 coefficient).length - 1) * 10 ^ exponent := by
      rw [← zpow_natCast, ← zpow_add₀ (by norm_num)]
      congr 1
      omega
    _ ≤ coefficient * 10 ^ exponent :=
      mul_le_mul_of_nonneg_right (mod_cast (coefficient_bounds h).1) (by positivity)

/-- A decimal is rounded as its quotient is, near to one and far from it. -/
theorem ofDecimal_eq (negative : Bool) (coefficient : Nat) (exponent : Int) :
    ofDecimal negative coefficient exponent =
      ofRatio negative (coefficient * Nat.pow 10 exponent.toNat)
        (Nat.pow 10 (-exponent).toNat) := by
  unfold ofDecimal
  extract_lets places
  split
  · rename_i hcase
    rw [ofRatio]
    by_cases hcoefficient : coefficient = 0
    · rw [hcoefficient, Nat.zero_mul, nearestRank_zero]
    · rw [nearestRank_of_small hcoefficient (hcase.resolve_left hcoefficient)]
  · rename_i hcase
    rw [not_or] at hcase
    split
    · rename_i hgreat
      have hrank := le_nearestRank_of_great hcase.1 hgreat
      rw [ofRatio, ofRank, dif_neg (by omega)]
    · rfl

end LayerGraph.Binary64
