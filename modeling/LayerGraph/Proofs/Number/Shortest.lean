import LayerGraph.Proofs.Number.Figures
import LayerGraph.Proofs.Number.Nearest
set_option autoImplicit false

namespace LayerGraph

open Numeral

namespace Decimal

def value (d : Decimal) : ℚ := d.coefficient * 10 ^ d.exponent

theorem rank_congr {d d' : Decimal} (h : d.value = d'.value) : d.rank = d'.rank := by
  refine Binary64.nearestRank_congr (Nat.pow_pos (by decide)) (Nat.pow_pos (by decide)) ?_
  rw [Binary64.decimal_value, Binary64.decimal_value]
  exact h

theorem value_exact (rank : Nat) :
    (exact rank).value = Binary64.significand rank * (2 : ℚ) ^ Binary64.scale rank := by
  simp only [value, exact]
  generalize Binary64.scale rank = q
  rcases Int.le_total 0 q with h | h
  · obtain ⟨n, rfl⟩ := Int.eq_ofNat_of_zero_le h
    simp
  · obtain ⟨n, hn⟩ := Int.eq_ofNat_of_zero_le (show 0 ≤ -q by omega)
    obtain rfl : q = -(n : Int) := by omega
    have hten : (10 : ℚ) ^ (-(n : Int)) = 2 ^ (-(n : Int)) * 5 ^ (-(n : Int)) := by
      rw [← mul_zpow]
      norm_num
    have hfive : (5 : ℚ) ^ n * 5 ^ (-(n : Int)) = 1 := by
      rw [zpow_neg, zpow_natCast, mul_inv_cancel₀ (by positivity)]
    simp only [Int.toNat_neg_natCast, neg_neg, Int.toNat_natCast, Nat.pow_eq, pow_zero, mul_one,
      Nat.cast_mul, Nat.cast_pow, Nat.cast_ofNat, Int.min_eq_left h, hten]
    calc
      (Binary64.significand rank : ℚ) * 5 ^ n * (2 ^ (-(n : Int)) * 5 ^ (-(n : Int)))
          = Binary64.significand rank * 2 ^ (-(n : Int)) * (5 ^ n * 5 ^ (-(n : Int))) := by ring
      _ = Binary64.significand rank * 2 ^ (-(n : Int)) := by rw [hfive, mul_one]

theorem rank_exact (rank : Nat) : (exact rank).rank = rank := by
  refine Eq.trans ?_ (Binary64.nearestRank_ratio rank)
  refine Binary64.nearestRank_congr (Nat.pow_pos (by decide)) (Binary64.ratio_den_pos rank) ?_
  rw [Binary64.decimal_value, Binary64.ratio_value]
  exact value_exact rank

theorem rank_of_tried {rank : Nat} {near far d : Decimal}
    (h : (if near.rank = rank then some near else if far.rank = rank then some far else none) =
      some d) : d.rank = rank := by
  split at h
  · cases h
    assumption
  · split at h
    · cases h
      assumption
    · cases h

theorem rank_onGrid {rank : Nat} {exponent : Int} {d : Decimal}
    (h : onGrid? rank exponent = some d) : d.rank = rank := rank_of_tried h

/-- The shortest decimal of a magnitude is rounded to it. -/
theorem rank_shortest (rank : Nat) : (shortest rank).rank = rank := by
  unfold shortest
  split
  rename_i num den _
  cases hfound : (List.range 17).findSome? fun more : Nat =>
      onGrid? rank (floorLog10 num den - more) with
  | none =>
    simp only [hfound, Option.getD_none]
    exact rank_exact rank
  | some d =>
    obtain ⟨more, _, hmore⟩ := List.exists_of_findSome?_eq_some hfound
    simp only [hfound, Option.getD_some]
    exact rank_onGrid hmore

theorem ofDecimal_eq_ofRank (negative : Bool) (d : Decimal) :
    Binary64.ofDecimal negative d.coefficient d.exponent = .ofRank negative d.rank :=
  Binary64.ofDecimal_eq negative d.coefficient d.exponent

/-- Digits without zeros at their start, and the place of the point; a zero stands for itself. -/
structure Placed (digits : List Char) (point : Int) : Prop where
  figures : Figures digits
  ne_nil : digits ≠ []
  leading : digits.head? = some '0' → digits = ['0'] ∧ point = 1

theorem strip_zeros (cs : List Char) :
    ∃ k, cs = (cs.reverse.dropWhile (· == '0')).reverse ++ List.replicate k '0' := by
  have hzeros : ∀ c ∈ cs.reverse.takeWhile (· == '0'), c = '0' := fun c hc => by
    simpa using List.mem_takeWhile_imp hc
  refine ⟨(cs.reverse.takeWhile (· == '0')).length, ?_⟩
  calc
    cs = (cs.reverse.takeWhile (· == '0') ++ cs.reverse.dropWhile (· == '0')).reverse := by
      rw [List.takeWhile_append_dropWhile, List.reverse_reverse]
    _ = _ := by
      rw [List.reverse_append, List.eq_replicate_of_mem hzeros, List.reverse_replicate]
      simp

/-- The digits and the point of a decimal show its value. -/
theorem places_spec (d : Decimal) :
    Placed d.places.1 d.places.2 ∧
      (shown d.places.1 : ℚ) * 10 ^ (d.places.2 - d.places.1.length) = d.value := by
  obtain ⟨k, hstrip⟩ := strip_zeros (Nat.toDigits 10 d.coefficient)
  have hcoefficient := shown_toDigits d.coefficient
  have hfigures := figures_toDigits d.coefficient
  unfold places
  extract_lets all
  change all = (all.reverse.dropWhile (· == '0')).reverse ++ _ at hstrip
  change shown all = _ at hcoefficient
  change Figures all at hfigures
  generalize hdigits : (all.reverse.dropWhile (· == '0')).reverse = digits at hstrip ⊢
  rw [hstrip, shown_append, shown_replicate, List.length_replicate, Nat.add_zero] at hcoefficient
  rw [hstrip, figures_append] at hfigures
  cases digits with
  | nil =>
    refine ⟨⟨by simp, by simp, fun _ => ⟨rfl, rfl⟩⟩, ?_⟩
    rw [value, ← hcoefficient, show shown ['0'] = 0 from rfl]
    simp [shown]
  | cons c cs =>
    have hnonzero : d.coefficient ≠ 0 := by
      intro hzero
      rw [show all = ['0'] by rw [show all = Nat.toDigits 10 d.coefficient from rfl, hzero]; rfl]
        at hdigits
      cases hdigits
    have hleading := head_toDigits (Nat.pos_of_ne_zero hnonzero)
    refine ⟨⟨hfigures.1, by simp, fun hhead => absurd ?_ hleading⟩, ?_⟩
    · rw [show Nat.toDigits 10 d.coefficient = all from rfl, hstrip]
      exact hhead
    · have hlength : (all.length : Int) = (c :: cs).length + k := by
        rw [hstrip, List.length_append, List.length_replicate, Nat.cast_add]
      rw [value, ← hcoefficient, hlength, add_assoc, add_sub_cancel_left,
        zpow_add₀ (by norm_num), zpow_natCast]
      push_cast
      ring

end Decimal

namespace Layout

open Decimal

/-- The text of a numeral of a value, with a point or a power of ten in it. -/
def Shows (cs : List Char) (x : ℚ) : Prop :=
  ∃ parts : Parts, cs = parts.text ∧ (parts.fraction ≠ [] ∨ parts.power ≠ none) ∧
    value ⟨parts.coefficient, parts.exponent⟩ = x

variable {digits : List Char} {point : Int}

theorem figures_zeros (n : Nat) : Figures (zeros n) := figures_replicate n

theorem shown_zeros_append (n : Nat) : shown (zeros n ++ digits) = shown digits := by
  rw [shown_append, zeros, shown_replicate, Nat.mul_zero, Nat.zero_add]

theorem pointed_shows {whole fraction : List Char} (hwhole : Figures whole)
    (hfraction : Figures fraction) (hne : whole ≠ []) (hsome : fraction ≠ [])
    (hleading : whole.head? = some '0' → whole = ['0']) :
    Shows (whole ++ '.' :: fraction)
      (shown (whole ++ fraction) * 10 ^ (-(fraction.length : Int))) := by
  refine ⟨⟨whole, fraction, none, hwhole, hfraction, hne, hleading⟩, ?_, .inl hsome, ?_⟩
  · obtain ⟨d, ds, rfl⟩ := List.exists_cons_of_ne_nil hsome
    simp [Parts.text, Parts.fractionText, Parts.powerText]
  · simp [value, Parts.coefficient, Parts.exponent]

theorem pointed_before (h : Placed digits point) (hpoint : point ≤ 0) :
    Shows ('0' :: '.' :: zeros (-point).toNat ++ digits)
      (shown digits * 10 ^ (point - digits.length)) := by
  have hshows := pointed_shows (show Figures ['0'] by simp)
    (figures_append.2 ⟨figures_zeros (-point).toNat, h.figures⟩) (by simp) (by simp [h.ne_nil])
    fun _ => rfl
  have hplace : -((zeros (-point).toNat ++ digits).length : Int) = point - digits.length := by
    rw [List.length_append, zeros, List.length_replicate]
    omega
  rwa [shown_append, shown_zeros_append, show shown ['0'] = 0 from rfl, Nat.mul_zero,
    Nat.zero_add, hplace] at hshows

theorem pointed_after (h : Placed digits point) (hlength : digits.length ≤ point.toNat) :
    Shows (digits ++ zeros (point.toNat - digits.length) ++ ['.', '0'])
      (shown digits * 10 ^ (point - digits.length)) := by
  have hleading : (digits ++ zeros (point.toNat - digits.length)).head? = some '0' →
      digits ++ zeros (point.toNat - digits.length) = ['0'] := by
    intro hhead
    obtain ⟨d, ds, hdigits⟩ := List.exists_cons_of_ne_nil h.ne_nil
    obtain ⟨hzero, hone⟩ := h.leading (by rw [hdigits] at hhead ⊢; exact hhead)
    rw [hzero, hone]
    rfl
  have hshows := pointed_shows
    (figures_append.2 ⟨h.figures, figures_zeros (point.toNat - digits.length)⟩)
    (show Figures ['0'] by simp) (by simp [h.ne_nil]) (by simp) hleading
  have hcoefficient : shown (digits ++ zeros (point.toNat - digits.length) ++ ['0']) =
      10 ^ (point.toNat - digits.length + 1) * shown digits := by
    rw [List.append_assoc, zeros, ← List.replicate_one, ← List.replicate_add, shown_append,
      shown_replicate, List.length_replicate, Nat.add_zero]
  have hpositive : 0 < digits.length := List.length_pos_iff.2 h.ne_nil
  have hplace : point - digits.length =
      ((point.toNat - digits.length + 1 : Nat) : Int) + -(['0'].length : Int) := by
    simp only [List.length_singleton]
    omega
  rw [hplace, zpow_add₀ (by norm_num), zpow_natCast]
  rw [hcoefficient] at hshows
  convert hshows using 1
  push_cast
  ring

theorem pointed_among (h : Placed digits point) (hpoint : 0 < point)
    (hlength : point.toNat < digits.length) :
    Shows (digits.take point.toNat ++ '.' :: digits.drop point.toNat)
      (shown digits * 10 ^ (point - digits.length)) := by
  have htake : Figures (digits.take point.toNat) := fun c hc =>
    h.figures c (List.mem_of_mem_take hc)
  have hdrop : Figures (digits.drop point.toNat) := fun c hc =>
    h.figures c (List.mem_of_mem_drop hc)
  have hleading : (digits.take point.toNat).head? = some '0' →
      digits.take point.toNat = ['0'] := by
    intro hhead
    rw [List.head?_take, if_neg (by omega)] at hhead
    obtain ⟨hzero, hone⟩ := h.leading hhead
    rw [hzero, hone]
    rfl
  have hshows := pointed_shows htake hdrop (by simp [h.ne_nil]; omega)
    (by simpa using hlength) hleading
  have hplace : -((digits.drop point.toNat).length : Int) = point - digits.length := by
    rw [List.length_drop]
    omega
  rwa [List.take_append_drop, hplace] at hshows

theorem positional_shows (h : Placed digits point) :
    Shows (positional digits point) (shown digits * 10 ^ (point - digits.length)) := by
  rw [positional]
  split
  · rename_i hpoint
    exact pointed_before h hpoint
  · rename_i hpoint
    split
    · rename_i hlength
      exact pointed_after h hlength
    · rename_i hlength
      exact pointed_among h (by omega) (by omega)

theorem scientific_shows (width : Nat) (h : Placed digits point) :
    Shows (scientific width digits point) (shown digits * 10 ^ (point - digits.length)) := by
  obtain ⟨d, ds, rfl⟩ := List.exists_cons_of_ne_nil h.ne_nil
  have hfigures := figures_cons.1 h.figures
  let exponentDigits := Nat.toDigits 10 (point - 1).natAbs
  let power : Power := {
    negative := decide (point - 1 < 0)
    digits := zeros (width - exponentDigits.length) ++ exponentDigits
    figures := figures_append.2 ⟨figures_zeros _, figures_toDigits _⟩
    ne_nil := by simp [exponentDigits, Nat.toDigits_ne_nil] }
  have hexponent : power.exponent = point - 1 := by
    have hshown : shown power.digits = (point - 1).natAbs := by
      rw [show power.digits = zeros (width - exponentDigits.length) ++ exponentDigits from rfl,
        shown_zeros_append, shown_toDigits]
    rw [Power.exponent, hshown]
    exact signed_natAbs (point - 1)
  refine ⟨⟨[d], ds, some power, by simpa using hfigures.1, hfigures.2, by simp, by simp⟩, ?_,
    .inr (by simp), ?_⟩
  · unfold scientific
    cases ds with
    | nil =>
      simp [Parts.text, Parts.fractionText, Parts.powerText, Power.text, power, exponentDigits]
    | cons d' ds =>
      simp [Parts.text, Parts.fractionText, Parts.powerText, Power.text, power, exponentDigits]
  · have hplace : point - (d :: ds).length = point - 1 - ds.length := by
      rw [List.length_cons]
      omega
    rw [hplace, value, Parts.coefficient, Parts.exponent, Option.elim_some, hexponent]
    rfl

theorem magnitude_shows (layout : Layout) (rank : Nat) :
    Shows (layout.magnitude rank) (shortest rank).value := by
  obtain ⟨hplaced, hvalue⟩ := places_spec (shortest rank)
  rw [← hvalue]
  unfold magnitude
  dsimp only
  split
  · exact positional_shows hplaced
  · exact scientific_shows _ hplaced

/-- Parts that show the value of the shortest decimal of a number are read as the number. -/
theorem ofDecimal_of_shows (negative : Bool) {rank : Fin (2047 * binade)} {coefficient : Nat}
    {exponent : Int} (h : value ⟨coefficient, exponent⟩ = (shortest rank.val).value) :
    Binary64.ofDecimal negative coefficient exponent = .finite negative rank := by
  have hrank : Decimal.rank ⟨coefficient, exponent⟩ = rank.val :=
    (rank_congr h).trans (rank_shortest rank.val)
  rw [ofDecimal_eq_ofRank negative ⟨coefficient, exponent⟩, hrank, Binary64.ofRank,
    dif_pos rank.isLt]

end Layout

end LayerGraph
