import LayerGraph.Number.Numeral
import Mathlib.Algebra.Group.Nat.Defs
import Mathlib.Data.List.TakeWhile
set_option autoImplicit false

namespace LayerGraph

section Runs

variable {p : Char → Bool} {run rest : List Char}

theorem takeWhile_run (h : ∀ c ∈ run, p c = true) (hrest : ∀ c ∈ rest.head?, p c = false) :
    (run ++ rest).takeWhile p = run := by
  rw [List.takeWhile_append_of_pos h]
  cases rest with
  | nil => simp
  | cons c rest => rw [List.takeWhile_cons_of_neg (by simpa using hrest c rfl), List.append_nil]

theorem dropWhile_run (h : ∀ c ∈ run, p c = true) (hrest : ∀ c ∈ rest.head?, p c = false) :
    (run ++ rest).dropWhile p = rest := by
  rw [List.dropWhile_append_of_pos h]
  cases rest with
  | nil => rfl
  | cons c rest => rw [List.dropWhile_cons_of_neg (by simpa using hrest c rfl)]

end Runs

namespace Numeral

variable {cs ds rest : List Char}

def Figures (cs : List Char) : Prop := ∀ c ∈ cs, c.isDigit = true

@[simp] theorem figures_nil : Figures [] := by simp [Figures]

@[simp] theorem figures_cons {c : Char} : Figures (c :: cs) ↔ c.isDigit = true ∧ Figures cs := by
  simp [Figures]

@[simp] theorem figures_append : Figures (cs ++ ds) ↔ Figures cs ∧ Figures ds := by
  simp [Figures, or_imp, forall_and]

theorem figures_toDigits (n : Nat) : Figures (Nat.toDigits 10 n) := fun _ hc =>
  Nat.isDigit_of_mem_toDigits (by decide) (by decide) hc

theorem figures_replicate (n : Nat) : Figures (List.replicate n '0') := fun c hc => by
  rw [(List.mem_replicate.1 hc).2]
  rfl

def NoFigure (cs : List Char) : Prop := ∀ c ∈ cs.head?, c.isDigit = false

@[simp] theorem noFigure_nil : NoFigure [] := by simp [NoFigure]

@[simp] theorem noFigure_cons {c : Char} : NoFigure (c :: cs) ↔ c.isDigit = false := by
  simp [NoFigure]

theorem takeWhile_figures (h : Figures ds) (hrest : NoFigure rest) :
    (ds ++ rest).takeWhile Char.isDigit = ds := takeWhile_run h hrest

theorem dropWhile_figures (h : Figures ds) (hrest : NoFigure rest) :
    (ds ++ rest).dropWhile Char.isDigit = rest := dropWhile_run h hrest

def shown (cs : List Char) : Nat := Nat.ofDigitChars 10 cs 0

theorem shown_toDigits (n : Nat) : shown (Nat.toDigits 10 n) = n := Nat.ofDigitChars_ten_toDigits

theorem shown_append (cs ds : List Char) :
    shown (cs ++ ds) = 10 ^ ds.length * shown cs + shown ds := by
  rw [shown, Nat.ofDigitChars_append, Nat.ofDigitChars_eq_ofDigitChars_zero]
  rfl

theorem shown_replicate (n : Nat) : shown (List.replicate n '0') = 0 := by
  rw [shown, Nat.ofDigitChars_replicate_zero, Nat.mul_zero]

theorem ofDigits_figures (h : Figures cs) :
    ofDigits (cs.filterMap Text.asciiDigit?) = shown cs := by
  have hvalues : cs.filterMap Text.asciiDigit? = cs.map fun c => c.toNat - '0'.toNat := by
    induction cs with
    | nil => rfl
    | cons c cs ih =>
      rw [figures_cons] at h
      rw [List.filterMap_cons_some (by rw [Text.asciiDigit?, if_pos h.1]), ih h.2, List.map_cons]
  rw [hvalues, ofDigits, shown, Nat.ofDigitChars_eq_foldl, List.foldl_map]

theorem signed_natAbs (n : Int) : signed (decide (n < 0)) n.natAbs = n := by
  rw [signed]
  rcases Int.lt_or_le n 0 with h | h
  · rw [decide_eq_true h, if_pos rfl]
    omega
  · rw [decide_eq_false (by omega), if_neg (by decide)]
    omega

theorem head_toDigits {n : Nat} (hn : 0 < n) : (Nat.toDigits 10 n).head? ≠ some '0' := by
  induction n using Nat.strongRecOn with
  | ind n ih =>
    by_cases hlt : n < 10
    · rw [Nat.toDigits_of_lt_base hlt]
      exact (by decide : ∀ n < 10, 0 < n → [Nat.digitChar n].head? ≠ some '0') n hlt hn
    · have hfirst := ih (n / 10) (Nat.div_lt_self hn (by decide)) (by omega)
      obtain ⟨c, cs, hdigits⟩ :=
        List.exists_cons_of_ne_nil (Nat.toDigits_ne_nil (n := n / 10) (b := 10))
      rw [hdigits] at hfirst
      rw [Nat.toDigits_of_base_le (by decide) (by omega), hdigits]
      exact hfirst

structure Power where
  negative : Bool
  digits : List Char
  figures : Figures digits
  ne_nil : digits ≠ []

namespace Power

def text (power : Power) : List Char :=
  'e' :: (if power.negative then '-' else '+') :: power.digits

def exponent (power : Power) : Int := signed power.negative (shown power.digits)

theorem power?_text (power : Power) : power? power.text = some power.exponent := by
  have hbody : power.digits.all Char.isDigit = true := List.all_eq_true.2 power.figures
  have hsign : sign ((if power.negative then '-' else '+') :: power.digits) =
      (power.negative, power.digits) := by
    cases power.negative <;> rfl
  simp only [text, power?, hsign, hbody, ofDigits_figures power.figures, true_or, true_and,
    ne_eq, power.ne_nil, not_false_eq_true, if_true]
  rfl

end Power

/-- The parts of a numeral without a sign. There is a point where digits follow it, and a zero
stands first only where it stands alone before the point. -/
structure Parts where
  whole : List Char
  fraction : List Char
  power : Option Power
  whole_figures : Figures whole
  fraction_figures : Figures fraction
  whole_ne_nil : whole ≠ []
  leading : whole.head? = some '0' → whole = ['0']

namespace Parts

variable (parts : Parts)

def fractionText : List Char :=
  match parts.fraction with
  | [] => []
  | d :: ds => '.' :: d :: ds

def powerText : List Char := parts.power.elim [] Power.text

def text : List Char := parts.whole ++ parts.fractionText ++ parts.powerText

def coefficient : Nat := shown (parts.whole ++ parts.fraction)

def exponent : Int := parts.power.elim 0 Power.exponent - parts.fraction.length

theorem fractionText_eq_nil_iff : parts.fractionText = [] ↔ parts.fraction = [] := by
  cases hfraction : parts.fraction <;> simp [fractionText, hfraction]

theorem powerText_eq_nil_iff : parts.powerText = [] ↔ parts.power = none := by
  cases hpower : parts.power <;> simp [powerText, hpower, Power.text]

theorem power?_powerText : power? parts.powerText = some (parts.power.elim 0 Power.exponent) := by
  cases hpower : parts.power with
  | none => simp [powerText, hpower, power?]
  | some power => simpa [powerText, hpower] using power.power?_text

theorem noFigure_powerText (hrest : NoFigure rest) : NoFigure (parts.powerText ++ rest) := by
  cases hpower : parts.power with
  | none => simpa [powerText, hpower] using hrest
  | some power =>
    simp only [powerText, hpower, Option.elim_some, Power.text, List.cons_append, noFigure_cons]
    decide

theorem noFigure_fractionText (hrest : NoFigure rest) :
    NoFigure (parts.fractionText ++ (parts.powerText ++ rest)) := by
  cases hfraction : parts.fraction with
  | nil => simpa [fractionText, hfraction] using parts.noFigure_powerText hrest
  | cons d ds =>
    simp only [fractionText, hfraction, List.cons_append, noFigure_cons]
    decide

theorem split_point {more : List Char}
    (h : parts.fractionText ++ parts.powerText = '.' :: more) :
    more.takeWhile Char.isDigit = parts.fraction ∧
      more.dropWhile Char.isDigit = parts.powerText := by
  have hpower := parts.noFigure_powerText noFigure_nil
  rw [List.append_nil] at hpower
  cases hfraction : parts.fraction with
  | nil =>
    cases hmark : parts.power with
    | none => simp [fractionText, hfraction, powerText, hmark] at h
    | some power => simp [fractionText, hfraction, powerText, hmark, Power.text] at h
  | cons d ds =>
    have hfigures := parts.fraction_figures
    simp only [fractionText, hfraction, List.cons_append, List.cons.injEq, true_and] at h
    rw [← h, ← List.cons_append, ← hfraction]
    exact ⟨takeWhile_figures hfigures hpower, dropWhile_figures hfigures hpower⟩

theorem fraction_of_no_point
    (h : ∀ more, parts.fractionText ++ parts.powerText ≠ '.' :: more) :
    parts.fraction = [] ∧ parts.fractionText ++ parts.powerText = parts.powerText := by
  cases hfraction : parts.fraction with
  | nil => exact ⟨rfl, by simp [fractionText, hfraction]⟩
  | cons d ds => exact absurd (by simp [fractionText, hfraction]; rfl) (h _)

theorem text_eq_cons : ∃ c cs, parts.text = c :: cs ∧ c.isDigit = true := by
  obtain ⟨c, cs, hwhole⟩ := List.exists_cons_of_ne_nil parts.whole_ne_nil
  have hfigures := parts.whole_figures
  rw [hwhole, figures_cons] at hfigures
  exact ⟨c, cs ++ parts.fractionText ++ parts.powerText, by rw [text, hwhole]; rfl, hfigures.1⟩

end Parts

theorem ne_of_isDigit {c d : Char} (hc : c.isDigit = true) (hd : d.isDigit = false) : c ≠ d := by
  rintro rfl
  rw [hc] at hd
  cases hd

theorem toLower_of_isDigit {c : Char} (h : c.isDigit = true) : c.toLower = c := by
  simp only [Char.isDigit, Bool.and_eq_true, decide_eq_true_eq] at h
  exact dif_neg fun hupper => absurd (UInt32.le_trans hupper.1 h.2) (by decide)

theorem word_ne {c d : Char} {word : List Char} (hc : c.isDigit = true)
    (hd : d.isDigit = false) :
    String.ofList ((c :: cs).map Char.toLower) ≠ String.ofList (d :: word) := by
  intro h
  rw [String.ofList_inj, List.map_cons, List.cons.injEq, toLower_of_isDigit hc] at h
  exact ne_of_isDigit hc hd h.1

theorem sign_signed (negative : Bool) {c : Char} (hc : c.isDigit = true) :
    sign (if negative then '-' :: c :: cs else c :: cs) = (negative, c :: cs) := by
  cases negative with
  | true => rfl
  | false =>
    have hminus := ne_of_isDigit hc (show '-'.isDigit = false from rfl)
    have hplus := ne_of_isDigit hc (show '+'.isDigit = false from rfl)
    simp only [Bool.false_eq_true, if_false]
    unfold sign
    split <;> simp_all

theorem plainFloat?_text (parts : Parts) (negative : Bool) :
    plainFloat? (if negative then '-' :: parts.text else parts.text) =
      some (.ofDecimal negative parts.coefficient parts.exponent) := by
  obtain ⟨c, cs, htext, hc⟩ := parts.text_eq_cons
  have hinf : String.ofList ((c :: cs).map Char.toLower) ≠ "inf" := word_ne hc (by decide)
  have hinfinity : String.ofList ((c :: cs).map Char.toLower) ≠ "infinity" := word_ne hc (by decide)
  have hnan : String.ofList ((c :: cs).map Char.toLower) ≠ "nan" := word_ne hc (by decide)
  have hafter := parts.noFigure_fractionText noFigure_nil
  rw [List.append_nil] at hafter
  have hbody : c :: cs = parts.whole ++ (parts.fractionText ++ parts.powerText) := by
    rw [← htext, Parts.text, List.append_assoc]
  have hwhole : (c :: cs).takeWhile Char.isDigit = parts.whole := by
    rw [hbody, takeWhile_figures parts.whole_figures hafter]
  have hrest : (c :: cs).dropWhile Char.isDigit = parts.fractionText ++ parts.powerText := by
    rw [hbody, dropWhile_figures parts.whole_figures hafter]
  unfold plainFloat?
  rw [htext, sign_signed negative hc]
  simp only [hinf, hinfinity, hnan, or_self, if_false, hwhole, hrest]
  have hdigits : (parts.whole ++ parts.fraction).isEmpty = false := by
    simp [List.isEmpty_eq_false_iff, parts.whole_ne_nil]
  have hvalue := ofDigits_figures (figures_append.2 ⟨parts.whole_figures, parts.fraction_figures⟩)
  split
  · rename_i more hpoint
    obtain ⟨hfraction, htail⟩ := parts.split_point hpoint
    simp only [hfraction, htail, hdigits, hvalue, parts.power?_powerText]
    rfl
  · rename_i hpoint
    obtain ⟨hfraction, htail⟩ := parts.fraction_of_no_point hpoint
    rw [hfraction] at hdigits hvalue
    simp only [htail, hdigits, hvalue, parts.power?_powerText]
    rw [Parts.coefficient, Parts.exponent, hfraction]
    rfl

end Numeral

end LayerGraph
