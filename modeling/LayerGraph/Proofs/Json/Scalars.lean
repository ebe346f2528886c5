import LayerGraph.Json.Reader
import LayerGraph.Json.Writer
import LayerGraph.Proofs.Number.Shortest
set_option autoImplicit false

namespace LayerGraph.Json

open Numeral

variable {rest : List Char}

def Ends (cs : List Char) : Prop :=
  ∀ c ∈ cs.head?, c.isDigit = false ∧ c ≠ '.' ∧ c ≠ 'e' ∧ c ≠ 'E'

@[simp] theorem ends_nil : Ends [] := by simp [Ends]

theorem Ends.noFigure (h : Ends rest) : NoFigure rest := fun c hc => (h c hc).1

theorem wholeDigits_text (parts : Parts) (h : NoFigure rest) :
    wholeDigits (parts.whole ++ rest) = (parts.whole, rest) := by
  obtain ⟨c, cs, hwhole⟩ := List.exists_cons_of_ne_nil parts.whole_ne_nil
  by_cases hzero : c = '0'
  · rw [parts.leading (by rw [hwhole, hzero]; rfl)]
    rfl
  · have htake := takeWhile_figures parts.whole_figures h
    have hdrop := dropWhile_figures parts.whole_figures h
    rw [hwhole, List.cons_append] at htake hdrop ⊢
    unfold wholeDigits
    split
    · simp_all
    · rw [htake, hdrop]

theorem fractionDigits_of_ne {cs : List Char} (h : ∀ c ∈ cs.head?, c ≠ '.') :
    fractionDigits cs = ([], cs) := by
  unfold fractionDigits
  split
  · exact absurd rfl (h '.' rfl)
  · rfl

theorem fractionDigits_text (parts : Parts) (h : Ends rest) :
    fractionDigits (parts.fractionText ++ (parts.powerText ++ rest)) =
      (parts.fractionText, parts.powerText ++ rest) := by
  cases hfraction : parts.fraction with
  | nil =>
    have hnext : ∀ c ∈ (parts.powerText ++ rest).head?, c ≠ '.' := by
      cases hpower : parts.power with
      | none => simpa [Parts.powerText, hpower] using fun c hc => (h c hc).2.1
      | some power => simp [Parts.powerText, hpower, Power.text]
    simpa only [Parts.fractionText, hfraction, List.nil_append] using fractionDigits_of_ne hnext
  | cons d ds =>
    have hnext := parts.noFigure_powerText h.noFigure
    have hfigures := parts.fraction_figures
    rw [hfraction, figures_cons] at hfigures
    simp only [Parts.fractionText, hfraction, List.cons_append, fractionDigits, hfigures.1, if_true,
      takeWhile_figures hfigures.2 hnext, dropWhile_figures hfigures.2 hnext]

theorem powerDigits_of_ends (h : Ends rest) : powerDigits rest = ([], rest) := by
  cases rest with
  | nil => rfl
  | cons c cs =>
    obtain ⟨-, -, hsmall, hgreat⟩ := h c rfl
    simp only [powerDigits, hsmall, hgreat, or_self, false_and, if_false]

theorem powerDigits_text (parts : Parts) (h : Ends rest) :
    powerDigits (parts.powerText ++ rest) = (parts.powerText, rest) := by
  cases hpower : parts.power with
  | none => simpa [Parts.powerText, hpower] using powerDigits_of_ends h
  | some power =>
    have htake := takeWhile_figures power.figures h.noFigure
    have hdrop := dropWhile_figures power.figures h.noFigure
    have hne := power.ne_nil
    cases hnegative : power.negative <;>
      simp [Parts.powerText, hpower, Power.text, powerDigits, hnegative, htake, hdrop, hne]

theorem number_text (parts : Parts) (negative : Bool) (h : Ends rest) :
    number ((if negative then '-' :: parts.text else parts.text) ++ rest) =
      if parts.fractionText = [] ∧ parts.powerText = [] then
        if digitLimit < parts.whole.length then .error .integerTooLong
        else .ok (.int (signed negative (shown parts.whole)), rest)
      else .ok (.float (.ofDecimal negative parts.coefficient parts.exponent), rest) := by
  have hbody : parts.text ++ rest =
      parts.whole ++ (parts.fractionText ++ (parts.powerText ++ rest)) := by
    simp only [Parts.text, List.append_assoc]
  have hwhole := wholeDigits_text parts (parts.noFigure_fractionText h.noFigure)
  have hvalue := plainFloat?_text parts negative
  rw [Parts.text] at hvalue
  cases negative with
  | true =>
    simp only [if_true, List.cons_append, number, hbody, hwhole, if_neg parts.whole_ne_nil,
      fractionDigits_text parts h, powerDigits_text parts h, ofDigits_figures parts.whole_figures]
    rw [if_pos rfl] at hvalue
    rw [hvalue, Option.getD_some]
  | false =>
    obtain ⟨c, cs, htext, hc⟩ := parts.text_eq_cons
    have hminus : c ≠ '-' := ne_of_isDigit hc (by decide)
    simp only [Bool.false_eq_true, if_false, number]
    split
    · rename_i body hsign
      rw [htext, List.cons_append, List.cons.injEq] at hsign
      exact absurd hsign.1 hminus
    · simp only [hbody, hwhole, if_neg parts.whole_ne_nil,
        fractionDigits_text parts h, powerDigits_text parts h, ofDigits_figures parts.whole_figures]
      rw [if_neg (by decide)] at hvalue
      simp only [Bool.false_eq_true, if_false, hvalue, Option.getD_some]

theorem number_write (negative : Bool) (rank : Fin (2047 * binade)) (h : Ends rest) :
    number (Layout.json.write (.finite negative rank) ++ rest) =
      .ok (.float (.finite negative rank), rest) := by
  obtain ⟨parts, htext, hreal, hvalue⟩ := Layout.magnitude_shows .json rank.val
  have hform : ¬(parts.fractionText = [] ∧ parts.powerText = []) := by
    rw [parts.fractionText_eq_nil_iff, parts.powerText_eq_nil_iff]
    exact fun hnone => hreal.elim (· hnone.1) (· hnone.2)
  rw [Layout.write, htext, number_text parts negative h, if_neg hform,
    Layout.ofDecimal_of_shows negative hvalue]

theorem length_toDigits_le_iff (n : Int) :
    (Nat.toDigits 10 n.natAbs).length ≤ digitLimit ↔ isWritable n = true := by
  rw [isWritable_iff]
  exact Nat.length_toDigits_le_iff (by decide) (by decide)

theorem number_decimalChars (n : Int) (h : Ends rest) :
    number (Text.decimalChars n ++ rest) =
      if isWritable n = true then .ok (.int n, rest) else .error .integerTooLong := by
  have hleading : (Nat.toDigits 10 n.natAbs).head? = some '0' →
      Nat.toDigits 10 n.natAbs = ['0'] := by
    intro hhead
    rcases Nat.eq_zero_or_pos n.natAbs with hzero | hpos
    · rw [hzero]
      rfl
    · exact absurd hhead (head_toDigits hpos)
  let parts : Parts := {
    whole := Nat.toDigits 10 n.natAbs
    fraction := []
    power := none
    whole_figures := figures_toDigits n.natAbs
    fraction_figures := figures_nil
    whole_ne_nil := Nat.toDigits_ne_nil
    leading := hleading }
  have htext : parts.text = Nat.toDigits 10 n.natAbs := by
    simp [Parts.text, Parts.fractionText, Parts.powerText, parts]
  have hnumber := number_text parts (decide (n < 0)) h
  simp only [htext, decide_eq_true_eq] at hnumber
  rw [if_pos (show parts.fractionText = [] ∧ parts.powerText = [] from ⟨rfl, rfl⟩)] at hnumber
  rw [Text.decimalChars, hnumber]
  simp only [parts, shown_toDigits, signed_natAbs, ← length_toDigits_le_iff]
  split <;> rename_i hlength
  · rw [if_neg (by omega)]
  · rw [if_pos (by omega)]

theorem textBody_unit {a b c d : Char} {n : Nat} (hunit : unit? a b c d = some n)
    (hn : n < 0xD800) (start : List Char) (hrest : rest ≠ []) :
    textBody start ('\\' :: 'u' :: a :: b :: c :: d :: rest) =
      prepend (Char.ofNat n) (textBody start rest) := by
  have hhigh : ¬(0xD800 ≤ n ∧ n < 0xDC00) := by omega
  have hchar : prependPoint n = prepend (Char.ofNat n) := by
    funext scan
    exact if_neg (by omega)
  obtain ⟨more, rest, rfl⟩ := List.exists_cons_of_ne_nil hrest
  by_cases hpair : ∃ e f g h next tail,
      more :: rest = '\\' :: 'u' :: e :: f :: g :: h :: next :: tail
  · obtain ⟨e, f, g, h, next, tail, heq⟩ := hpair
    rw [heq, textBody, hunit]
    simp only [hhigh, if_false, hchar]
  · rw [textBody]
    · simp only [hunit, hchar]
    · intro e f g h next tail hmore htail
      exact hpair ⟨e, f, g, h, next, tail, by rw [hmore, htail]⟩

theorem hex_control : ∀ n < 0x20,
    Text.hex 4 n = ['0', '0', Nat.digitChar (n / 16), Nat.digitChar (n % 16)] ∧
      unit? '0' '0' (Nat.digitChar (n / 16)) (Nat.digitChar (n % 16)) = some n := by
  decide

theorem textBody_escapeChar (start : List Char) (c : Char) (hrest : rest ≠ []) :
    textBody start (escapeChar c ++ rest) = prepend c (textBody start rest) := by
  obtain ⟨more, rest, rfl⟩ := List.exists_cons_of_ne_nil hrest
  rw [escapeChar]
  split_ifs with hquote hslash hfeed hreturn htab hback hpage hcontrol
  · subst hquote
    simp [textBody, escaped?]
  · subst hslash
    simp [textBody, escaped?]
  · subst hfeed
    simp [textBody, escaped?]
  · subst hreturn
    simp [textBody, escaped?]
  · subst htab
    simp [textBody, escaped?]
  · have hc : c = Char.ofNat 8 := by rw [← hback, Char.ofNat_toNat]
    subst hc
    simp [textBody, escaped?]
  · have hc : c = Char.ofNat 12 := by rw [← hpage, Char.ofNat_toNat]
    subst hc
    simp [textBody, escaped?]
  · obtain ⟨hhex, hunit⟩ := hex_control c.toNat hcontrol
    rw [hhex]
    have hread := textBody_unit hunit (by omega) start (List.cons_ne_nil more rest)
    rw [Char.ofNat_toNat] at hread
    exact hread
  · rw [List.singleton_append, textBody]
    · rw [if_neg hcontrol]
    all_goals simp [hquote, hslash]

theorem textBody_write (start : List Char) (cs : List Char) :
    textBody start (cs.flatMap escapeChar ++ '"' :: rest) = .ok (cs, rest) := by
  induction cs with
  | nil => simp [textBody]
  | cons c cs ih =>
    rw [List.flatMap_cons, List.append_assoc, textBody_escapeChar start c (by simp), ih]
    rfl

/-- A text is read as it was written. -/
theorem text_write (s : String) :
    text (s.toList.flatMap escapeChar ++ '"' :: rest) = .ok (s, rest) := by
  rw [text, textBody_write]
  simp [Except.map]

end LayerGraph.Json
