import LayerGraph.Graph.Normal
import LayerGraph.Proofs.Fold
import Mathlib.Data.List.DropRight
set_option autoImplicit false

namespace LayerGraph

namespace Text

theorem trimChars_eq (p : Char → Bool) (cs : List Char) :
    trimChars p cs = (cs.dropWhile p).rdropWhile p := rfl

theorem dropWhile_trimChars (p : Char → Bool) (cs : List Char) :
    (trimChars p cs).dropWhile p = trimChars p cs := by
  have hprefix := List.rdropWhile_prefix p (cs.dropWhile p)
  have hdropped := List.dropWhile_eq_self_iff.1 (List.dropWhile_idempotent p cs)
  refine List.dropWhile_eq_self_iff.2 fun hpos => ?_
  have hfirst := hprefix.getElem hpos
  intro hlast
  exact hdropped _ (hfirst ▸ hlast)

theorem trimChars_trimChars (p : Char → Bool) (cs : List Char) :
    trimChars p (trimChars p cs) = trimChars p cs := by
  rw [trimChars_eq, dropWhile_trimChars, trimChars_eq, List.rdropWhile_idempotent]

theorem trim_trim (s : String) : trim (trim s) = trim s := by
  rw [trim, trim, String.toList_ofList, trimChars_trimChars]

theorem mem_trimChars {p : Char → Bool} {c : Char} {cs : List Char} (hc : c ∈ cs) (hp : p c = false) :
    c ∈ trimChars p cs := by
  have hdrop : ∀ cs : List Char, c ∈ cs → c ∈ cs.dropWhile p := by
    intro cs hc
    rw [← List.takeWhile_append_dropWhile (p := p) (l := cs)] at hc
    refine (List.mem_append.1 hc).resolve_left fun htaken => ?_
    have htrue := List.mem_takeWhile_imp htaken
    rw [hp] at htrue
    cases htrue
  rw [trimChars, List.mem_reverse]
  exact hdrop _ (List.mem_reverse.2 (hdrop _ hc))

theorem lower_trim_ne {s : String} {c : Char} (hc : c ∈ s.toList) (hblank : isBlank c = false)
    {word : String} (hword : lowerChar c ∉ word.toList) : lower (trim s) ≠ word := by
  intro heq
  rw [← heq, lower, String.toList_ofList, trim, String.toList_ofList] at hword
  exact hword (List.mem_map_of_mem (mem_trimChars hc hblank))

end Text

namespace Layout

theorem point_mem_positional (digits : List Char) (point : Int) :
    '.' ∈ positional digits point := by
  rw [positional]
  split
  · simp
  · split <;> simp

theorem sign_mem_scientific (width : Nat) (digits : List Char) (point : Int) :
    '-' ∈ scientific width digits point ∨ '+' ∈ scientific width digits point := by
  unfold scientific
  extract_lets power sign shown mantissa
  by_cases h : power < 0
  · exact .inl (by simp [sign, h])
  · exact .inr (by simp [sign, h])

theorem literal_mark (x : Binary64) : ∃ c ∈ ['.', '+', '-', 'n'], c ∈ literal.write x := by
  cases x with
  | nan => exact ⟨'n', by decide, by decide⟩
  | infinite negative => exact ⟨'n', by decide, by cases negative <;> decide⟩
  | finite negative rank =>
    have hmagnitude : ∃ c ∈ ['.', '+', '-', 'n'], c ∈ literal.magnitude rank := by
      rw [magnitude]
      generalize (Decimal.shortest rank).places = placed
      obtain ⟨digits, point⟩ := placed
      simp only
      split
      · exact ⟨'.', by decide, point_mem_positional _ _⟩
      · rcases sign_mem_scientific literal.exponentWidth digits point with hminus | hplus
        · exact ⟨'-', by decide, hminus⟩
        · exact ⟨'+', by decide, hplus⟩
    obtain ⟨c, hmark, hc⟩ := hmagnitude
    refine ⟨c, hmark, ?_⟩
    cases negative with
    | false => exact hc
    | true => exact List.mem_cons_of_mem _ hc

end Layout

namespace Normal

theorem isDigit_ne_same {c : Char} (h : c.isDigit = true) :
    Text.isBlank c = false ∧ Text.lowerChar c ∉ "same".toList := by
  have hrange : 48 ≤ c.toNat ∧ c.toNat ≤ 57 := by
    simp only [Char.isDigit, Bool.and_eq_true, decide_eq_true_eq, ge_iff_le,
      UInt32.le_iff_toNat_le] at h
    exact h
  have hdigits : ∀ d < 10, Text.isBlank (Char.ofNat (48 + d)) = false ∧
      Text.lowerChar (Char.ofNat (48 + d)) ∉ "same".toList := by decide
  have hc : Char.ofNat (48 + (c.toNat - 48)) = c := by
    rw [show 48 + (c.toNat - 48) = c.toNat by omega, Char.ofNat_toNat]
  have hdigit := hdigits (c.toNat - 48) (by omega)
  rwa [hc] at hdigit

/-- Only a text reads like the word for padding that keeps the size. -/
theorem display_ne_same {v : Value} (hv : v.form ≠ .text) {text : String}
    (h : v.display = .ok text) : Text.lower (Text.trim text) ≠ "same" := by
  have hwrite : v.write = .ok text := by
    cases v with
    | str s => exact absurd rfl hv
    | _ => exact h
  obtain rfl : v.literal = text := by
    rw [Value.write] at hwrite
    split at hwrite
    · exact Except.ok.inj hwrite
    · cases hwrite
  have hmark : ∃ c ∈ v.literalChars, Text.isBlank c = false ∧
      Text.lowerChar c ∉ ("same".toList : List Char) := by
    cases v with
    | null => exact ⟨'N', by decide, by decide, by decide⟩
    | bool b =>
      cases b with
      | true => exact ⟨'T', by decide, by decide, by decide⟩
      | false => exact ⟨'F', by decide, by decide, by decide⟩
    | int n =>
      have hdigits : ∃ c ∈ Nat.toDigits 10 n.natAbs, c.isDigit = true := by
        obtain ⟨c, hc⟩ := List.exists_mem_of_ne_nil _ (Nat.toDigits_ne_nil (b := 10) (n := n.natAbs))
        exact ⟨c, hc, Nat.isDigit_of_mem_toDigits (by decide) (by decide) hc⟩
      obtain ⟨c, hc, hdigit⟩ := hdigits
      refine ⟨c, ?_, isDigit_ne_same hdigit⟩
      rw [Value.literalChars, Text.decimalChars]
      split
      · exact List.mem_cons_of_mem _ hc
      · exact hc
    | float x =>
      obtain ⟨c, hmark, hc⟩ := Layout.literal_mark x
      have hmarks : List.Forall (fun c => Text.isBlank c = false ∧
          Text.lowerChar c ∉ "same".toList) ['.', '+', '-', 'n'] := by decide
      exact ⟨c, hc, List.forall_iff_forall_mem.1 hmarks c hmark⟩
    | str s => exact absurd rfl hv
    | list items => exact ⟨'[', by simp [Value.literalChars], by decide, by decide⟩
    | object fields => exact ⟨'\x7b', by simp [Value.literalChars], by decide, by decide⟩
  obtain ⟨c, hc, hblank, hlower⟩ := hmark
  refine Text.lower_trim_ne (c := c) ?_ hblank hlower
  rw [Value.literal, String.toList_ofList]
  exact hc

def Spelled (word : String) : Prop :=
  Text.trim word = word ∧ (Catalogue.standard.find? word).isSome

instance (word : String) : Decidable (Spelled word) :=
  inferInstanceAs (Decidable (_ ∧ _))

theorem spelled_of_mem : ∀ layer ∈ Catalogue.standard, Spelled layer.kind := by decide +kernel

theorem spelled_aliases : ∀ entry ∈ aliases, Spelled entry.2 := by decide +kernel

theorem spelled_activations : ∀ entry ∈ activations, Spelled entry.2 := by decide +kernel

theorem kind_of_spelled {word : String} (h : Spelled word) (params : Fields) :
    kind Catalogue.standard word params = .ok word := by
  simp only [kind, h.1, h.2, if_true]

theorem spelled_of_activation {params : Fields} {word : String}
    (h : activation params = .ok word) : Spelled word := by
  simp only [activation, bind_eq_ok, pure, Except.pure, Except.ok.injEq] at h
  obtain ⟨choice, -, rfl⟩ := h
  cases hget : activations.get? (Text.lower (Text.trim choice)) with
  | none =>
    exact spelled_activations ("relu", "ReLU") (by decide)
  | some word =>
    have hspelled := spelled_activations _ (Table.mem_of_get? hget)
    exact hspelled

theorem kind_kind {raw word : String} {params : Fields}
    (h : kind Catalogue.standard raw params = .ok word) (params' : Fields) :
    kind Catalogue.standard word params' = .ok word := by
  unfold kind at h
  extract_lets trimmed lowered at h
  have htrim : Text.trim trimmed = trimmed := Text.trim_trim raw
  split at h
  · rename_i hknown
    obtain rfl := Except.ok.inj h
    exact kind_of_spelled ⟨htrim, hknown⟩ params'
  · rename_i hunknown
    split at h
    · rename_i layer hfind
      obtain rfl := Except.ok.inj h
      exact kind_of_spelled (spelled_of_mem layer (by simpa using List.mem_of_find?_eq_some hfind))
        params'
    · rename_i hnone
      split at h
      · exact kind_of_spelled (spelled_of_activation h) params'
      · rename_i hactivation
        obtain rfl := Except.ok.inj h
        cases hword : (activations.get? lowered).or (aliases.get? lowered) with
        | some other =>
          have hspelled : Spelled other := by
            rcases Option.or_eq_some_iff.1 hword with hin | ⟨-, hin⟩
            · have hentry := spelled_activations _ (Table.mem_of_get? hin)
              exact hentry
            · have hentry := spelled_aliases _ (Table.mem_of_get? hin)
              exact hentry
          exact kind_of_spelled hspelled params'
        | none =>
          -- The word is neither a kind nor an alias, and it is read as it was read before.
          rw [Option.getD_none]
          simp only [kind, htrim]
          rw [if_neg hunknown, hnone]
          simp only [if_neg hactivation, hword, lowered, Option.getD_none]

end Normal

end LayerGraph
