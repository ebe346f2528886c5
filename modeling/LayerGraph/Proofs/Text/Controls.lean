import LayerGraph.Json.Writer
import Mathlib.Data.List.Basic
set_option autoImplicit false

namespace LayerGraph

namespace Text

/-- The control characters below the space, which a line feed and a carriage return are. -/
def controls (cs : List Char) : List Char := cs.filter (·.toNat < 0x20)

def Clear (cs : List Char) : Prop := ∀ c ∈ cs, 0x20 ≤ c.toNat

-- Named, since an instance that is searched for may run through all characters.
instance (cs : List Char) : Decidable (Clear cs) := List.decidableBAll _ cs

variable {cs ds : List Char} {c : Char}

@[simp] theorem clear_nil : Clear [] := by simp [Clear]

@[simp] theorem clear_cons : Clear (c :: cs) ↔ 0x20 ≤ c.toNat ∧ Clear cs := by simp [Clear]

@[simp] theorem clear_append : Clear (cs ++ ds) ↔ Clear cs ∧ Clear ds := by
  simp [Clear, or_imp, forall_and]

theorem clear_ofList : Clear (String.ofList cs).toList ↔ Clear cs := by
  rw [String.toList_ofList]

theorem Clear.of_subset (h : Clear ds) (hsub : cs ⊆ ds) : Clear cs := fun c hc => h c (hsub hc)

theorem clear_flatMap {α : Type} {xs : List α} {f : α → List Char} (h : ∀ x ∈ xs, Clear (f x)) :
    Clear (xs.flatMap f) := fun c hc => by
  obtain ⟨x, hx, hin⟩ := List.mem_flatMap.1 hc
  exact h x hx c hin

theorem clear_replicate (n : Nat) (h : 0x20 ≤ c.toNat) : Clear (List.replicate n c) := by
  intro d hd
  rw [(List.mem_replicate.1 hd).2]
  exact h

theorem Clear.not_mem (h : Clear cs) (hc : c.toNat < 0x20) : c ∉ cs := fun hin =>
  absurd (h c hin) (by omega)

@[simp] theorem controls_append : controls (cs ++ ds) = controls cs ++ controls ds :=
  List.filter_append ..

theorem Clear.controls_eq (h : Clear cs) : controls cs = [] :=
  List.filter_eq_nil_iff.2 fun c hc => by simpa using h c hc

theorem controls_cons (h : 0x20 ≤ c.toNat) : controls (c :: cs) = controls cs :=
  List.filter_cons_of_neg (by simpa using h)

theorem clear_digitChar (n : Nat) : 0x20 ≤ (Nat.digitChar n).toNat := by
  rcases Nat.lt_or_ge n 16 with hlt | hge
  · exact (by decide : ∀ n < 16, 0x20 ≤ (Nat.digitChar n).toNat) n hlt
  · have hother : Nat.digitChar n = '*' := by
      unfold Nat.digitChar
      simp (disch := omega) only [if_neg]
    rw [hother]
    decide

theorem clear_toDigits {base : Nat} (hbase : 1 < base) (n : Nat) : Clear (Nat.toDigits base n) := by
  induction n using Nat.strongRecOn with
  | ind n ih =>
    by_cases hlt : n < base
    · rw [Nat.toDigits_of_lt_base hlt]
      simp [clear_digitChar]
    · rw [Nat.toDigits_of_base_le hbase (by omega)]
      simpa [clear_digitChar] using ih (n / base) (Nat.div_lt_self (by omega) hbase)

theorem clear_decimalChars (n : Int) : Clear (decimalChars n) := by
  rw [decimalChars]
  split
  · exact clear_cons.2 ⟨by decide, clear_toDigits (by decide) _⟩
  · exact clear_toDigits (by decide) _

theorem clear_decimal (n : Int) : Clear (decimal n).toList :=
  clear_ofList.2 (clear_decimalChars n)

theorem clear_hex (width n : Nat) : Clear (hex width n) :=
  clear_append.2 ⟨clear_replicate _ (by decide), clear_toDigits (by decide) n⟩

end Text

namespace Layout

open Text

theorem clear_places (d : Decimal) : Clear d.places.1 := by
  unfold Decimal.places
  extract_lets all
  have hall : Clear (all.reverse.dropWhile (· == '0')).reverse := by
    have hdigits : Clear (Nat.toDigits 10 d.coefficient) := clear_toDigits (by decide) _
    refine hdigits.of_subset fun c hc => ?_
    rw [List.mem_reverse] at hc
    exact List.mem_reverse.1 ((List.dropWhile_sublist _).subset hc)
  split
  · decide
  · exact hall

theorem clear_zeros (n : Nat) : Clear (zeros n) := clear_replicate n (by decide)

theorem clear_positional {digits : List Char} (h : Clear digits) (point : Int) :
    Clear (positional digits point) := by
  rw [positional]
  split
  · simp [clear_zeros, h]
  · split
    · simp [clear_zeros, h]
    · have htake : Clear (digits.take point.toNat) := h.of_subset (List.take_subset _ _)
      have hdrop : Clear (digits.drop point.toNat) := h.of_subset (List.drop_subset _ _)
      simp [htake, hdrop]

theorem clear_scientific (width : Nat) {digits : List Char} (h : Clear digits) (point : Int) :
    Clear (scientific width digits point) := by
  unfold scientific
  extract_lets power sign shown mantissa
  have hmantissa : Clear mantissa := by
    unfold mantissa
    split
    · simpa using h
    · exact h
  have hsign : 0x20 ≤ sign.toNat := by
    unfold sign
    split <;> decide
  have hshown : Clear shown := clear_toDigits (by decide) _
  simp [hmantissa, clear_zeros, hsign, hshown]

theorem clear_magnitude (layout : Layout) (rank : Nat) : Clear (layout.magnitude rank) := by
  have hplaces := clear_places (Decimal.shortest rank)
  unfold magnitude
  split
  rename_i digits point heq
  rw [heq] at hplaces
  split
  · exact clear_positional hplaces point
  · exact clear_scientific _ hplaces point

theorem clear_write {layout : Layout} (hnan : Clear layout.nan.toList)
    (hinfinity : Clear layout.infinity.toList) (hnegative : Clear layout.negativeInfinity.toList)
    (x : Binary64) : Clear (layout.write x) := by
  cases x with
  | nan => exact hnan
  | infinite negative =>
    cases negative with
    | false => exact hinfinity
    | true => exact hnegative
  | finite negative rank =>
    cases negative with
    | false => exact clear_magnitude layout _
    | true => exact clear_cons.2 ⟨by decide, clear_magnitude layout _⟩

theorem clear_write_literal (x : Binary64) : Clear (literal.write x) :=
  clear_write (by decide) (by decide) (by decide) x

theorem clear_write_json (x : Binary64) : Clear (json.write x) :=
  clear_write (by decide) (by decide) (by decide) x

end Layout

namespace Text

theorem clear_escapeChar {quote : Char} (hquote : 0x20 ≤ quote.toNat) (c : Char) :
    Clear (escapeChar quote c) := by
  rw [escapeChar]
  split
  · rename_i hmark
    have hc : 0x20 ≤ c.toNat := by
      rcases hmark with rfl | rfl
      · exact hquote
      · decide
    simp [hc]
  · have hprinted : isPrintable c = true → 0x20 ≤ c.toNat := by
      intro hprintable
      rw [isPrintable] at hprintable
      split at hprintable
      · exact of_decide_eq_true hprintable
      · omega
    repeat' split
    all_goals simp [clear_hex]
    exact hprinted ‹_›

theorem clear_quotedChars (cs : List Char) : Clear (quotedChars cs) := by
  have hquote : 0x20 ≤ (quoteFor cs).toNat := by
    rw [quoteFor]
    split <;> decide
  simp only [quotedChars, clear_append, clear_cons, hquote, true_and, clear_nil, and_true]
  exact clear_flatMap fun c _ => clear_escapeChar hquote c

end Text

namespace Value

open Text

mutual
theorem clear_literalChars : ∀ v : Value, Clear v.literalChars
  | .null => by simp only [literalChars]; decide
  | .bool b => by cases b <;> (simp only [literalChars]; decide)
  | .int n => by simpa only [literalChars] using clear_decimalChars n
  | .float x => by simpa only [literalChars] using Layout.clear_write_literal x
  | .str s => by simpa only [literalChars] using clear_quotedChars s.toList
  | .list items => by
    simp only [literalChars, clear_cons]
    exact ⟨by decide, clear_literalItems items⟩
  | .object fields => by
    simp only [literalChars, clear_cons]
    exact ⟨by decide, clear_literalFields fields⟩
theorem clear_literalItems : ∀ items : List Value, Clear (literalItems items)
  | [] => by simp only [literalItems]; decide
  | [v] => by simp [literalItems, clear_literalChars v]
  | v :: w :: rest => by
    simp [literalItems, clear_literalChars v, clear_literalItems (w :: rest)]
theorem clear_literalFields : ∀ fields : List (String × Value), Clear (literalFields fields)
  | [] => by simp only [literalFields]; decide
  | [(k, v)] => by simp [literalFields, clear_quotedChars, clear_literalChars v]
  | (k, v) :: field :: rest => by
    simp [literalFields, clear_quotedChars, clear_literalChars v,
      clear_literalFields (field :: rest)]
end

theorem clear_literal (v : Value) : Clear v.literal.toList := clear_ofList.2 (clear_literalChars v)

end Value

namespace Json

open Text hiding escapeChar

theorem clear_escapeChar (c : Char) : Clear (escapeChar c) := by
  rw [escapeChar]
  repeat' split
  all_goals simp [clear_hex]
  omega

theorem clear_textChars (s : String) : Clear (textChars s) := by
  simp only [textChars, clear_append, clear_cons, clear_nil, and_true]
  exact ⟨⟨by decide, clear_flatMap fun c _ => clear_escapeChar c⟩, by decide⟩

mutual
/-- The line feeds in a text that has one item to a line. -/
def breaks : Value → Nat
  | .list (v :: vs) => 1 + breaks v + breaksItems vs
  | .object ((_, v) :: rest) => 1 + breaks v + breaksFields rest
  | _ => 0
def breaksItems : List Value → Nat
  | [] => 1
  | v :: vs => 1 + breaks v + breaksItems vs
def breaksFields : List (String × Value) → Nat
  | [] => 1
  | (_, v) :: rest => 1 + breaks v + breaksFields rest
end

theorem controls_lead (columns level : Nat) : controls (lead (some columns) level) = ['\n'] := by
  have hblanks := (clear_replicate (columns * level) (c := ' ') (by decide)).controls_eq
  rw [lead, controls, List.filter_cons_of_pos (by decide)]
  exact congrArg _ hblanks

theorem controls_keyChars (columns : Nat) (key : String) :
    controls (keyChars (some columns) key) = [] := by
  rw [keyChars, controls_append, (clear_textChars key).controls_eq]
  rfl

theorem replicate_breaks (m n : Nat) :
    '\n' :: (List.replicate m '\n' ++ List.replicate n '\n') = List.replicate (1 + m + n) '\n' := by
  rw [Nat.add_assoc, Nat.add_comm 1, List.replicate_succ, List.replicate_add]

mutual
theorem controls_chars (columns level : Nat) :
    ∀ v : Value, controls (chars (some columns) level v) = List.replicate (breaks v) '\n'
  | .null => by simp only [chars, breaks]; rfl
  | .bool b => by cases b <;> (simp only [chars, breaks]; rfl)
  | .int n => by
    simpa only [chars, breaks, List.replicate_zero] using (clear_decimalChars n).controls_eq
  | .float x => by
    simpa only [chars, breaks, List.replicate_zero] using (Layout.clear_write_json x).controls_eq
  | .str s => by
    simpa only [chars, breaks, List.replicate_zero] using (clear_textChars s).controls_eq
  | .list [] => by simp only [chars, breaks]; rfl
  | .list (v :: vs) => by
    simp only [chars, breaks, List.cons_append, controls_cons (show 0x20 ≤ '['.toNat by decide),
      controls_append, controls_lead, controls_chars columns (level + 1) v,
      controls_moreItems columns level vs, List.nil_append, replicate_breaks]
  | .object [] => by simp only [chars, breaks]; rfl
  | .object ((k, v) :: rest) => by
    simp only [chars, breaks, List.cons_append, controls_cons (show 0x20 ≤ '\x7b'.toNat by decide),
      controls_append, controls_lead, controls_keyChars, List.append_nil,
      controls_chars columns (level + 1) v, controls_moreFields columns level rest,
      List.nil_append, replicate_breaks]
theorem controls_moreItems (columns level : Nat) :
    ∀ items : List Value,
      controls (moreItems (some columns) level items) = List.replicate (breaksItems items) '\n'
  | [] => by
    simp only [moreItems, breaksItems, controls_append, controls_lead]
    rfl
  | v :: vs => by
    simp only [moreItems, breaksItems, List.cons_append,
      controls_cons (show 0x20 ≤ ','.toNat by decide), controls_append, controls_lead,
      controls_chars columns (level + 1) v, controls_moreItems columns level vs, List.nil_append,
      replicate_breaks]
theorem controls_moreFields (columns level : Nat) :
    ∀ fields : List (String × Value),
      controls (moreFields (some columns) level fields) = List.replicate (breaksFields fields) '\n'
  | [] => by
    simp only [moreFields, breaksFields, controls_append, controls_lead]
    rfl
  | (k, v) :: rest => by
    simp only [moreFields, breaksFields, List.cons_append,
      controls_cons (show 0x20 ≤ ','.toNat by decide), controls_append, controls_lead,
      controls_keyChars, List.append_nil, controls_chars columns (level + 1) v,
      controls_moreFields columns level rest, List.nil_append, replicate_breaks]
end

theorem controls_write (columns : Nat) (v : Value) :
    controls (write v (some columns)).toList = List.replicate (breaks v) '\n' := by
  rw [write, String.toList_ofList, controls_chars]

theorem not_mem_write (columns : Nat) (v : Value) {c : Char} (hc : c.toNat < 0x20)
    (hne : c ≠ '\n') : c ∉ (write v (some columns)).toList := fun hin => by
  have hcontrol : c ∈ controls (write v (some columns)).toList :=
    List.mem_filter.2 ⟨hin, decide_eq_true hc⟩
  rw [controls_write] at hcontrol
  exact hne (List.mem_replicate.1 hcontrol).2

theorem count_write (columns : Nat) (v : Value) :
    (write v (some columns)).toList.count '\n' = breaks v := by
  have hcount := congrArg (List.count '\n') (controls_write columns v)
  rwa [controls, List.count_filter (by decide), List.count_replicate_self] at hcount

variable {α : Type} {f g : α → Value} {xs : List α}

theorem breaksItems_congr (h : ∀ x ∈ xs, breaks (f x) = breaks (g x)) :
    breaksItems (xs.map f) = breaksItems (xs.map g) := by
  induction xs with
  | nil => rfl
  | cons x xs ih =>
    obtain ⟨hx, hxs⟩ := List.forall_mem_cons.1 h
    rw [List.map_cons, List.map_cons, breaksItems, breaksItems, hx, ih hxs]

theorem breaks_list_congr (h : ∀ x ∈ xs, breaks (f x) = breaks (g x)) :
    breaks (.list (xs.map f)) = breaks (.list (xs.map g)) := by
  cases xs with
  | nil => rfl
  | cons x xs =>
    obtain ⟨hx, hxs⟩ := List.forall_mem_cons.1 h
    rw [List.map_cons, List.map_cons, breaks, breaks, hx, breaksItems_congr hxs]

end Json

end LayerGraph
