import LayerGraph.Proofs.Json.Scalars
set_option autoImplicit false

/-!
A document that was written is read as the value that it was written for, one item to a line or
without blanks, if its numbers are finite and no object in it has a key twice. Only an integer with
too many digits stops the reader.
-/

namespace LayerGraph

namespace Value

mutual
/-- Whether JSON can say it: numbers are finite, and no object has a key twice. -/
def isJson : Value → Bool
  | .float x => x.isFinite
  | .list items => isJsonItems items
  | .object fields => decide (fields.map (·.1)).Nodup && isJsonFields fields
  | _ => true
def isJsonItems : List Value → Bool
  | [] => true
  | v :: vs => v.isJson && isJsonItems vs
def isJsonFields : List (String × Value) → Bool
  | [] => true
  | (_, v) :: rest => v.isJson && isJsonFields rest
end

end Value

namespace Json

open Numeral

variable {α β : Type} {rest : List Char}

/-- A scan gives a value and the rest of the text under a condition, and stops otherwise. -/
structure Reads (scan : Scan α) (p : Prop) (a : α) (rest : List Char) : Prop where
  ok : p → scan = .ok (a, rest)
  stop : ¬p → ∃ stop, scan = .error stop

namespace Reads

variable {scan : Scan α} {p q : Prop} {a : α}

theorem of_eq (h : scan = .ok (a, rest)) (hp : p) : Reads scan p a rest :=
  ⟨fun _ => h, fun hnot => absurd hp hnot⟩

theorem congr (h : Reads scan p a rest) (hpq : p ↔ q) : Reads scan q a rest :=
  ⟨fun hq => h.ok (hpq.2 hq), fun hq => h.stop (mt hpq.1 hq)⟩

theorem map (h : Reads scan p a rest) (f : α → β) :
    Reads (scan.map (Prod.map f id)) p (f a) rest := by
  refine ⟨fun hp => by rw [h.ok hp]; rfl, fun hp => ?_⟩
  obtain ⟨stop, hstop⟩ := h.stop hp
  exact ⟨stop, by rw [hstop]; rfl⟩

end Reads

section Steps

variable {n : Nat} {cs next tail : List Char} {p q : Prop} {v : Value} {vs : List Value}
  {k : String} {before all : Fields}

theorem items_last (h : Reads (value n cs) p v rest) (hskip : skip rest = ']' :: tail) :
    Reads (items (n + 1) cs) p [v] tail := by
  refine ⟨fun hp => ?_, fun hp => ?_⟩
  · rw [items, h.ok hp]
    simp only [hskip]
  · obtain ⟨stop, hstop⟩ := h.stop hp
    exact ⟨stop, by rw [items, hstop]⟩

theorem items_more (h : Reads (value n cs) p v rest) (hskip : skip rest = ',' :: next)
    (hmore : Reads (items n (skip next)) q vs tail) :
    Reads (items (n + 1) cs) (p ∧ q) (v :: vs) tail := by
  have hok : p → items (n + 1) cs =
      (items n (skip next)).map (Prod.map (v :: ·) id) := by
    intro hp
    rw [items, h.ok hp]
    simp only [hskip, Prod.map_def, id]
  refine ⟨fun hpq => ?_, fun hpq => ?_⟩
  · rw [hok hpq.1]
    exact (hmore.map (v :: ·)).ok hpq.2
  · by_cases hp : p
    · rw [hok hp]
      exact (hmore.map (v :: ·)).stop fun hq => hpq ⟨hp, hq⟩
    · obtain ⟨stop, hstop⟩ := h.stop hp
      exact ⟨stop, by rw [items, hstop]⟩

theorem fields_last (hkey : key cs = .ok (k, next)) (h : Reads (value n next) p v rest)
    (hskip : skip rest = '\x7d' :: tail) :
    Reads (fields (n + 1) before cs) p (before.put k v) tail := by
  refine ⟨fun hp => ?_, fun hp => ?_⟩
  · rw [fields, hkey]
    simp only [h.ok hp, hskip]
  · obtain ⟨stop, hstop⟩ := h.stop hp
    exact ⟨stop, by rw [fields, hkey]; simp only [hstop]⟩

theorem fields_more {following : List Char} (hkey : key cs = .ok (k, next))
    (h : Reads (value n next) p v rest) (hskip : skip rest = ',' :: following)
    (hmore : Reads (fields n (before.put k v) (skip following)) q all tail) :
    Reads (fields (n + 1) before cs) (p ∧ q) all tail := by
  have hok : p → fields (n + 1) before cs =
      fields n (before.put k v) (skip following) := by
    intro hp
    rw [fields, hkey]
    simp only [h.ok hp, hskip]
  refine ⟨fun hpq => ?_, fun hpq => ?_⟩
  · rw [hok hpq.1]
    exact hmore.ok hpq.2
  · by_cases hp : p
    · rw [hok hp]
      exact hmore.stop fun hq => hpq ⟨hp, hq⟩
    · obtain ⟨stop, hstop⟩ := h.stop hp
      exact ⟨stop, by rw [fields, hkey]; simp only [hstop]⟩

theorem value_list {c : Char} (hskip : skip cs = c :: next) (hc : c ≠ ']')
    (h : Reads (items n (c :: next)) p vs rest) :
    Reads (value (n + 1) ('[' :: cs)) p (.list vs) rest := by
  have hitems : value (n + 1) ('[' :: cs) = (items n (c :: next)).map (Prod.map .list id) := by
    simp [value, hskip, hc, Prod.map_def]
  rw [hitems]
  exact h.map Value.list

theorem value_object {c : Char} (hskip : skip cs = c :: next) (hc : c ≠ '\x7d')
    (h : Reads (fields n [] (c :: next)) p all rest) :
    Reads (value (n + 1) ('\x7b' :: cs)) p (.object all) rest := by
  have hfields : value (n + 1) ('\x7b' :: cs) =
      (fields n [] (c :: next)).map (Prod.map .object id) := by
    simp [value, hskip, hc, Prod.map_def]
  rw [hfields]
  exact h.map Value.object

end Steps

def NoBlank (cs : List Char) : Prop := ∀ c ∈ cs.head?, isBlank c = false

theorem skip_of_noBlank {cs : List Char} (h : NoBlank cs) : skip cs = cs :=
  dropWhile_run (List.forall_mem_nil _) h

theorem skip_lead (columns : Option Nat) (level : Nat) {cs : List Char} (h : NoBlank cs) :
    skip (lead columns level ++ cs) = cs := by
  cases columns with
  | none => exact skip_of_noBlank h
  | some n =>
    have hblank : ∀ c ∈ lead (some n) level, isBlank c = true := by
      intro c hc
      rcases List.mem_cons.1 hc with rfl | hspace
      · rfl
      · rw [(List.mem_replicate.1 hspace).2]
        rfl
    rw [skip, List.dropWhile_append_of_pos hblank]
    exact skip_of_noBlank h

theorem key_keyChars (columns : Option Nat) (k : String) {cs : List Char} (h : NoBlank cs) :
    key (keyChars columns k ++ cs) = .ok (k, cs) := by
  have htext : keyChars columns k ++ cs =
      '"' :: (k.toList.flatMap escapeChar ++ '"' :: (colon columns ++ cs)) := by
    simp [keyChars, textChars]
  have hcolon : skip (colon columns ++ cs) = ':' :: ((colon columns).drop 1 ++ cs) := by
    cases columns <;> rfl
  have hvalue : skip ((colon columns).drop 1 ++ cs) = cs := by
    cases columns with
    | none => exact skip_of_noBlank h
    | some n => exact skip_of_noBlank h
  rw [htext, key, text_write]
  simp only [hcolon, hvalue]

def Numeric (cs : List Char) : Prop :=
  ∃ (negative : Bool) (c : Char) (tail : List Char), c.isDigit = true ∧
    cs = if negative then '-' :: c :: tail else c :: tail

theorem numeric_decimalChars (n : Int) : Numeric (Text.decimalChars n ++ rest) := by
  obtain ⟨c, cs, hdigits⟩ :=
    List.exists_cons_of_ne_nil (Nat.toDigits_ne_nil (n := n.natAbs) (b := 10))
  have hfigures := figures_toDigits n.natAbs
  rw [hdigits, figures_cons] at hfigures
  refine ⟨decide (n < 0), c, cs ++ rest, hfigures.1, ?_⟩
  rw [Text.decimalChars, hdigits]
  simp only [decide_eq_true_eq]
  split <;> rfl

theorem numeric_write (negative : Bool) (rank : Fin (2047 * binade)) :
    Numeric (Layout.json.write (.finite negative rank) ++ rest) := by
  obtain ⟨parts, htext, -, -⟩ := Layout.magnitude_shows .json rank.val
  obtain ⟨c, cs, hparts, hc⟩ := parts.text_eq_cons
  refine ⟨negative, c, cs ++ rest, hc, ?_⟩
  rw [Layout.write, htext, hparts]
  cases negative <;> rfl

theorem word?_of_numeric {cs : List Char} (h : Numeric cs) : word? cs = none := by
  obtain ⟨negative, c, tail, hc, rfl⟩ := h
  have hother : ∀ d : Char, d.isDigit = false → c ≠ d := fun d hd => ne_of_isDigit hc hd
  cases negative with
  | true =>
    simp only [if_true]
    unfold word?
    split <;> simp_all
  | false =>
    simp only [Bool.false_eq_true, if_false]
    unfold word?
    split <;> simp_all

theorem value_of_numeric {cs : List Char} (h : Numeric cs) (n : Nat) :
    value (n + 1) cs = number cs := by
  have hword := word?_of_numeric h
  obtain ⟨negative, c, tail, hc, rfl⟩ := h
  have hother : ∀ d : Char, d.isDigit = false → c ≠ d := fun d hd => ne_of_isDigit hc hd
  cases negative with
  | true =>
    simp only [if_true] at hword ⊢
    unfold value
    split <;> simp_all
  | false =>
    simp only [Bool.false_eq_true, if_false] at hword ⊢
    unfold value
    split <;> simp_all

theorem chars_start (columns : Option Nat) (level : Nat) (v : Value) :
    ∃ c cs, chars columns level v = c :: cs ∧ isBlank c = false ∧ c ≠ ']' := by
  have hnumeric : ∀ cs, Numeric (cs ++ []) →
      ∃ c tail, cs = c :: tail ∧ isBlank c = false ∧ c ≠ ']' := by
    rintro cs ⟨negative, c, tail, hc, heq⟩
    rw [List.append_nil] at heq
    cases negative with
    | true => exact ⟨'-', c :: tail, heq, by decide, by decide⟩
    | false =>
      have hother : ∀ d : Char, d.isDigit = false → c ≠ d := fun d hd => ne_of_isDigit hc hd
      refine ⟨c, tail, heq, ?_, hother ']' (by decide)⟩
      simp [isBlank, hother]
  cases v with
  | null => exact ⟨'n', "ull".toList, by rw [chars]; rfl, by decide, by decide⟩
  | bool b =>
    cases b with
    | true => exact ⟨'t', "rue".toList, by rw [chars]; rfl, by decide, by decide⟩
    | false => exact ⟨'f', "alse".toList, by rw [chars]; rfl, by decide, by decide⟩
  | int n =>
    rw [chars]
    exact hnumeric _ (numeric_decimalChars n)
  | float x =>
    rw [chars]
    cases x with
    | nan => exact ⟨'n', "ull".toList, rfl, by decide, by decide⟩
    | infinite negative =>
      cases negative <;> exact ⟨'n', "ull".toList, rfl, by decide, by decide⟩
    | finite negative rank => exact hnumeric _ (numeric_write negative rank)
  | str s => exact ⟨'"', _, by rw [chars, textChars]; rfl, by decide, by decide⟩
  | list items =>
    cases items with
    | nil => exact ⟨'[', _, by rw [chars], by decide, by decide⟩
    | cons v vs => exact ⟨'[', _, by rw [chars]; rfl, by decide, by decide⟩
  | object fields =>
    cases fields with
    | nil => exact ⟨'\x7b', _, by rw [chars], by decide, by decide⟩
    | cons field rest =>
      obtain ⟨k, v⟩ := field
      exact ⟨'\x7b', _, by rw [chars]; rfl, by decide, by decide⟩

theorem noBlank_chars (columns : Option Nat) (level : Nat) (v : Value) (rest : List Char) :
    NoBlank (chars columns level v ++ rest) := by
  obtain ⟨c, cs, hchars, hblank, -⟩ := chars_start columns level v
  rw [hchars]
  simpa [NoBlank] using hblank

section Values

variable (columns : Option Nat) (level : Nat)

def itemsChars : List Value → List Char
  | [] => []
  | v :: vs => chars columns (level + 1) v ++ moreItems columns level vs

def fieldsChars : List (String × Value) → List Char
  | [] => []
  | (k, v) :: rest =>
    keyChars columns k ++ chars columns (level + 1) v ++ moreFields columns level rest

theorem noBlank_itemsChars (v : Value) (vs : List Value) (rest : List Char) :
    NoBlank (itemsChars columns level (v :: vs) ++ rest) := by
  rw [itemsChars, List.append_assoc]
  exact noBlank_chars columns (level + 1) v _

theorem noBlank_fieldsChars (field : String × Value) (fields : List (String × Value))
    (rest : List Char) : NoBlank (fieldsChars columns level (field :: fields) ++ rest) := by
  obtain ⟨k, v⟩ := field
  simp [fieldsChars, keyChars, textChars, NoBlank, isBlank]

theorem ends_lead {c : Char} (hc : Ends (c :: rest)) : Ends (lead columns level ++ c :: rest) := by
  cases columns with
  | none => exact hc
  | some n => simp [Ends, lead]

theorem ends_moreItems (vs : List Value) (rest : List Char) :
    Ends (moreItems columns level vs ++ rest) := by
  cases vs with
  | nil =>
    rw [moreItems, List.append_assoc]
    exact ends_lead columns level (by simp [Ends])
  | cons v vs => simp [moreItems, Ends]

theorem ends_moreFields (fields : List (String × Value)) (rest : List Char) :
    Ends (moreFields columns level fields ++ rest) := by
  cases fields with
  | nil =>
    rw [moreFields, List.append_assoc]
    exact ends_lead columns level (by simp [Ends])
  | cons field fields => simp [moreFields, Ends]

theorem chars_list (v : Value) (vs : List Value) :
    chars columns level (.list (v :: vs)) =
      '[' :: (lead columns (level + 1) ++ itemsChars columns level (v :: vs)) := by
  simp [chars, itemsChars]

theorem chars_object (field : String × Value) (fields : List (String × Value)) :
    chars columns level (.object (field :: fields)) =
      '\x7b' :: (lead columns (level + 1) ++ fieldsChars columns level (field :: fields)) := by
  obtain ⟨k, v⟩ := field
  simp [chars, fieldsChars]

theorem moreItems_cons (v : Value) (vs : List Value) :
    moreItems columns level (v :: vs) =
      ',' :: (lead columns (level + 1) ++ itemsChars columns level (v :: vs)) := by
  simp [moreItems, itemsChars]

theorem moreFields_cons (field : String × Value) (fields : List (String × Value)) :
    moreFields columns level (field :: fields) =
      ',' :: (lead columns (level + 1) ++ fieldsChars columns level (field :: fields)) := by
  obtain ⟨k, v⟩ := field
  simp [moreFields, fieldsChars]

theorem skip_moreItems_nil (rest : List Char) :
    skip (moreItems columns level [] ++ rest) = ']' :: rest := by
  rw [moreItems, List.append_assoc]
  exact skip_lead columns level (by simp [NoBlank, isBlank])

theorem skip_moreItems_cons (v : Value) (vs : List Value) (rest : List Char) :
    skip (moreItems columns level (v :: vs) ++ rest) =
      ',' :: (lead columns (level + 1) ++ (itemsChars columns level (v :: vs) ++ rest)) := by
  rw [moreItems_cons, List.cons_append, List.append_assoc]
  exact skip_of_noBlank (by simp [NoBlank, isBlank])

theorem skip_moreFields_nil (rest : List Char) :
    skip (moreFields columns level [] ++ rest) = '\x7d' :: rest := by
  rw [moreFields, List.append_assoc]
  exact skip_lead columns level (by simp [NoBlank, isBlank])

theorem skip_moreFields_cons (field : String × Value) (fields : List (String × Value))
    (rest : List Char) :
    skip (moreFields columns level (field :: fields) ++ rest) =
      ',' ::
        (lead columns (level + 1) ++ (fieldsChars columns level (field :: fields) ++ rest)) := by
  rw [moreFields_cons, List.cons_append, List.append_assoc]
  exact skip_of_noBlank (by simp [NoBlank, isBlank])

variable {n : Nat} {p : Prop}

theorem list_chars {v : Value} {vs : List Value}
    (h : Reads (items n (itemsChars columns level (v :: vs) ++ rest)) p (v :: vs) rest) :
    Reads (value (n + 1) (chars columns level (.list (v :: vs)) ++ rest)) p (.list (v :: vs))
      rest := by
  obtain ⟨c, cs, hfirst, -, hc⟩ := chars_start columns (level + 1) v
  have hitems : itemsChars columns level (v :: vs) ++ rest =
      c :: (cs ++ moreItems columns level vs ++ rest) := by
    rw [itemsChars, hfirst]
    rfl
  rw [chars_list, List.cons_append, List.append_assoc]
  rw [hitems] at h ⊢
  exact value_list
    (skip_lead columns (level + 1) (hitems ▸ noBlank_itemsChars columns level v vs rest)) hc h

theorem object_chars {field : String × Value} {fs : List (String × Value)}
    (h : Reads (fields n [] (fieldsChars columns level (field :: fs) ++ rest)) p (field :: fs)
      rest) :
    Reads (value (n + 1) (chars columns level (.object (field :: fs)) ++ rest)) p
      (.object (field :: fs)) rest := by
  obtain ⟨cs, hfields⟩ : ∃ cs, fieldsChars columns level (field :: fs) ++ rest = '"' :: cs := by
    obtain ⟨k, v⟩ := field
    exact ⟨_, by rw [fieldsChars, keyChars, textChars]; rfl⟩
  rw [chars_object, List.cons_append, List.append_assoc]
  rw [hfields] at h ⊢
  exact value_object
    (skip_lead columns (level + 1) (hfields ▸ noBlank_fieldsChars columns level field fs rest))
    (by decide) h

end Values

mutual
theorem value_chars (columns : Option Nat) : ∀ v : Value, v.isJson = true →
    ∀ (fuel level : Nat) {rest : List Char}, 2 * (chars columns level v).length ≤ fuel →
      Ends rest → Reads (value fuel (chars columns level v ++ rest)) (v.writable = true) v rest := by
  intro v hjson fuel level rest hfuel hends
  obtain ⟨c, cs, hstart, -, -⟩ := chars_start columns level v
  obtain ⟨n, rfl⟩ : ∃ n, fuel = n + 1 := by
    rw [hstart, List.length_cons] at hfuel
    exact ⟨fuel - 1, by omega⟩
  match v with
  | .null => exact .of_eq (by simp [chars, value, word?]) rfl
  | .bool b => cases b <;> exact .of_eq (by simp [chars, value, word?]) rfl
  | .int m =>
    rw [chars, value_of_numeric (numeric_decimalChars m), number_decimalChars m hends]
    exact ⟨fun h => if_pos h, fun h => ⟨.integerTooLong, if_neg h⟩⟩
  | .float x =>
    cases x with
    | nan | infinite _ => cases hjson
    | finite negative rank =>
      rw [chars, value_of_numeric (numeric_write negative rank)]
      exact .of_eq (number_write negative rank hends) rfl
  | .str s =>
    refine .of_eq ?_ rfl
    simp [chars, textChars, value, text_write, Except.map]
  | .list [] =>
    refine .of_eq ?_ rfl
    simp [chars, value, skip, isBlank]
  | .list (v :: vs) =>
    rw [chars_list, List.length_cons, List.length_append] at hfuel
    exact list_chars columns level
      (items_chars columns (v :: vs) (by simp) hjson n level rest (by omega))
  | .object [] =>
    refine .of_eq ?_ rfl
    simp [chars, value, skip, isBlank]
  | .object (field :: fs) =>
    rw [chars_object, List.length_cons, List.length_append] at hfuel
    rw [Value.isJson, Bool.and_eq_true, decide_eq_true_eq] at hjson
    exact object_chars columns level
      (fields_chars columns (field :: fs) (by simp) hjson.2 n level [] rest hjson.1 (by omega))
theorem items_chars (columns : Option Nat) : ∀ vs : List Value, vs ≠ [] →
    Value.isJsonItems vs = true → ∀ (fuel level : Nat) (rest : List Char),
      2 * (itemsChars columns level vs).length + 1 ≤ fuel →
        Reads (items fuel (itemsChars columns level vs ++ rest))
          (Value.writableItems vs = true) vs rest
  | [], hne, _ => absurd rfl hne
  | v :: vs, _, hjson => by
    intro fuel level rest hfuel
    rw [Value.isJsonItems, Bool.and_eq_true] at hjson
    rw [itemsChars, List.length_append] at hfuel
    obtain ⟨n, rfl⟩ : ∃ n, fuel = n + 1 := ⟨fuel - 1, by omega⟩
    have hvalue := value_chars columns v hjson.1 n (level + 1) (by omega)
      (ends_moreItems columns level vs rest)
    rw [itemsChars, List.append_assoc]
    cases vs with
    | nil =>
      refine (items_last hvalue (skip_moreItems_nil columns level rest)).congr ?_
      simp [Value.writableItems]
    | cons w ws =>
      rw [moreItems_cons, List.length_cons, List.length_append] at hfuel
      have hmore := items_chars columns (w :: ws) (by simp) hjson.2 n level rest (by omega)
      rw [← skip_lead columns (level + 1) (noBlank_itemsChars columns level w ws rest)] at hmore
      have hskip := skip_moreItems_cons columns level w ws rest
      refine (items_more hvalue hskip hmore).congr ?_
      simp only [Value.writableItems, Bool.and_eq_true]
theorem fields_chars (columns : Option Nat) : ∀ fs : List (String × Value), fs ≠ [] →
    Value.isJsonFields fs = true →
      ∀ (fuel level : Nat) (before : Fields) (rest : List Char),
        ((before ++ fs).map (·.1)).Nodup → 2 * (fieldsChars columns level fs).length + 1 ≤ fuel →
          Reads (fields fuel before (fieldsChars columns level fs ++ rest))
            (Value.writableFields fs = true) (before ++ fs) rest
  | [], hne, _ => absurd rfl hne
  | (k, v) :: fs, _, hjson => by
    intro fuel level before rest hkeys hfuel
    rw [Value.isJsonFields, Bool.and_eq_true] at hjson
    rw [fieldsChars, List.length_append, List.length_append] at hfuel
    obtain ⟨n, rfl⟩ : ∃ n, fuel = n + 1 := ⟨fuel - 1, by omega⟩
    have hvalue := value_chars columns v hjson.1 n (level + 1) (by omega)
      (ends_moreFields columns level fs rest)
    have hkey := key_keyChars columns k
      (noBlank_chars columns (level + 1) v (moreFields columns level fs ++ rest))
    have hput : before.put k v = before ++ [(k, v)] := by
      refine Table.put_fresh ?_ v
      rw [List.map_append, List.nodup_append] at hkeys
      exact fun hin => hkeys.2.2 k hin k List.mem_cons_self rfl
    rw [fieldsChars, List.append_assoc, List.append_assoc]
    cases fs with
    | nil =>
      rw [← hput]
      refine (fields_last hkey hvalue (skip_moreFields_nil columns level rest)).congr ?_
      simp [Value.writableFields]
    | cons field fs =>
      rw [moreFields_cons, List.length_cons, List.length_append] at hfuel
      have hmore := fields_chars columns (field :: fs) (by simp) hjson.2 n level
        (before ++ [(k, v)]) rest (by rwa [List.append_assoc]) (by omega)
      rw [List.append_assoc before, ← hput,
        ← skip_lead columns (level + 1) (noBlank_fieldsChars columns level field fs rest)] at hmore
      have hskip := skip_moreFields_cons columns level field fs rest
      refine (fields_more hkey hvalue hskip hmore).congr ?_
      simp only [Value.writableFields, Bool.and_eq_true]
end

/-- What is read of a document that was written. -/
theorem read_write (columns : Option Nat) {v : Value} (hjson : v.isJson = true) :
    (read (write v columns)).toOption = if v.writable = true then some v else none := by
  have hskip : skip (chars columns 0 v) = chars columns 0 v :=
    skip_of_noBlank (by simpa using noBlank_chars columns 0 v [])
  have hreads := value_chars columns v hjson (2 * (chars columns 0 v).length + 1) 0 (by omega)
    ends_nil
  rw [List.append_nil] at hreads
  rw [read, write, String.toList_ofList, readChars, hskip]
  by_cases hread : v.writable = true
  · rw [if_pos hread, hreads.ok hread]
    rfl
  · obtain ⟨stop, hstop⟩ := hreads.stop hread
    rw [if_neg hread, hstop]
    cases stop <;> rfl

end Json

end LayerGraph
