import LayerGraph.Program.Name
import LayerGraph.Proofs.Json.Scalars
import LayerGraph.Proofs.Text.Quoted
set_option autoImplicit false

namespace LayerGraph

namespace Value

mutual
/-- Values without floating point numbers and with integers that can be written. -/
def isExact : Value → Bool
  | .float _ => false
  | .int n => isWritable n
  | .list items => isExactItems items
  | .object fields => decide (fields.map (·.1)).Nodup && isExactFields fields
  | .null | .bool _ | .str _ => true
def isExactItems : List Value → Bool
  | [] => true
  | v :: vs => v.isExact && isExactItems vs
def isExactFields : List (String × Value) → Bool
  | [] => true
  | (_, v) :: rest => v.isExact && isExactFields rest
end

end Value

namespace Literal

open Text (Printed)

def isBlank (c : Char) : Bool := c == ' ' || c == '\t'

def skip (cs : List Char) : List Char := cs.dropWhile isBlank

/-- The character goes on with a word or a number, as all beyond ASCII are taken to. -/
def isInner (c : Char) : Bool := Program.isNameChar c || c == '.' || decide (0x80 ≤ c.toNat)

def natural? (word : List Char) : Option Nat :=
  if word ≠ [] ∧ word.all Char.isDigit = true ∧ (word.head? = some '0' → word = ['0']) ∧
      word.length ≤ digitLimit then
    some (Numeral.shown word)
  else none

def constants : Table Value := [("None", .null), ("True", .bool true), ("False", .bool false)]

def word? (word : List Char) : Option Value :=
  match constants.get? (String.ofList word) with
  | some v => some v
  | none => (natural? word).map fun (n : Nat) => .int n

def atom : List Char → Scan Value
  | '-' :: rest =>
    (natural? (rest.takeWhile isInner)).map fun (n : Nat) => (.int (-n), rest.dropWhile isInner)
  | cs => (word? (cs.takeWhile isInner)).map fun v => (v, cs.dropWhile isInner)

def key (cs : List Char) : Scan String :=
  match string cs with
  | none => none
  | some (k, rest) =>
    match skip rest with
    | ':' :: rest => some (k, skip rest)
    | _ => none

def objectOf (fields : List (String × Value)) : Value :=
  .object (fields.foldl (fun table field => Table.put table field.1 field.2) [])

mutual
/-- Reads a literal. A bound of twice the characters is enough: each step spends one on its bracket
or comma, and the item behind it is read by another one. -/
def value : Nat → List Char → Scan Value
  | 0, _ => none
  | n + 1, cs =>
    match string cs with
    | some (s, rest) => some (.str s, rest)
    | none =>
      match cs with
      | '[' :: rest =>
        match skip rest with
        | ']' :: rest => some (.list [], rest)
        | rest => (items n rest).map fun (vs, rest) => (.list vs, rest)
      | '\x7b' :: rest =>
        match skip rest with
        | '\x7d' :: rest => some (.object [], rest)
        | rest => (entries n key '\x7d' rest).map fun (fields, rest) => (objectOf fields, rest)
      | cs => atom cs
def items : Nat → List Char → Scan (List Value)
  | 0, _ => none
  | n + 1, cs =>
    match value n cs with
    | none => none
    | some (v, rest) =>
      match skip rest with
      | ']' :: rest => some ([v], rest)
      | ',' :: rest => (items n (skip rest)).map fun (vs, rest) => (v :: vs, rest)
      | _ => none
def entries : Nat → (List Char → Scan String) → Char → List Char → Scan (List (String × Value))
  | 0, _, _, _ => none
  | n + 1, key, close, cs =>
    match key cs with
    | none => none
    | some (k, rest) =>
      match value n rest with
      | none => none
      | some (v, rest) =>
        match skip rest with
        | c :: rest =>
          if c = close then some ([(k, v)], rest)
          else if c = ',' then
            (entries n key close (skip rest)).map fun (fields, rest) => ((k, v) :: fields, rest)
          else none
        | [] => none
end

def scan (cs : List Char) : Scan Value := value (2 * cs.length) cs

/-- The value of a text that is one literal. -/
def read (s : String) : Option Value :=
  match scan s.toList with
  | some (v, []) => some v
  | _ => none

variable {rest : List Char}

def Ends (cs : List Char) : Prop := ∀ c ∈ cs.head?, isInner c = false ∧ c ≠ '\'' ∧ c ≠ '"'

@[simp] theorem ends_nil : Ends [] := by simp [Ends]

@[simp] theorem ends_cons {c : Char} :
    Ends (c :: rest) ↔ isInner c = false ∧ c ≠ '\'' ∧ c ≠ '"' := by simp [Ends]

theorem Ends.noQuote (h : Ends rest) : NoQuote rest := fun c hc => (h c hc).2

theorem Ends.inner (h : Ends rest) : ∀ c ∈ rest.head?, isInner c = false :=
  fun c hc => (h c hc).1

theorem isInner_of_isNameChar {c : Char} (h : Program.isNameChar c = true) : isInner c = true := by
  simp [isInner, h]

theorem isNameChar_of_isDigit {c : Char} (h : c.isDigit = true) :
    Program.isNameChar c = true := by
  simp [Program.isNameChar, Char.isAlphanum, h]

theorem natural?_natAbs {n : Int} (hn : isWritable n = true) :
    natural? (Nat.toDigits 10 n.natAbs) = some n.natAbs := by
  have hleading : (Nat.toDigits 10 n.natAbs).head? = some '0' →
      Nat.toDigits 10 n.natAbs = ['0'] := by
    intro hhead
    rcases Nat.eq_zero_or_pos n.natAbs with hzero | hpos
    · rw [hzero]
      rfl
    · exact absurd hhead (Numeral.head_toDigits hpos)
  have hdigits : (Nat.toDigits 10 n.natAbs).all Char.isDigit = true :=
    List.all_eq_true.2 (Numeral.figures_toDigits n.natAbs)
  rw [natural?, if_pos ⟨Nat.toDigits_ne_nil, hdigits, hleading,
    (Json.length_toDigits_le_iff n).2 hn⟩, Numeral.shown_toDigits]

theorem constants_of_isDigit {c : Char} (h : c.isDigit = true) (cs : List Char) :
    constants.get? (String.ofList (c :: cs)) = none := by
  refine (Table.get?_eq_none_iff constants _).2 fun hin => ?_
  have hletter : ∀ word ∈ constants.map (·.1), word.toList.head?.any Char.isDigit = false := by
    decide
  simpa [h] using hletter _ hin

theorem atom_word {c : Char} {cs : List Char} {v : Value} (hminus : c ≠ '-')
    (hinner : ∀ d ∈ c :: cs, isInner d = true) (hword : word? (c :: cs) = some v)
    (hrest : Ends rest) : atom (c :: cs ++ rest) = some (v, rest) := by
  have htake := takeWhile_run hinner hrest.inner
  have hdrop := dropWhile_run hinner hrest.inner
  rw [List.cons_append] at htake hdrop ⊢
  unfold atom
  split
  · rename_i heq
    exact absurd (List.cons.inj heq).1 hminus
  · rw [htake, hdrop, hword, Option.map_some]

theorem atom_decimalChars {n : Int} (hn : isWritable n = true) (hrest : Ends rest) :
    atom (Text.decimalChars n ++ rest) = some (.int n, rest) := by
  have hfigures := Numeral.figures_toDigits n.natAbs
  have hinner : ∀ c ∈ Nat.toDigits 10 n.natAbs, isInner c = true := fun c hc =>
    isInner_of_isNameChar (isNameChar_of_isDigit (hfigures c hc))
  have hnatural := natural?_natAbs hn
  rw [Text.decimalChars]
  split
  · rename_i hnegative
    have hvalue : -(n.natAbs : Int) = n := by omega
    rw [List.cons_append, atom, takeWhile_run hinner hrest.inner,
      dropWhile_run hinner hrest.inner, hnatural, Option.map_some, hvalue]
  · rename_i hnonnegative
    have hvalue : (n.natAbs : Int) = n := by omega
    obtain ⟨c, cs, hdigits⟩ :=
      List.exists_cons_of_ne_nil (Nat.toDigits_ne_nil (n := n.natAbs) (b := 10))
    rw [hdigits] at hfigures hinner hnatural ⊢
    have hc := (Numeral.figures_cons.1 hfigures).1
    refine atom_word (Numeral.ne_of_isDigit hc (by decide)) hinner ?_ hrest
    rw [word?, constants_of_isDigit hc, hnatural]
    simp only [Option.map_some, hvalue]

def NoBlank (cs : List Char) : Prop := ∀ c ∈ cs.head?, isBlank c = false

theorem skip_of_noBlank {cs : List Char} (h : NoBlank cs) : skip cs = cs :=
  dropWhile_run (List.forall_mem_nil _) h

theorem skip_space {cs : List Char} (h : NoBlank cs) : skip (' ' :: cs) = cs := by
  rw [skip, List.dropWhile_cons_of_pos rfl]
  exact skip_of_noBlank h

/-- What is known of the literal of a value: how it starts, that it is printable, and that it is
read as the value, whatever stands behind it. -/
structure Sound (v : Value) : Prop where
  writable : v.writable = true
  printed : Printed v.literalChars
  starts : ∃ c cs, v.literalChars = c :: cs ∧ isBlank c = false ∧ c ≠ ']'
  reads : ∀ fuel rest, 2 * v.literalChars.length ≤ fuel → Ends rest →
    value fuel (v.literalChars ++ rest) = some (v, rest)

theorem string_of_ne {c : Char} (hsingle : c ≠ '\'') (hdouble : c ≠ '"') (cs : List Char) :
    string (c :: cs) = none := by
  unfold string
  split <;> simp_all

theorem value_atom {c : Char} {cs : List Char} (hsingle : c ≠ '\'') (hdouble : c ≠ '"')
    (hlist : c ≠ '[') (hobject : c ≠ '\x7b') (n : Nat) :
    value (n + 1) (c :: cs) = atom (c :: cs) := by
  simp only [value, string_of_ne hsingle hdouble]
  split <;> simp_all

/-- A literal that is not empty leaves some fuel to those in it. -/
theorem exists_fuel {c : Char} {cs ds : List Char} {fuel : Nat} (hchars : cs = c :: ds)
    (hfuel : 2 * cs.length ≤ fuel) : ∃ n, fuel = n + 1 := by
  rw [hchars, List.length_cons] at hfuel
  exact ⟨fuel - 1, by omega⟩

theorem sound_word {v : Value} {c : Char} {cs : List Char} (hchars : v.literalChars = c :: cs)
    (hwritable : v.writable = true) (hprinted : Printed (c :: cs))
    (hinner : (c :: cs).all isInner = true) (hc : c.isAlpha = true)
    (hword : word? (c :: cs) = some v) : Sound v where
  writable := hwritable
  printed := hchars ▸ hprinted
  starts := by
    refine ⟨c, cs, hchars, ?_, ?_⟩
    · by_contra hblank
      rw [Bool.not_eq_false, isBlank, Bool.or_eq_true, beq_iff_eq, beq_iff_eq] at hblank
      rcases hblank with rfl | rfl <;> cases hc
    · rintro rfl
      cases hc
  reads fuel rest hfuel hrest := by
    have hother : ∀ d : Char, d.isAlpha = false → c ≠ d := by
      rintro d hd rfl
      rw [hc] at hd
      cases hd
    obtain ⟨n, rfl⟩ := exists_fuel hchars hfuel
    rw [hchars, List.cons_append, value_atom (hother _ (by decide)) (hother _ (by decide))
      (hother _ (by decide)) (hother _ (by decide))]
    exact atom_word (hother _ (by decide)) (List.all_eq_true.1 hinner) hword hrest

theorem sound_null : Sound .null :=
  sound_word (by rw [Value.literalChars]; rfl) rfl (by decide) (by decide) (by decide) (by decide)

theorem sound_bool (b : Bool) : Sound (.bool b) := by
  cases b with
  | true =>
    exact sound_word (by rw [Value.literalChars]; rfl) rfl (by decide) (by decide) (by decide)
      (by decide)
  | false =>
    exact sound_word (by rw [Value.literalChars]; rfl) rfl (by decide) (by decide) (by decide)
      (by decide)

theorem decimalChars_eq_cons (n : Int) :
    ∃ c cs, Text.decimalChars n = c :: cs ∧
      ∀ d : Char, d ≠ '-' → d.isDigit = false → c ≠ d := by
  have hfigures := Numeral.figures_toDigits n.natAbs
  obtain ⟨c, cs, hdigits⟩ :=
    List.exists_cons_of_ne_nil (Nat.toDigits_ne_nil (n := n.natAbs) (b := 10))
  rw [hdigits, Numeral.figures_cons] at hfigures
  rw [Text.decimalChars, hdigits]
  split
  · exact ⟨'-', c :: cs, rfl, fun d hminus _ => hminus.symm⟩
  · exact ⟨c, cs, rfl, fun d _ hd => Numeral.ne_of_isDigit hfigures.1 hd⟩

theorem sound_int {n : Int} (hn : isWritable n = true) : Sound (.int n) := by
  obtain ⟨c, cs, hchars, hother⟩ := decimalChars_eq_cons n
  refine ⟨hn, ?_, ⟨c, cs, by rw [Value.literalChars, hchars], ?_, hother _ (by decide) (by decide)⟩,
    fun fuel rest hfuel hrest => ?_⟩
  · rw [Value.literalChars]
    exact Text.printed_decimalChars n
  · simp [isBlank, hother ' ' (by decide) (by decide), hother '\t' (by decide) (by decide)]
  · rw [Value.literalChars] at hfuel ⊢
    have hread := atom_decimalChars hn hrest
    obtain ⟨m, rfl⟩ := exists_fuel hchars hfuel
    rw [hchars, List.cons_append] at hread ⊢
    rw [value_atom (hother _ (by decide) (by decide)) (hother _ (by decide) (by decide))
      (hother _ (by decide) (by decide)) (hother _ (by decide) (by decide)), hread]

theorem sound_str (s : String) : Sound (.str s) where
  writable := rfl
  printed := by
    rw [Value.literalChars]
    exact Text.printed_quotedChars s.toList
  starts := by
    have hquote := quoteFor_cases s.toList
    refine ⟨_, _, by rw [Value.literalChars]; rfl, ?_, ?_⟩
    · rcases hquote with h | h <;> (rw [h]; decide)
    · rcases hquote with h | h <;> (rw [h]; decide)
  reads fuel rest hfuel hrest := by
    rw [Value.literalChars] at hfuel ⊢
    obtain ⟨n, rfl⟩ := exists_fuel (show Text.quotedChars s.toList = _ from rfl) hfuel
    simp only [value, string_quotedChars s hrest.noQuote]

theorem literalItems_starts {v : Value} (h : Sound v) (vs : List Value) :
    ∃ c cs, Value.literalItems (v :: vs) = c :: cs ∧ isBlank c = false ∧ c ≠ ']' := by
  obtain ⟨c, cs, hchars, hc⟩ := h.starts
  cases vs with
  | nil => exact ⟨c, cs ++ [']'], by simp [Value.literalItems, hchars], hc⟩
  | cons w ws =>
    exact ⟨c, cs ++ ',' :: ' ' :: Value.literalItems (w :: ws),
      by simp [Value.literalItems, hchars], hc⟩

theorem items_literalItems {vs : List Value} (hne : vs ≠ []) (h : ∀ v ∈ vs, Sound v) (fuel : Nat)
    (rest : List Char) (hfuel : 2 * (Value.literalItems vs).length ≤ fuel) :
    items fuel (Value.literalItems vs ++ rest) = some (vs, rest) := by
  -- The item in front and those behind it are read with the same fuel, so it is not kept fixed.
  induction vs generalizing fuel with
  | nil => exact absurd rfl hne
  | cons v vs ih =>
    obtain ⟨hv, hvs⟩ := List.forall_mem_cons.1 h
    obtain ⟨_, _, hfirst, -⟩ := literalItems_starts hv vs
    obtain ⟨n, rfl⟩ := exists_fuel hfirst hfuel
    cases vs with
    | nil =>
      simp only [Value.literalItems, List.length_append, List.length_singleton] at hfuel
      have hread := hv.reads n (']' :: rest) (by omega) (by simp [isInner, Program.isNameChar])
      simp only [Value.literalItems, List.append_assoc, List.singleton_append, items, hread]
      rfl
    | cons w ws =>
      obtain ⟨c, cs, hmore, hblank, -⟩ := literalItems_starts (hvs w List.mem_cons_self) ws
      have hchars : Value.literalItems (v :: w :: ws) ++ rest =
          v.literalChars ++ ',' :: ' ' :: (Value.literalItems (w :: ws) ++ rest) := by
        simp [Value.literalItems]
      have hlength : (Value.literalItems (v :: w :: ws)).length =
          v.literalChars.length + 2 + (Value.literalItems (w :: ws)).length := by
        simp [Value.literalItems]
        omega
      have hread := hv.reads n (',' :: ' ' :: (Value.literalItems (w :: ws) ++ rest)) (by omega)
        (by simp [isInner, Program.isNameChar])
      have hskip : skip (' ' :: (Value.literalItems (w :: ws) ++ rest)) =
          Value.literalItems (w :: ws) ++ rest :=
        skip_space (by simp [hmore, NoBlank, hblank])
      rw [hchars, items, hread]
      simp only [show skip (',' :: ' ' :: (Value.literalItems (w :: ws) ++ rest)) =
        ',' :: ' ' :: (Value.literalItems (w :: ws) ++ rest) from rfl, hskip,
        ih (by simp) hvs n (by omega), Option.map_some]

theorem sound_list {vs : List Value} (h : ∀ v ∈ vs, Sound v) : Sound (.list vs) where
  writable := by
    rw [Value.writable]
    induction vs with
    | nil => rfl
    | cons v vs ih =>
      obtain ⟨hv, hvs⟩ := List.forall_mem_cons.1 h
      rw [Value.writableItems, hv.writable, ih hvs]
      rfl
  printed := by
    rw [Value.literalChars]
    refine Text.printed_cons.2 ⟨by decide, ?_⟩
    induction vs with
    | nil => decide
    | cons v vs ih =>
      obtain ⟨hv, hvs⟩ := List.forall_mem_cons.1 h
      cases vs with
      | nil => exact Text.printed_append.2 ⟨hv.printed, by decide⟩
      | cons w ws =>
        refine Text.printed_append.2 ⟨hv.printed, ?_⟩
        exact Text.printed_cons.2 ⟨by decide, Text.printed_cons.2 ⟨by decide, ih hvs⟩⟩
  starts := ⟨_, _, by rw [Value.literalChars], by decide, by decide⟩
  reads fuel rest hfuel hrest := by
    rw [Value.literalChars] at hfuel ⊢
    obtain ⟨n, rfl⟩ := exists_fuel rfl hfuel
    rw [List.length_cons] at hfuel
    rw [List.cons_append, value, string_of_ne (by decide) (by decide)]
    cases vs with
    | nil => rfl
    | cons v vs =>
      obtain ⟨c, cs, hfirst, hblank, hc⟩ := literalItems_starts (h v List.mem_cons_self) vs
      have hread := items_literalItems (by simp) h n rest (by omega)
      have hskip : skip (Value.literalItems (v :: vs) ++ rest) =
          Value.literalItems (v :: vs) ++ rest :=
        skip_of_noBlank (by simp [hfirst, NoBlank, hblank])
      rw [hfirst, List.cons_append] at hread hskip ⊢
      simp [hskip, hc, hread]

/-- A key is shown so that it is read with the mark behind it, and is not taken for the end. -/
structure Fits (key : List Char → Scan String) (shown : String → List Char) (close : Char)
    (k : String) : Prop where
  reads : ∀ cs, NoBlank cs → key (shown k ++ cs) = some (k, cs)
  starts : ∃ c cs, shown k = c :: cs ∧ isBlank c = false ∧ c ≠ close

def entriesChars (shown : String → List Char) (close : Char) : List (String × Value) → List Char
  | [] => [close]
  | [(k, v)] => shown k ++ v.literalChars ++ [close]
  | (k, v) :: rest =>
    shown k ++ v.literalChars ++ ',' :: ' ' :: entriesChars shown close rest

section Entries

variable {key : List Char → Scan String} {shown : String → List Char} {close : Char}
  {fs : List (String × Value)}

theorem entriesChars_starts {k : String} (hk : Fits key shown close k) (v : Value)
    (fs : List (String × Value)) :
    ∃ c cs, entriesChars shown close ((k, v) :: fs) = c :: cs ∧ isBlank c = false ∧ c ≠ close := by
  obtain ⟨c, cs, hshown, hc⟩ := hk.starts
  cases fs with
  | nil => exact ⟨c, _, by rw [entriesChars, hshown]; rfl, hc⟩
  | cons field fs => exact ⟨c, _, by rw [entriesChars, hshown]; rfl; simp, hc⟩

theorem Sound.noBlank {v : Value} (h : Sound v) (rest : List Char) :
    NoBlank (v.literalChars ++ rest) := by
  obtain ⟨c, cs, hchars, hblank, -⟩ := h.starts
  simp [hchars, NoBlank, hblank]

theorem entries_entriesChars (hends : ∀ rest, Ends (close :: rest)) (hblank : isBlank close = false)
    (hcomma : close ≠ ',') (hne : fs ≠ []) (hkeys : ∀ field ∈ fs, Fits key shown close field.1)
    (hvalues : ∀ field ∈ fs, Sound field.2) (fuel : Nat) (rest : List Char)
    (hfuel : 2 * (entriesChars shown close fs).length ≤ fuel) :
    entries fuel key close (entriesChars shown close fs ++ rest) = some (fs, rest) := by
  induction fs generalizing fuel with
  | nil => exact absurd rfl hne
  | cons field fs ih =>
    obtain ⟨k, v⟩ := field
    obtain ⟨hk, hks⟩ := List.forall_mem_cons.1 hkeys
    obtain ⟨(hv : Sound v), hvs⟩ := List.forall_mem_cons.1 hvalues
    obtain ⟨_, _, hfirst, -⟩ := entriesChars_starts hk v fs
    obtain ⟨n, rfl⟩ := exists_fuel hfirst hfuel
    cases fs with
    | nil =>
      simp only [entriesChars, List.length_append, List.length_singleton] at hfuel
      have hread := hv.reads n (close :: rest) (by omega) (hends rest)
      have hskip : skip (close :: rest) = close :: rest :=
        skip_of_noBlank (by simp [NoBlank, hblank])
      simp only [entriesChars, List.append_assoc, List.singleton_append, entries,
        hk.reads _ (hv.noBlank _), hread, hskip, if_true]
    | cons next fs =>
      obtain ⟨k', v'⟩ := next
      obtain ⟨c, cs, hmore, hc, -⟩ := entriesChars_starts (hks _ List.mem_cons_self) v' fs
      have hchars : entriesChars shown close ((k, v) :: (k', v') :: fs) ++ rest =
          shown k ++ (v.literalChars ++
            ',' :: ' ' :: (entriesChars shown close ((k', v') :: fs) ++ rest)) := by
        simp [entriesChars]
      have hlength : (entriesChars shown close ((k, v) :: (k', v') :: fs)).length =
          (shown k).length + v.literalChars.length + 2
            + (entriesChars shown close ((k', v') :: fs)).length := by
        simp [entriesChars]
        omega
      have hread := hv.reads n
        (',' :: ' ' :: (entriesChars shown close ((k', v') :: fs) ++ rest)) (by omega)
        (by simp [isInner, Program.isNameChar])
      have hskip : skip (' ' :: (entriesChars shown close ((k', v') :: fs) ++ rest)) =
          entriesChars shown close ((k', v') :: fs) ++ rest :=
        skip_space (by simp [hmore, NoBlank, hc])
      rw [hchars, entries, hk.reads _ (hv.noBlank _)]
      simp only [hread,
        show skip (',' :: ' ' :: (entriesChars shown close ((k', v') :: fs) ++ rest)) =
          ',' :: ' ' :: (entriesChars shown close ((k', v') :: fs) ++ rest) from rfl,
        if_neg hcomma.symm, if_true, hskip, ih (by simp) hks hvs n (by omega), Option.map_some]

theorem printed_entriesChars (hclose : Text.isPrintable close = true)
    (hkeys : ∀ field ∈ fs, Printed (shown field.1)) (hvalues : ∀ field ∈ fs, Sound field.2) :
    Printed (entriesChars shown close fs) := by
  induction fs with
  | nil => simpa [entriesChars] using hclose
  | cons field fs ih =>
    obtain ⟨k, v⟩ := field
    obtain ⟨hk, hks⟩ := List.forall_mem_cons.1 hkeys
    obtain ⟨hv, hvs⟩ := List.forall_mem_cons.1 hvalues
    cases fs with
    | nil => simpa [entriesChars, hclose, hv.printed] using hk
    | cons next fs =>
      have hcomma : Text.isPrintable ',' = true ∧ Text.isPrintable ' ' = true := by decide
      simpa [entriesChars, hv.printed, hcomma, ih hks hvs] using hk

end Entries

def fieldKey (k : String) : List Char := Text.quotedChars k.toList ++ [':', ' ']

theorem literalFields_eq (fs : List (String × Value)) :
    Value.literalFields fs = entriesChars fieldKey '\x7d' fs := by
  induction fs with
  | nil => rw [Value.literalFields, entriesChars]
  | cons field fs ih =>
    obtain ⟨k, v⟩ := field
    cases fs with
    | nil => simp [Value.literalFields, entriesChars, fieldKey]
    | cons next fs => simp [Value.literalFields, entriesChars, fieldKey, ih]

theorem fits_fieldKey (k : String) : Fits key fieldKey '\x7d' k where
  reads cs hcs := by
    have hchars : fieldKey k ++ cs = Text.quotedChars k.toList ++ ':' :: ' ' :: cs := by
      simp [fieldKey]
    rw [hchars, key, string_quotedChars k (by simp [NoQuote])]
    simp only [show skip (':' :: ' ' :: cs) = ':' :: ' ' :: cs from rfl, skip_space hcs]
  starts := by
    refine ⟨_, _, rfl, ?_⟩
    rcases quoteFor_cases k.toList with h | h <;> (rw [h]; decide)

theorem objectOf_nodup {fs : List (String × Value)} (h : (fs.map (·.1)).Nodup) :
    objectOf fs = .object fs := by
  have hfrom : ∀ (rest before : List (String × Value)), ((before ++ rest).map (·.1)).Nodup →
      rest.foldl (fun table field => Table.put table field.1 field.2) before = before ++ rest := by
    intro rest
    induction rest with
    | nil => simp
    | cons field rest ih =>
      intro before hkeys
      have hfresh : field.1 ∉ before.map (·.1) := by
        rw [List.map_append, List.nodup_append] at hkeys
        exact fun hin => hkeys.2.2 _ hin _ List.mem_cons_self rfl
      rw [List.foldl_cons, Table.put_fresh hfresh, ih _ (by simpa using hkeys),
        List.append_assoc, List.singleton_append]
  rw [objectOf, hfrom fs [] h, List.nil_append]

theorem sound_object {fs : List (String × Value)} (hkeys : (fs.map (·.1)).Nodup)
    (h : ∀ field ∈ fs, Sound field.2) : Sound (.object fs) where
  writable := by
    rw [Value.writable]
    clear hkeys
    induction fs with
    | nil => rfl
    | cons field fs ih =>
      obtain ⟨k, v⟩ := field
      obtain ⟨hv, hvs⟩ := List.forall_mem_cons.1 h
      rw [Value.writableFields, hv.writable, ih hvs]
      rfl
  printed := by
    rw [Value.literalChars, literalFields_eq]
    refine Text.printed_cons.2 ⟨by decide, printed_entriesChars (by decide) (fun field _ => ?_) h⟩
    exact Text.printed_append.2 ⟨Text.printed_quotedChars _, by decide⟩
  starts := ⟨_, _, by rw [Value.literalChars], by decide, by decide⟩
  reads fuel rest hfuel hrest := by
    rw [Value.literalChars, literalFields_eq] at hfuel ⊢
    obtain ⟨n, rfl⟩ := exists_fuel rfl hfuel
    rw [List.length_cons] at hfuel
    rw [List.cons_append, value, string_of_ne (by decide) (by decide)]
    cases fs with
    | nil => rfl
    | cons field fs =>
      obtain ⟨k, v⟩ := field
      have hread := entries_entriesChars
        (by simp [isInner, Program.isNameChar]) (by decide) (by decide) (by simp)
        (fun field _ => fits_fieldKey field.1) h n rest (by omega)
      obtain ⟨c, cs, hfirst, hblank, hc⟩ := entriesChars_starts (fits_fieldKey k) v fs
      have hskip : skip (entriesChars fieldKey '\x7d' ((k, v) :: fs) ++ rest) =
          entriesChars fieldKey '\x7d' ((k, v) :: fs) ++ rest :=
        skip_of_noBlank (by simp [hfirst, NoBlank, hblank])
      rw [hfirst, List.cons_append] at hread hskip ⊢
      simp [hskip, hc, hread, objectOf_nodup hkeys]

mutual
/-- The literal of every exact value is sound. -/
theorem sound : ∀ v : Value, v.isExact = true → Sound v
  | .null => fun _ => sound_null
  | .bool b => fun _ => sound_bool b
  | .int _ => fun h => by
    rw [Value.isExact] at h
    exact sound_int h
  | .float _ => nofun
  | .str s => fun _ => sound_str s
  | .list vs => fun h => by
    rw [Value.isExact] at h
    exact sound_list (sound_items vs h)
  | .object fs => fun h => by
    rw [Value.isExact, Bool.and_eq_true, decide_eq_true_eq] at h
    exact sound_object h.1 (sound_fields fs h.2)
theorem sound_items : ∀ vs : List Value, Value.isExactItems vs = true → ∀ v ∈ vs, Sound v
  | [] => fun _ => nofun
  | v :: vs => fun h => by
    rw [Value.isExactItems, Bool.and_eq_true] at h
    exact List.forall_mem_cons.2 ⟨sound v h.1, sound_items vs h.2⟩
theorem sound_fields : ∀ fs : List (String × Value), Value.isExactFields fs = true →
    ∀ field ∈ fs, Sound field.2
  | [] => fun _ => nofun
  | (_, v) :: fs => fun h => by
    rw [Value.isExactFields, Bool.and_eq_true] at h
    exact List.forall_mem_cons.2 ⟨sound v h.1, sound_fields fs h.2⟩
end

variable {v w : Value}

theorem scan_literal (h : v.isExact = true) {rest : List Char} (hrest : Ends rest) :
    scan (v.literal.toList ++ rest) = some (v, rest) := by
  rw [Value.literal, String.toList_ofList, scan]
  exact (sound v h).reads _ rest (by rw [List.length_append]; omega) hrest

theorem read_literal (h : v.isExact = true) : read v.literal = some v := by
  have hscan := scan_literal h ends_nil
  rw [List.append_nil] at hscan
  rw [read, hscan]

theorem write_exact (h : v.isExact = true) : v.write = .ok v.literal :=
  if_pos (sound v h).writable

/-- Different values have different literals. -/
theorem write_injective (hv : v.isExact = true) (hw : w.isExact = true) (h : v.write = w.write) :
    v = w := by
  rw [write_exact hv, write_exact hw] at h
  exact Option.some.inj ((read_literal hv).symm.trans (Except.ok.inj h ▸ read_literal hw))

theorem printed_literal (h : v.isExact = true) : Printed v.literal.toList := by
  rw [Value.literal, String.toList_ofList]
  exact (sound v h).printed

end Literal

end LayerGraph
