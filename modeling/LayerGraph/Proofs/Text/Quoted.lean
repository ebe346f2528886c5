import LayerGraph.Json.Reader
import LayerGraph.Text.Quoted
import Mathlib.Algebra.Group.Nat.Defs
import Mathlib.Data.List.Basic
set_option autoImplicit false

namespace LayerGraph.Literal

abbrev Scan (α : Type) := Option (α × List Char)

/-- Where a reader stands in a quoted text: between characters, behind a backslash, or in a code
point of which so many digits are missing after the next one. -/
inductive Mode where
  | plain
  | escape
  | code (missing value : Nat)

def escaped? : Char → Option Char
  | '\\' => some '\\'
  | '\'' => some '\''
  | '"' => some '"'
  | 'a' => some (Char.ofNat 7)
  | 'b' => some (Char.ofNat 8)
  | 'f' => some (Char.ofNat 12)
  | 'n' => some '\n'
  | 'r' => some '\r'
  | 't' => some '\t'
  | 'v' => some (Char.ofNat 11)
  | _ => none

def digitCount? : Char → Option Nat
  | 'x' => some 2
  | 'u' => some 4
  | 'U' => some 8
  | _ => none

def prepend (c : Char) (scan : Scan (List Char)) : Scan (List Char) :=
  scan.map fun (cs, rest) => (c :: cs, rest)

/-- Reads to the closing quote. A line ends no text, and what is no escape is refused. -/
def body (quote : Char) : Mode → List Char → Scan (List Char)
  | _, [] => none
  | .plain, c :: rest =>
    if c = quote then some ([], rest)
    else if c = '\\' then body quote .escape rest
    else if c = '\n' ∨ c = '\r' ∨ c = '\x00' then none
    else prepend c (body quote .plain rest)
  | .escape, c :: rest =>
    match escaped? c, digitCount? c with
    | some d, _ => prepend d (body quote .plain rest)
    | none, some count => body quote (.code (count - 1) 0) rest
    | none, none => none
  | .code missing value, c :: rest =>
    match Json.hexDigit? c with
    | none => none
    | some d =>
      let value := 16 * value + d
      if missing ≠ 0 then body quote (.code (missing - 1) value) rest
      else if value.isValidChar then prepend (Char.ofNat value) (body quote .plain rest)
      else none

/-- Reads a text behind its opening quote. Three quotes in a row open a text of another kind. -/
def text (quote : Char) (cs : List Char) : Scan String :=
  if [quote, quote].isPrefixOf cs then none
  else (body quote .plain cs).map fun (cs, rest) => (String.ofList cs, rest)

def string : List Char → Scan String
  | '\'' :: rest => text '\'' rest
  | '"' :: rest => text '"' rest
  | _ => none

variable {quote c : Char} {rest : List Char}

def extend? (value : Nat) (digits : List Char) : Option Nat :=
  digits.foldlM (fun value c => (Json.hexDigit? c).map (16 * value + ·)) value

theorem body_code {digits : List Char} {missing value n : Nat}
    (hvalue : extend? value digits = some n) (hlength : digits.length = missing + 1)
    (hn : n.isValidChar) :
    body quote (.code missing value) (digits ++ rest) =
      prepend (Char.ofNat n) (body quote .plain rest) := by
  induction digits generalizing missing value with
  | nil => simp at hlength
  | cons c digits ih =>
    rw [extend?, List.foldlM_cons] at hvalue
    cases hdigit : Json.hexDigit? c with
    | none =>
      rw [hdigit] at hvalue
      cases hvalue
    | some d =>
      rw [hdigit] at hvalue
      simp only [List.cons_append, body, hdigit]
      cases missing with
      | zero =>
        obtain rfl : digits = [] := by simpa using hlength
        obtain rfl : 16 * value + d = n := Option.some.inj hvalue
        simp [hn]
      | succ missing =>
        simpa using ih hvalue (by simpa using hlength)

theorem hexDigit?_digitChar : ∀ n < 16, Json.hexDigit? (Nat.digitChar n) = some n := by decide

theorem extend?_toDigits (n : Nat) : extend? 0 (Nat.toDigits 16 n) = some n := by
  induction n using Nat.strongRecOn with
  | ind n ih =>
    by_cases hlt : n < 16
    · rw [Nat.toDigits_of_lt_base hlt]
      simp [extend?, hexDigit?_digitChar n hlt]
    · have hinit := ih (n / 16) (Nat.div_lt_self (by omega) (by decide))
      rw [extend?] at hinit
      rw [Nat.toDigits_of_base_le (by decide) (by omega), extend?, List.foldlM_append, hinit]
      simp [hexDigit?_digitChar (n % 16) (Nat.mod_lt n (by decide)), Nat.div_add_mod]

theorem extend?_hex (width n : Nat) : extend? 0 (Text.hex width n) = some n := by
  have hzeros : ∀ count, extend? 0 (List.replicate count '0') = some 0 := by
    intro count
    induction count with
    | zero => rfl
    | succ count ih => rwa [List.replicate_succ, extend?, List.foldlM_cons]
  have hdigits := extend?_toDigits n
  rw [extend?] at hdigits
  rw [Text.hex, extend?, List.foldlM_append, ← extend?, hzeros]
  exact hdigits

theorem length_hex {width n : Nat} (hwidth : 0 < width) (hn : n < 16 ^ width) :
    (Text.hex width n).length = width := by
  have hlength := (Nat.length_toDigits_le_iff (b := 16) (by decide) hwidth).2 hn
  rw [Text.hex, List.length_append, List.length_replicate, Nat.sub_add_cancel hlength]

theorem body_escape_hex {mark : Char} {width n : Nat} (hquote : quote ≠ '\\')
    (hmark : escaped? mark = none) (hcount : digitCount? mark = some width) (hwidth : 0 < width)
    (hn : n < 16 ^ width) (hvalid : n.isValidChar) :
    body quote .plain ('\\' :: mark :: (Text.hex width n ++ rest)) =
      prepend (Char.ofNat n) (body quote .plain rest) := by
  have hlength : (Text.hex width n).length = width - 1 + 1 := by
    rw [length_hex hwidth hn, Nat.sub_add_cancel hwidth]
  rw [body, if_neg hquote.symm, if_pos rfl, body, hmark, hcount]
  exact body_code (extend?_hex width n) hlength hvalid

theorem body_escapeChar (hquote : quote = '\'' ∨ quote = '"') (c : Char) (rest : List Char) :
    body quote .plain (Text.escapeChar quote c ++ rest) =
      prepend c (body quote .plain rest) := by
  have hslash : quote ≠ '\\' := by rcases hquote with rfl | rfl <;> decide
  have hvalid : c.toNat.isValidChar := c.valid
  have hcode : ∀ mark width, escaped? mark = none → digitCount? mark = some width → 0 < width →
      c.toNat < 16 ^ width →
      body quote .plain ('\\' :: mark :: Text.hex width c.toNat ++ rest) =
        prepend c (body quote .plain rest) := by
    intro mark width hmark hcount hwidth hc
    rw [List.cons_append, List.cons_append,
      body_escape_hex hslash hmark hcount hwidth hc hvalid, Char.ofNat_toNat]
  rw [Text.escapeChar]
  split_ifs with hspecial htab hfeed hreturn hprintable hshort hlong
  · have hread : escaped? c = some c := by
      rcases hspecial with rfl | rfl
      · rcases hquote with rfl | rfl <;> rfl
      · rfl
    simp [body, hslash.symm, hread]
  · subst htab
    simp [body, hslash.symm, escaped?]
  · subst hfeed
    simp [body, hslash.symm, escaped?]
  · subst hreturn
    simp [body, hslash.symm, escaped?]
  · rw [not_or] at hspecial
    have hnull : c ≠ '\x00' := by
      rintro rfl
      exact absurd hprintable (by decide)
    simp [body, hspecial.1, hspecial.2, hfeed, hreturn, hnull]
  · exact hcode 'x' 2 rfl rfl (by decide) hshort
  · exact hcode 'u' 4 rfl rfl (by decide) hlong
  · refine hcode 'U' 8 rfl rfl (by decide) ?_
    exact c.val.toNat_lt

theorem body_flatMap (hquote : quote = '\'' ∨ quote = '"') (cs : List Char) :
    body quote .plain (cs.flatMap (Text.escapeChar quote) ++ quote :: rest) =
      some (cs, rest) := by
  induction cs with
  | nil => simp [body]
  | cons c cs ih =>
    rw [List.flatMap_cons, List.append_assoc, body_escapeChar hquote, ih]
    rfl

/-- No quote stands first, so that none is taken for a part of the text before. -/
def NoQuote (cs : List Char) : Prop := ∀ c ∈ cs.head?, c ≠ '\'' ∧ c ≠ '"'

theorem escapeChar_eq_cons (hquote : quote ≠ '\\') (c : Char) :
    ∃ d ds, Text.escapeChar quote c = d :: ds ∧ d ≠ quote := by
  rw [Text.escapeChar]
  split_ifs with hspecial
  · exact ⟨'\\', [c], rfl, hquote.symm⟩
  · exact ⟨_, _, rfl, hquote.symm⟩
  · exact ⟨_, _, rfl, hquote.symm⟩
  · exact ⟨_, _, rfl, hquote.symm⟩
  · exact ⟨c, [], rfl, fun h => hspecial (.inl h)⟩
  · exact ⟨_, _, rfl, hquote.symm⟩
  · exact ⟨_, _, rfl, hquote.symm⟩
  · exact ⟨_, _, rfl, hquote.symm⟩

theorem quoteFor_cases (cs : List Char) :
    Text.quoteFor cs = '\'' ∨ Text.quoteFor cs = '"' := by
  rw [Text.quoteFor]
  split
  · exact .inr rfl
  · exact .inl rfl

theorem text_escaped (hquote : quote = '\'' ∨ quote = '"') (cs : List Char)
    (hrest : NoQuote rest) :
    text quote (cs.flatMap (Text.escapeChar quote) ++ quote :: rest) =
      some (String.ofList cs, rest) := by
  have hsingle : [quote, quote].isPrefixOf
      (cs.flatMap (Text.escapeChar quote) ++ quote :: rest) = false := by
    cases cs with
    | nil =>
      cases rest with
      | nil => simp [List.isPrefixOf]
      | cons d rest =>
        obtain ⟨hsingle, hdouble⟩ := hrest d rfl
        rcases hquote with rfl | rfl
        · simp [List.isPrefixOf, hsingle.symm]
        · simp [List.isPrefixOf, hdouble.symm]
    | cons c cs =>
      have hslash : quote ≠ '\\' := by rcases hquote with rfl | rfl <;> decide
      obtain ⟨d, ds, hescape, hd⟩ := escapeChar_eq_cons hslash c
      simp [List.flatMap_cons, hescape, List.isPrefixOf, hd.symm]
  rw [text, hsingle, if_neg Bool.false_ne_true, body_flatMap hquote]
  rfl

/-- A quoted text is read as the text that it was written for, whatever follows its quote. -/
theorem string_quotedChars (s : String) (hrest : NoQuote rest) :
    string (Text.quotedChars s.toList ++ rest) = some (s, rest) := by
  have hchars : Text.quotedChars s.toList ++ rest =
      Text.quoteFor s.toList ::
        (s.toList.flatMap (Text.escapeChar (Text.quoteFor s.toList))
          ++ Text.quoteFor s.toList :: rest) := by
    simp [Text.quotedChars]
  have htext := text_escaped (quoteFor_cases s.toList) s.toList hrest
  rw [String.ofList_toList] at htext
  rw [hchars]
  rcases quoteFor_cases s.toList with hquote | hquote
  · rw [hquote] at htext ⊢
    exact htext
  · rw [hquote] at htext ⊢
    exact htext

end LayerGraph.Literal

namespace LayerGraph.Text

def lineBreaks : List Char := ['\n', '\x0b', '\x0c', '\r', '\x1c', '\x1d', '\x1e', '\u0085',
  '\u2028', '\u2029']

theorem lineBreaks_unprintable : ∀ c ∈ lineBreaks, isPrintable c = false := by
  have hall : lineBreaks.all (fun c => !isPrintable c) = true := by decide +kernel
  simpa using hall

def Printed (cs : List Char) : Prop := ∀ c ∈ cs, isPrintable c = true

-- Named, since an instance that is searched for may run through all characters.
instance (cs : List Char) : Decidable (Printed cs) := List.decidableBAll _ cs

variable {quote c : Char} {cs ds : List Char}

@[simp] theorem printed_nil : Printed [] := by simp [Printed]

@[simp] theorem printed_cons : Printed (c :: cs) ↔ isPrintable c = true ∧ Printed cs := by
  simp [Printed]

@[simp] theorem printed_append : Printed (cs ++ ds) ↔ Printed cs ∧ Printed ds := by
  simp [Printed, or_imp, forall_and]

theorem Printed.not_mem (h : Printed cs) (hc : c ∈ lineBreaks) : c ∉ cs := fun hin => by
  have hprintable := h c hin
  rw [lineBreaks_unprintable c hc] at hprintable
  cases hprintable

theorem printed_toDigits {base : Nat} (hbase : 1 < base) (hsixteen : base ≤ 16) (n : Nat) :
    Printed (Nat.toDigits base n) := by
  have hdigit : ∀ n < 16, isPrintable (Nat.digitChar n) = true := by decide
  induction n using Nat.strongRecOn with
  | ind n ih =>
    by_cases hlt : n < base
    · rw [Nat.toDigits_of_lt_base hlt]
      simpa using hdigit n (by omega)
    · have hlast : n % base < base := Nat.mod_lt n (by omega)
      rw [Nat.toDigits_of_base_le hbase (by omega)]
      simpa using ⟨ih (n / base) (Nat.div_lt_self (by omega) hbase), hdigit _ (by omega)⟩

theorem printed_decimalChars (n : Int) : Printed (decimalChars n) := by
  have hdigits : Printed (Nat.toDigits 10 n.natAbs) :=
    printed_toDigits (by decide) (by decide) n.natAbs
  rw [decimalChars]
  split
  · exact printed_cons.2 ⟨by decide, hdigits⟩
  · exact hdigits

theorem printed_hex (width n : Nat) : Printed (hex width n) := by
  refine printed_append.2 ⟨fun c hc => ?_, printed_toDigits (by decide) (by decide) n⟩
  rw [(List.mem_replicate.1 hc).2]
  decide

theorem printed_escapeChar (hquote : isPrintable quote = true) (c : Char) :
    Printed (escapeChar quote c) := by
  have hslash : isPrintable '\\' = true := by decide
  rw [escapeChar]
  split_ifs with hspecial htab hfeed hreturn hprintable
  · have hc : isPrintable c = true := by
      rcases hspecial with rfl | rfl
      · exact hquote
      · exact hslash
    simp [hslash, hc]
  · decide
  · decide
  · decide
  · simpa using hprintable
  all_goals exact printed_cons.2 ⟨hslash, printed_cons.2 ⟨by decide, printed_hex _ _⟩⟩

/-- A quoted text has only printable characters, whatever it is of. -/
theorem printed_quotedChars (cs : List Char) : Printed (quotedChars cs) := by
  have hquote : isPrintable (quoteFor cs) = true := by
    rcases Literal.quoteFor_cases cs with h | h <;> (rw [h]; decide)
  simp only [quotedChars, printed_append, printed_cons, hquote, printed_nil, and_true, true_and]
  intro d hd
  obtain ⟨c, -, hin⟩ := List.mem_flatMap.1 hd
  exact printed_escapeChar hquote c d hin

end LayerGraph.Text
