import LayerGraph.Program.Model
import Mathlib.Data.List.Nodup
import Mathlib.Data.List.Perm.Subperm
set_option autoImplicit false

namespace LayerGraph.Program

structure IsName (text : String) : Prop where
  nonempty : text ≠ ""
  chars : ∀ c ∈ text.toList, isNameChar c = true

def runs (cs : List Char) : List (List Char) :=
  (cs.splitOnP fun c => !isNameChar c).filter (· ≠ [])

/-- The names that a text holds, in order. -/
def names (text : String) : List String := (runs text.toList).map String.ofList

theorem runs_append_cons (cs rest : List Char) (c : Char) (hc : isNameChar c = false) :
    runs (cs ++ c :: rest) = runs cs ++ runs rest := by
  rw [runs, List.splitOnP_append_cons _ _ (by simp [hc]), List.filter_append]
  rfl

theorem runs_nil : runs [] = [] := by
  simp [runs, List.splitOnP_nil]

theorem runs_separated (cs rest : List Char) {separator : List Char} (hne : separator ≠ [])
    (hsep : ∀ c ∈ separator, isNameChar c = false) :
    runs (cs ++ (separator ++ rest)) = runs cs ++ runs rest := by
  induction separator generalizing cs with
  | nil => exact absurd rfl hne
  | cons c separator ih =>
    rw [List.cons_append, runs_append_cons _ _ c (hsep c List.mem_cons_self)]
    by_cases hlast : separator = []
    · rw [hlast, List.nil_append]
    · have hrest := ih [] hlast fun d hd => hsep d (List.mem_cons_of_mem _ hd)
      rw [List.nil_append, runs_nil, List.nil_append] at hrest
      rw [hrest]

theorem IsName.names_eq {text : String} (h : IsName text) : names text = [text] := by
  have hne : text.toList ≠ [] := by simpa using h.nonempty
  rw [names, runs, List.splitOnP_eq_singleton fun c hc => by simp [h.chars c hc]]
  simp [hne]

theorem names_intercalate (separator : String) (hne : separator ≠ "")
    (hall : (separator.toList.all fun c => !isNameChar c) = true) (texts : List String) :
    names (separator.intercalate texts) = texts.flatMap names := by
  have hsep : ∀ c ∈ separator.toList, isNameChar c = false := by simpa using hall
  induction texts with
  | nil => simp [names, runs_nil]
  | cons text texts ih =>
    cases texts with
    | nil => simp
    | cons next texts =>
      have hsplit : names (separator.intercalate (text :: next :: texts)) =
          names text ++ names (separator.intercalate (next :: texts)) := by
        rw [String.intercalate_cons_cons, String.append_assoc]
        simp only [names, String.toList_append]
        rw [runs_separated _ _ (by simpa using hne) hsep, List.map_append]
      rw [hsplit, ih]
      exact List.flatMap_cons.symm

theorem names_tuple (texts : List String) :
    names ("(" ++ ", ".intercalate texts ++ ")") = texts.flatMap names := by
  rw [← names_intercalate ", " (by decide) (by decide)]
  simp only [names, String.toList_append]
  have hopen := runs_append_cons [] (", ".intercalate texts).toList '(' (by decide)
  have hclose := runs_append_cons ('(' :: (", ".intercalate texts).toList) [] ')' (by decide)
  simp only [List.nil_append, runs_nil, List.append_nil] at hopen hclose
  exact congrArg (List.map String.ofList) (hclose.trans hopen)

theorem decimal_toList (n : Nat) : (Text.decimal n).toList = Nat.toDigits 10 n := by
  have hsign : ¬((n : Int) < 0) := by omega
  simp [Text.decimal, Text.decimalChars, hsign]

theorem decimal_isDigit {n : Nat} {c : Char} (h : c ∈ (Text.decimal n).toList) :
    c.isDigit = true := by
  rw [decimal_toList] at h
  exact Nat.isDigit_of_mem_toDigits (by decide) (by decide) h

theorem decimal_ne_nil (n : Nat) : (Text.decimal n).toList ≠ [] := by
  rw [decimal_toList]
  exact Nat.toDigits_ne_nil

theorem underscore_not_mem_decimal (n : Nat) : '_' ∉ (Text.decimal n).toList := fun h =>
  absurd (decimal_isDigit h) (by decide)

theorem decimal_injective {m n : Nat} (h : Text.decimal m = Text.decimal n) : m = n := by
  have hdigits := congrArg String.toList h
  rw [decimal_toList, decimal_toList] at hdigits
  have hvalues := congrArg (fun cs => Nat.ofDigitChars 10 cs 0) hdigits
  simpa using hvalues

theorem append_underscore_inj {xs ys ds es : List Char} (hds : '_' ∉ ds) (hes : '_' ∉ es)
    (h : xs ++ '_' :: ds = ys ++ '_' :: es) : xs = ys ∧ ds = es := by
  rcases List.append_eq_append_iff.1 h with ⟨mid, rfl, hmid⟩ | ⟨mid, rfl, hmid⟩
  · cases mid with
    | nil => simpa using hmid
    | cons c mid =>
      simp only [List.cons_append, List.cons.injEq] at hmid
      exact absurd (hmid.2 ▸ by simp) hds
  · cases mid with
    | nil => simpa [eq_comm] using hmid
    | cons c mid =>
      simp only [List.cons_append, List.cons.injEq] at hmid
      exact absurd (hmid.2 ▸ by simp) hes

theorem inputName_succ (n : Nat) : inputName (n + 1) = "x_" ++ Text.decimal (n + 1 : Nat) := rfl

theorem inputName_isName (position : Nat) : IsName (inputName position) := by
  cases position with
  | zero => exact ⟨by decide, List.all_eq_true.1 (by decide)⟩
  | succ n =>
    rw [inputName_succ]
    refine ⟨fun h => ?_, fun c hc => ?_⟩
    · have hchars := congrArg String.toList h
      simp at hchars
    · rw [String.toList_append, List.mem_append] at hc
      rcases hc with hstart | hdigit
      · exact List.all_eq_true.1 (by decide : "x_".toList.all isNameChar = true) c hstart
      · simp [isNameChar, Char.isAlphanum, decimal_isDigit hdigit]

theorem inputName_injective {m n : Nat} (h : inputName m = inputName n) : m = n := by
  have hlone : ∀ k, inputName 0 ≠ inputName (k + 1) := fun k heq => by
    have hchars := congrArg String.toList heq
    simp [inputName] at hchars
  cases m with
  | zero =>
    cases n with
    | zero => rfl
    | succ n => exact absurd h (hlone n)
  | succ m =>
    cases n with
    | zero => exact absurd h.symm (hlone m)
    | succ n =>
      have hchars := congrArg String.toList h
      rw [inputName_succ, inputName_succ, String.toList_append, String.toList_append] at hchars
      exact decimal_injective (String.toList_inj.1 (List.append_cancel_left hchars))

theorem looksLikeInput_inputName (position : Nat) :
    looksLikeInput (inputName position).toList = true := by
  cases position with
  | zero => decide
  | succ n =>
    rw [inputName_succ, String.toList_append]
    cases hdigits : (Text.decimal (n + 1 : Nat)).toList with
    | nil => exact absurd hdigits (decimal_ne_nil _)
    | cons d ds =>
      have hall : ∀ c ∈ d :: ds, c.isDigit = true := by
        rw [← hdigits]
        exact fun c hc => decimal_isDigit hc
      change looksLikeInput ('x' :: '_' :: d :: ds) = true
      simpa [looksLikeInput] using hall

theorem inputName_ne_append (cs : List Char) (position : Nat) :
    (inputName position).toList ≠ cs ++ ['_'] := by
  cases position with
  | zero =>
    intro h
    have hlast := congrArg List.getLast? h
    simp [inputName] at hlast
  | succ n =>
    rw [inputName_succ, String.toList_append]
    intro h
    have hchars : ['x'] ++ '_' :: (Text.decimal (n + 1 : Nat)).toList = cs ++ '_' :: [] := h
    have hnil := (append_underscore_inj (underscore_not_mem_decimal _) (by simp) hchars).2
    exact decimal_ne_nil _ hnil

theorem mem_startName {cs : List Char} (h : ∀ c ∈ cs, isNameChar c = true) :
    startName cs ≠ [] ∧ ∀ c ∈ startName cs, isNameChar c = true := by
  have hstart : ∀ c ∈ ['n', '_'], isNameChar c = true := List.all_eq_true.1 (by decide)
  unfold startName
  split
  · exact ⟨by simp, hstart⟩
  · rename_i c cs
    split
    · refine ⟨by simp, fun d hd => ?_⟩
      rcases List.mem_append.1 (show d ∈ ['n', '_'] ++ c :: cs from hd) with hfirst | hrest
      · exact hstart d hfirst
      · exact h d hrest
    · exact ⟨by simp, h⟩

theorem escapeName_cases (cs : List Char) :
    escapeName cs = cs ++ ['_'] ∨
      escapeName cs = cs ∧ looksLikeInput cs = false ∧ String.ofList cs ∉ keywords ++ reserved := by
  unfold escapeName
  extract_lets name
  split
  · exact .inl rfl
  · refine .inr ⟨rfl, ?_⟩
    simp_all [name]

def wordOf (id : String) : List Char := id.toList.map fun c => if isNameChar c then c else '_'

theorem identifier_toList (id : String) :
    (identifier id).toList = escapeName (startName (wordOf id)) := by
  simp [identifier, wordOf]

theorem wordOf_chars {id : String} {c : Char} (h : c ∈ wordOf id) : isNameChar c = true := by
  obtain ⟨d, -, rfl⟩ := List.mem_map.1 h
  split
  · assumption
  · rfl

theorem identifier_isName (id : String) : IsName (identifier id) := by
  obtain ⟨hne, hchars⟩ := mem_startName fun c (hc : c ∈ wordOf id) => wordOf_chars hc
  have hname : (identifier id).toList ≠ [] ∧
      ∀ c ∈ (identifier id).toList, isNameChar c = true := by
    rw [identifier_toList]
    rcases escapeName_cases (startName (wordOf id)) with h | ⟨h, -⟩
    · rw [h]
      refine ⟨by simp, fun c hc => ?_⟩
      rcases List.mem_append.1 hc with hold | hlast
      · exact hchars c hold
      · obtain rfl := List.mem_singleton.1 hlast
        rfl
    · rw [h]
      exact ⟨hne, hchars⟩
  exact ⟨by simpa using hname.1, hname.2⟩

theorem identifier_ne_inputName (id : String) (position : Nat) :
    identifier id ≠ inputName position := by
  intro heq
  have hchars := congrArg String.toList heq
  rw [identifier_toList] at hchars
  rcases escapeName_cases (startName (wordOf id)) with h | ⟨h, hlooks, -⟩
  · exact inputName_ne_append _ position (hchars.symm.trans h)
  · rw [h] at hchars
    rw [hchars, looksLikeInput_inputName] at hlooks
    cases hlooks

theorem identifier_eq_underscore_iff (id : String) :
    identifier id = "_" ↔ ∃ c, id = String.singleton c ∧ c.isAlphanum = false := by
  have hstart : startName (wordOf id) = ['_'] ↔ wordOf id = ['_'] := by
    cases hword : wordOf id with
    | nil => decide
    | cons c cs =>
      by_cases hdigit : c.isDigit = true
      · have hc : c ≠ '_' := by
          intro heq
          subst heq
          exact absurd hdigit (by decide)
        simp [startName, hdigit, hc]
      · simp [startName, hdigit]
  have hword : wordOf id = ['_'] ↔ ∃ c, id = String.singleton c ∧ c.isAlphanum = false := by
    rw [wordOf, List.map_eq_singleton_iff]
    refine exists_congr fun c => and_congr ?_ ?_
    · rw [← String.toList_inj, String.toList_singleton]
    · by_cases hc : c = '_'
      · subst hc
        decide
      · by_cases ha : c.isAlphanum = true <;> simp [isNameChar, hc, ha]
  rw [← hword, ← hstart, ← String.toList_inj, identifier_toList]
  change escapeName (startName (wordOf id)) = ['_'] ↔ _
  constructor
  · intro hname
    rcases escapeName_cases (startName (wordOf id)) with h | ⟨h, -⟩
    · rw [h] at hname
      have hnil : startName (wordOf id) = [] := by
        simpa using congrArg List.dropLast hname
      exact absurd hnil (mem_startName fun c hc => wordOf_chars hc).1
    · rw [← h, hname]
  · intro hname
    rw [hname]
    decide

theorem numbered_toList (base : String) (n : Nat) :
    (base ++ "_" ++ Text.decimal n).toList = base.toList ++ '_' :: (Text.decimal n).toList := by
  simp

theorem IsName.numbered {base : String} (h : IsName base) (n : Nat) :
    IsName (base ++ "_" ++ Text.decimal n) := by
  refine ⟨fun heq => ?_, fun c hc => ?_⟩
  · have hchars := congrArg String.toList heq
    rw [numbered_toList] at hchars
    simp at hchars
  · rw [numbered_toList, List.mem_append, List.mem_cons] at hc
    rcases hc with hbase | rfl | hdigit
    · exact h.chars c hbase
    · rfl
    · simp [isNameChar, Char.isAlphanum, decimal_isDigit hdigit]

theorem base_of_numbered {base : String} {n position : Nat}
    (h : base ++ "_" ++ Text.decimal n = inputName position) : base = inputName 0 := by
  have hchars := congrArg String.toList h
  rw [numbered_toList] at hchars
  cases position with
  | zero =>
    have hmem := congrArg ('_' ∈ ·) hchars
    simp [inputName] at hmem
  | succ k =>
    rw [inputName_succ, String.toList_append] at hchars
    have hsplit : base.toList ++ '_' :: (Text.decimal n).toList =
        ['x'] ++ '_' :: (Text.decimal (k + 1 : Nat)).toList := hchars
    have hbase := (append_underscore_inj (underscore_not_mem_decimal _)
      (underscore_not_mem_decimal _) hsplit).1
    exact String.toList_inj.1 hbase

theorem numbered_ne_underscore (base : String) (n : Nat) :
    base ++ "_" ++ Text.decimal n ≠ "_" := by
  intro h
  have hchars := congrArg String.toList h
  rw [numbered_toList] at hchars
  have hsplit : base.toList ++ '_' :: (Text.decimal n).toList = [] ++ '_' :: [] := hchars
  have hnil := (append_underscore_inj (underscore_not_mem_decimal _) (by simp) hsplit).2
  exact decimal_ne_nil _ hnil

def suffixed (base : String) (n : Nat) : String := base ++ "_" ++ Text.decimal (n + 2 : Nat)

theorem suffixed_injective (base : String) : Function.Injective (suffixed base) := by
  intro m n h
  have hchars := congrArg String.toList h
  simp only [suffixed, String.toList_append] at hchars
  have hvalue := decimal_injective (String.toList_inj.1 (List.append_cancel_left hchars))
  omega

namespace Draft

/-- A numbered name is the first that is free, which is found after as many tries as there are
names taken. -/
theorem numbered_spec (owners : Table String) (base : String) :
    ∃ n ≤ owners.length, numbered owners base = suffixed base n ∧
      owners.has (suffixed base n) = false ∧ ∀ m < n, owners.has (suffixed base m) = true := by
  change ∃ n ≤ owners.length, ((((List.range (owners.length + 1)).map (suffixed base)).find?
    fun name => !owners.has name).getD base) = suffixed base n ∧ _
  rw [List.find?_map]
  cases hfind : (List.range (owners.length + 1)).find?
      ((fun name => !owners.has name) ∘ suffixed base) with
  | some n =>
    obtain ⟨hfree, hin, hfirst⟩ := List.find?_range_eq_some.1 hfind
    exact ⟨n, Nat.lt_succ_iff.1 (List.mem_range.1 hin), rfl, by simpa using hfree,
      fun m hm => by simpa using hfirst m hm⟩
  | none =>
    -- There are more forms than names that are taken.
    have htaken : (List.range (owners.length + 1)).map (suffixed base) ⊆ owners.map (·.1) := by
      intro name hname
      obtain ⟨n, hn, rfl⟩ := List.mem_map.1 hname
      have hnone := List.find?_eq_none.1 hfind n hn
      exact (Table.has_iff owners _).1 (by simpa using hnone)
    have hnodup : ((List.range (owners.length + 1)).map (suffixed base)).Nodup :=
      List.Nodup.map (suffixed_injective base) List.nodup_range
    have hlen := (List.subperm_of_subset hnodup htaken).length_le
    simp only [List.length_map, List.length_range] at hlen
    omega

structure Named (owners : Table String) (id name : String) : Prop where
  free : owners.has name = false
  isName : IsName name
  ne_inputName : ∀ position, name ≠ inputName position
  underscore : name = "_" ↔ identifier id = "_" ∧ owners.has "_" = false

theorem nameFor_fst (owners : Table String) (id : String) :
    (nameFor owners id).1 =
      if owners.has (identifier id) then numbered owners (identifier id) else identifier id := by
  unfold nameFor
  extract_lets base name
  have hhas : owners.has base = true ↔ ¬owners.get? base = none := by
    rw [Table.get?_eq_none_iff, Table.has_iff, not_not]
  cases hget : owners.get? base with
  | none => rw [if_neg (by simp [base, hhas.not, hget])]
  | some owner => rw [if_pos (hhas.2 (by simp [hget]))]

theorem nameFor_named (owners : Table String) (id : String) :
    Named owners id (nameFor owners id).1 := by
  rw [nameFor_fst]
  split
  · rename_i htaken
    obtain ⟨n, -, hname, hfree, -⟩ := numbered_spec owners (identifier id)
    rw [hname]
    refine ⟨hfree, (identifier_isName id).numbered (n + 2), fun position heq => ?_,
      ⟨fun heq => ?_, ?_⟩⟩
    · exact identifier_ne_inputName id 0 (base_of_numbered heq)
    · exact absurd heq (numbered_ne_underscore _ (n + 2))
    · intro hgiven
      obtain ⟨hbase, hnone⟩ := hgiven
      rw [hbase, hnone] at htaken
      cases htaken
  · rename_i hfree
    rw [Bool.not_eq_true] at hfree
    refine ⟨hfree, identifier_isName id, identifier_ne_inputName id, fun heq => ⟨heq, ?_⟩, And.left⟩
    rw [← heq]
    exact hfree

end Draft

end LayerGraph.Program
