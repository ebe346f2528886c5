import LayerGraph.Proofs.Program.Estimate
import LayerGraph.Proofs.Program.Inert
import LayerGraph.Proofs.Program.Naming
import LayerGraph.Proofs.Text.Literals
set_option autoImplicit false

/-!
A module is declared on one line, and where its params hold no floating point numbers the line is
read back as the call of this module with these params. So no param of a node can add to the program
around its literal, and different params are declared differently.
-/

namespace LayerGraph

open Text (Printed)

def Layer.settings (layer : Layer) (params : Fields) : Fields :=
  layer.schema.map fun (key, _) => (key, Fields.get (layer.resolve params) key)

namespace Literal

def keyword (cs : List Char) : Scan String :=
  match cs.dropWhile Program.isNameChar with
  | '=' :: rest => some (String.ofList (cs.takeWhile Program.isNameChar), rest)
  | _ => none

/-- The call of a module with arguments that are literals, none of them given twice. -/
def call? (cs : List Char) : Option Program.Call :=
  let module := String.ofList (cs.takeWhile isInner)
  match cs.dropWhile isInner with
  | ['(', ')'] => some ⟨module, []⟩
  | '(' :: rest =>
    match entries (2 * rest.length) keyword ')' rest with
    | some (arguments, []) =>
      if (arguments.map (·.1)).Nodup then some ⟨module, arguments⟩ else none
    | _ => none
  | _ => none

/-- The attribute of a declaration and the call that it is declared with. -/
def declaration? (s : String) : Option (String × Program.Call) :=
  match s.toList with
  | 's' :: 'e' :: 'l' :: 'f' :: '.' :: rest =>
    match rest.dropWhile Program.isNameChar with
    | ' ' :: '=' :: ' ' :: call =>
      (call? call).map fun call => (String.ofList (rest.takeWhile Program.isNameChar), call)
    | _ => none
  | _ => none

def argumentName (k : String) : List Char := k.toList ++ ['=']

theorem isNameChar_ascii {c : Char} (h : Program.isNameChar c = true) : c.toNat < 128 := by
  have hz : c.val ≤ 'z'.val := by
    rcases Bool.or_eq_true_iff.1 h with halphanum | hunderscore
    · rcases Bool.or_eq_true_iff.1 halphanum with halpha | hdigit
      · rcases Bool.or_eq_true_iff.1 halpha with hupper | hlower
        · exact UInt32.le_trans (of_decide_eq_true hupper).2 (by decide)
        · exact of_decide_eq_true (Bool.and_eq_true_iff.1 hlower).2
      · exact UInt32.le_trans (of_decide_eq_true (Bool.and_eq_true_iff.1 hdigit).2) (by decide)
    · rw [eq_of_beq hunderscore]
      decide
  exact Nat.lt_of_le_of_lt (UInt32.le_iff_toNat_le.1 hz) (by decide)

/-- The characters of names are printable, and none of them stands between the names of a call. -/
theorem isNameChar_spec {c : Char} (h : Program.isNameChar c = true) :
    Text.isPrintable c = true ∧ isBlank c = false ∧ c ≠ ')' := by
  have hall : ∀ n < 128, Program.isNameChar (Char.ofNat n) = true →
      Text.isPrintable (Char.ofNat n) = true ∧ isBlank (Char.ofNat n) = false ∧
        Char.ofNat n ≠ ')' := by
    decide +kernel
  have hc := hall c.toNat (isNameChar_ascii h)
  rw [Char.ofNat_toNat] at hc
  exact hc h

theorem printed_name {name : String} (h : ∀ c ∈ name.toList, Program.isNameChar c = true) :
    Printed name.toList := fun c hc => (isNameChar_spec (h c hc)).1

theorem fits_argumentName {k : String} (hk : Program.IsName k) :
    Fits keyword argumentName ')' k where
  reads cs _ := by
    have hchars : argumentName k ++ cs = k.toList ++ '=' :: cs := by simp [argumentName]
    have hend : ∀ c ∈ ('=' :: cs).head?, Program.isNameChar c = false := by
      simp [Program.isNameChar]
    rw [hchars, keyword, dropWhile_run hk.chars hend]
    simp only [takeWhile_run hk.chars hend, String.ofList_toList]
  starts := by
    have hchars := hk.chars
    cases hname : k.toList with
    | nil => exact absurd (by simpa using hname) hk.nonempty
    | cons c cs =>
      rw [hname] at hchars
      obtain ⟨-, hc⟩ := isNameChar_spec (hchars c List.mem_cons_self)
      exact ⟨c, cs ++ ['='], by rw [argumentName, hname]; rfl, hc⟩

theorem arguments_entriesChars (fs : Fields) :
    (", ".intercalate (fs.map fun (key, v) => key ++ "=" ++ v.literal)).toList ++ [')'] =
      entriesChars argumentName ')' fs := by
  induction fs with
  | nil => rfl
  | cons field fs ih =>
    obtain ⟨k, v⟩ := field
    cases fs with
    | nil => simp [entriesChars, argumentName, Value.literal]
    | cons next fs =>
      rw [List.map_cons] at ih
      rw [List.map_cons, List.map_cons, String.intercalate_cons_cons, entriesChars, ← ih]
      · simp [argumentName, Value.literal]
      · simp

theorem call_chars (call : Program.Call) :
    call.text.toList =
      call.module.toList ++ '(' :: entriesChars argumentName ')' call.arguments := by
  rw [← arguments_entriesChars, Program.Call.text]
  simp

/-- A call that can be read back: its module and its arguments have names, none of them twice, and
the values are exact. -/
structure Readable (call : Program.Call) : Prop where
  module : ∀ c ∈ call.module.toList, Program.isNameChar c = true ∨ c = '.'
  keys : (call.arguments.map (·.1)).Nodup
  names : ∀ field ∈ call.arguments, Program.IsName field.1
  values : ∀ field ∈ call.arguments, field.2.isExact = true

namespace Readable

variable {call : Program.Call}

theorem sound_values (h : Readable call) : ∀ field ∈ call.arguments, Sound field.2 :=
  fun field hfield => sound _ (h.values field hfield)

theorem call?_text (h : Readable call) : call? call.text.toList = some call := by
  have hmodule : ∀ c ∈ call.module.toList, isInner c = true := by
    intro c hc
    rcases h.module c hc with hname | rfl
    · exact isInner_of_isNameChar hname
    · decide
  have hend : ∀ c ∈ ('(' :: entriesChars argumentName ')' call.arguments).head?,
      isInner c = false := by simp [isInner, Program.isNameChar]
  rw [call_chars, call?, takeWhile_run hmodule hend, dropWhile_run hmodule hend,
    String.ofList_toList]
  obtain ⟨module, fields⟩ := call
  cases fields with
  | nil => rfl
  | cons field fields =>
    have hread := entries_entriesChars
      (by simp [isInner, Program.isNameChar]) (by decide) (by decide)
      (List.cons_ne_nil field fields) (fun field hfield => fits_argumentName (h.names field hfield))
      h.sound_values _ [] (Nat.le_refl _)
    obtain ⟨c, cs, hfirst, -, hc⟩ :=
      entriesChars_starts (fits_argumentName (h.names _ List.mem_cons_self)) field.2 fields
    rw [List.append_nil] at hread
    rw [hfirst] at hread
    simp only [hfirst]
    split
    · rename_i heq
      exact absurd (List.cons.inj (List.cons.inj heq).2).1 hc
    · rename_i heq
      rw [← (List.cons.inj heq).2, hread]
      exact if_pos h.keys
    · rename_i hother
      exact absurd rfl (hother _)

theorem printed_text (h : Readable call) : Printed call.text.toList := by
  rw [call_chars]
  refine Text.printed_append.2 ⟨fun c hc => ?_, Text.printed_cons.2 ⟨by decide, ?_⟩⟩
  · rcases h.module c hc with hname | rfl
    · exact (isNameChar_spec hname).1
    · decide
  · refine printed_entriesChars (by decide) (fun field hfield => ?_) h.sound_values
    exact Text.printed_append.2 ⟨printed_name (h.names field hfield).chars, by decide⟩

theorem declaration?_text (h : Readable call) {declaration : Program.Declaration}
    (hname : ∀ c ∈ declaration.name.toList, Program.isNameChar c = true)
    (hcall : declaration.call = call.text) :
    declaration? declaration.text = some (declaration.name, call) := by
  have hchars : declaration.text.toList =
      's' :: 'e' :: 'l' :: 'f' :: '.' ::
        (declaration.name.toList ++ ' ' :: '=' :: ' ' :: call.text.toList) := by
    simp [Program.Declaration.text, hcall]
  have hend : ∀ c ∈ (' ' :: '=' :: ' ' :: call.text.toList).head?,
      Program.isNameChar c = false := by simp [Program.isNameChar]
  rw [declaration?, hchars]
  simp only [takeWhile_run hname hend, dropWhile_run hname hend, h.call?_text,
    Option.map_some, String.ofList_toList]

theorem printed_declaration (h : Readable call) {declaration : Program.Declaration}
    (hname : ∀ c ∈ declaration.name.toList, Program.isNameChar c = true)
    (hcall : declaration.call = call.text) : Printed declaration.text.toList := by
  have hself : Printed "self.".toList ∧ Printed " = ".toList := by decide
  simp only [Program.Declaration.text, hcall, String.toList_append, Text.printed_append]
  exact ⟨⟨⟨hself.1, printed_name hname⟩, hself.2⟩, h.printed_text⟩

end Readable

end Literal

namespace Value

mutual
theorem whole_of_isExact : ∀ v : Value, v.isExact = true → v.whole = v
  | .null | .bool _ | .int _ | .str _ | .object _ => fun _ => by rw [whole]; all_goals nofun
  | .float _ => nofun
  | .list vs => fun h => by
    rw [isExact] at h
    rw [whole, wholeItems_of_isExact vs h]
theorem wholeItems_of_isExact : ∀ vs : List Value, isExactItems vs = true → wholeItems vs = vs
  | [] => fun _ => by rw [wholeItems]
  | v :: vs => fun h => by
    rw [isExactItems, Bool.and_eq_true] at h
    rw [wholeItems, whole_of_isExact v h.1, wholeItems_of_isExact vs h.2]
end

end Value

/-- The modules and the params of the standard layers have names. -/
theorem Catalogue.standard_names : ∀ layer ∈ Catalogue.standard,
    (∀ module ∈ layer.module,
        (module.toList.all fun c => Program.isNameChar c || c == '.') = true) ∧
      (layer.schema.map (·.1)).Nodup ∧
      ∀ entry ∈ layer.schema, entry.1 ≠ "" ∧ entry.1.toList.all Program.isNameChar = true := by
  decide +kernel

namespace Program

open LayerGraph.Graph

variable {layer : Layer} {node : Node} {module : String}

theorem moduleArguments_of_exact
    (h : ∀ field ∈ layer.settings node.params, field.2.isExact = true) :
    moduleArguments layer node = layer.settings node.params := by
  refine List.map_congr_left fun entry hentry => Prod.ext rfl ?_
  have hexact := h _ (List.mem_map_of_mem hentry)
  simp only [argumentValue]
  split
  · exact Value.whole_of_isExact _ hexact
  · rfl

theorem readable_settings (hlayer : layer ∈ Catalogue.standard)
    (hmodule : layer.module = some module)
    (h : ∀ field ∈ layer.settings node.params, field.2.isExact = true) :
    Literal.Readable ⟨module, layer.settings node.params⟩ := by
  obtain ⟨hchars, hkeys, hnames⟩ := Catalogue.standard_names layer hlayer
  refine ⟨by simpa using hchars module hmodule, ?_, fun field hfield => ?_, h⟩
  · rw [Layer.settings, List.map_map]
    exact hkeys
  · obtain ⟨entry, hentry, rfl⟩ := List.mem_map.1 hfield
    exact ⟨(hnames entry hentry).1, List.all_eq_true.1 (hnames entry hentry).2⟩

/-- What a declaration with exact params says: it has no line break, and is read as the call of the
module with these params. -/
theorem declaration_recovered {entry : Node × Statement} {declaration : Declaration}
    (h : Attribute entry declaration) (hname : IsVariable declaration.name) :
    ∃ layer module, Catalogue.standard.find? entry.1.kind = some layer ∧
      layer.module = some module ∧
      ((∀ field ∈ layer.settings entry.1.params, field.2.isExact = true) →
        (∀ c ∈ Text.lineBreaks, c ∉ declaration.text.toList) ∧
        Literal.declaration? declaration.text =
          some (declaration.name, ⟨module, layer.settings entry.1.params⟩)) := by
  obtain ⟨-, -, layer, module, hfind, hmodule, hcall⟩ := h
  refine ⟨layer, module, hfind, hmodule, fun hexact => ?_⟩
  have hreadable := readable_settings (Catalogue.find?_spec hfind).1 hmodule hexact
  have htext := moduleCall_text hcall
  rw [moduleArguments_of_exact hexact] at htext
  have hchars : ∀ c ∈ declaration.name.toList, isNameChar c = true := fun c hc => by
    simpa [isNameChar] using hname.chars c hc
  exact ⟨fun c hc => (hreadable.printed_declaration hchars htext).not_mem hc,
    hreadable.declaration?_text hchars htext⟩

theorem indentLine_indentLine (line : String) :
    Text.indentLine 1 (Text.indentLine 1 line) = Text.indentLine 2 line := by
  by_cases hempty : line.isEmpty
  · simp [Text.indentLine, hempty]
  · rw [← String.toList_inj]
    simp [Text.indentLine, hempty, List.replicate]

/-- The class of a model: its first line, the constructor with the texts that it declares, one on
each line, and the forward method. -/
theorem Model.render_of_constructor {model : Model} {texts : List String}
    (h : model.constructorLines = "super().__init__()" :: texts) :
    model.render = Text.lines ("class " ++ model.className ++ "(nn.Module):")
      ++ ["    def __init__(self):", "        super().__init__()"]
      ++ Text.indent 2 texts
      ++ Text.indent 1 ("" :: model.signature :: Text.indent 1 model.forwardLines) := by
  have hinit : Text.indentLine 1 "def __init__(self):" = "    def __init__(self):" := by
    decide +kernel
  have hsuper : Text.indentLine 2 "super().__init__()" = "        super().__init__()" := by
    decide +kernel
  have htexts : Text.indent 1 (Text.indent 1 texts) = Text.indent 2 texts := by
    simp [Text.indent, Function.comp_def, indentLine_indentLine]
  simp only [Model.render, h, Text.indent, List.map_append, List.map_cons, indentLine_indentLine,
    hinit, hsuper] at htexts ⊢
  rw [htexts]
  simp

/-- No param can break out of the program, and none is lost: the literal of an exact value is one
line, is read as the value whatever stands behind it, and differs from the literals of all others.
In the class of a model every declaration is one line, and if its params are exact, the line is read
as the call of its module with these params. -/
theorem literals_recovered :
    (∀ v : Value, v.isExact = true →
      v.write = .ok v.literal ∧ (∀ c ∈ Text.lineBreaks, c ∉ v.literal.toList) ∧
      Literal.read v.literal = some v ∧
      ∀ rest, Literal.Ends rest → Literal.scan (v.literal.toList ++ rest) = some (v, rest)) ∧
    (∀ v w : Value, v.isExact = true → w.isExact = true → v.write = w.write → v = w) ∧
    ∀ (graph : Graph) (className : String) (model : Model) (warnings : List String),
      Model.ofGraph Catalogue.standard graph className = .ok (model, warnings) →
      model.render = Text.lines ("class " ++ model.className ++ "(nn.Module):")
        ++ ["    def __init__(self):", "        super().__init__()"]
        ++ Text.indent 2 (model.declarations.map (·.text))
        ++ Text.indent 1 ("" :: model.signature :: Text.indent 1 model.forwardLines) ∧
      List.Forall₂ (fun entry declaration => ∃ layer module,
          Catalogue.standard.find? entry.1.kind = some layer ∧ layer.module = some module ∧
          ((∀ field ∈ layer.settings entry.1.params, field.2.isExact = true) →
            (∀ c ∈ Text.lineBreaks, c ∉ declaration.text.toList) ∧
            Literal.declaration? declaration.text =
              some (declaration.name, ⟨module, layer.settings entry.1.params⟩)))
        ((model.entries (graph.ordered.filter (·.isLayer))).filter (·.1.isModule))
        model.declarations := by
  refine ⟨fun v hv => ⟨Literal.write_exact hv, fun c hc => ?_, Literal.read_literal hv,
    fun rest hrest => Literal.scan_literal hv hrest⟩,
    fun v w hv hw => Literal.write_injective hv hw,
    fun graph className model warnings hmodel => ?_⟩
  · exact (Literal.printed_literal hv).not_mem hc
  · obtain ⟨draft, hdraft, hmade⟩ := map_eq_ok.1 hmodel
    obtain ⟨rfl, rfl⟩ := Prod.mk.inj hmade
    have hnaming := (Draft.Tracks.run hdraft).naming
    have hlines := (Draft.Flat.run Catalogue.standard_oneLine hdraft).singleLines.constructor
    rw [eraseDups_of_nodup hnaming.texts_nodup] at hlines
    refine ⟨Model.render_of_constructor hlines, ?_⟩
    have hnamed : ∀ entry ∈ (draft.model.entries (graph.ordered.filter (·.isLayer))).filter
        (·.1.isModule), IsVariable entry.2.target := fun entry hentry => by
      refine hnaming.isVariable ?_
      rw [hnaming.targets]
      exact List.mem_map_of_mem (List.mem_filter.1 hentry).1
    refine ((List.forall₂_and_left _ _).2 ⟨hnamed, hnaming.declared⟩).imp ?_
    intro entry declaration hgiven
    obtain ⟨hvariable, hattribute⟩ := hgiven
    exact declaration_recovered hattribute (hattribute.1 ▸ hvariable)

/-- A value with quotes of both kinds, backslashes, breaks of lines, keys like numbers and literals
of others in it. -/
def intruder : Value :=
  .object [("it's", .list [.null, .str "None", .bool true, .int (-12), .str "-12"]),
    ("\"),\n", .str "'\"\\\r\u0085\u2028\u0001"), ("", .object [])]

def breakout : Graph where
  nodes := [⟨"in", "Input", "", []⟩,
    ⟨"fc", "Linear", "", [("in_features", .str "8'), exit(\"\n"), ("bias", .list [.null])]⟩]
  edges := [⟨"1", "in", "fc", none⟩]

theorem breakout_recovered :
    intruder.isExact = true ∧ Literal.read intruder.literal = some intruder ∧
    ∃ model warnings, Model.ofGraph Catalogue.standard breakout "Net" = .ok (model, warnings) ∧
      model.declarations = [⟨"fc", "nn.Linear(in_features='8\\'), exit(\"\\n', out_features=64, "
        ++ "bias=[None])"⟩] ∧
      ∀ declaration ∈ model.declarations, Literal.declaration? declaration.text =
        some ("fc", ⟨"nn.Linear", [("in_features", .str "8'), exit(\"\n"),
          ("out_features", .int 64), ("bias", .list [.null])]⟩) := by
  have hexact : intruder.isExact = true := by decide +kernel
  have hrun : (Model.ofGraph Catalogue.standard breakout "Net").map
      (fun made => (made.1.declarations, made.1.statements)) =
      .ok ([⟨"fc", "nn.Linear(in_features='8\\'), exit(\"\\n', out_features=64, bias=[None])"⟩],
        [⟨"fc", "self.fc(x)", false⟩]) :=
    eq_ok_of_toOption (by decide +kernel)
  obtain ⟨⟨model, warnings⟩, hmodel, hmade⟩ := map_eq_ok.1 hrun
  obtain ⟨hdeclared, hstated⟩ := Prod.mk.inj hmade
  obtain ⟨hvalues, -, hgraphs⟩ := literals_recovered
  obtain ⟨-, hread, -⟩ := (hvalues intruder hexact).2
  obtain ⟨-, hdeclarations⟩ := hgraphs breakout "Net" model warnings hmodel
  have hentries : (model.entries (breakout.ordered.filter (·.isLayer))).filter (·.1.isModule) =
      [(⟨"fc", "Linear", "", [("in_features", .str "8'), exit(\"\n"), ("bias", .list [.null])]⟩,
        ⟨"fc", "self.fc(x)", false⟩)] := by
    rw [Model.entries, show model.statements = _ from hstated]
    decide +kernel
  rw [hentries, show model.declarations = _ from hdeclared] at hdeclarations
  obtain ⟨⟨layer, module, hfind, hmodule, hrecovered⟩, -⟩ := List.forall₂_cons.1 hdeclarations
  obtain rfl : Layer.linear = layer := Option.some.inj hfind
  obtain rfl : "nn.Linear" = module := Option.some.inj hmodule
  refine ⟨hexact, hread, model, warnings, hmodel, hdeclared, ?_⟩
  rw [show model.declarations = _ from hdeclared]
  refine List.forall_mem_singleton.2 ((hrecovered ?_).2.trans ?_)
  · decide +kernel
  · have hsettings : Layer.linear.settings
        [("in_features", .str "8'), exit(\"\n"), ("bias", .list [.null])] =
          [("in_features", .str "8'), exit(\"\n"), ("out_features", .int 64),
            ("bias", .list [.null])] := by decide +kernel
    exact congrArg (fun fields => some ("fc", (⟨"nn.Linear", fields⟩ : Call))) hsettings

end Program

end LayerGraph
