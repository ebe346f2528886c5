import LayerGraph.Proofs.Program.Naming
import LayerGraph.Program.Text
set_option autoImplicit false

namespace LayerGraph.Program

open LayerGraph.Graph

def methods : List String := ["__init__", "forward"]

/-- The method whose definition a line of a class body begins, one level in. -/
def methodOf? (line : String) : Option String :=
  match line.toList with
  | ' ' :: ' ' :: ' ' :: ' ' :: 'd' :: 'e' :: 'f' :: ' ' :: rest =>
    some (String.ofList (rest.takeWhile isNameChar))
  | _ => none

inductive Member where
  | method (name : String)
  | layer (call : String)
  deriving DecidableEq, Repr

/-- Methods of the class come before the layers of the object. -/
def Model.member? (model : Model) (name : String) : Option Member :=
  if name ∈ methods then some (.method name)
  else (model.declarations.find? (·.name == name)).map (.layer ·.call)

/-- The ids whose names are methods: one word, and another one between any two pairs of characters
that are no letters or digits. -/
def NamesMethod (id : String) : Prop :=
  id = "forward" ∨ ∃ a b c d, (∀ e ∈ [a, b, c, d], e.isAlphanum = false) ∧
    id = String.ofList [a, b, 'i', 'n', 'i', 't', c, d]

theorem methodOf?_indent_indent (ls : List String) :
    (Text.indent 1 (Text.indent 1 ls)).filterMap methodOf? = [] := by
  refine List.filterMap_eq_nil_iff.2 fun line hline => ?_
  obtain ⟨inner, hinner, rfl⟩ := List.mem_map.1 hline
  obtain ⟨text, -, rfl⟩ := List.mem_map.1 hinner
  by_cases hempty : text.isEmpty
  · obtain rfl : text = "" := by simpa using hempty
    decide
  · simp [Text.indentLine, hempty, methodOf?, List.replicate]

/-- Whatever the texts of a model hold, the body of its class defines its methods and no others. -/
theorem Model.defines (model : Model) :
    ∃ body, model.render = Text.lines ("class " ++ model.className ++ "(nn.Module):") ++ body ∧
      body.filterMap methodOf? = methods := by
  refine ⟨_, rfl, ?_⟩
  have hconstructor : methodOf? (Text.indentLine 1 "def __init__(self):") = some "__init__" := by
    decide +kernel
  have hblank : methodOf? (Text.indentLine 1 "") = none := by decide
  have hsignature : methodOf? (Text.indentLine 1 model.signature) = some "forward" := by
    rw [Model.signature]
    split <;> decide +kernel
  have hparts : ∀ first inner blank signature body,
      Text.indent 1 (first :: Text.indent 1 inner ++ [blank, signature] ++ Text.indent 1 body) =
        Text.indentLine 1 first :: Text.indent 1 (Text.indent 1 inner) ++
          [Text.indentLine 1 blank, Text.indentLine 1 signature] ++
          Text.indent 1 (Text.indent 1 body) := fun _ _ _ _ _ => by
    simp [Text.indent]
  rw [hparts, List.filterMap_append, List.filterMap_append, List.filterMap_cons_some hconstructor,
    methodOf?_indent_indent, methodOf?_indent_indent, List.filterMap_cons_none hblank,
    List.filterMap_cons_some hsignature]
  rfl

theorem suffixed_not_mem_methods (base : String) (n : Nat) : suffixed base n ∉ methods := by
  intro hin
  have hchars : (suffixed base n).toList =
      base.toList ++ '_' :: (Text.decimal (n + 2 : Nat)).toList := numbered_toList base (n + 2)
  rcases List.mem_cons.1 hin with heq | hlast
  · rw [heq] at hchars
    have hsplit : "__init_".toList ++ '_' :: [] =
        base.toList ++ '_' :: (Text.decimal (n + 2 : Nat)).toList := hchars
    have hnil := (append_underscore_inj (by simp) (underscore_not_mem_decimal _) hsplit).2
    exact decimal_ne_nil _ hnil.symm
  · rw [List.mem_singleton.1 hlast] at hchars
    have hmark : '_' ∈ "forward".toList := by
      rw [hchars]
      simp
    exact absurd hmark (by decide)

theorem identifier_eq_method_iff {id method : String} (hmethod : method ∈ methods) :
    identifier id = method ↔ wordOf id = method.toList := by
  have hwords : ∀ word ∈ methods, escapeName word.toList.dropLast ≠ word.toList ∧
      word.toList ≠ startName [] ∧ word.toList.head? ≠ some 'n' ∧
      escapeName (startName word.toList) = word.toList := by decide +kernel
  obtain ⟨hescape, hempty, hfirst, hkept⟩ := hwords method hmethod
  rw [← String.toList_inj, identifier_toList]
  constructor
  · intro h
    have hstart : startName (wordOf id) = method.toList := by
      rcases escapeName_cases (startName (wordOf id)) with hlong | ⟨hsame, -⟩
      · refine absurd ?_ hescape
        rw [← h, hlong, List.dropLast_concat, hlong]
      · rw [← h, hsame]
    cases hword : wordOf id with
    | nil =>
      rw [hword] at hstart
      exact absurd hstart.symm hempty
    | cons c cs =>
      rw [hword, startName] at hstart
      split at hstart
      · rw [← hstart] at hfirst
        exact absurd rfl hfirst
      · exact hstart
  · intro h
    rw [h, hkept]

def nameChar (c : Char) : Char := if isNameChar c then c else '_'

theorem nameChar_eq_iff {c d : Char} (hd : d.isAlphanum = true) : nameChar c = d ↔ c = d := by
  have hmark : '_' ≠ d := fun h => absurd (h ▸ hd) (by decide)
  rw [nameChar]
  split
  · rfl
  · rename_i hc
    exact ⟨fun h => absurd h hmark, fun h => absurd (by simp [isNameChar, h, hd]) hc⟩

theorem nameChar_eq_underscore_iff (c : Char) : nameChar c = '_' ↔ c.isAlphanum = false := by
  by_cases hc : c = '_'
  · subst hc
    decide
  · by_cases ha : c.isAlphanum = true <;> simp [nameChar, isNameChar, hc, ha]

theorem wordOf_forward_iff (id : String) : wordOf id = "forward".toList ↔ id = "forward" := by
  have hall : ∀ (cs word : List Char), (∀ d ∈ word, d.isAlphanum = true) →
      (cs.map nameChar = word ↔ cs = word) := by
    intro cs word hword
    induction cs generalizing word with
    | nil => simp [eq_comm]
    | cons c cs ih =>
      cases word with
      | nil => simp
      | cons d word =>
        obtain ⟨hd, hrest⟩ := List.forall_mem_cons.1 hword
        rw [List.map_cons, List.cons.injEq, List.cons.injEq, nameChar_eq_iff hd, ih word hrest]
  rw [← String.toList_inj]
  exact hall id.toList "forward".toList (List.all_eq_true.1 (by decide))

theorem wordOf_init_iff (id : String) :
    wordOf id = "__init__".toList ↔ ∃ a b c d, (∀ e ∈ [a, b, c, d], e.isAlphanum = false) ∧
      id = String.ofList [a, b, 'i', 'n', 'i', 't', c, d] := by
  have hletters : ∀ c : Char, ∀ d ∈ "init".toList, nameChar c = d ↔ c = d := fun c d hd =>
    nameChar_eq_iff (List.all_eq_true.1 (by decide : "init".toList.all Char.isAlphanum = true) d hd)
  have hword : wordOf id = "__init__".toList ↔ id.toList.map nameChar =
      ['_', '_', 'i', 'n', 'i', 't', '_', '_'] := Iff.rfl
  rw [hword]
  constructor
  · intro h
    simp only [List.map_eq_cons_iff, List.map_eq_nil_iff] at h
    obtain ⟨a, _, hid, ha, b, _, rfl, hb, i, _, rfl, hi, n, _, rfl, hn, j, _, rfl, hj, t, _, rfl, ht,
      c, _, rfl, hc, d, _, rfl, hd, rfl⟩ := h
    rw [hletters i 'i' (by decide)] at hi
    rw [hletters n 'n' (by decide)] at hn
    rw [hletters j 'i' (by decide)] at hj
    rw [hletters t 't' (by decide)] at ht
    refine ⟨a, b, c, d, ?_, ?_⟩
    · simp only [nameChar_eq_underscore_iff] at ha hb hc hd
      simp [ha, hb, hc, hd]
    · rw [← String.toList_inj, hid, String.toList_ofList, hi, hn, hj, ht]
  · rintro ⟨a, b, c, d, hmarks, rfl⟩
    simp only [List.forall_mem_cons, ← nameChar_eq_underscore_iff] at hmarks
    obtain ⟨ha, hb, hc, hd, -⟩ := hmarks
    rw [String.toList_ofList]
    simp only [List.map_cons, List.map_nil, ha, hb, hc, hd]
    rfl

theorem identifier_mem_methods_iff (id : String) : identifier id ∈ methods ↔ NamesMethod id := by
  rw [methods, List.mem_cons, List.mem_singleton, identifier_eq_method_iff (by decide),
    identifier_eq_method_iff (by decide), wordOf_forward_iff, wordOf_init_iff, NamesMethod, or_comm]

section Models

variable {layers : List Node} {model : Model} {warnings : List String}

theorem Naming.taken (h : Naming layers model warnings)
    {before after : List (Node × Statement)} (hsplit : model.entries layers = before ++ after)
    {entry : Node × Statement} (hentry : entry ∈ before) :
    ∃ owner ∈ before, owner.2.target = identifier entry.1.id := by
  obtain ⟨first, rest, rfl⟩ := List.append_of_mem hentry
  have hassigned := h.assigned first entry.1 entry.2 (rest ++ after) (by simp [hsplit])
  generalize htarget : entry.2.target = target at hassigned
  cases hassigned with
  | own => exact ⟨entry, hentry, htarget⟩
  | numbered n hshared =>
    obtain ⟨owner, howner, hname⟩ := List.mem_map.1 hshared
    exact ⟨owner, List.mem_append_left _ howner, hname⟩

/-- The name of a method goes to the first layer whose id asks for it. -/
theorem Naming.target_eq_method_iff (h : Naming layers model warnings)
    {before after : List (Node × Statement)} {node : Node} {statement : Statement}
    (hsplit : model.entries layers = before ++ (node, statement) :: after) {method : String}
    (hmethod : method ∈ methods) :
    statement.target = method ↔
      identifier node.id = method ∧ ∀ entry ∈ before, identifier entry.1.id ≠ method := by
  have hnumbered : ∀ base n, suffixed base n ≠ method := fun base n heq =>
    suffixed_not_mem_methods base n (heq ▸ hmethod)
  have hassigned := h.assigned before node statement after hsplit
  generalize statement.target = target at hassigned
  cases hassigned with
  | own hfree =>
    refine ⟨fun heq => ⟨heq, fun entry hentry hsame => hfree ?_⟩, And.left⟩
    obtain ⟨owner, howner, hname⟩ := h.taken hsplit hentry
    exact List.mem_map.2 ⟨owner, howner, by rw [hname, hsame, heq]⟩
  | numbered n hshared =>
    refine ⟨fun heq => absurd heq (hnumbered _ n), fun hgiven => ?_⟩
    obtain ⟨hname, hother⟩ := hgiven
    obtain ⟨owner, howner, htarget⟩ := List.mem_map.1 hshared
    obtain ⟨first, rest, rfl⟩ := List.append_of_mem howner
    have hassigned := h.assigned first owner.1 owner.2 (rest ++ (node, statement) :: after)
      (by simp [hsplit])
    rw [htarget, hname] at hassigned
    generalize heq : method = target at hassigned
    cases hassigned with
    | own => exact absurd heq.symm (hother owner howner)
    | numbered k => exact absurd heq.symm (hnumbered _ k)

theorem Naming.entries_fst (h : Naming layers model warnings) :
    (model.entries layers).map (·.1) = layers :=
  List.map_fst_zip h.count.ge

theorem Naming.exists_declared_iff (h : Naming layers model warnings) {method : String}
    (hmethod : method ∈ methods) :
    method ∈ model.declarations.map (·.name) ↔
      ∃ before node after, layers = before ++ node :: after ∧ node.isModule = true ∧
        identifier node.id = method ∧ ∀ other ∈ before, identifier other.id ≠ method := by
  rw [h.declared_names]
  constructor
  · intro hin
    obtain ⟨⟨node, statement⟩, hentry, htarget⟩ := List.mem_map.1 hin
    obtain ⟨hentry, hmodule⟩ := List.mem_filter.1 hentry
    obtain ⟨before, after, hsplit⟩ := List.append_of_mem hentry
    obtain ⟨hname, hother⟩ := (h.target_eq_method_iff hsplit hmethod).1 htarget
    have hlayers : (model.entries layers).map (·.1) =
        before.map (·.1) ++ node :: after.map (·.1) := by rw [hsplit, List.map_append, List.map_cons]
    refine ⟨before.map (·.1), node, after.map (·.1), h.entries_fst.symm.trans hlayers, hmodule, hname,
      fun other hin => ?_⟩
    obtain ⟨entry, hentry, rfl⟩ := List.mem_map.1 hin
    exact hother entry hentry
  · rintro ⟨before, node, after, hlayers, hmodule, hname, hother⟩
    have hentries := h.entries_fst.trans hlayers
    obtain ⟨first, rest, hsplit, rfl, hrest⟩ := List.map_eq_append_iff.1 hentries
    obtain ⟨⟨node, statement⟩, last, rfl, rfl, -⟩ := List.map_eq_cons_iff.1 hrest
    have htarget := (h.target_eq_method_iff hsplit hmethod).2
      ⟨hname, fun entry hentry => hother entry.1 (List.mem_map_of_mem hentry)⟩
    refine List.mem_map.2 ⟨(node, statement), List.mem_filter.2 ⟨?_, hmodule⟩, htarget⟩
    rw [hsplit]
    exact List.mem_append_right _ List.mem_cons_self

theorem find?_declared {declarations : List Declaration} {declaration : Declaration}
    (hnames : (declarations.map (·.name)).Nodup) (hin : declaration ∈ declarations) :
    declarations.find? (·.name == declaration.name) = some declaration := by
  induction declarations with
  | nil => cases hin
  | cons first rest ih =>
    obtain ⟨hfirst, hrest⟩ := List.nodup_cons.1 hnames
    rcases List.mem_cons.1 hin with rfl | hin
    · exact List.find?_cons_of_pos (by simp)
    · have hne : first.name ≠ declaration.name := fun heq =>
        hfirst (List.mem_map.2 ⟨declaration, hin, heq.symm⟩)
      rw [List.find?_cons_of_neg (by simpa using hne), ih hrest hin]

theorem Naming.member?_eq (h : Naming layers model warnings) {declaration : Declaration}
    (hin : declaration ∈ model.declarations) :
    model.member? declaration.name = some (.layer declaration.call) ↔
      declaration.name ∉ methods := by
  have hnames := h.nodup.sublist h.declared_sublist
  rw [Model.member?]
  split
  · rename_i hmethod
    simp [hmethod]
  · rename_i hfree
    simp [hfree, find?_declared hnames hin]

end Models

/-- The class of a model has two methods, and the calls in its forward method are of the layers that
are declared, each under a name of its own. Each of them reaches its layer exactly if, of the ids
that name a method, none is that of a module before any other layer that asks for the same name. -/
theorem attributes_reach_iff {graph : Graph} {className : String} {model : Model}
    {warnings : List String}
    (hmodel : Model.ofGraph Catalogue.standard graph className = .ok (model, warnings)) :
    (∃ body, model.render = Text.lines ("class " ++ model.className ++ "(nn.Module):") ++ body ∧
      body.filterMap methodOf? = methods) ∧
    List.Forall₂ Attribute
      ((model.entries (graph.ordered.filter (·.isLayer))).filter (·.1.isModule))
      model.declarations ∧
    (∀ declaration ∈ model.declarations,
      (model.member? declaration.name = some (.layer declaration.call) ↔
        declaration.name ∉ methods)) ∧
    ((∀ declaration ∈ model.declarations, declaration.name ∉ methods) ↔
      ∀ before node after, graph.ordered.filter (·.isLayer) = before ++ node :: after →
        node.isModule = true → NamesMethod node.id →
          ∃ other ∈ before, identifier other.id = identifier node.id) := by
  obtain ⟨draft, hdraft, hmade⟩ := map_eq_ok.1 hmodel
  obtain ⟨rfl, rfl⟩ := Prod.mk.inj hmade
  have hnaming := (Draft.Tracks.run hdraft).naming
  refine ⟨draft.model.defines, hnaming.declared, fun declaration hin => hnaming.member?_eq hin, ?_⟩
  constructor
  · intro hfree before node after hlayers hmodule hid
    have hmethod := (identifier_mem_methods_iff node.id).2 hid
    by_contra hother
    have hdeclared := (hnaming.exists_declared_iff hmethod).2 ⟨before, node, after, hlayers, hmodule,
      rfl, fun other hin heq => hother ⟨other, hin, heq⟩⟩
    obtain ⟨declaration, hin, hname⟩ := List.mem_map.1 hdeclared
    exact hfree declaration hin (hname ▸ hmethod)
  · intro hall declaration hin hmethod
    obtain ⟨before, node, after, hlayers, hmodule, hname, hother⟩ :=
      (hnaming.exists_declared_iff hmethod).1 (List.mem_map_of_mem hin)
    have hid := (identifier_mem_methods_iff node.id).1 (hname ▸ hmethod)
    obtain ⟨other, hbefore, hsame⟩ := hall before node after hlayers hmodule hid
    exact hother other hbefore (hsame.trans hname)

def bystanders : Graph where
  nodes := [⟨"in", "Input", "", []⟩, ⟨"__init__", "Add", "", []⟩, ⟨"--init--", "ReLU", "", []⟩,
    ⟨"Forward", "Tanh", "", []⟩, ⟨"_init_", "Sigmoid", "", []⟩]
  edges := [⟨"1", "in", "__init__", none⟩, ⟨"2", "in", "__init__", none⟩,
    ⟨"3", "__init__", "--init--", none⟩]

theorem bystanders_reach :
    ∃ model warnings, Model.ofGraph Catalogue.standard bystanders "Net" = .ok (model, warnings) ∧
      model.declarations = [⟨"Forward", "nn.Tanh()"⟩, ⟨"_init_", "nn.Sigmoid()"⟩,
        ⟨"__init___2", "nn.ReLU()"⟩] ∧
      (∀ declaration ∈ model.declarations,
        model.member? declaration.name = some (.layer declaration.call)) ∧
      ∀ before node after, bystanders.ordered.filter (·.isLayer) = before ++ node :: after →
        node.isModule = true → NamesMethod node.id →
          ∃ other ∈ before, identifier other.id = identifier node.id := by
  have hrun : (Model.ofGraph Catalogue.standard bystanders "Net").map (·.1.declarations) =
      .ok [⟨"Forward", "nn.Tanh()"⟩, ⟨"_init_", "nn.Sigmoid()"⟩, ⟨"__init___2", "nn.ReLU()"⟩] :=
    eq_ok_of_toOption (by decide +kernel)
  obtain ⟨⟨model, warnings⟩, hmodel, hdeclared⟩ := map_eq_ok.1 hrun
  obtain ⟨-, -, hreach, hiff⟩ := attributes_reach_iff hmodel
  have hfree : ∀ declaration ∈ model.declarations, declaration.name ∉ methods := by
    rw [hdeclared]
    decide
  exact ⟨model, warnings, hmodel, hdeclared,
    fun declaration hin => (hreach declaration hin).2 (hfree declaration hin), hiff.1 hfree⟩

def forwardLayer : Graph where
  nodes := [⟨"in", "Input", "", [("shape", .list [.int 1, .int 8])]⟩, ⟨"forward", "ReLU", "", []⟩,
    ⟨"out", "Output", "", []⟩]
  edges := [⟨"1", "in", "forward", none⟩, ⟨"2", "forward", "out", none⟩]

theorem forwardLayer_shadowed :
    (∀ node ∈ forwardLayer.nodes, (Catalogue.standard.find? node.kind).isSome) ∧
    (forwardLayer.infer Catalogue.standard).map (·.hasErrors) = .ok false ∧
    ∃ model warnings, Model.ofGraph Catalogue.standard forwardLayer "Net" = .ok (model, warnings) ∧
      model.declarations = [⟨"forward", "nn.ReLU()"⟩] ∧
      model.statements = [⟨"forward", "self.forward(x)", false⟩] ∧
      "forward" ∈ methods ∧ model.member? "forward" = some (.method "forward") := by
  have hrun : (Model.ofGraph Catalogue.standard forwardLayer "Net").map
      (fun made => (made.1.declarations, made.1.statements)) =
      .ok ([⟨"forward", "nn.ReLU()"⟩], [⟨"forward", "self.forward(x)", false⟩]) :=
    eq_ok_of_toOption (by decide +kernel)
  obtain ⟨⟨model, warnings⟩, hmodel, hmade⟩ := map_eq_ok.1 hrun
  obtain ⟨hdeclared, hstated⟩ := Prod.mk.inj hmade
  exact ⟨by decide +kernel, eq_ok_of_toOption (by decide +kernel), model, warnings, hmodel,
    hdeclared, hstated, by decide, rfl⟩

end LayerGraph.Program
