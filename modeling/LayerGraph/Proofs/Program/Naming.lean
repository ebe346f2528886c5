import LayerGraph.Program.Text
import LayerGraph.Proofs.Program.Arguments
set_option autoImplicit false

namespace LayerGraph.Program

open LayerGraph.Graph

structure IsVariable (name : String) : Prop where
  start : ∃ c cs, name.toList = c :: cs ∧ (c.isAlpha = true ∨ c = '_')
  chars : ∀ c ∈ name.toList, c.isAlphanum = true ∨ c = '_'
  keyword : name ∉ keywords
  reserved : name ∉ reserved
  lone : name ≠ "x"
  numbered : ∀ digits, digits ≠ [] → (∀ c ∈ digits, c.isDigit = true) →
    name.toList ≠ 'x' :: '_' :: digits

theorem looksLikeInput_iff (cs : List Char) :
    looksLikeInput cs = true ↔ cs = ['x'] ∨
      ∃ digits, digits ≠ [] ∧ (∀ c ∈ digits, c.isDigit = true) ∧ cs = 'x' :: '_' :: digits := by
  unfold looksLikeInput
  split
  · simp
  · simp [List.all_eq_true]
  · rename_i hlone hnumbered
    refine ⟨fun h => absurd h (by decide), ?_⟩
    rintro (rfl | ⟨digits, hne, -, rfl⟩)
    · exact absurd rfl hlone
    · obtain ⟨d, ds, rfl⟩ := List.exists_cons_of_ne_nil hne
      exact absurd rfl (hnumbered d ds)

theorem isVariable_of {name : String}
    (hstart : ∃ c cs, name.toList = c :: cs ∧ (c.isAlpha = true ∨ c = '_')) (hname : IsName name)
    (hword : name ∉ keywords ++ reserved) (hinput : looksLikeInput name.toList = false) :
    IsVariable name := by
  rw [← Bool.not_eq_true, looksLikeInput_iff, not_or] at hinput
  obtain ⟨hlone, hnumbered⟩ := hinput
  rw [List.mem_append, not_or] at hword
  refine ⟨hstart, fun c hc => by simpa [isNameChar] using hname.chars c hc, hword.1, hword.2,
    fun h => hlone (by rw [h]; rfl), fun digits hne hdigits h => ?_⟩
  exact hnumbered ⟨digits, hne, hdigits, h⟩

theorem IsVariable.ne_inputName {name : String} (h : IsVariable name) (position : Nat) :
    name ≠ inputName position := by
  intro heq
  rcases (looksLikeInput_iff _).1 (looksLikeInput_inputName position) with hlone | hnumbered
  · exact h.lone (heq.trans (String.toList_inj.1 hlone))
  · obtain ⟨digits, hne, hdigits, hchars⟩ := hnumbered
    exact h.numbered digits hne hdigits (heq ▸ hchars)

/-- No word of the language ends in an underscore or a digit, as escaped and numbered names do. -/
theorem words_getLast? : ∀ word ∈ keywords ++ reserved,
    word.toList.getLast?.all (fun c => c != '_' && !c.isDigit) = true := by
  decide +kernel

theorem not_word_of_append {name : String} {cs ds : List Char}
    (hchars : name.toList = cs ++ '_' :: ds) (hds : ∀ c ∈ ds, c.isDigit = true) :
    name ∉ keywords ++ reserved := by
  intro hword
  have hlast : name.toList.getLast? = some (('_' :: ds).getLast (by simp)) := by
    rw [hchars, List.getLast?_append_of_ne_nil _ (by simp), List.getLast?_eq_some_getLast]
  have hend := words_getLast? name hword
  rw [hlast, Option.all_some, Bool.and_eq_true, bne_iff_ne, Bool.not_eq_true'] at hend
  obtain ⟨hmark, hdigit⟩ := hend
  rcases List.mem_cons.1 (List.getLast_mem (l := '_' :: ds) (by simp)) with heq | hmem
  · exact hmark heq
  · rw [hds _ hmem] at hdigit
    cases hdigit

theorem startName_start {cs : List Char} (h : ∀ c ∈ cs, isNameChar c = true) :
    ∃ c rest, startName cs = c :: rest ∧ (c.isAlpha = true ∨ c = '_') := by
  cases cs with
  | nil => exact ⟨'n', ['_'], rfl, .inl (by decide)⟩
  | cons c cs =>
    by_cases hdigit : c.isDigit = true
    · exact ⟨'n', '_' :: c :: cs, by simp [startName, hdigit], .inl (by decide)⟩
    · refine ⟨c, cs, by simp [startName, hdigit], ?_⟩
      simpa [isNameChar, Char.isAlphanum, hdigit] using h c List.mem_cons_self

theorem identifier_isVariable (id : String) : IsVariable (identifier id) := by
  obtain ⟨c, rest, hstart, hc⟩ := startName_start fun c (hc : c ∈ wordOf id) => wordOf_chars hc
  rcases escapeName_cases (startName (wordOf id)) with h | ⟨h, hinput, hword⟩
  · have hchars : (identifier id).toList = c :: rest ++ ['_'] := by
      rw [identifier_toList, h, hstart]
    refine isVariable_of ⟨c, _, hchars, hc⟩ (identifier_isName id)
      (not_word_of_append hchars (by simp)) ?_
    rw [← Bool.not_eq_true, looksLikeInput_iff, hchars]
    rintro (hlone | ⟨digits, hne, hdigits, hnumbered⟩)
    · simp at hlone
    · have hmarks : c :: rest ++ '_' :: [] = ['x'] ++ '_' :: digits := hnumbered
      have hout : '_' ∉ digits := fun hmem => absurd (hdigits _ hmem) (by decide)
      exact hne (append_underscore_inj (by simp) hout hmarks).2.symm
  · have hchars : (identifier id).toList = startName (wordOf id) := by rw [identifier_toList, h]
    refine isVariable_of ⟨c, rest, hchars.trans hstart, hc⟩ (identifier_isName id) ?_ ?_
    · rwa [← hchars, String.ofList_toList] at hword
    · rw [hchars]
      exact hinput

theorem suffixed_isVariable {base : String} (h : IsVariable base) (n : Nat) :
    IsVariable (suffixed base n) := by
  have hchars : (suffixed base n).toList =
      base.toList ++ '_' :: (Text.decimal (n + 2 : Nat)).toList := numbered_toList base (n + 2)
  obtain ⟨c, cs, hbase, hc⟩ := h.start
  have hname : IsName base :=
    ⟨fun heq => by simp [heq] at hbase, fun d hd => by simpa [isNameChar] using h.chars d hd⟩
  refine isVariable_of ⟨c, _, by rw [hchars, hbase, List.cons_append], hc⟩ (hname.numbered (n + 2))
    (not_word_of_append hchars fun d hd => decimal_isDigit hd) ?_
  rw [← Bool.not_eq_true, looksLikeInput_iff, hchars]
  rintro (hlone | ⟨digits, -, hdigits, hnumbered⟩)
  · simp [hbase] at hlone
  · have hmarks : base.toList ++ '_' :: (Text.decimal (n + 2 : Nat)).toList =
        ['x'] ++ '_' :: digits := hnumbered
    have hout : '_' ∉ digits := fun hmem => absurd (hdigits _ hmem) (by decide)
    have hlone := (append_underscore_inj (underscore_not_mem_decimal _) hout hmarks).1
    exact h.lone (String.toList_inj.1 hlone)

theorem suffixed_ne (base : String) (n : Nat) : suffixed base n ≠ base := by
  intro h
  have hlength := congrArg (fun name => name.toList.length) h
  simp only [suffixed, numbered_toList, List.length_append, List.length_cons] at hlength
  omega

/-- The name of a node beside the names that are taken: its own, or the first numbered form of it
that is free, which is found after at most as many tries as there are names taken. -/
inductive Assigned (taken : List String) (id : String) : String → Prop where
  | own (hfree : identifier id ∉ taken) : Assigned taken id (identifier id)
  | numbered (n : Nat) (hshared : identifier id ∈ taken) (hcount : n ≤ taken.length)
      (hfree : suffixed (identifier id) n ∉ taken)
      (hfirst : ∀ m < n, suffixed (identifier id) m ∈ taken) :
      Assigned taken id (suffixed (identifier id) n)

theorem Assigned.fresh {taken : List String} {id name : String} (h : Assigned taken id name) :
    name ∉ taken := by
  cases h with
  | own hfree => exact hfree
  | numbered _ _ _ hfree => exact hfree

theorem Assigned.isVariable {taken : List String} {id name : String} (h : Assigned taken id name) :
    IsVariable name := by
  cases h with
  | own _ => exact identifier_isVariable id
  | numbered n => exact suffixed_isVariable (identifier_isVariable id) n

def renameText (id owner name : String) : String :=
  id ++ ": identifier '" ++ identifier id ++ "' is shared with node '" ++ owner
    ++ "', renamed to '" ++ name ++ "'"

namespace Draft

theorem assigned_nameFor (owners : Table String) (id : String) :
    Assigned (owners.map (·.1)) id (nameFor owners id).1 := by
  have hhas : ∀ name, owners.has name = false ↔ name ∉ owners.map (·.1) := fun name => by
    rw [← Bool.not_eq_true, Table.has_iff]
  rw [nameFor_fst]
  split
  · rename_i hshared
    obtain ⟨n, hcount, hname, hfree, hfirst⟩ := numbered_spec owners (identifier id)
    rw [hname]
    exact .numbered n ((Table.has_iff _ _).1 hshared) (by rwa [List.length_map])
      ((hhas _).1 hfree) fun m hm => (Table.has_iff _ _).1 (hfirst m hm)
  · rename_i hfree
    exact .own ((hhas _).1 (by simpa using hfree))

theorem nameFor_warns (owners : Table String) (id : String) :
    (nameFor owners id).1 = identifier id ∧ (nameFor owners id).2 = [] ∨
    (nameFor owners id).1 ≠ identifier id ∧ ∃ owner, (identifier id, owner) ∈ owners ∧
      (nameFor owners id).2 = [renameText id owner (nameFor owners id).1] := by
  cases hget : owners.get? (identifier id) with
  | none =>
    have hgiven : nameFor owners id = (identifier id, []) := by simp only [nameFor, hget]
    exact .inl ⟨by rw [hgiven], by rw [hgiven]⟩
  | some owner =>
    obtain ⟨n, -, hname, -, -⟩ := numbered_spec owners (identifier id)
    have hgiven : nameFor owners id = (suffixed (identifier id) n,
        [renameText id owner (suffixed (identifier id) n)]) := by
      simp only [nameFor, hget, hname, renameText]
    refine .inr ⟨?_, owner, Table.mem_of_get? hget, ?_⟩
    · rw [hgiven]
      exact suffixed_ne _ n
    · rw [hgiven]

end Draft

/-- The declaration is the one of the module of a node, and the statement of the node calls it. -/
def Attribute (entry : Node × Statement) (declaration : Declaration) : Prop :=
  declaration.name = entry.2.target ∧
    (∃ source, entry.2.expression = "self." ++ declaration.name ++ "(" ++ source ++ ")") ∧
    ∃ layer module, Catalogue.standard.find? entry.1.kind = some layer ∧
      layer.module = some module ∧ moduleCall layer module entry.1 = .ok declaration.call

/-- The warning names the node that has the name which another one would have. -/
def Renames (entries : List (Node × Statement)) (entry : Node × Statement) (warning : String) :
    Prop :=
  ∃ owner ∈ entries, owner.2.target = identifier entry.1.id ∧
    warning = renameText entry.1.id owner.1.id entry.2.target

def Model.entries (model : Model) (layers : List Node) : List (Node × Statement) :=
  layers.zip model.statements

/-- How the layers of a model are named: each beside the names that the layers before it got. The
modules are declared under their names, and there is a warning for each node that is renamed. -/
structure Naming (layers : List Node) (model : Model) (warnings : List String) : Prop where
  count : model.statements.length = layers.length
  assigned : ∀ before node statement after,
    model.entries layers = before ++ (node, statement) :: after →
      Assigned (before.map (·.2.target)) node.id statement.target
  declared : List.Forall₂ Attribute ((model.entries layers).filter (·.1.isModule))
    model.declarations
  warned : List.Forall₂ (Renames (model.entries layers))
    ((model.entries layers).filter fun (node, statement) => statement.target ≠ identifier node.id)
    warnings

section Models

variable {layers : List Node} {model : Model} {warnings : List String}

theorem Naming.targets (h : Naming layers model warnings) :
    model.targets = (model.entries layers).map (·.2.target) := by
  have hstatements : (model.entries layers).map (·.2) = model.statements :=
    List.map_snd_zip h.count.le
  rw [Model.targets, ← hstatements, List.map_map]
  rfl

theorem nodup_of_fresh {xs : List String}
    (h : ∀ before x after, xs = before ++ x :: after → x ∉ before) : xs.Nodup := by
  induction xs using List.reverseRecOn with
  | nil => exact List.nodup_nil
  | append_singleton xs x ih =>
    have hinit : xs.Nodup := ih fun before y after hsplit =>
      h before y (after ++ [x]) (by rw [hsplit, List.append_assoc, List.cons_append])
    refine List.nodup_append.2 ⟨hinit, List.nodup_singleton x, fun y hy z hz heq => ?_⟩
    obtain rfl := List.mem_singleton.1 hz
    exact h xs z [] rfl (heq ▸ hy)

theorem Naming.target_assigned (h : Naming layers model warnings) {before after : List String}
    {target : String} (hsplit : model.targets = before ++ target :: after) :
    ∃ id, Assigned before id target := by
  rw [h.targets] at hsplit
  obtain ⟨first, rest, hentries, rfl, hrest⟩ := List.map_eq_append_iff.1 hsplit
  obtain ⟨entry, last, rfl, rfl, -⟩ := List.map_eq_cons_iff.1 hrest
  exact ⟨_, h.assigned first entry.1 entry.2 last hentries⟩

theorem Naming.nodup (h : Naming layers model warnings) : model.targets.Nodup :=
  nodup_of_fresh fun before target after hsplit => by
    obtain ⟨id, hassigned⟩ := h.target_assigned hsplit
    exact hassigned.fresh

theorem Naming.isVariable (h : Naming layers model warnings) {target : String}
    (htarget : target ∈ model.targets) : IsVariable target := by
  obtain ⟨before, after, hsplit⟩ := List.append_of_mem htarget
  obtain ⟨id, hassigned⟩ := h.target_assigned hsplit
  exact hassigned.isVariable

theorem eraseDups_of_nodup {xs : List String} (h : xs.Nodup) : xs.eraseDups = xs := by
  induction xs with
  | nil => rfl
  | cons x xs ih =>
    obtain ⟨hx, hxs⟩ := List.nodup_cons.1 h
    have hrest : xs.filter (fun y => !y == x) = xs :=
      List.filter_eq_self.2 fun y hy => by simpa using ne_of_mem_of_not_mem hy hx
    rw [List.eraseDups_cons, hrest, ih hxs]

def declaredName (text : String) : String :=
  String.ofList ((text.toList.drop "self.".toList.length).takeWhile isNameChar)

theorem declaredName_text {declaration : Declaration} (h : IsVariable declaration.name) :
    declaredName declaration.text = declaration.name := by
  have hchars : declaration.text.toList =
      "self.".toList ++
        (declaration.name.toList ++ ' ' :: "= ".toList ++ declaration.call.toList) := by
    simp [Declaration.text]
  have hname : ∀ c ∈ declaration.name.toList, isNameChar c = true := fun c hc => by
    simpa [isNameChar] using h.chars c hc
  have hend : isNameChar ' ' = false := by decide
  rw [declaredName, hchars, List.drop_left, List.append_assoc,
    List.takeWhile_append_of_pos hname]
  simp [hend]

theorem Naming.declared_names (h : Naming layers model warnings) :
    model.declarations.map (·.name) =
      ((model.entries layers).filter (·.1.isModule)).map (·.2.target) := by
  have hdeclared := h.declared
  generalize (model.entries layers).filter (·.1.isModule) = entries at hdeclared
  generalize model.declarations = declarations at hdeclared
  induction hdeclared with
  | nil => rfl
  | cons hentry _ ih => rw [List.map_cons, List.map_cons, hentry.1, ih]

theorem Naming.declared_sublist (h : Naming layers model warnings) :
    (model.declarations.map (·.name)).Sublist model.targets := by
  rw [h.declared_names, h.targets]
  exact List.filter_sublist.map _

theorem Naming.texts_nodup (h : Naming layers model warnings) :
    (model.declarations.map (·.text)).Nodup := by
  have hsub := h.declared_sublist
  refine List.Nodup.of_map declaredName ?_
  rw [List.map_map]
  have hread : ∀ declaration ∈ model.declarations,
      (declaredName ∘ Declaration.text) declaration = declaration.name := fun declaration hmem =>
    declaredName_text (h.isVariable (hsub.subset (List.mem_map_of_mem hmem)))
  rw [List.map_congr_left hread]
  exact h.nodup.sublist hsub

theorem Naming.constructorLines (h : Naming layers model warnings) :
    model.constructorLines =
      "super().__init__()" :: (model.declarations.map (·.text)).flatMap Text.lines := by
  rw [Model.constructorLines, eraseDups_of_nodup h.texts_nodup]

end Models

namespace Draft

variable {graph : Graph} {className : String} {before after layers : List Node} {node : Node}
  {draft next : Draft}

/-- The layers so far are named, and the draft knows which node took which name. -/
structure Tracks (layers : List Node) (draft : Draft) : Prop where
  naming : Naming layers draft.model draft.warnings
  owners : draft.owners =
    (draft.model.entries layers).map fun (node, statement) => (statement.target, node.id)

theorem Tracks.keys (h : Tracks layers draft) :
    draft.owners.map (·.1) = (draft.model.entries layers).map (·.2.target) := by
  rw [h.owners, List.map_map]
  rfl

theorem split_snoc {α : Type} {xs before after : List α} {x y : α}
    (h : xs ++ [x] = before ++ y :: after) :
    xs = before ∧ x = y ∨ ∃ rest, xs = before ++ y :: rest := by
  rcases List.eq_nil_or_concat after with rfl | ⟨rest, z, rfl⟩
  · obtain ⟨hinit, hlast⟩ := List.append_inj' h rfl
    exact .inl ⟨hinit, List.singleton_inj.1 hlast⟩
  · rw [List.concat_eq_append, ← List.cons_append, ← List.append_assoc] at h
    exact .inr ⟨rest, (List.append_inj' h rfl).1⟩

theorem Renames.mono {entries more : List (Node × Statement)} {entry : Node × Statement}
    {warning : String} (h : Renames entries entry warning) :
    Renames (entries ++ more) entry warning := by
  obtain ⟨owner, howner, hrest⟩ := h
  exact ⟨owner, List.mem_append_left _ howner, hrest⟩

theorem attribute_of_compile {layer : Layer} {name expression : String} {operands : List String}
    {declaration : Option Declaration}
    (hfind : Catalogue.standard.find? node.kind = some layer)
    (h : compile layer node name operands = .ok (declaration, expression)) :
    List.Forall₂ Attribute
      ([(node, (⟨name, expression, layer.stateful⟩ : Statement))].filter (·.1.isModule))
      declaration.toList := by
  have hcompiled := compile_module hfind h
  have hsaid := compile_statement h
  split at hcompiled
  · rename_i hmodule
    obtain ⟨module, call, hbuilt, hcall, rfl⟩ := hcompiled
    obtain ⟨-, hadd, hconcat⟩ := isLayer_of_isModule hmodule
    rw [List.filter_cons_of_pos (by exact hmodule)]
    exact .cons ⟨rfl, ⟨_, hsaid.call hadd hconcat (by simp [hbuilt])⟩, layer, module, hfind, hbuilt,
      hcall⟩ .nil
  · rename_i hmodule
    rw [hcompiled, List.filter_cons_of_neg (by exact hmodule)]
    exact .nil

theorem renames_of_nameFor (h : Tracks layers draft) (node : Node) (statement : Statement)
    (htarget : statement.target = (nameFor draft.owners node.id).1) :
    List.Forall₂ (Renames (draft.model.entries layers))
      ([(node, statement)].filter fun (node, statement) => statement.target ≠ identifier node.id)
      (nameFor draft.owners node.id).2 := by
  have hwarns := nameFor_warns draft.owners node.id
  rw [← htarget] at hwarns
  obtain ⟨hsame, hnone⟩ | ⟨hother, owner, howner, hwarning⟩ := hwarns
  · rw [hnone, List.filter_cons_of_neg (by simp [hsame])]
    exact .nil
  · rw [h.owners] at howner
    obtain ⟨entry, hentry, heq⟩ := List.mem_map.1 howner
    obtain ⟨hname, hid⟩ := Prod.mk.inj heq
    rw [hwarning, List.filter_cons_of_pos (by simp [hother])]
    exact .cons ⟨entry, hentry, hname, by rw [← hid]⟩ .nil

theorem Tracks.addLayer {layer : Layer} {operands : List String}
    (hfind : Catalogue.standard.find? node.kind = some layer) (h : Tracks layers draft)
    (hnext : draft.addLayer layer node operands = .ok next) :
    Tracks (layers ++ [node]) next := by
  simp only [Draft.addLayer, bind_eq_ok] at hnext
  obtain ⟨⟨declaration, expression⟩, hcompile, hnext⟩ := hnext
  have hassigned := assigned_nameFor draft.owners node.id
  have hattribute := attribute_of_compile hfind hcompile
  have hrenames := renames_of_nameFor h node
    ⟨(nameFor draft.owners node.id).1, expression, layer.stateful⟩ rfl
  have hfresh := hassigned.fresh
  rw [h.keys] at hassigned
  have hentries : next.model.entries (layers ++ [node]) = draft.model.entries layers ++
      [(node, ⟨(nameFor draft.owners node.id).1, expression, layer.stateful⟩)] := by
    cases hnext
    exact List.zip_append h.naming.count.symm
  cases hnext
  refine ⟨⟨?_, fun before other statement after hsplit => ?_, ?_, ?_⟩, ?_⟩
  · simp [h.naming.count]
  · rw [hentries] at hsplit
    rcases split_snoc hsplit with ⟨rfl, hlast⟩ | ⟨rest, hinit⟩
    · cases hlast
      exact hassigned
    · exact h.naming.assigned before other statement rest hinit
  · rw [hentries, List.filter_append]
    exact List.rel_append h.naming.declared hattribute
  · rw [hentries, List.filter_append]
    exact (List.rel_append h.naming.warned hrenames).imp fun _ _ => Renames.mono
  · rw [hentries, List.map_append, ← h.owners]
    exact Table.put_fresh hfresh _

theorem start_eq (graph : Graph) (className : String) :
    (start graph className).model = { className, inputs :=
      (List.range (graph.ordered.filter (·.isInput)).length).map inputName } ∧
    (start graph className).owners = [] ∧ (start graph className).warnings = [] := by
  rw [start]
  induction graph.ordered.filter (·.isInput) using List.reverseRecOn with
  | nil => exact ⟨rfl, rfl, rfl⟩
  | append_singleton nodes last ih =>
    rw [List.foldl_append, List.foldl_cons, List.foldl_nil]
    generalize nodes.foldl addInput { model := { className } } = draft at ih
    obtain ⟨hmodel, howners, hwarnings⟩ := ih
    refine ⟨?_, howners, hwarnings⟩
    simp [addInput, hmodel, List.range_succ]

theorem tracks_start (graph : Graph) (className : String) : Tracks [] (start graph className) := by
  obtain ⟨hmodel, howners, hwarnings⟩ := start_eq graph className
  refine ⟨⟨?_, fun before node statement after hsplit => ?_, ?_, ?_⟩, ?_⟩
  · rw [hmodel]
    rfl
  · simp [Model.entries] at hsplit
  · rw [hmodel]
    exact .nil
  · rw [hwarnings]
    exact .nil
  · rw [howners]
    rfl

theorem Tracks.run
    (hrun : draftAfter Catalogue.standard graph className before = .ok draft) :
    Tracks (before.filter (·.isLayer)) draft := by
  refine foldlM_invariant (fun nodes later => Tracks (nodes.filter (·.isLayer)) later) hrun
    (tracks_start graph className) ?_
  intro first node rest draft next _ h hnext
  rw [List.filter_append]
  obtain ⟨layer, hfind, ⟨hin, rfl⟩ | ⟨hout, rfl⟩ | ⟨hlayer, hadd⟩⟩ := add_eq_ok hnext
  · rw [List.filter_cons_of_neg (by simp [(Node.not_of_isInput hin).2]), List.filter_nil,
      List.append_nil]
    exact h
  · rw [List.filter_cons_of_neg (by simp [(Node.not_of_isOutput hout).2]), List.filter_nil,
      List.append_nil, addOutput_eq]
    exact ⟨⟨h.naming.count, h.naming.assigned, h.naming.declared, h.naming.warned⟩, h.owners⟩
  · rw [List.filter_cons_of_pos hlayer]
    exact h.addLayer hfind hadd

theorem inputs_run (hrun : draftAfter Catalogue.standard graph className before = .ok draft) :
    draft.model.inputs =
      (List.range (graph.ordered.filter (·.isInput)).length).map inputName := by
  rw [(statements_grow hrun).1, (start_eq graph className).1]

end Draft

/-- The names in a model are sound whatever the ids: each layer is named beside the layers before
it, so targets are variables that differ from each other and from the inputs, no two declarations
are equal, and the model warns of the nodes that are renamed and of no others. -/
theorem ofGraph_names (graph : Graph) (className : String)
    (hknown : ∀ node ∈ graph.nodes, (Catalogue.standard.find? node.kind).isSome)
    (hprintable : ∀ node ∈ graph.nodes, Printable Catalogue.standard node) :
    ∃ model warnings, Model.ofGraph Catalogue.standard graph className = .ok (model, warnings) ∧
      Naming (graph.ordered.filter (·.isLayer)) model warnings ∧
      model.targets.Nodup ∧
      (∀ target ∈ model.targets, IsVariable target ∧ target ∉ model.inputs) ∧
      model.constructorLines =
        "super().__init__()" :: (model.declarations.map (·.text)).flatMap Text.lines := by
  obtain ⟨draft, hdraft⟩ := (Draft.ofGraph_outcome className
    fun node hnode => hknown node (mem_nodes_of_ordered hnode)).1
    fun node hnode => hprintable node (mem_nodes_of_ordered hnode)
  have hnaming := (Draft.Tracks.run hdraft).naming
  refine ⟨draft.model, draft.warnings, by rw [Model.ofGraph, hdraft]; rfl, hnaming, hnaming.nodup,
    fun target htarget => ⟨hnaming.isVariable htarget, fun hinput => ?_⟩, hnaming.constructorLines⟩
  rw [Draft.inputs_run hdraft] at hinput
  obtain ⟨position, -, heq⟩ := List.mem_map.1 hinput
  exact (hnaming.isVariable htarget).ne_inputName position heq.symm

/-- Layers whose ids are those of an input and a keyword, a name that another one is numbered to,
and a text that differs from another one in a sign, which is also the id of two nodes. -/
def homonyms : Graph where
  nodes := [⟨"in", "Input", "", []⟩, ⟨"also", "Input", "", []⟩, ⟨"x_1", "ReLU", "", []⟩,
    ⟨"class", "ReLU", "", []⟩, ⟨"a_b_2", "Dropout", "", []⟩, ⟨"a b", "ReLU", "", []⟩,
    ⟨"a-b", "ReLU", "", []⟩, ⟨"a-b", "Linear", "", []⟩]
  edges := []

theorem homonyms_names :
    (∀ node ∈ homonyms.nodes, (Catalogue.standard.find? node.kind).isSome) ∧
    (∀ node ∈ homonyms.nodes, Printable Catalogue.standard node) ∧
    ∃ model warnings, Model.ofGraph Catalogue.standard homonyms "Net" = .ok (model, warnings) ∧
      model.inputs = ["x", "x_1"] ∧
      model.targets = ["x_1_", "class_", "a_b_2", "a_b", "a_b_3", "a_b_4"] ∧
      warnings = ["a-b: identifier 'a_b' is shared with node 'a b', renamed to 'a_b_3'",
        "a-b: identifier 'a_b' is shared with node 'a b', renamed to 'a_b_4'"] ∧
      Naming (homonyms.ordered.filter (·.isLayer)) model warnings := by
  have hknown : ∀ node ∈ homonyms.nodes, (Catalogue.standard.find? node.kind).isSome := by
    decide +kernel
  have hprintable : ∀ node ∈ homonyms.nodes, ∀ value ∈ shown Catalogue.standard node,
      value.writable = true := by decide +kernel
  have hrun : (Model.ofGraph Catalogue.standard homonyms "Net").map
      (fun made => (made.1.inputs, made.1.targets, made.2)) =
      .ok (["x", "x_1"], ["x_1_", "class_", "a_b_2", "a_b", "a_b_3", "a_b_4"],
        ["a-b: identifier 'a_b' is shared with node 'a b', renamed to 'a_b_3'",
          "a-b: identifier 'a_b' is shared with node 'a b', renamed to 'a_b_4'"]) :=
    eq_ok_of_toOption (by decide +kernel)
  obtain ⟨model, warnings, hmodel, hnaming, -⟩ := ofGraph_names homonyms "Net" hknown hprintable
  rw [hmodel] at hrun
  simp only [Except.map, Except.ok.injEq, Prod.mk.injEq] at hrun
  exact ⟨hknown, hprintable, model, warnings, hmodel, hrun.1, hrun.2.1, hrun.2.2, hnaming⟩

end LayerGraph.Program
