import LayerGraph.Proofs.Layer.Whole
import LayerGraph.Proofs.Normal.Words
import LayerGraph.Proofs.Program.Translation
set_option autoImplicit false

namespace LayerGraph

namespace Value

def isWhole : Value → Bool
  | .int _ => true
  | .float x => x.whole?.isSome
  | _ => false

def isSize : Value → Bool
  | .list [a] => a.isWhole
  | .list [a, b] => a.isWhole && b.isWhole
  | v => v.isWhole

/-- The text is an integer literal or a list of one or two of them, and denotes the integers that
the rules of layers read from the value. -/
inductive Shown (v : Value) : String → Prop where
  | one {n : Int} (h : v.toInt = .ok n) : Shown v (Text.decimal n)
  | both {n : Int} (h : ∀ fallback, v.toPair fallback = .ok (n, n)) : Shown v (bracketed [n])
  | pair {n m : Int} (h : ∀ fallback, v.toPair fallback = .ok (n, m)) : Shown v (bracketed [n, m])

theorem eq_literal_of_write {v : Value} {text : String} (h : v.write = .ok text) :
    text = v.literal := by
  rw [write] at h
  split at h
  · exact (Except.ok.inj h).symm
  · cases h

theorem exists_of_isWhole {v : Value} (h : v.isWhole = true) :
    ∃ n, v.whole = .int n ∧ v.toInt = .ok n := by
  cases v with
  | null | bool _ | str _ | list _ | object _ => cases h
  | int n => exact ⟨n, by simp only [whole], rfl⟩
  | float x =>
    obtain ⟨n, hn⟩ := Option.isSome_iff_exists.1 h
    have hwhole : (Value.float x).whole = .int n := by simp only [whole, hn]
    refine ⟨n, hwhole, ?_⟩
    rw [← toInt_whole, hwhole]
    rfl

theorem literal_one (n : Int) : (Value.list [.int n]).literal = bracketed [n] := by
  refine String.toList_inj.1 ?_
  simp [literal, literalChars, literalItems, bracketed, Text.decimal]

theorem literal_pair (n m : Int) : (Value.list [.int n, .int m]).literal = bracketed [n, m] := by
  refine String.toList_inj.1 ?_
  simp [literal, literalChars, literalItems, bracketed, Text.decimal]

theorem shown_whole {v : Value} (h : v.isSize = true) : Shown v v.whole.literal := by
  unfold isSize at h
  split at h
  · rename_i a
    obtain ⟨n, hn, hread⟩ := exists_of_isWhole h
    have hwhole : (Value.list [a]).whole = .list [.int n] := by simp only [whole, wholeItems, hn]
    rw [hwhole, literal_one]
    refine .both fun fallback => ?_
    simp only [toPair, hread]
    rfl
  · rename_i a b
    rw [Bool.and_eq_true] at h
    obtain ⟨n, hn, hread⟩ := exists_of_isWhole h.1
    obtain ⟨m, hm, hread'⟩ := exists_of_isWhole h.2
    have hwhole : (Value.list [a, b]).whole = .list [.int n, .int m] := by
      simp only [whole, wholeItems, hn, hm]
    rw [hwhole, literal_pair]
    refine .pair fun fallback => ?_
    simp only [toPair, hread, hread']
    rfl
  · obtain ⟨n, hn, hread⟩ := exists_of_isWhole h
    rw [hn]
    exact .one hread

def isPlain (c : Char) : Bool := c.isDigit || ['-', '[', ',', ' ', ']'].contains c

theorem decimal_plain (n : Int) : (Text.decimal n).toList.all isPlain = true := by
  have hdigits : (Nat.toDigits 10 n.natAbs).all isPlain = true := by
    refine List.all_eq_true.2 fun c hc => ?_
    simp [isPlain, Nat.isDigit_of_mem_toDigits (by decide) (by decide) hc]
  rw [Text.decimal, String.toList_ofList, Text.decimalChars]
  split
  · rw [List.all_cons, hdigits]
    decide
  · exact hdigits

theorem Shown.plain {v : Value} {text : String} (h : Shown v text) :
    text.toList.all isPlain = true := by
  have hmarks : "[".toList.all isPlain = true ∧ ", ".toList.all isPlain = true ∧
      "]".toList.all isPlain = true := by decide
  obtain ⟨hopen, hcomma, hclose⟩ := hmarks
  cases h with
  | one _ => exact decimal_plain _
  | both _ =>
    rw [bracketed, List.map_singleton, String.intercalate_singleton, String.toList_append,
      String.toList_append, List.all_append, List.all_append, hopen, decimal_plain, hclose]
    rfl
  | pair _ =>
    rw [bracketed, List.map_cons, List.map_singleton, String.intercalate_cons_cons,
      String.intercalate_singleton]
    simp only [String.toList_append, List.all_append, hopen, hcomma, hclose, decimal_plain,
      Bool.and_self]

theorem magnitude_not_plain (rank : Nat) :
    ∃ c ∈ Layout.literal.magnitude rank, isPlain c = false := by
  rw [Layout.magnitude]
  generalize (Decimal.shortest rank).places = placed
  obtain ⟨digits, point⟩ := placed
  simp only
  split
  · exact ⟨'.', Layout.point_mem_positional _ _, by decide⟩
  · exact ⟨'e', by simp [Layout.scientific], by decide⟩

theorem not_shown_float {x : Binary64} (hfinite : x.isFinite = true) :
    ¬Shown (.float x) (Value.float x).literal := by
  intro h
  have hplain := List.all_eq_true.1 h.plain
  rw [literal, String.toList_ofList, literalChars] at hplain
  cases x with
  | nan | infinite _ => cases hfinite
  | finite negative rank =>
    obtain ⟨c, hc, hnot⟩ := magnitude_not_plain rank.val
    have hin : c ∈ Layout.literal.write (.finite negative rank) := by
      cases negative with
      | false => exact hc
      | true => exact List.mem_cons_of_mem _ hc
    rw [hplain c hin] at hnot
    cases hnot

/-- A number that is shown as it was given is shown as an integer exactly if it was given as one. -/
theorem shown_literal_iff {v : Value} (hsize : v.isSize = true) {n : Int}
    (hread : v.toInt = .ok n) : Shown v v.literal ↔ ∀ x, v ≠ .float x := by
  cases v with
  | null | list _ | object _ => cases hread
  | bool _ | str _ => cases hsize
  | int m => exact ⟨fun _ _ => Value.noConfusion, fun _ => .one rfl⟩
  | float x =>
    have hfinite : x.isFinite = true := by
      cases x with
      | nan | infinite _ => cases hread
      | finite _ _ => rfl
    exact ⟨fun h => absurd h (not_shown_float hfinite), fun h => absurd rfl (h x)⟩

end Value

/-- Every param that is an integer by default holds a size, if it is given. -/
def Node.HoldsSizes (node : Node) : Prop :=
  ∀ layer ∈ Catalogue.standard.find? node.kind, ∀ entry ∈ layer.schema,
    entry.2.default.form = .integer → ∀ v ∈ node.params.get? entry.1, v.isSize = true

instance (node : Node) : Decidable node.HoldsSizes :=
  inferInstanceAs (Decidable (∀ layer ∈ Catalogue.standard.find? node.kind, ∀ entry ∈ layer.schema,
    entry.2.default.form = .integer → ∀ v ∈ node.params.get? entry.1, v.isSize = true))

theorem Node.HoldsSizes.isSize {node : Node} (h : node.HoldsSizes) {layer : Layer}
    (hfind : Catalogue.standard.find? node.kind = some layer) (key : String) {p : Param}
    (hp : layer.schema.get? key = some p) {k : Int} (hdefault : p.default = .int k) :
    (Fields.get (layer.resolve node.params) key).isSize = true := by
  refine Schema.get_resolve_of _ _ hp (P := fun v => v.isSize = true) ?_
    (h layer hfind (key, p) (Table.mem_of_get? hp) ?_)
  · rw [hdefault]
    rfl
  · rw [hdefault]
    rfl

def Node.isModule (node : Node) : Bool :=
  ((Catalogue.standard.find? node.kind).bind (·.module)).isSome

namespace Program

open LayerGraph.Graph

theorem arguments_eq_ok {fields : Fields} {text : String} (h : arguments fields = .ok text) :
    text = ", ".intercalate (fields.map fun (key, v) => key ++ "=" ++ v.literal) := by
  simp only [arguments, bind_eq_ok, pure, Except.pure, Except.ok.injEq] at h
  obtain ⟨shown, hshown, rfl⟩ := h
  rw [mapM_eq_ok_iff] at hshown
  refine congrArg _ ?_
  induction hshown with
  | nil => rfl
  | @cons field shown fields rest hfield _ ih =>
    simp only [bind_eq_ok, Except.ok.injEq] at hfield
    obtain ⟨literal, hliteral, rfl⟩ := hfield
    rw [Value.eq_literal_of_write hliteral, ih]
    rfl

theorem moduleArguments_renders (layer : Layer) (node : Node) :
    layer.schema.Renders (layer.resolve node.params) (moduleArguments layer node) := by
  intro key p hp
  have hmap := Table.get?_map
    (fun key p => argumentValue p (Fields.get (layer.resolve node.params) key)) layer.schema key
  rw [Fields.get]
  simp only [moduleArguments]
  rw [hmap, hp]
  rfl

/-- What the call of a module shows of a node: the arguments of its layer in the order of the
schema, each size as the integers it is read as, and all such that the layer is sized and checked
on them as on the params of the node. -/
structure Constructs (draft : Draft) (node : Node) (declaration : Declaration) (layer : Layer)
    (module : String) : Prop where
  known : Catalogue.standard.find? node.kind = some layer
  built : layer.module = some module
  name : draft.tensors.get? node.id = some declaration.name
  call : declaration.call = module ++ "(" ++ ", ".intercalate
    ((moduleArguments layer node).map fun (key, v) => key ++ "=" ++ v.literal) ++ ")"
  keys : (moduleArguments layer node).map (·.1) = layer.schema.map (·.1)
  sizes : ∀ key p k, layer.schema.get? key = some p → p.default = .int k →
    Value.Shown (Fields.get (layer.resolve node.params) key)
      (Fields.get (moduleArguments layer node) key).literal
  shape : ∀ inputs, layer.shape inputs (moduleArguments layer node) =
    layer.shape inputs (layer.resolve node.params)
  check : ∀ check, layer.check = some check → ∀ inputs,
    check inputs (moduleArguments layer node) = check inputs (layer.resolve node.params)

theorem constructs_of_call {draft : Draft} {node : Node} {declaration : Declaration} {layer : Layer}
    {module : String} (hsizes : node.HoldsSizes)
    (hknown : Catalogue.standard.find? node.kind = some layer)
    (hbuilt : layer.module = some module)
    (hname : draft.tensors.get? node.id = some declaration.name)
    (hcall : moduleCall layer module node = .ok declaration.call) :
    Constructs draft node declaration layer module := by
  have hrenders := moduleArguments_renders layer node
  have hexact := Catalogue.standard_exact (Catalogue.find?_spec hknown).1 (by simp [hbuilt])
  simp only [moduleCall, bind_eq_ok, pure, Except.pure, Except.ok.injEq] at hcall
  obtain ⟨text, htext, hcall⟩ := hcall
  refine ⟨hknown, hbuilt, hname, ?_, ?_, fun key p k hp hdefault => ?_, fun inputs => ?_,
    fun check hcheck inputs => ?_⟩
  · rw [← hcall, arguments_eq_ok htext]
  · simp [moduleArguments]
  · rw [hrenders key p hp, argumentValue, hdefault]
    exact Value.shown_whole (hsizes.isSize hknown key hp hdefault)
  · exact hexact.shape inputs _ _ hrenders
  · exact hexact.check check hcheck inputs _ _ hrenders

namespace Draft

def Declares (draft : Draft) (node : Node) (declaration : Declaration) : Prop :=
  draft.tensors.get? node.id = some declaration.name ∧
    ∃ layer module, Catalogue.standard.find? node.kind = some layer ∧ layer.module = some module ∧
      moduleCall layer module node = .ok declaration.call

theorem standard_module : ∀ layer ∈ Catalogue.standard, layer.module ≠ none →
    layer.kind ∉ ["Input", "Output", "Add", "Concat"] := by
  decide +kernel

theorem isModule_iff {node : Node} {layer : Layer}
    (hfind : Catalogue.standard.find? node.kind = some layer) :
    node.isModule = true ↔ layer.module ≠ none := by
  rw [Node.isModule, hfind, Option.bind_some, Option.isSome_iff_ne_none]

theorem isLayer_of_isModule {node : Node} (h : node.isModule = true) :
    node.isLayer = true ∧ node.kind ≠ "Add" ∧ node.kind ≠ "Concat" := by
  cases hfind : Catalogue.standard.find? node.kind with
  | none => simp [Node.isModule, hfind] at h
  | some layer =>
    obtain ⟨hmem, hkind⟩ := Catalogue.find?_spec hfind
    have hout := standard_module layer hmem ((isModule_iff hfind).1 h)
    simp only [hkind, List.mem_cons, List.not_mem_nil, or_false, not_or] at hout
    exact ⟨(Node.isLayer_iff node).2 ⟨hout.1, hout.2.1⟩, hout.2.2.1, hout.2.2.2⟩

theorem compile_module {layer : Layer} {node : Node} {name : String} {operands : List String}
    {declaration : Option Declaration} {expression : String}
    (hfind : Catalogue.standard.find? node.kind = some layer)
    (h : compile layer node name operands = .ok (declaration, expression)) :
    if node.isModule then
      ∃ module call, layer.module = some module ∧ moduleCall layer module node = .ok call ∧
        declaration = some ⟨name, call⟩
    else declaration = none := by
  have hlone : layer.module = none → node.isModule = false := fun hnone => by
    rw [← Bool.not_eq_true, isModule_iff hfind, hnone]
    simp
  have hjoined : node.kind = "Add" ∨ node.kind = "Concat" → node.isModule = false := fun hkind => by
    rw [← Bool.not_eq_true]
    intro hmodule
    obtain ⟨-, hadd, hconcat⟩ := isLayer_of_isModule hmodule
    exact hkind.elim hadd hconcat
  cases compiled_of_compile h with
  | sum hadd => simp [hjoined (.inl hadd)]
  | join hconcat => simp [hjoined (.inr hconcat)]
  | pass _ _ hnone => simp [hlone hnone]
  | @call _ _ module call hbuilt hcall =>
    rw [if_pos ((isModule_iff hfind).2 (by simp [hbuilt]))]
    exact ⟨module, call, hbuilt, hcall, rfl⟩

def Declared (before : List Node) (draft : Draft) : Prop :=
  List.Forall₂ (Declares draft) (before.filter (·.isModule)) draft.model.declarations

variable {graph : Graph} {className : String} {before after : List Node} {node : Node}
  {draft next : Draft}

theorem declared_start (graph : Graph) (className : String) :
    Declared [] (start graph className) := by
  have hnone : ∀ (nodes : List Node) (draft : Draft), draft.model.declarations = [] →
      (nodes.foldl addInput draft).model.declarations = [] := by
    intro nodes
    induction nodes with
    | nil => exact fun _ h => h
    | cons node nodes ih => exact fun draft h => ih _ h
  rw [Declared, start, hnone _ _ rfl]
  exact .nil

theorem Declared.put (hids : graph.ids.Nodup) (hsplit : graph.ordered = before ++ node :: after)
    (h : Declared before draft) {tensor : String}
    (htensors : next.tensors = draft.tensors.put node.id tensor) :
    List.Forall₂ (Declares next) (before.filter (·.isModule)) draft.model.declarations := by
  have hfresh : ∀ earlier ∈ before.filter (·.isModule), earlier.id ≠ node.id :=
    fun earlier hearlier => (id_fresh hids hsplit).1 earlier (List.mem_filter.1 hearlier).1
  refine ((List.forall₂_and_left _ _).2 ⟨hfresh, h⟩).imp fun earlier declaration hgiven => ?_
  obtain ⟨hne, hname, hcall⟩ := hgiven
  refine ⟨?_, hcall⟩
  rw [htensors, Table.get?_put_of_ne _ hne]
  exact hname

theorem filter_skip (hmodule : node.isModule = false) :
    (before ++ [node]).filter (·.isModule) = before.filter (·.isModule) := by
  simp [List.filter_append, hmodule]

theorem Declared.addLayer (hids : graph.ids.Nodup)
    (hsplit : graph.ordered = before ++ node :: after) (h : Declared before draft) {layer : Layer}
    (hfind : Catalogue.standard.find? node.kind = some layer) {operands : List String}
    (hnext : draft.addLayer layer node operands = .ok next) :
    Declared (before ++ [node]) next := by
  simp only [Draft.addLayer, bind_eq_ok] at hnext
  obtain ⟨⟨declaration, expression⟩, hcompile, hnext⟩ := hnext
  have hcompiled := compile_module hfind hcompile
  have hgrown : next.model.declarations = draft.model.declarations ++ declaration.toList ∧
      next.tensors = draft.tensors.put node.id (nameFor draft.owners node.id).1 := by
    cases hnext
    exact ⟨rfl, rfl⟩
  obtain ⟨hdeclarations, htensors⟩ := hgrown
  rw [Declared, hdeclarations]
  split at hcompiled
  · rename_i hmodule
    obtain ⟨module, call, hbuilt, hcall, rfl⟩ := hcompiled
    rw [List.filter_append, List.filter_cons_of_pos hmodule, List.filter_nil]
    refine List.rel_append (h.put hids hsplit htensors) (.cons ⟨?_, ?_⟩ .nil)
    · rw [htensors, Table.get?_put_self]
    · exact ⟨layer, module, hfind, hbuilt, hcall⟩
  · rename_i hmodule
    rw [filter_skip (by simpa using hmodule), hcompiled, Option.toList_none, List.append_nil]
    exact h.put hids hsplit htensors

theorem Declared.run (hids : graph.ids.Nodup) (hsplit : graph.ordered = before ++ after)
    (hrun : draftAfter Catalogue.standard graph className before = .ok draft) :
    Declared before draft := by
  refine foldlM_invariant Declared hrun (declared_start graph className) ?_
  intro first node rest draft next hfirst h hnext
  have hcut : graph.ordered = first ++ node :: (rest ++ after) := by simp [hsplit, hfirst]
  have hnot : node.isLayer = false → node.isModule = false := fun hlayer => by
    by_contra hmodule
    rw [(isLayer_of_isModule (by simpa using hmodule)).1] at hlayer
    cases hlayer
  obtain ⟨layer, hfind, ⟨hin, rfl⟩ | ⟨hout, rfl⟩ | ⟨-, hadd⟩⟩ := add_eq_ok hnext
  · rw [Declared, filter_skip (hnot (Node.not_of_isInput hin).2)]
    exact h
  · have hgiven := addOutput_eq draft node (draft.operands graph node.id)
    have hsame : (draft.addOutput node (draft.operands graph node.id)).model.declarations =
        draft.model.declarations := congrArg (·.model.declarations) hgiven
    rw [Declared, filter_skip (hnot (Node.not_of_isOutput hout).2), hsame]
    exact h.put hids hcut (congrArg (·.tensors) hgiven)
  · exact h.addLayer hids hcut hfind hadd

/-- The statement of a concatenation shows the axis as it was given. -/
structure Joins (draft : Draft) (node : Node) (statement : Statement) (dim : Value) (axis : Int) :
    Prop where
  given : Fields.get (Layer.concat.resolve node.params) "dim" = dim
  stated : statement ∈ draft.model.statements
  target : draft.tensors.get? node.id = some statement.target
  expression : ∃ operands, statement.expression =
    "torch.cat([" ++ ", ".intercalate operands ++ "], dim=" ++ dim.literal ++ ")"
  read : dim.toInt = .ok axis
  shown : Value.Shown dim dim.literal ↔ ∀ x, dim ≠ .float x

theorem find?_concat : Catalogue.standard.find? "Concat" = some Layer.concat := rfl

theorem exists_axis {inputs : List Shape} {params : Fields} {size : Option Shape}
    (hinputs : 2 ≤ inputs.length) (h : Layer.Sizing.concat inputs params = .ok size) :
    ∃ axis, (params.get "dim").toInt = .ok axis := by
  cases inputs with
  | nil => simp at hinputs
  | cons first more =>
    simp only [Layer.Sizing.concat, bind_eq_ok] at h
    obtain ⟨axis, haxis, -⟩ := h
    exact ⟨axis, haxis⟩

theorem exists_joins {context : Context} (hids : graph.ids.Nodup)
    (hinfer : graph.infer Catalogue.standard = .ok context) (hclean : context.hasErrors = false)
    (hfinal : ofGraph Catalogue.standard graph className = .ok draft)
    (hsplit : graph.ordered = before ++ node :: after) (hkind : node.kind = "Concat")
    (hsizes : node.HoldsSizes) : ∃ statement dim axis, Joins draft node statement dim axis := by
  have hfind : Catalogue.standard.find? node.kind = some Layer.concat := by
    rw [hkind]
    exact find?_concat
  obtain ⟨_, result, _, h⟩ := exists_evaluated hids hinfer hclean hsplit
  obtain rfl := Option.some.inj (h.sound.known.symm.trans hfind)
  -- The axis was read when the node was sized, so it is a number and no list.
  obtain ⟨size, hsize, -⟩ := h.sound.sized
  obtain ⟨axis, haxis⟩ := exists_axis h.sound.least hsize
  obtain ⟨_, _, _, hagrees⟩ := exists_agrees hids hinfer hclean hfinal hsplit
  obtain rfl := Option.some.inj (hagrees.known.symm.trans hfind)
  have hlayer : node.isLayer = true := by simp [Node.isLayer_iff, hkind]
  obtain ⟨statement, hstated, htarget, hsaid⟩ := hagrees.stated hlayer
  obtain ⟨dim, hdim, hexpression⟩ := hsaid.join hkind
  rw [Value.eq_literal_of_write hdim] at hexpression
  exact ⟨statement, _, axis, rfl, hstated.subset (by simp), htarget, ⟨_, hexpression⟩, haxis,
    Value.shown_literal_iff (hsizes.isSize hfind "dim" rfl rfl) haxis⟩

end Draft

/-- The program uses the sizes that were checked: of a graph without errors, the model has a
declaration for each module, which shows its sizes as the integers that the layer was sized with,
and no others. A concatenation shows its axis as an integer unless it was given as a float. -/
theorem ofGraph_shows_sizes {graph : Graph} {context : Context} (hids : graph.ids.Nodup)
    (hinfer : graph.infer Catalogue.standard = .ok context) (hclean : context.hasErrors = false)
    (hsizes : ∀ node ∈ graph.nodes, node.HoldsSizes) (className : String) :
    ((∀ node ∈ graph.nodes, Printable Catalogue.standard node) →
      ∃ draft, Draft.ofGraph Catalogue.standard graph className = .ok draft) ∧
    ∀ draft, Draft.ofGraph Catalogue.standard graph className = .ok draft →
      graph.ordered.Perm graph.nodes ∧
      List.Forall₂ (fun node declaration => ∃ layer module,
          Constructs draft node declaration layer module)
        (graph.ordered.filter (·.isModule)) draft.model.declarations ∧
      ∀ node ∈ graph.nodes, node.kind = "Concat" → ∃ statement dim axis,
        Draft.Joins draft node statement dim axis := by
  have hperm := ordered_perm hids hinfer hclean
  have hknown : ∀ node ∈ graph.ordered, (Catalogue.standard.find? node.kind).isSome := by
    intro node hnode
    obtain ⟨before, after, hsplit⟩ := List.append_of_mem hnode
    obtain ⟨_, _, layer, h⟩ := exists_evaluated hids hinfer hclean hsplit
    simp [h.sound.known]
  refine ⟨fun hall => ?_, fun draft hdraft => ⟨hperm, ?_, fun node hnode hkind => ?_⟩⟩
  · exact (Draft.ofGraph_outcome className hknown).1 fun node hnode =>
      hall node (hperm.mem_iff.1 hnode)
  · have hdeclared := Draft.Declared.run hids (List.append_nil _).symm hdraft
    have hall : ∀ node ∈ graph.ordered.filter (·.isModule), node.HoldsSizes := fun node hnode =>
      hsizes node (hperm.mem_iff.1 (List.mem_filter.1 hnode).1)
    refine ((List.forall₂_and_left _ _).2 ⟨hall, hdeclared⟩).imp fun node declaration hgiven => ?_
    obtain ⟨hsize, hname, layer, module, hfind, hbuilt, hcall⟩ := hgiven
    exact ⟨layer, module, constructs_of_call hsize hfind hbuilt hname hcall⟩
  · obtain ⟨before, after, hsplit⟩ := List.append_of_mem (hperm.mem_iff.2 hnode)
    exact Draft.exists_joins hids hinfer hclean hdraft hsplit hkind (hsizes node hnode)

def wholeFloat (n : Int) : Value := .float (.ofInt n)

def floats : Graph where
  nodes := [⟨"in", "Input", "", [("shape", .list [.int 1, .int 3, .int 8, .int 8])]⟩,
    ⟨"conv", "Conv2d", "",
      [("in_channels", wholeFloat 3), ("out_channels", wholeFloat 4), ("kernel_size", wholeFloat 3),
        ("padding", wholeFloat 1), ("stride", .list [wholeFloat 1, wholeFloat 2])]⟩,
    ⟨"drop", "Dropout", "", [("p", .float (Layer.hundredth 25))]⟩,
    ⟨"cat", "Concat", "", [("dim", .int (-1))]⟩]
  edges := [⟨"1", "in", "conv", none⟩, ⟨"2", "conv", "drop", none⟩, ⟨"3", "conv", "cat", none⟩,
    ⟨"4", "drop", "cat", none⟩]

theorem floats_show_sizes :
    floats.ids.Nodup ∧ (∀ node ∈ floats.nodes, node.HoldsSizes) ∧
    ∃ context draft, floats.infer Catalogue.standard = .ok context ∧ context.hasErrors = false ∧
      Draft.ofGraph Catalogue.standard floats "Net" = .ok draft ∧
      draft.model.declarations = [
        ⟨"conv", "nn.Conv2d(in_channels=3, out_channels=4, kernel_size=3, stride=[1, 2], padding=1, "
          ++ "dilation=1, bias=True)"⟩,
        ⟨"drop", "nn.Dropout(p=0.25)"⟩] ∧
      draft.model.statements.getLast? = some ⟨"cat", "torch.cat([conv, drop], dim=-1)", false⟩ ∧
      List.Forall₂ (fun node declaration => ∃ layer module,
          Constructs draft node declaration layer module)
        (floats.ordered.filter (·.isModule)) draft.model.declarations := by
  have hids : floats.ids.Nodup := by decide
  have hsizes : ∀ node ∈ floats.nodes, node.HoldsSizes := by decide +kernel
  have hinfer : (floats.infer Catalogue.standard).map (·.hasErrors) = .ok false :=
    eq_ok_of_toOption (by decide +kernel)
  have hmodel : (Draft.ofGraph Catalogue.standard floats "Net").map
      (fun draft => (draft.model.declarations, draft.model.statements.getLast?)) = .ok ([
        ⟨"conv", "nn.Conv2d(in_channels=3, out_channels=4, kernel_size=3, stride=[1, 2], padding=1, "
          ++ "dilation=1, bias=True)"⟩,
        ⟨"drop", "nn.Dropout(p=0.25)"⟩],
        some ⟨"cat", "torch.cat([conv, drop], dim=-1)", false⟩) :=
    eq_ok_of_toOption (by decide +kernel)
  obtain ⟨context, hcontext, hclean⟩ := map_eq_ok.1 hinfer
  obtain ⟨draft, hdraft, hparts⟩ := map_eq_ok.1 hmodel
  obtain ⟨hdeclarations, hlast⟩ := Prod.mk.inj hparts
  obtain ⟨-, hshown⟩ := ofGraph_shows_sizes hids hcontext hclean hsizes "Net"
  obtain ⟨-, hconstructs, -⟩ := hshown draft hdraft
  exact ⟨hids, hsizes, context, draft, hcontext, hclean, hdraft, hdeclarations, hlast, hconstructs⟩

def floatAxis : Graph where
  nodes := [⟨"a", "Input", "", [("shape", .list [.int 1, .int 2])]⟩,
    ⟨"b", "Input", "", [("shape", .list [.int 1, .int 2])]⟩,
    ⟨"cat", "Concat", "", [("dim", wholeFloat 1)]⟩, ⟨"out", "Output", "", []⟩]
  edges := [⟨"1", "a", "cat", none⟩, ⟨"2", "b", "cat", none⟩, ⟨"3", "cat", "out", none⟩]

theorem floatAxis_not_shown :
    floatAxis.ids.Nodup ∧ (∀ node ∈ floatAxis.nodes, node.HoldsSizes) ∧
    (∃ context, floatAxis.infer Catalogue.standard = .ok context ∧ context.hasErrors = false) ∧
    (∃ draft, Draft.ofGraph Catalogue.standard floatAxis "VisualNet" = .ok draft ∧
      draft.model.statements = [⟨"cat", "torch.cat([x, x_1], dim=" ++ "1.0" ++ ")", false⟩]) ∧
    (wholeFloat 1).toInt = .ok 1 ∧ ¬Value.Shown (wholeFloat 1) "1.0" := by
  have hinfer : (floatAxis.infer Catalogue.standard).map (·.hasErrors) = .ok false :=
    eq_ok_of_toOption (by decide +kernel)
  have hmodel : (Draft.ofGraph Catalogue.standard floatAxis "VisualNet").map (·.model.statements) =
      .ok [⟨"cat", "torch.cat([x, x_1], dim=" ++ "1.0" ++ ")", false⟩] :=
    eq_ok_of_toOption (by decide +kernel)
  obtain ⟨context, hcontext, hclean⟩ := map_eq_ok.1 hinfer
  obtain ⟨draft, hdraft, hstatements⟩ := map_eq_ok.1 hmodel
  refine ⟨by decide, by decide +kernel, ⟨context, hcontext, hclean⟩, ⟨draft, hdraft, hstatements⟩,
    eq_ok_of_toOption (by decide +kernel), fun h => ?_⟩
  have hpoint := List.all_eq_true.1 h.plain '.' (by decide)
  simp [Value.isPlain] at hpoint

end Program

end LayerGraph
