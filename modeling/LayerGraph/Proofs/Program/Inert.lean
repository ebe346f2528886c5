import LayerGraph.Proofs.Graph.Display
import LayerGraph.Proofs.Program.Arguments
import LayerGraph.Proofs.Program.Samples
import LayerGraph.Proofs.Text.Controls
import LayerGraph.Proofs.Text.Lines
set_option autoImplicit false

/-!
Display text shows in the header of a program and nowhere else. The header consists of comments, and
what a program shows of ids and parameters stays on the line of its node.
-/

namespace LayerGraph

def Layer.OneLine (layer : Layer) : Prop :=
  (∀ module ∈ layer.module, Text.Clear module.toList) ∧
    ∀ entry ∈ layer.schema, Text.Clear entry.1.toList

instance (layer : Layer) : Decidable layer.OneLine :=
  inferInstanceAs (Decidable ((∀ module ∈ layer.module, Text.Clear module.toList) ∧
    ∀ entry ∈ layer.schema, Text.Clear entry.1.toList))

theorem Catalogue.standard_oneLine : ∀ layer ∈ Catalogue.standard, layer.OneLine := by
  decide +kernel

namespace Program

open LayerGraph.Graph LayerGraph.Text

variable {catalogue : Catalogue} {graph : Graph} {context : Context} {settings : Settings}

namespace Draft

theorem add_bare (catalogue : Catalogue) (graph : Graph) (draft : Draft) (node : Node) :
    add catalogue graph.bare draft node.bare = add catalogue graph draft node := by
  have hoperands : draft.operands graph.bare node.id = draft.operands graph node.id := by
    rw [operands, operands, sources_bare]
  rw [add, add, show node.bare.id = node.id from rfl, hoperands]
  rfl

theorem start_bare (graph : Graph) (className : String) :
    start graph.bare className = start graph className := by
  have hinputs : graph.bare.ordered.filter (·.isInput) =
      (graph.ordered.filter (·.isInput)).map (·.bare) := by
    rw [ordered_bare, List.filter_map]
    rfl
  rw [start, start, hinputs, List.foldl_map]
  rfl

theorem ofGraph_bare (catalogue : Catalogue) (graph : Graph) (className : String) :
    ofGraph catalogue graph.bare className = ofGraph catalogue graph className := by
  change graph.bare.ordered.foldlM (add catalogue graph.bare) (start graph.bare className) =
    graph.ordered.foldlM (add catalogue graph) (start graph className)
  rw [ordered_bare, List.foldlM_map, start_bare]
  simp only [add_bare]

end Draft

def bodyLines (graph : Graph) (context : Context) (model : Model) (settings : Settings) :
    Except Fault (List String) := do
  let samples ← sampleTexts graph context
  let _ ← (graph.dump settings.nesting).map fun _ => ()
  let target ← targetText graph.training
  let dataset ← datasetLines samples target settings.datasetSize
  let main ← mainLines graph.training settings.className
  return ["", ""] ++ joinSections ((if model.residual then [residualLines] else [])
    ++ [model.render, trainingLines graph.training model.multiInput, dataset, main]) ++ [""]

theorem scriptLines_eq (graph : Graph) (context : Context) (model : Model) (settings : Settings) :
    scriptLines graph context model settings =
      (bodyLines graph context model settings).map fun body =>
        importLines ++ [""] ++ headerLines graph.document settings.now ++ body := by
  have hjoin : ∀ first more, more ≠ [] →
      joinSections ([first] ++ more) = first ++ ["", ""] ++ joinSections more := by
    intro first more hmore
    obtain ⟨second, rest, rfl⟩ := List.exists_cons_of_ne_nil hmore
    rfl
  change _ = (fun body => importLines ++ [""] ++ headerLines graph.document settings.now ++ body)
    <$> bodyLines graph context model settings
  simp only [scriptLines, bodyLines, map_bind, map_pure]
  refine bind_congr fun samples => (dump_bind settings.nesting _).trans ?_
  refine bind_congr fun _ => bind_congr fun target => bind_congr fun dataset =>
    bind_congr fun main => congrArg pure ?_
  rw [List.append_assoc [_], hjoin _ _ (by simp)]
  simp only [List.append_assoc]

theorem sampleTexts_bare {other : Context} (h : other.results = context.results) :
    sampleTexts graph.bare other = sampleTexts graph context := by
  have hinput : inputSample graph.bare other ∘ Node.bare = inputSample graph context := by
    funext node
    rw [Function.comp, inputSample, inputSample, h]
    rfl
  have hinputs : graph.bare.nodes.filter (·.kind == Graph.inputKind) =
      (graph.nodes.filter (·.kind == Graph.inputKind)).map (·.bare) := by
    rw [bare, List.filter_map]
    rfl
  rw [sampleTexts, sampleTexts, hinputs, List.mapM_map, hinput]
  rfl

theorem dump_bare (graph : Graph) (nesting : Nat) :
    (graph.bare.dump nesting).map (fun _ => ()) = (graph.dump nesting).map fun _ => () := by
  have hnests : graph.bare.nestsWithin nesting = graph.nestsWithin nesting := by
    rw [nestsWithin, bare, List.all_map]
    rfl
  rw [dump, dump, hnests]
  split <;> rfl

theorem bodyLines_bare {other : Context} (h : other.results = context.results) (model : Model)
    (settings : Settings) :
    bodyLines graph.bare other model settings = bodyLines graph context model settings := by
  rw [bodyLines, bodyLines, sampleTexts_bare h, dump_bare]
  rfl

theorem clear_padded (width n : Nat) : Clear (Moment.padded width n).toList := by
  refine clear_ofList.2 (clear_append.2 ⟨clear_replicate _ (by decide), ?_⟩)
  exact clear_toDigits (by decide) n

theorem clear_stamp (m : Moment) : Clear m.stamp.toList := by
  have hoffset : ∀ offset, Clear (Moment.offsetText offset).toList := by
    intro offset
    rw [Moment.offsetText]
    split <;> split <;> simp [clear_padded]
  have htext : Clear m.text.toList := by
    rw [Moment.text]
    cases m.offset with
    | none => split <;> simp [clear_padded]
    | some offset => split <;> simp [clear_padded, hoffset]
  rw [Moment.stamp, String.toList_append, clear_append]
  exact ⟨by decide +kernel, htext⟩

def headerTexts (graph : Graph) (now : Moment) : List String :=
  ["PyTorch model generated by ShapeCanvas", now.stamp, "Serialized graph:"]
    ++ Text.lines (Json.write graph.toValue (some 2))

theorem clear_headerTexts (graph : Graph) (now : Moment) :
    ∀ text ∈ headerTexts graph now, Clear text.toList := by
  intro text htext
  rcases List.mem_append.1 htext with hfirst | hline
  · simp only [List.mem_cons, List.not_mem_nil, or_false] at hfirst
    rcases hfirst with rfl | rfl | rfl
    · exact clear_ofList.2 (by decide)
    · exact clear_stamp now
    · exact clear_ofList.2 (by decide)
  · intro c hc
    obtain ⟨hin, hne⟩ := Text.mem_of_mem_lines hline hc
    by_contra hcontrol
    exact Json.not_mem_write 2 graph.toValue (by omega) hne hin

/-- Every line of the header is a comment, and nothing in it ends the line. -/
theorem headerLines_commented (graph : Graph) (now : Moment) :
    ∀ line ∈ headerLines graph.document now, ∃ rest, line.toList = '#' :: rest ∧ Clear rest := by
  intro line hline
  obtain ⟨text, htext, rfl⟩ := List.mem_map.1 (show line ∈ (headerTexts graph now).map _ from hline)
  obtain ⟨rest, hrest, hchars⟩ := Text.commentLine_toList text
  refine ⟨rest, hrest, fun c hc => ?_⟩
  rcases hchars c hc with rfl | hin
  · decide
  · exact clear_headerTexts graph now text htext c hin

theorem breaks_bare (graph : Graph) :
    Json.breaks graph.bare.toValue = Json.breaks graph.toValue := by
  have hnode : ∀ node : Node, Json.breaks node.bare.toValue = Json.breaks node.toValue := by
    intro node
    simp only [Node.toValue, Node.bare, Json.breaks, Json.breaksFields]
  have hedge : ∀ edge : Edge, Json.breaks edge.bare.toValue = Json.breaks edge.toValue := by
    intro edge
    have hslot : ∀ slot : Option String, Json.breaks (.ofOption .str slot) = 0 := by
      intro slot
      cases slot <;> rfl
    simp only [Edge.toValue, Edge.bare, Json.breaks, Json.breaksFields, hslot]
  have hnodes : Json.breaks (.list (graph.bare.nodes.map (·.toValue))) =
      Json.breaks (.list (graph.nodes.map (·.toValue))) := by
    rw [bare, List.map_map]
    exact Json.breaks_list_congr fun node _ => hnode node
  have hedges : Json.breaks (.list (graph.bare.edges.map (·.toValue))) =
      Json.breaks (.list (graph.edges.map (·.toValue))) := by
    rw [bare, List.map_map]
    exact Json.breaks_list_congr fun edge _ => hedge edge
  simp only [toValue, Json.breaks, Json.breaksFields, hnodes, hedges]
  rfl

theorem length_headerLines (graph : Graph) (now : Moment) :
    (headerLines graph.document now).length = Json.breaks graph.toValue + 4 := by
  rw [show headerLines graph.document now = (headerTexts graph now).map Text.commentLine from rfl,
    List.length_map, headerTexts, List.length_append, Text.length_lines, Json.count_write]
  simp only [List.length_cons, List.length_nil]
  omega

theorem importLines_not_mem : ∀ line ∈ importLines ++ [""], '\n' ∉ line.toList := by
  decide +kernel

theorem lines_code (graph : Graph) (now : Moment) (body : List String) :
    Text.lines (Text.unlines (importLines ++ [""] ++ headerLines graph.document now ++ body)) =
      importLines ++ [""] ++ headerLines graph.document now ++ body.flatMap Text.lines := by
  have hheader : ∀ line ∈ headerLines graph.document now, '\n' ∉ line.toList := by
    intro line hline hin
    obtain ⟨rest, hrest, hclear⟩ := headerLines_commented graph now line hline
    rw [hrest] at hin
    exact (clear_cons.2 ⟨by decide, hclear⟩ : Clear ('#' :: rest)).not_mem (by decide) hin
  rw [Text.lines_unlines (by simp [importLines]), List.flatMap_append, List.flatMap_append,
    Text.flatMap_lines_of_not_mem hheader, Text.flatMap_lines_of_not_mem importLines_not_mem]

/-- What is made of two graphs with the same settings: the same fault, the same errors, or two
programs with the same warnings and the same lines outside the header. -/
inductive SameBody (graph other : Graph) (now : Moment) :
    Except Fault Emission → Except Fault Emission → Prop where
  | fault (fault : Fault) : SameBody graph other now (.error fault) (.error fault)
  | refused (errors : List String) :
      SameBody graph other now (.ok { errors }) (.ok { errors })
  | generated (body warnings : List String) (code code' : String)
      (hcode : Text.lines code = importLines ++ [""] ++ headerLines graph.document now ++ body)
      (hcode' : Text.lines code' = importLines ++ [""] ++ headerLines other.document now ++ body) :
      SameBody graph other now (.ok { code, warnings }) (.ok { code := code', warnings })

theorem messages_of_results {other : Context} (h : other.results = context.results)
    (status : String) : other.messages status = context.messages status := by
  rw [Context.messages, Context.messages, h]

theorem emitWith_sameBody {other : Graph} {found : Context} (h : graph.bare = other.bare)
    (hresults : found.results = context.results) (herrors : found.hasErrors = context.hasErrors)
    (settings : Settings) :
    SameBody graph other settings.now (emitWith catalogue graph context settings)
      (emitWith catalogue other found settings) := by
  have hmodel : Model.ofGraph catalogue other settings.className =
      Model.ofGraph catalogue graph settings.className := by
    rw [Model.ofGraph, Model.ofGraph, ← Draft.ofGraph_bare, ← h, Draft.ofGraph_bare]
  have hbody : ∀ model, bodyLines other found model settings =
      bodyLines graph context model settings := fun model => by
    rw [← bodyLines_bare rfl, ← h, bodyLines_bare hresults]
  rw [emitWith, emitWith, herrors]
  simp only [messages_of_results hresults, hmodel, scriptLines_eq, hbody]
  split
  · exact .refused _
  · cases Model.ofGraph catalogue graph settings.className with
    | error fault => exact .fault fault
    | ok made =>
      obtain ⟨model, warnings⟩ := made
      simp only [bind, Except.bind]
      cases bodyLines graph context model settings with
      | error fault => exact .fault fault
      | ok body =>
        exact .generated _ _ _ _ (lines_code graph settings.now body)
          (lines_code other settings.now body)

theorem emit_sameBody {other : Graph} (h : graph.bare = other.bare) (settings : Settings) :
    SameBody graph other settings.now (emit catalogue graph settings)
      (emit catalogue other settings) := by
  have hinfer := infer_of_bare_eq catalogue h
  rw [emit, emit]
  cases hfound : graph.infer catalogue with
  | error fault =>
    cases hother : other.infer catalogue with
    | error fault' =>
      rw [hfound, hother] at hinfer
      obtain rfl : fault = fault' := Except.error.inj hinfer
      exact .fault fault
    | ok found =>
      rw [hfound, hother] at hinfer
      cases hinfer
  | ok context =>
    cases hother : other.infer catalogue with
    | error fault' =>
      rw [hfound, hother] at hinfer
      cases hinfer
    | ok found =>
      rw [hfound, hother] at hinfer
      obtain ⟨hresults, herrors⟩ := Prod.mk.inj (Except.ok.inj hinfer)
      exact emitWith_sameBody h hresults.symm herrors.symm settings

theorem IsName.clear {name : String} (h : IsName name) : Clear name.toList := by
  intro c hc
  by_contra hcontrol
  have hnone := (by decide : ∀ n < 0x20, isNameChar (Char.ofNat n) = false) c.toNat (by omega)
  rw [Char.ofNat_toNat, h.chars c hc] at hnone
  cases hnone

theorem clear_intercalate {separator : String} (hseparator : Clear separator.toList)
    {texts : List String} (h : ∀ text ∈ texts, Clear text.toList) :
    Clear (separator.intercalate texts).toList := by
  induction texts with
  | nil => simp
  | cons first texts ih =>
    obtain ⟨hfirst, htexts⟩ := List.forall_mem_cons.1 h
    cases texts with
    | nil => simpa using hfirst
    | cons second texts =>
      rw [String.intercalate_cons_cons]
      simp only [String.toList_append, clear_append]
      exact ⟨⟨hfirst, hseparator⟩, ih htexts⟩

namespace Draft

theorem clear_grouped {operands : List String} (h : ∀ operand ∈ operands, Clear operand.toList) :
    Clear (grouped operands).toList := by
  match operands with
  | [] => exact (inputName_isName 0).clear
  | [operand] => exact h operand List.mem_cons_self
  | first :: second :: rest =>
    simp only [grouped, String.toList_append, clear_append]
    exact ⟨⟨by decide, clear_intercalate (by decide) h⟩, by decide⟩

theorem clear_moduleCall {layer : Layer} (hlayer : layer.OneLine) {module : String}
    (hmodule : layer.module = some module) {node : Node} {call : String}
    (h : moduleCall layer module node = .ok call) : Clear call.toList := by
  obtain ⟨hnamed, hkeys⟩ := hlayer
  simp only [moduleCall, bind_eq_ok, pure, Except.pure, Except.ok.injEq] at h
  obtain ⟨text, htext, rfl⟩ := h
  have harguments : Clear text.toList := by
    rw [arguments_eq_ok htext]
    refine clear_intercalate (by decide) fun shown hshown => ?_
    obtain ⟨field, hfield, rfl⟩ := List.mem_map.1 hshown
    obtain ⟨entry, hentry, rfl⟩ := List.mem_map.1 hfield
    simp only [String.toList_append, clear_append]
    exact ⟨⟨hkeys entry hentry, by decide⟩, Value.clear_literal _⟩
  simp only [String.toList_append, clear_append]
  exact ⟨⟨⟨hnamed module hmodule, by decide⟩, harguments⟩, by decide⟩

theorem clear_compiled {layer : Layer} (hlayer : layer.OneLine) {node : Node}
    {name expression : String} {operands : List String} {declaration : Option Declaration}
    (h : Compiled layer node name operands declaration expression) (hname : Clear name.toList)
    (hoperands : ∀ operand ∈ operands, Clear operand.toList) :
    (∀ made ∈ declaration, Clear made.text.toList) ∧ Clear expression.toList := by
  have hsource : Clear (operands.headD "x").toList := by
    cases operands with
    | nil => exact (inputName_isName 0).clear
    | cons first _ => exact hoperands first List.mem_cons_self
  cases h with
  | sum _ => exact ⟨nofun, clear_intercalate (by decide) hoperands⟩
  | join _ hdim =>
    refine ⟨nofun, ?_⟩
    rw [Value.eq_literal_of_write hdim]
    simp only [String.toList_append, clear_append]
    exact ⟨⟨⟨⟨by decide, clear_intercalate (by decide) hoperands⟩, by decide⟩,
      Value.clear_literal _⟩, by decide⟩
  | pass _ _ _ => exact ⟨nofun, hsource⟩
  | call _ _ hmodule hcall =>
    refine ⟨fun made hmade => ?_, ?_⟩
    · obtain rfl := Option.some.inj hmade
      simp only [Declaration.text, String.toList_append, clear_append]
      exact ⟨⟨⟨by decide, hname⟩, by decide⟩, clear_moduleCall hlayer hmodule hcall⟩
    · simp only [String.toList_append, clear_append]
      exact ⟨⟨⟨⟨by decide, hname⟩, by decide⟩, hsource⟩, by decide⟩

structure Flat (draft : Draft) : Prop where
  inputs : ∀ input ∈ draft.model.inputs, Clear input.toList
  tensors : ∀ entry ∈ draft.tensors, Clear entry.2.toList
  declarations : ∀ declaration ∈ draft.model.declarations, Clear declaration.text.toList
  statements : ∀ statement ∈ draft.model.statements, Clear statement.text.toList
  result : ∀ value ∈ draft.model.result, Clear value.toList

variable {draft next : Draft} {node : Node}

theorem Flat.operands (h : Flat draft) (graph : Graph) (id : String) :
    ∀ operand ∈ draft.operands graph id, Clear operand.toList := by
  intro operand hoperand
  obtain ⟨source, -, hsource⟩ := List.mem_filterMap.1 hoperand
  exact h.tensors _ (Table.mem_of_get? hsource)

theorem Flat.put (h : Flat draft) {tensor : String} (htensor : Clear tensor.toList) (id : String) :
    ∀ entry ∈ draft.tensors.put id tensor, Clear entry.2.toList := by
  intro entry hentry
  rcases Table.mem_put hentry with rfl | hold
  · exact htensor
  · exact h.tensors entry hold

theorem flat_start (graph : Graph) (className : String) : Flat (start graph className) := by
  refine List.foldlRecOn _ addInput ⟨by simp, by simp, by simp, by simp, by simp⟩ ?_
  intro draft h node _
  have hname := (inputName_isName draft.model.inputs.length).clear
  refine ⟨?_, h.put hname node.id, h.declarations, h.statements, h.result⟩
  exact List.forall_mem_append.2 ⟨h.inputs, by simpa using hname⟩

theorem Flat.addOutput (h : Flat draft) {operands : List String}
    (hoperands : ∀ operand ∈ operands, Clear operand.toList) :
    Flat (draft.addOutput node operands) := by
  rw [addOutput_eq]
  have hvalue := clear_grouped hoperands
  refine ⟨h.inputs, h.put hvalue node.id, h.declarations, h.statements, ?_⟩
  exact List.forall_mem_append.2 ⟨h.result, by simpa using hvalue⟩

theorem Flat.addLayer (h : Flat draft) {layer : Layer} {operands : List String}
    (hlayer : layer.OneLine) (hoperands : ∀ operand ∈ operands, Clear operand.toList)
    (hnext : draft.addLayer layer node operands = .ok next) : Flat next := by
  have hname := (nameFor_named draft.owners node.id).isName.clear
  simp only [Draft.addLayer, bind_eq_ok] at hnext
  obtain ⟨⟨declaration, expression⟩, hcompile, hnext⟩ := hnext
  obtain ⟨hdeclared, hexpression⟩ :=
    clear_compiled hlayer (compiled_of_compile hcompile) hname hoperands
  have hstated : Clear (Statement.text
      ⟨(nameFor draft.owners node.id).1, expression, layer.stateful⟩).toList := by
    rw [Statement.text]
    split
    · simp only [String.toList_append, clear_append]
      exact ⟨⟨hname, by decide⟩, hexpression⟩
    · simp only [String.toList_append, clear_append]
      exact ⟨⟨hname, by decide⟩, hexpression⟩
  cases hnext
  exact ⟨h.inputs, h.put hname node.id,
    List.forall_mem_append.2 ⟨h.declarations, by simpa using hdeclared⟩,
    List.forall_mem_append.2 ⟨h.statements, by simpa using hstated⟩, h.result⟩

theorem Flat.run {className : String} {nodes : List Node}
    (hcatalogue : ∀ layer ∈ catalogue, layer.OneLine)
    (hrun : draftAfter catalogue graph className nodes = .ok draft) : Flat draft := by
  refine foldlM_invariant (fun _ later => Flat later) hrun (flat_start graph className) ?_
  intro first node rest draft next _ h hnext
  obtain ⟨layer, hfind, ⟨-, rfl⟩ | ⟨-, rfl⟩ | ⟨-, hadd⟩⟩ := add_eq_ok hnext
  · exact h
  · exact h.addOutput (h.operands graph node.id)
  · exact h.addLayer (hcatalogue layer (Catalogue.find?_spec hfind).1)
      (h.operands graph node.id) hadd

end Draft

/-- Each declaration, each statement and the result stand on one line of the model. -/
structure SingleLines (model : Model) : Prop where
  constructor : model.constructorLines =
    "super().__init__()" :: (model.declarations.map (·.text)).eraseDups
  forward : model.forwardLines =
    model.inputTexts ++ model.statements.map (·.text) ++ [model.resultText]
  clear : ∀ line ∈ model.constructorLines ++ model.forwardLines, Clear line.toList

namespace Draft.Flat

variable {draft : Draft}

theorem inputTexts (h : Flat draft) : ∀ text ∈ draft.model.inputTexts, Clear text.toList := by
  intro text htext
  rw [Model.inputTexts] at htext
  split at htext
  · obtain ⟨position, hposition, rfl⟩ := List.mem_mapIdx.1 htext
    simp only [String.toList_append, clear_append]
    exact ⟨⟨⟨h.inputs _ (List.getElem_mem hposition), by decide⟩, clear_decimal _⟩, by decide⟩
  · cases htext

theorem resultText (h : Flat draft) : Clear draft.model.resultText.toList := by
  rw [Model.resultText]
  have hresult := h.result
  split
  · decide +kernel
  · rename_i tensor heq
    simp only [String.toList_append, clear_append]
    exact ⟨by decide, hresult tensor (by simp [heq])⟩
  · simp only [String.toList_append, clear_append]
    exact ⟨⟨by decide, clear_intercalate (by decide) hresult⟩, by decide⟩

theorem singleLines (h : Flat draft) : SingleLines draft.model := by
  have hbreak : ∀ {texts : List String}, (∀ text ∈ texts, Clear text.toList) →
      texts.flatMap Text.lines = texts := fun htexts =>
    Text.flatMap_lines_of_not_mem fun text htext => (htexts text htext).not_mem (by decide)
  have hdeclared : ∀ text ∈ (draft.model.declarations.map (·.text)).eraseDups,
      Clear text.toList := by
    intro text htext
    obtain ⟨declaration, hdeclaration, rfl⟩ := List.mem_map.1 (List.mem_eraseDups.1 htext)
    exact h.declarations declaration hdeclaration
  have hstated : ∀ text ∈ draft.model.inputTexts ++ draft.model.statements.map (·.text) ++
      [draft.model.resultText], Clear text.toList := by
    refine List.forall_mem_append.2 ⟨List.forall_mem_append.2 ⟨h.inputTexts, ?_⟩, ?_⟩
    · exact List.forall_mem_map.2 h.statements
    · simpa using h.resultText
  have hconstructor : draft.model.constructorLines =
      "super().__init__()" :: (draft.model.declarations.map (·.text)).eraseDups := by
    rw [Model.constructorLines, hbreak hdeclared]
  have hforward : draft.model.forwardLines = draft.model.inputTexts ++
      draft.model.statements.map (·.text) ++ [draft.model.resultText] := by
    rw [Model.forwardLines, hbreak hstated]
  refine ⟨hconstructor, hforward, ?_⟩
  rw [hconstructor, hforward]
  exact List.forall_mem_append.2 ⟨List.forall_mem_cons.2 ⟨by decide +kernel, hdeclared⟩, hstated⟩

end Draft.Flat

theorem not_mem_indent {level : Nat} {ls : List String} (h : ∀ line ∈ ls, '\n' ∉ line.toList) :
    ∀ line ∈ Text.indent level ls, '\n' ∉ line.toList := by
  intro line hline
  obtain ⟨inner, hinner, rfl⟩ := List.mem_map.1 hline
  rw [Text.indentLine]
  split
  · exact h inner hinner
  · simp [h inner hinner]

/-- The lines of a model are lines, whatever its texts hold. -/
theorem render_not_mem (model : Model) : ∀ line ∈ model.render, '\n' ∉ line.toList := by
  have hcut : ∀ {texts : List String}, ∀ line ∈ texts.flatMap Text.lines, '\n' ∉ line.toList := by
    intro texts line hline hin
    obtain ⟨text, -, hmem⟩ := List.mem_flatMap.1 hline
    exact (Text.mem_of_mem_lines hmem hin).2 rfl
  have hconstructor : ∀ line ∈ model.constructorLines, '\n' ∉ line.toList :=
    List.forall_mem_cons.2 ⟨by decide +kernel, hcut⟩
  have hsignature : '\n' ∉ model.signature.toList := by
    rw [Model.signature]
    split <;> decide +kernel
  refine List.forall_mem_append.2 ⟨fun line hline hin => ?_, not_mem_indent ?_⟩
  · exact (Text.mem_of_mem_lines hline hin).2 rfl
  · refine List.forall_mem_append.2 ⟨List.forall_mem_append.2 ⟨?_, ?_⟩, not_mem_indent hcut⟩
    · exact List.forall_mem_cons.2 ⟨by decide +kernel, not_mem_indent hconstructor⟩
    · simpa using hsignature

theorem infix_joinSections {sections : List (List String)} {ls : List String}
    (h : ls ∈ sections) : ls <:+: joinSections sections := by
  induction sections with
  | nil => cases h
  | cons first more ih =>
    cases more with
    | nil =>
      obtain rfl := List.mem_singleton.1 h
      exact List.infix_rfl
    | cons second more =>
      change ls <:+: first ++ ["", ""] ++ joinSections (second :: more)
      rcases List.mem_cons.1 h with rfl | hmore
      · rw [List.append_assoc]
        exact (List.prefix_append _ _).isInfix
      · exact (ih hmore).trans (List.suffix_append _ _).isInfix

theorem infix_bodyLines {model : Model} {body : List String}
    (h : bodyLines graph context model settings = .ok body) : model.render <:+: body := by
  simp only [bodyLines, bind_eq_ok, pure, Except.pure, Except.ok.injEq] at h
  obtain ⟨samples, -, _, -, target, -, dataset, -, main, -, rfl⟩ := h
  rw [List.append_assoc]
  refine List.IsInfix.trans (infix_joinSections ?_) (List.infix_append' _ _ _)
  simp

theorem clear_tensorText (sizes : List Int) (integral : Bool) :
    Clear (tensorText sizes integral).toList := by
  have hsizes : Clear (", ".intercalate (sizes.map Text.decimal)).toList := by
    refine clear_intercalate (by decide) fun text htext => ?_
    obtain ⟨n, -, rfl⟩ := List.mem_map.1 htext
    exact clear_decimal n
  have hcomma : Clear (if sizes.length = 1 then "," else "").toList := by
    split <;> decide
  rw [tensorText]
  split
  · simp only [String.toList_append, clear_append]
    exact ⟨⟨by decide, ⟨⟨by decide, hsizes⟩, hcomma⟩, by decide⟩, by decide⟩
  · simp only [String.toList_append, clear_append]
    exact ⟨⟨by decide, ⟨⟨by decide, hsizes⟩, hcomma⟩, by decide⟩, by decide⟩

theorem clear_sampleTexts {samples : List String} (h : sampleTexts graph context = .ok samples) :
    ∀ sample ∈ samples, Clear sample.toList := by
  have hsample : ∀ shape integral text, sampleText shape integral = .ok text →
      Clear text.toList := by
    intro shape integral text htext
    rw [(sampleText_eq_ok.1 htext).2]
    exact clear_tensorText _ _
  rw [sampleTexts, bind_eq_ok] at h
  obtain ⟨made, hmade, h⟩ := h
  split at h
  · obtain ⟨text, htext, hsamples⟩ := bind_eq_ok.1 h
    cases hsamples
    simpa using hsample _ _ _ htext
  · cases h
    intro sample hmem
    obtain ⟨node, -, hnode⟩ := exists_of_forall₂ (mapM_eq_ok_iff.1 hmade) hmem
    rw [inputSample] at hnode
    split at hnode
    · cases hnode
    · exact hsample _ _ _ hnode

/-- What the text of users can do to a program: the header consists of comments on one line each,
the model has a line of its own for each declaration, each statement and its result, and the samples
stay on theirs. -/
structure Contained (catalogue : Catalogue) (graph : Graph) (context : Context)
    (settings : Settings) (emission : Emission) (draft : Draft) (body samples : List String) :
    Prop where
  model : Draft.ofGraph catalogue graph settings.className = .ok draft
  sampled : sampleTexts graph context = .ok samples
  code : Text.lines emission.code =
    importLines ++ [""] ++ headerLines graph.document settings.now ++ body
  comments : ∀ line ∈ headerLines graph.document settings.now,
    line.toList.head? = some '#' ∧ '\r' ∉ line.toList ∧ '\n' ∉ line.toList
  rendered : draft.model.render <:+: body
  lines : (∀ layer ∈ catalogue, layer.OneLine) → SingleLines draft.model
  samples : ∀ sample ∈ samples, Clear sample.toList

theorem contained_of_emitWith {emission : Emission}
    (hemit : emitWith catalogue graph context settings = .ok emission)
    (hcode : emission.code ≠ "") :
    ∃ draft body samples,
      Contained catalogue graph context settings emission draft body samples := by
  obtain ⟨draft, ls, hdraft, hls, rfl⟩ :=
    (emitWith_of_clean ((emitWith_code_ne_iff hemit).1 hcode)).1 hemit
  obtain ⟨samples, -, -, -, hsamples, -⟩ := scriptLines_eq_ok.1 hls
  rw [scriptLines_eq, map_eq_ok] at hls
  obtain ⟨body, hbody, hls⟩ := hls
  have hwritten : Text.lines (Text.unlines ls) =
      importLines ++ [""] ++ headerLines graph.document settings.now ++ body.flatMap Text.lines := by
    rw [← hls, lines_code]
  have hrendered : draft.model.render <:+: body.flatMap Text.lines := by
    obtain ⟨first, last, rfl⟩ := infix_bodyLines hbody
    rw [List.flatMap_append, List.flatMap_append,
      Text.flatMap_lines_of_not_mem (render_not_mem draft.model)]
    exact List.infix_append _ _ _
  refine ⟨draft, _, samples, hdraft, hsamples, hwritten, fun line hline => ?_, hrendered,
    fun hcatalogue => (Draft.Flat.run hcatalogue hdraft).singleLines, clear_sampleTexts hsamples⟩
  obtain ⟨rest, hrest, hclear⟩ := headerLines_commented graph settings.now line hline
  have hwhole : Clear line.toList := by
    rw [hrest]
    exact clear_cons.2 ⟨by decide, hclear⟩
  exact ⟨by rw [hrest]; rfl, hwhole.not_mem (by decide), hwhole.not_mem (by decide)⟩

/-- Display text is inert. Graphs that differ in nothing else have the same results, the same
faults, the same errors and warnings, and programs with the same lines outside headers of the same
length. In every program the text of users is contained in comments and on the lines of its
nodes. -/
theorem display_inert (catalogue : Catalogue) :
    (∀ graph other : Graph, graph.bare = other.bare →
      (∀ context, graph.infer catalogue = .ok context → ∃ found,
        other.infer catalogue = .ok found ∧ found.results = context.results ∧
          found.hasErrors = context.hasErrors) ∧
      ∀ settings : Settings,
        (headerLines graph.document settings.now).length =
          (headerLines other.document settings.now).length ∧
        SameBody graph other settings.now (emit catalogue graph settings)
          (emit catalogue other settings)) ∧
    (∀ (graph : Graph) (context : Context) (settings : Settings) (emission : Emission),
      emitWith catalogue graph context settings = .ok emission → emission.code ≠ "" →
        ∃ draft body samples,
          Contained catalogue graph context settings emission draft body samples) ∧
    ∀ layer ∈ Catalogue.standard, layer.OneLine := by
  refine ⟨fun graph other h => ⟨fun context hinfer => ?_, fun settings =>
    ⟨?_, emit_sameBody h settings⟩⟩, fun graph context settings emission => contained_of_emitWith,
    Catalogue.standard_oneLine⟩
  · have hfound := infer_of_bare_eq catalogue h
    rw [hinfer] at hfound
    obtain ⟨found, hother, heq⟩ := map_eq_ok.1 hfound.symm
    obtain ⟨hresults, herrors⟩ := Prod.mk.inj heq
    exact ⟨found, hother, hresults, herrors⟩
  · rw [length_headerLines, length_headerLines, ← breaks_bare, h, breaks_bare]

/-- A graph whose texts hold lines and carriage returns: labels, an id, an edge and a parameter. -/
def graffiti : Graph where
  nodes := [⟨"in", "Input", "\nimport os", [("shape", .list [.int 1, .int 8])]⟩,
    ⟨"fc\n1", "Linear", "\r\nraise", [("in_features", .int 8), ("bias", .str "\nTrue")]⟩]
  edges := [⟨"1\n", "in", "fc\n1", some "\r"⟩]

theorem graffiti_inert :
    graffiti ≠ graffiti.bare ∧ graffiti.bare = graffiti.bare.bare ∧
    ∃ context emission draft body samples, graffiti.infer Catalogue.standard = .ok context ∧
      emitWith Catalogue.standard graffiti context dated = .ok emission ∧ emission.code ≠ "" ∧
      draft.model.constructorLines = ["super().__init__()",
        "self.fc_1 = nn.Linear(in_features=8, out_features=64, bias='\\nTrue')"] ∧
      Contained Catalogue.standard graffiti context dated emission draft body samples ∧
      SameBody graffiti graffiti.bare dated.now (emit Catalogue.standard graffiti dated)
        (emit Catalogue.standard graffiti.bare dated) := by
  have hgraph : graffiti.toValue.writable = true := by decide +kernel
  have hnests : graffiti.nestsWithin dated.nesting = true := by decide +kernel
  have hsize : isWritable dated.datasetSize = true :=
    isWritable_of_lt_two_pow (k := 3) (by decide) (by decide)
  have hrun : (graffiti.infer Catalogue.standard).map (·.hasErrors) = .ok false :=
    eq_ok_of_toOption (by decide +kernel)
  have hmodel : (Draft.ofGraph Catalogue.standard graffiti dated.className).map
      (·.model.constructorLines) = .ok ["super().__init__()",
        "self.fc_1 = nn.Linear(in_features=8, out_features=64, bias='\\nTrue')"] :=
    eq_ok_of_toOption (by decide +kernel)
  obtain ⟨context, hinfer, hclean⟩ := map_eq_ok.1 hrun
  obtain ⟨emission, hemit, hgenerated⟩ := generated_of_clean hgraph hnests hsize hinfer hclean
  obtain ⟨hsame, hcontained, -⟩ := display_inert Catalogue.standard
  obtain ⟨draft, body, samples, hcontained⟩ :=
    hcontained graffiti context dated emission hemit hgenerated.code
  obtain ⟨made, hmade, hlines⟩ := map_eq_ok.1 hmodel
  obtain rfl : made = draft := Except.ok.inj (hmade.symm.trans hcontained.model)
  exact ⟨by decide, rfl, context, emission, made, body, samples, hinfer, hemit, hgenerated.code,
    hlines, hcontained, ((hsame graffiti graffiti.bare rfl).2 dated).2⟩

end Program

end LayerGraph
