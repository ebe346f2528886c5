import LayerGraph.Proofs.Program.Writing
set_option autoImplicit false

namespace LayerGraph

namespace Catalogue

theorem standard_minInputs :
    ∀ layer ∈ standard, layer.kind ≠ "Input" → 1 ≤ layer.minInputs := by
  decide +kernel

/-- Every rule but that of a concatenation reads its first input only. -/
theorem standard_shape_first {layer : Layer} (hmem : layer ∈ standard) (hkind : layer.kind ≠ "Concat")
    (first : Shape) (rest : List Shape) (params : Fields) :
    layer.shape (first :: rest) params = layer.shape [first] params := by
  simp only [standard, List.mem_cons, List.not_mem_nil, or_false] at hmem
  repeat' obtain rfl | hmem := hmem
  all_goals first | rfl | exact absurd rfl hkind

end Catalogue

namespace Program

open LayerGraph.Graph Draft

/-- What inference and the making of a model do with a node when it has its turn: the shapes that
it is sized on and the operands of its statement belong to the same nodes, in the same order. -/
structure Agrees (graph : Graph) (context : Context) (className : String) (final : Draft)
    (before : List Node) (node : Node) (progress : Progress) (draft : Draft) (layer : Layer) :
    Prop where
  known : Catalogue.standard.find? node.kind = some layer
  inferred : progressAfter Catalogue.standard graph before = .ok progress
  evaluated : ∃ result, node.evaluate Catalogue.standard graph.input
    ((graph.sources node.id).map progress.results.get?) = .ok result ∧
      context.results.get? node.id = some result
  drafted : draftAfter Catalogue.standard graph className before = .ok draft
  shapes : (progress.shapes graph node.id).map some =
    (graph.feeders node.id).map fun source => (context.results.get? source).bind (·.shape)
  operands : (draft.operands graph node.id).map some =
    (graph.feeders node.id).map final.tensors.get?
  count : (draft.operands graph node.id).length = (progress.shapes graph node.id).length
  least : layer.minInputs ≤ (draft.operands graph node.id).length
  most : ∀ most, layer.maxInputs = some most → (draft.operands graph node.id).length ≤ most
  sized : ∀ first rest, progress.shapes graph node.id = first :: rest → node.kind ≠ "Concat" →
    layer.shape (first :: rest) (layer.resolve node.params) =
      layer.shape [first] (layer.resolve node.params)
  fed : node.isInput = false → draft.operands graph node.id ≠ []
  bound : ∀ operand ∈ draft.operands graph node.id, ∀ name ∈ names operand,
    name ∈ draft.model.bound
  stated : node.isLayer = true → ∃ statement,
    draft.model.statements ++ [statement] <+: final.model.statements ∧
      final.tensors.get? node.id = some statement.target ∧
      Says layer node statement.target (draft.operands graph node.id) statement
  returned : node.isOutput = true →
    final.tensors.get? node.id = some (grouped (draft.operands graph node.id))

/-- A draft of a graph that agrees with inference: the nodes of each kind have what the model has
for them, in the order of evaluation. -/
structure Translates (graph : Graph) (context : Context) (className : String) (final : Draft) :
    Prop where
  covered : graph.ordered.Perm graph.nodes
  inputs : (graph.ordered.filter (·.isInput)).map (fun node => final.tensors.get? node.id) =
    final.model.inputs.map some
  statements : (graph.ordered.filter (·.isLayer)).map (fun node => final.tensors.get? node.id) =
    final.model.targets.map some
  result : (graph.ordered.filter (·.isOutput)).map (fun node => final.tensors.get? node.id) =
    final.model.result.map some
  bound : ∀ value ∈ final.model.result, ∀ name ∈ names value, name ∈ final.model.bound
  agrees : ∀ before node after, graph.ordered = before ++ node :: after →
    ∃ progress draft layer,
      Agrees graph context className final before node progress draft layer

section

variable {graph : Graph} {context : Context} {className : String} {final : Draft}
  {before after : List Node} {node : Node}

theorem exists_drafted {catalogue : Catalogue}
    (hfinal : draftAfter catalogue graph className graph.ordered = .ok final)
    (hsplit : graph.ordered = before ++ node :: after) :
    ∃ draft next, draftAfter catalogue graph className before = .ok draft ∧
      add catalogue graph draft node = .ok next ∧
      after.foldlM (add catalogue graph) next = .ok final := by
  rw [hsplit] at hfinal
  exact foldlM_split_eq_ok.1 hfinal

theorem operands_final {catalogue : Catalogue} (hids : graph.ids.Nodup)
    (hsplit : graph.ordered = before ++ node :: after) {draft : Draft}
    (hbefore : draftAfter catalogue graph className before = .ok draft)
    (hrest : (node :: after).foldlM (add catalogue graph) draft = .ok final) :
    (draft.operands graph node.id).map some = (graph.feeders node.id).map final.tensors.get? := by
  have hnode : node.id ∈ graph.ids := mem_ids_of_ordered (by simp [hsplit])
  rw [(Drafted.run hids hsplit hbefore).operands_eq hids hsplit]
  refine List.map_congr_left fun source hsource => ?_
  obtain ⟨hedge, hdeclared⟩ := (mem_feeders hnode).1 hsource
  have hearlier := source_mem_of_ordered hids hsplit hedge hdeclared
  exact (get?_of_add hrest (not_mem_of_ordered hids hsplit hearlier)).symm

theorem names_grouped {operands : List String} (h : operands ≠ []) :
    names (grouped operands) = operands.flatMap names := by
  match operands, h with
  | [tensor], _ => simp [grouped]
  | first :: second :: rest, _ => exact names_tuple _

/-- Tensors hold names of inputs and of targets only, if every output has an operand. -/
theorem bound_run {catalogue : Catalogue} (hids : graph.ids.Nodup)
    (hfed : ∀ before node after draft, graph.ordered = before ++ node :: after →
      node.isOutput = true → draftAfter catalogue graph className before = .ok draft →
        draft.operands graph node.id ≠ [])
    (hsplit : graph.ordered = before ++ after) {draft : Draft}
    (hrun : draftAfter catalogue graph className before = .ok draft) {id tensor : String}
    (htensor : draft.tensors.get? id = some tensor) :
    ∀ name ∈ names tensor, name ∈ draft.model.bound := by
  induction before using List.reverseRecOn generalizing after draft id tensor with
  | nil =>
    have h := Drafted.run hids hsplit hrun
    obtain ⟨node, hnode, rfl, hin | hnil⟩ := h.keys id (by simp [htensor])
    · obtain ⟨input, hinput, heq⟩ := exists_of_map_eq h.fed (List.mem_filter.2 ⟨hnode, hin⟩)
      obtain rfl : tensor = input := Option.some.inj (htensor.symm.trans heq)
      have hposition := hinput
      rw [h.inputs] at hposition
      obtain ⟨position, -, rfl⟩ := List.mem_map.1 hposition
      rw [(inputName_isName position).names_eq]
      intro name hname
      obtain rfl := List.mem_singleton.1 hname
      exact List.mem_append_left _ hinput
    · cases hnil
  | append_singleton before node ih =>
    rw [List.append_assoc, List.singleton_append] at hsplit
    obtain ⟨earlier, hbefore, hadd⟩ := foldlM_snoc_eq_ok.1 hrun
    have hold : ∀ {id tensor : String}, earlier.tensors.get? id = some tensor →
        ∀ name ∈ names tensor, name ∈ earlier.model.bound := fun h => ih hsplit hbefore h
    obtain ⟨layer, -, ⟨-, rfl⟩ | ⟨hout, rfl⟩ | ⟨-, hlayer⟩⟩ := add_eq_ok hadd
    · exact hold htensor
    · rw [addOutput_eq] at htensor
      by_cases heq : id = node.id
      · rw [heq, Table.get?_put_self, Option.some.injEq] at htensor
        rw [← htensor, names_grouped (hfed before node after earlier hsplit hout hbefore)]
        intro name hname
        obtain ⟨operand, hoperand, hin⟩ := List.mem_flatMap.1 hname
        obtain ⟨source, -, hsource⟩ := List.mem_filterMap.1 hoperand
        exact hold hsource name hin
      · rw [Table.get?_put_of_ne _ heq] at htensor
        exact hold htensor
    · obtain ⟨statement, hsaid, hinputs, hstatements, -, htensors, -⟩ := addLayer_eq_ok hlayer
      have hgrown : draft.model.bound = earlier.model.bound ++ [statement.target] := by
        simp [Model.bound, Model.targets, hinputs, hstatements]
      rw [hgrown]
      rw [htensors] at htensor
      intro name hname
      by_cases heq : id = node.id
      · rw [heq, Table.get?_put_self, Option.some.injEq] at htensor
        have hisName := (nameFor_named earlier.owners node.id).isName
        rw [← htensor, hsaid.target, hisName.names_eq, ← hsaid.target] at hname
        exact List.mem_append_right _ hname
      · rw [Table.get?_put_of_ne _ heq] at htensor
        exact List.mem_append_left _ (hold htensor name hname)

theorem operands_length (hids : graph.ids.Nodup)
    (hinfer : graph.infer Catalogue.standard = .ok context) (hclean : context.hasErrors = false)
    (hsplit : graph.ordered = before ++ node :: after) {progress : Progress} {result : NodeResult}
    {layer : Layer}
    (h : Evaluated Catalogue.standard graph context before node progress result layer)
    {draft : Draft} (hbefore : draftAfter Catalogue.standard graph className before = .ok draft) :
    (draft.operands graph node.id).length = (progress.shapes graph node.id).length := by
  have hoperands := congrArg List.length
    ((Drafted.run hids hsplit hbefore).operands_eq hids hsplit)
  have hshapes := congrArg List.length (h.shapes hids hinfer hclean hsplit)
  simp only [List.length_map] at hoperands hshapes
  omega

theorem operands_ne_nil (hids : graph.ids.Nodup)
    (hinfer : graph.infer Catalogue.standard = .ok context) (hclean : context.hasErrors = false)
    (hsplit : graph.ordered = before ++ node :: after) (hin : node.isInput = false)
    {draft : Draft} (hbefore : draftAfter Catalogue.standard graph className before = .ok draft) :
    draft.operands graph node.id ≠ [] := by
  obtain ⟨progress, result, layer, h⟩ := exists_evaluated hids hinfer hclean hsplit
  have hcount := operands_length hids hinfer hclean hsplit h hbefore
  obtain ⟨hmem, hkind⟩ := Catalogue.find?_spec h.sound.known
  have hother : layer.kind ≠ "Input" := by
    rw [hkind]
    exact fun heq => by simp [(Node.isInput_iff node).2 heq] at hin
  have hleast := Catalogue.standard_minInputs layer hmem hother
  have hsound := h.sound.least
  intro hnil
  rw [hnil, List.length_nil] at hcount
  omega

theorem add_stated {catalogue : Catalogue} {draft next : Draft} {layer : Layer}
    (hadd : add catalogue graph draft node = .ok next)
    (hfind : catalogue.find? node.kind = some layer) (hlayer : node.isLayer = true) :
    ∃ statement, next.model.statements = draft.model.statements ++ [statement] ∧
      next.tensors.get? node.id = some statement.target ∧
      Says layer node statement.target (draft.operands graph node.id) statement := by
  obtain ⟨hin, hout⟩ := Node.not_of_isLayer hlayer
  obtain ⟨found, hfound, ⟨hin', -⟩ | ⟨hout', -⟩ | ⟨-, hstep⟩⟩ := add_eq_ok hadd
  · rw [hin] at hin'
    cases hin'
  · rw [hout] at hout'
    cases hout'
  · obtain rfl : found = layer := Option.some.inj (hfound.symm.trans hfind)
    obtain ⟨statement, hsaid, -, hstatements, -, htensors, -⟩ := addLayer_eq_ok hstep
    refine ⟨statement, hstatements, ?_, ?_⟩
    · rw [htensors, Table.get?_put_self]
    · rwa [← hsaid.target] at hsaid

theorem add_returned {catalogue : Catalogue} {draft next : Draft}
    (hadd : add catalogue graph draft node = .ok next) (hout : node.isOutput = true) :
    next.tensors.get? node.id = some (grouped (draft.operands graph node.id)) := by
  obtain ⟨hin, hlayer⟩ := Node.not_of_isOutput hout
  obtain ⟨layer, -, ⟨hin', -⟩ | ⟨-, rfl⟩ | ⟨hlayer', -⟩⟩ := add_eq_ok hadd
  · rw [hin] at hin'
    cases hin'
  · rw [addOutput_eq, Table.get?_put_self]
  · rw [hlayer] at hlayer'
    cases hlayer'

theorem exists_agrees (hids : graph.ids.Nodup)
    (hinfer : graph.infer Catalogue.standard = .ok context) (hclean : context.hasErrors = false)
    (hfinal : ofGraph Catalogue.standard graph className = .ok final)
    (hsplit : graph.ordered = before ++ node :: after) :
    ∃ progress draft layer,
      Agrees graph context className final before node progress draft layer := by
  obtain ⟨progress, result, layer, h⟩ := exists_evaluated hids hinfer hclean hsplit
  obtain ⟨draft, next, hbefore, hadd, hafter⟩ := exists_drafted hfinal hsplit
  have hcount := operands_length hids hinfer hclean hsplit h hbefore
  have hrest : (node :: after).foldlM (add Catalogue.standard graph) draft = .ok final := by
    rw [List.foldlM_cons, bind_eq_ok]
    exact ⟨next, hadd, hafter⟩
  have hlast : final.tensors.get? node.id = next.tensors.get? node.id := by
    have hcut : graph.ordered = (before ++ [node]) ++ after := by simp [hsplit]
    exact get?_of_add hafter (not_mem_of_ordered hids hcut (by simp))
  obtain ⟨hmem, hkind⟩ := Catalogue.find?_spec h.sound.known
  refine ⟨progress, draft, layer, h.sound.known, h.reached, ⟨result, h.evaluated, h.kept⟩, hbefore,
    h.shapes hids hinfer hclean hsplit, operands_final hids hsplit hbefore hrest, hcount,
    hcount ▸ h.sound.least, hcount ▸ h.sound.most, fun first rest _ hconcat => ?_,
    fun hin => operands_ne_nil hids hinfer hclean hsplit hin hbefore, fun operand hoperand => ?_,
    fun hlayer => ?_, fun hout => ?_⟩
  · exact Catalogue.standard_shape_first hmem (hkind ▸ hconcat) first rest _
  · obtain ⟨source, -, hsource⟩ := List.mem_filterMap.1 hoperand
    refine bound_run hids (fun first other rest draft hother hout hdraft => ?_) hsplit hbefore
      hsource
    exact operands_ne_nil hids hinfer hclean hother (Node.not_of_isOutput hout).1 hdraft
  · obtain ⟨statement, hstatements, htensor, hsaid⟩ := add_stated hadd h.sound.known hlayer
    exact ⟨statement, hstatements ▸ (statements_grow hafter).2, hlast.trans htensor, hsaid⟩
  · exact hlast.trans (add_returned hadd hout)

theorem exists_translates (hids : graph.ids.Nodup)
    (hinfer : graph.infer Catalogue.standard = .ok context) (hclean : context.hasErrors = false)
    (hfinal : ofGraph Catalogue.standard graph className = .ok final) :
    Translates graph context className final := by
  have h := Drafted.run hids (List.append_nil _).symm hfinal
  refine ⟨ordered_perm hids hinfer hclean, h.fed, h.stated, h.returned, fun value hvalue => ?_,
    fun before node after hsplit => exists_agrees hids hinfer hclean hfinal hsplit⟩
  have hsome : some value ∈ (graph.ordered.filter (·.isOutput)).map
      (fun node => final.tensors.get? node.id) := h.returned ▸ List.mem_map_of_mem hvalue
  obtain ⟨node, -, htensor⟩ := List.mem_map.1 hsome
  refine bound_run hids (fun before other after draft hother hout hdraft => ?_)
    (List.append_nil _).symm hfinal htensor
  exact operands_ne_nil hids hinfer hclean hother (Node.not_of_isOutput hout).1 hdraft

/-- A graph without errors has a model exactly if its integers can be written, and the model agrees
with inference at every node. -/
theorem ofGraph_translates (hids : graph.ids.Nodup)
    (hinfer : graph.infer Catalogue.standard = .ok context) (hclean : context.hasErrors = false)
    (className : String) :
    ((∀ node ∈ graph.nodes, Printable Catalogue.standard node) →
      ∃ draft, ofGraph Catalogue.standard graph className = .ok draft) ∧
    ((∃ node ∈ graph.nodes, ¬Printable Catalogue.standard node) →
      Model.ofGraph Catalogue.standard graph className = .error .integerTooLong) ∧
    ∀ draft, ofGraph Catalogue.standard graph className = .ok draft →
      Model.ofGraph Catalogue.standard graph className = .ok (draft.model, draft.warnings) ∧
        Translates graph context className draft := by
  have hperm := ordered_perm hids hinfer hclean
  have hknown : ∀ node ∈ graph.ordered, (Catalogue.standard.find? node.kind).isSome := by
    intro node hnode
    obtain ⟨before, after, hsplit⟩ := List.append_of_mem hnode
    obtain ⟨_, _, layer, h⟩ := exists_evaluated hids hinfer hclean hsplit
    simp [h.sound.known]
  obtain ⟨hwritten, hfault⟩ := ofGraph_outcome className hknown
  refine ⟨fun hall => hwritten fun node hnode => hall node (hperm.mem_iff.1 hnode), ?_, ?_⟩
  · intro hgiven
    obtain ⟨node, hnode, hlong⟩ := hgiven
    rw [Model.ofGraph, hfault ⟨node, hperm.mem_iff.2 hnode, hlong⟩]
    rfl
  · intro draft hdraft
    refine ⟨?_, exists_translates hids hinfer hclean hdraft⟩
    rw [Model.ofGraph, hdraft]
    rfl

end

/-- Two layers that are added and concatenated, with an edge from nowhere and two edges alike. -/
def diamond : Graph where
  nodes := [⟨"out", "Output", "", []⟩, ⟨"cat", "Concat", "", []⟩, ⟨"sum", "Add", "", []⟩,
    ⟨"left", "Linear", "", []⟩, ⟨"right", "Linear", "", []⟩,
    ⟨"in", "Input", "", [("shape", .list [.int 1, .int 128])]⟩]
  edges := [⟨"1", "in", "left", none⟩, ⟨"2", "in", "right", none⟩, ⟨"3", "left", "sum", none⟩,
    ⟨"4", "nowhere", "sum", none⟩, ⟨"5", "right", "sum", none⟩, ⟨"6", "sum", "cat", none⟩,
    ⟨"7", "sum", "cat", none⟩, ⟨"8", "left", "cat", none⟩, ⟨"9", "cat", "out", none⟩]

theorem diamond_translates :
    diamond.ids.Nodup ∧ ∃ context draft,
      diamond.infer Catalogue.standard = .ok context ∧ context.hasErrors = false ∧
      ofGraph Catalogue.standard diamond "Net" = .ok draft ∧
      Translates diamond context "Net" draft := by
  have hids : diamond.ids.Nodup := by decide
  have hinfer : ((diamond.infer Catalogue.standard).map (·.hasErrors)).toOption = some false := by
    decide +kernel
  have hmodel : (ofGraph Catalogue.standard diamond "Net").toOption.isSome := by decide +kernel
  cases hcontext : diamond.infer Catalogue.standard with
  | error _ => simp [hcontext, Except.map, Except.toOption] at hinfer
  | ok context =>
    have hclean : context.hasErrors = false := by
      simpa [hcontext, Except.map, Except.toOption] using hinfer
    cases hdraft : ofGraph Catalogue.standard diamond "Net" with
    | error _ => simp [hdraft, Except.toOption] at hmodel
    | ok draft =>
      obtain ⟨-, -, htranslates⟩ := ofGraph_translates hids hcontext hclean "Net"
      exact ⟨hids, context, draft, rfl, hclean, rfl, (htranslates draft hdraft).2⟩

/-- A layer with an integer of 4301 digits for its bias, which no rule reads. -/
def longBias : Graph where
  nodes := [⟨"in", "Input", "", [("shape", .list [.int 1, .int 128])]⟩,
    ⟨"fc", "Linear", "", [("bias", .int (Nat.pow 10 4300))]⟩]
  edges := [⟨"1", "in", "fc", none⟩]

theorem longBias_not_written :
    longBias.ids.Nodup ∧
    (∃ context, longBias.infer Catalogue.standard = .ok context ∧ context.hasErrors = false) ∧
    ¬∃ result, Model.ofGraph Catalogue.standard longBias "VisualNet" = .ok result := by
  refine ⟨by decide, ?_, ?_⟩
  · have hinfer : ((longBias.infer Catalogue.standard).map (·.hasErrors)).toOption =
        some false := by decide +kernel
    cases hcontext : longBias.infer Catalogue.standard with
    | error _ => simp [hcontext, Except.map, Except.toOption] at hinfer
    | ok context =>
      exact ⟨context, rfl, by simpa [hcontext, Except.map, Except.toOption] using hinfer⟩
  · intro hgiven
    obtain ⟨result, hresult⟩ := hgiven
    have hnone : (Model.ofGraph Catalogue.standard longBias "VisualNet").toOption.isNone := by
      decide +kernel
    simp [hresult, Except.toOption] at hnone

end Program

end LayerGraph
