import LayerGraph.Document.Graph
import LayerGraph.Proofs.Graph.Results
import LayerGraph.Proofs.Graph.Turns
import LayerGraph.Proofs.Layer.Parameters
import LayerGraph.Proofs.Program.Emission
import LayerGraph.Proofs.Program.Writing
set_option autoImplicit false

namespace LayerGraph

/-- The lines in which the messages of a result are reported, under the id that it stands under. -/
def diagnostics (entry : String × NodeResult) : List String :=
  entry.2.messages.map (entry.1 ++ ": " ++ ·)

namespace Graph

variable {catalogue : Catalogue} {graph : Graph} {context : Context}

theorem flatMap_filter_eq {α β : Type} {p : α → Bool} {f : α → List β} {xs : List α}
    (h : ∀ x ∈ xs, p x = false → f x = []) : (xs.filter p).flatMap f = xs.flatMap f := by
  induction xs with
  | nil => rfl
  | cons x xs ih =>
    obtain ⟨hx, hrest⟩ := List.forall_mem_cons.1 h
    cases hp : p x with
    | true => rw [List.filter_cons_of_pos hp, List.flatMap_cons, ih hrest, List.flatMap_cons]
    | false =>
      rw [List.filter_cons_of_neg (by simp [hp]), ih hrest, List.flatMap_cons, hx hp,
        List.nil_append]

theorem messages_eq (hinfer : graph.infer catalogue = .ok context) (status : Status) :
    context.messages status.name =
      (context.results.filter (·.2.status == status)).flatMap diagnostics := by
  rw [Context.messages, ← flatMap_filter_eq (p := (·.2.status == status))]
  · refine List.flatMap_congr fun entry hentry => ?_
    obtain ⟨hmem, hstatus⟩ := List.mem_filter.1 hentry
    have hname : (entry.2.status.name == status.name) = true := by
      simp [beq_iff_eq.1 hstatus]
    rw [diagnostics, ← (results_account hinfer entry hmem).node]
    exact if_pos hname
  · intro entry _ hstatus
    refine if_neg fun hname => ?_
    rw [Status.name_injective (beq_iff_eq.1 hname), beq_self_eq_true] at hstatus
    cases hstatus

theorem messages_warning_of_clean (hinfer : graph.infer catalogue = .ok context)
    (hclean : context.hasErrors = false) :
    context.messages Status.warning.name = context.results.flatMap diagnostics := by
  rw [messages_eq hinfer]
  refine flatMap_filter_eq fun entry hentry hstatus => ?_
  have haccount := results_account hinfer entry hentry
  have hvalid : entry.2.status = .valid := by
    have hgood := (hasErrors_eq_false_iff hinfer).1 hclean entry hentry
    have hdecided := haccount.decided
    cases h : entry.2.status <;> simp_all
  rw [diagnostics, haccount.valid.1 hvalid, List.map_nil]

theorem diagnostics_ne_nil (hinfer : graph.infer catalogue = .ok context)
    {entry : String × NodeResult} (hentry : entry ∈ context.results)
    (herror : entry.2.status = .error) : diagnostics entry ≠ [] := by
  intro hnone
  have hvalid := (results_account hinfer entry hentry).valid.2 (List.map_eq_nil_iff.1 hnone)
  rw [herror] at hvalid
  cases hvalid

end Graph

theorem writeInt_eq_ok_iff {n : Int} {text : String} :
    writeInt n = .ok text ↔ isWritable n = true ∧ text = Text.decimal n := by
  rw [writeInt]
  by_cases h : isWritable n = true
  · rw [if_pos h, Except.ok.injEq, eq_comm]
    exact (and_iff_right h).symm
  · rw [if_neg h]
    constructor
    · intro hfault
      cases hfault
    · rintro ⟨hwritable, -⟩
      exact absurd hwritable h

theorem writeInt_eq_ok {n : Int} (h : isWritable n = true) : writeInt n = .ok (Text.decimal n) :=
  writeInt_eq_ok_iff.2 ⟨h, rfl⟩

/-- The integers in the document of a graph. -/
theorem Graph.toValue_writable_iff (graph : Graph) :
    graph.toValue.writable = true ↔
      (∀ node ∈ graph.nodes, ∀ field ∈ node.params, field.2.writable = true) ∧
      (∀ n, graph.training.classes = some n → isWritable n = true) ∧
      isWritable graph.training.batchSize = true ∧ isWritable graph.training.epochs = true ∧
      ∀ n ∈ graph.input.shape, isWritable n = true := by
  have hclasses : (Value.ofOption .int graph.training.classes).writable = true ↔
      ∀ n, graph.training.classes = some n → isWritable n = true := by
    cases graph.training.classes <;> simp [Value.ofOption, Value.writable]
  have hedge : ∀ edge : Edge, edge.toValue.writable = true := by
    intro edge
    cases hslot : edge.slot <;>
      simp [Edge.toValue, Value.writable, Value.writableFields, Value.ofOption, hslot]
  have hnode : ∀ node : Node, node.toValue.writable = true ↔
      ∀ field ∈ node.params, field.2.writable = true := by
    intro node
    simp [Node.toValue, Value.writable, Value.writableFields, Value.writableFields_iff]
  have hnodes : (Value.list (graph.nodes.map (·.toValue))).writable = true ↔
      ∀ node ∈ graph.nodes, ∀ field ∈ node.params, field.2.writable = true := by
    simp only [Value.writable_list, List.forall_mem_map, hnode]
  have hspec : graph.input.toValue.writable = true ↔
      ∀ n ∈ graph.input.shape, isWritable n = true := by
    simp [InputSpec.toValue, Value.writable, Value.writableFields, Value.writableItems_iff]
  have htraining : graph.training.toValue.writable = true ↔
      (∀ n, graph.training.classes = some n → isWritable n = true) ∧
      isWritable graph.training.batchSize = true ∧ isWritable graph.training.epochs = true := by
    simp [Training.toValue, Value.writable, Value.writableFields, hclasses]
  have hedges : (Value.list (graph.edges.map (·.toValue))).writable = true := by
    rw [Value.writable_list, List.forall_mem_map]
    exact fun edge _ => hedge edge
  simp only [toValue, Value.writable_object, List.forall_mem_cons, hnodes, hspec, htraining, hedges,
    List.not_mem_nil, false_implies, implies_true, and_true, true_and, and_assoc]

namespace Program

open LayerGraph.Graph

variable {graph : Graph} {context : Context} {settings : Settings}

theorem standard_defaults_writable :
    ∀ layer ∈ Catalogue.standard, ∀ entry ∈ layer.schema, entry.2.default.writable = true := by
  decide +kernel

theorem argumentValue_writable {p : Param} {v : Value} (h : v.writable = true) :
    (argumentValue p v).writable = true := by
  unfold argumentValue
  split
  · exact Value.writable_whole v h
  · exact h

theorem printable_of_writable {node : Node} (h : ∀ field ∈ node.params, field.2.writable = true) :
    Printable Catalogue.standard node := by
  intro value hvalue
  rw [shown] at hvalue
  split at hvalue
  · rename_i layer hfind
    have hresolved : ∀ key, (Fields.get (layer.resolve node.params) key).writable = true :=
      Value.writable_get
        (Schema.resolve_writable _ _
          (standard_defaults_writable layer (List.mem_of_find?_eq_some hfind)) h)
    rw [written] at hvalue
    split at hvalue
    · rw [List.mem_singleton.1 hvalue]
      exact hresolved "dim"
    · split at hvalue
      · obtain ⟨field, hfield, rfl⟩ := List.mem_map.1 hvalue
        obtain ⟨entry, -, rfl⟩ := List.mem_map.1 hfield
        exact argumentValue_writable (hresolved entry.1)
      · cases hvalue
  · cases hvalue

/-- The sizes of one sample: of two axes or more the first is the batch, and a size that is unknown
is one. -/
def sampleSizes (shape : Shape) : List Int :=
  (if 1 < shape.length then shape.drop 1 else shape).map fun n => if 0 < n then n else 1

def tensorText (sizes : List Int) (integral : Bool) : String :=
  let size := "(" ++ ", ".intercalate (sizes.map Text.decimal)
    ++ (if sizes.length = 1 then "," else "") ++ ")"
  if integral then "torch.randint(0, 2, " ++ size ++ ")" else "torch.randn(" ++ size ++ ")"

theorem mapM_writeInt_eq_ok {f : Int → Int} {axes : List Int} {texts : List String} :
    axes.mapM (fun n => writeInt (f n)) = .ok texts ↔
      (∀ n ∈ axes.map f, isWritable n = true) ∧ texts = (axes.map f).map Text.decimal := by
  induction axes generalizing texts with
  | nil =>
    change Except.ok [] = Except.ok texts ↔ _
    exact ⟨fun h => ⟨by simp, (Except.ok.inj h).symm⟩, fun h => by rw [h.2]; rfl⟩
  | cons n axes ih =>
    simp only [List.mapM_cons, bind_eq_ok, writeInt_eq_ok_iff, ih, pure, Except.pure,
      Except.ok.injEq, List.map_cons, List.forall_mem_cons]
    constructor
    · rintro ⟨text, ⟨hn, rfl⟩, rest, ⟨hrest, rfl⟩, rfl⟩
      exact ⟨⟨hn, hrest⟩, rfl⟩
    · rintro ⟨⟨hn, hrest⟩, rfl⟩
      exact ⟨_, ⟨hn, rfl⟩, _, ⟨hrest, rfl⟩, rfl⟩

theorem sampleText_eq_ok {shape : Shape} {integral : Bool} {text : String} :
    sampleText shape integral = .ok text ↔
      (∀ n ∈ sampleSizes shape, isWritable n = true) ∧
        text = tensorText (sampleSizes shape) integral := by
  simp only [sampleText, bind_eq_ok, mapM_writeInt_eq_ok, pure, Except.pure, Except.ok.injEq]
  constructor
  · rintro ⟨sizes, ⟨hwritable, rfl⟩, rfl⟩
    refine ⟨hwritable, ?_⟩
    simp only [tensorText, sampleSizes, List.length_map]
  · rintro ⟨hwritable, rfl⟩
    refine ⟨_, ⟨hwritable, rfl⟩, ?_⟩
    simp only [tensorText, sampleSizes, List.length_map]

theorem exists_sampleText {shape : Shape} (h : ∀ n ∈ shape, isWritable n = true)
    (integral : Bool) : ∃ text, sampleText shape integral = .ok text := by
  refine ⟨_, sampleText_eq_ok.2 ⟨fun size hsize => ?_, rfl⟩⟩
  obtain ⟨n, hn, rfl⟩ := List.mem_map.1 hsize
  have hmem : n ∈ shape := by
    split at hn
    · exact List.mem_of_mem_drop hn
    · exact hn
  split
  · exact h n hmem
  · exact isWritable_of_natAbs_le_one (by decide)

theorem exists_inputSample (hinfer : graph.infer Catalogue.standard = .ok context)
    (hspec : ∀ n ∈ graph.input.shape, isWritable n = true) {node : Node}
    (hnode : node ∈ graph.nodes) : ∃ text, inputSample graph context node = .ok text := by
  obtain ⟨result, hresult⟩ := Option.isSome_iff_exists.1
    (get?_isSome_of_declared hinfer (List.mem_map_of_mem (f := (·.id)) hnode))
  have haccount := results_account hinfer _ (Table.mem_of_get? hresult)
  simp only [inputSample, hresult]
  refine exists_sampleText ?_ _
  split
  · rename_i shape size sizes hshape
    simpa using haccount.shown _ hshape
  · exact hspec

theorem exists_sampleTexts (hinfer : graph.infer Catalogue.standard = .ok context)
    (hspec : ∀ n ∈ graph.input.shape, isWritable n = true) :
    ∃ samples, sampleTexts graph context = .ok samples := by
  have hsamples : ∃ samples, (graph.nodes.filter (·.kind == Graph.inputKind)).mapM
      (inputSample graph context) = .ok samples :=
    exists_mapM_eq_ok fun node hnode =>
      exists_inputSample hinfer hspec (List.mem_filter.1 hnode).1
  obtain ⟨samples, hsamples⟩ := hsamples
  obtain ⟨text, htext⟩ := exists_sampleText hspec graph.input.type.isIntegral
  simp only [sampleTexts, hsamples, htext, bind, Except.bind, pure, Except.pure]
  split <;> exact ⟨_, rfl⟩

theorem exists_scriptLines (hgraph : graph.toValue.writable = true)
    (hnests : graph.nestsWithin settings.nesting = true)
    (hsize : isWritable settings.datasetSize = true)
    (hinfer : graph.infer Catalogue.standard = .ok context) (model : Model) :
    ∃ ls, scriptLines graph context model settings = .ok ls := by
  obtain ⟨-, hclasses, hbatch, hepochs, hspec⟩ := (Graph.toValue_writable_iff graph).1 hgraph
  obtain ⟨samples, hsamples⟩ := exists_sampleTexts hinfer hspec
  have hcount : isWritable (classCount graph.training) = true := by
    rw [classCount]
    cases hgiven : graph.training.classes with
    | none => exact isWritable_of_natAbs_le_one (by decide)
    | some n =>
      rcases Int.le_total n 1 with hle | hle
      · rw [Option.getD_some, Int.max_eq_left hle]
        exact isWritable_of_natAbs_le_one (by decide)
      · rw [Option.getD_some, Int.max_eq_right hle]
        exact hclasses n hgiven
  have htarget : ∃ target, targetText graph.training = .ok target := by
    simp only [targetText, writeInt_eq_ok hcount, bind, Except.bind]
    split
    · exact ⟨_, rfl⟩
    · split <;> exact ⟨_, rfl⟩
  obtain ⟨target, htarget⟩ := htarget
  have hdataset : ∃ dataset, datasetLines samples target settings.datasetSize = .ok dataset := by
    rw [datasetLines, writeInt_eq_ok hsize]
    exact ⟨_, rfl⟩
  obtain ⟨dataset, hdataset⟩ := hdataset
  have hmain : ∃ main, mainLines graph.training settings.className = .ok main := by
    rw [mainLines, writeInt_eq_ok hepochs, writeInt_eq_ok hbatch]
    exact ⟨_, rfl⟩
  obtain ⟨main, hmain⟩ := hmain
  exact ⟨_, scriptLines_eq_ok.2 ⟨samples, target, dataset, main, hsamples, hnests, htarget, hdataset,
    hmain, rfl⟩⟩

/-- A graph whose document is refused has samples all the same. -/
theorem scriptLines_of_deep (hspec : ∀ n ∈ graph.input.shape, isWritable n = true)
    (hdeep : graph.nestsWithin settings.nesting = false)
    (hinfer : graph.infer Catalogue.standard = .ok context) (model : Model) :
    scriptLines graph context model settings = .error .nestedTooDeep := by
  obtain ⟨samples, hsamples⟩ := exists_sampleTexts hinfer hspec
  rw [scriptLines, hsamples, dump_of_deep hdeep]
  rfl

theorem isSome_get?_put {α : Type} (table : Table α) (key id : String) (value : α) :
    ((table.put key value).get? id).isSome ↔ (table.get? id).isSome ∨ id = key := by
  by_cases h : id = key
  · simp [h]
  · simp [Table.get?_put_of_ne _ h, h]

theorem isSome_foldl_addInput (nodes : List Node) (draft : Draft) (id : String) :
    ((nodes.foldl Draft.addInput draft).tensors.get? id).isSome ↔
      (draft.tensors.get? id).isSome ∨ ∃ node ∈ nodes, node.id = id := by
  induction nodes generalizing draft with
  | nil => simp
  | cons node nodes ih =>
    rw [List.foldl_cons, ih, Draft.addInput, isSome_get?_put, or_assoc, List.exists_mem_cons_iff,
      eq_comm (a := id)]

theorem isSome_tensor_iff {catalogue : Catalogue} {className : String} {before after : List Node}
    {draft : Draft} (hsplit : graph.ordered = before ++ after)
    (hrun : Draft.draftAfter catalogue graph className before = .ok draft) (id : String) :
    (draft.tensors.get? id).isSome ↔
      ∃ node ∈ graph.ordered, node.id = id ∧ (node.isInput = true ∨ node ∈ before) := by
  have hexact : (draft.tensors.get? id).isSome ↔
      (∃ node ∈ graph.ordered.filter (·.isInput), node.id = id) ∨ ∃ node ∈ before, node.id = id := by
    refine foldlM_invariant (fun before draft : _ => (draft.tensors.get? id).isSome ↔
      (∃ node ∈ graph.ordered.filter (·.isInput), node.id = id) ∨ ∃ node ∈ before, node.id = id)
      hrun ?_ ?_
    · rw [Draft.start, isSome_foldl_addInput]
      simp
    · intro first node rest middle next heq hold hnext
      have hmem : node ∈ graph.ordered := by simp [hsplit, heq]
      obtain ⟨layer, -, ⟨hin, rfl⟩ | ⟨-, rfl⟩ | ⟨-, hadd⟩⟩ := Draft.add_eq_ok hnext
      · rw [hold]
        simp only [List.mem_append, List.mem_singleton, or_and_right, exists_or, exists_eq_left]
        refine ⟨fun h => h.imp_right .inl, fun h => ?_⟩
        rcases h with h | h | h
        · exact .inl h
        · exact .inr h
        · exact .inl ⟨node, List.mem_filter.2 ⟨hmem, hin⟩, h⟩
      · rw [Draft.addOutput_eq, isSome_get?_put, hold, or_assoc]
        simp only [List.mem_append, List.mem_singleton, or_and_right, exists_or, exists_eq_left,
          eq_comm (a := id)]
      · obtain ⟨statement, -, -, -, -, htensors, -⟩ := Draft.addLayer_eq_ok hadd
        rw [htensors, isSome_get?_put, hold, or_assoc]
        simp only [List.mem_append, List.mem_singleton, or_and_right, exists_or, exists_eq_left,
          eq_comm (a := id)]
  rw [hexact]
  constructor
  · rintro (⟨node, hnode, hid⟩ | ⟨node, hnode, hid⟩)
    · obtain ⟨hmem, hin⟩ := List.mem_filter.1 hnode
      exact ⟨node, hmem, hid, .inl hin⟩
    · exact ⟨node, by simp [hsplit, hnode], hid, .inr hnode⟩
  · rintro ⟨node, hmem, hid, hin | hnode⟩
    · exact .inl ⟨node, List.mem_filter.2 ⟨hmem, hin⟩, hid⟩
    · exact .inr ⟨node, hnode, hid⟩

/-- What is returned in the place of a program: the messages of all nodes in error. -/
structure Refused (context : Context) (emission : Emission) : Prop where
  code : emission.code = ""
  warnings : emission.warnings = []
  errors : emission.errors =
    (context.results.filter (·.2.status == .error)).flatMap diagnostics
  told : emission.errors ≠ []

/-- What is looked up for a program is there: every kind is known, every id has a result, and a
node's operands are the tensors of its sources, as far as they are inputs or come before it. -/
structure Resolved (graph : Graph) (context : Context) (className : String) : Prop where
  known : ∀ node ∈ graph.ordered, (Catalogue.standard.find? node.kind).isSome
  inferred : ∀ id ∈ graph.ids, (context.results.get? id).isSome
  operands : ∀ before node after, graph.ordered = before ++ node :: after →
    ∃ draft, Draft.draftAfter Catalogue.standard graph className before = .ok draft ∧
      (∀ id, (draft.tensors.get? id).isSome ↔
        ∃ other ∈ graph.ordered, other.id = id ∧ (other.isInput = true ∨ other ∈ before)) ∧
      (draft.operands graph node.id).map some =
        ((graph.sources node.id).filter fun source => (draft.tensors.get? source).isSome).map
          draft.tensors.get?

/-- What is returned with a program: all messages, and the names that were changed. -/
structure Generated (graph : Graph) (context : Context) (settings : Settings)
    (emission : Emission) : Prop where
  code : emission.code ≠ ""
  errors : emission.errors = []
  warnings : ∃ model renames,
    Model.ofGraph Catalogue.standard graph settings.className = .ok (model, renames) ∧
      emission.warnings = context.results.flatMap diagnostics ++ renames

theorem refused_of_hasErrors (settings : Settings)
    (hinfer : graph.infer Catalogue.standard = .ok context)
    (herrors : context.hasErrors = true) :
    ∃ emission, emitWith Catalogue.standard graph context settings = .ok emission ∧
      Refused context emission := by
  have hsome : ∃ entry ∈ context.results, entry.2.status = .error := by
    by_contra hnone
    have hclean := (hasErrors_eq_false_iff hinfer).2 fun entry hentry herror =>
      hnone ⟨entry, hentry, herror⟩
    rw [herrors] at hclean
    cases hclean
  obtain ⟨entry, hentry, herror⟩ := hsome
  obtain ⟨line, hline⟩ := List.exists_mem_of_ne_nil _ (diagnostics_ne_nil hinfer hentry herror)
  have hlines : context.messages Status.error.name ≠ [] := by
    rw [messages_eq hinfer]
    refine List.ne_nil_of_mem (List.mem_flatMap.2 ⟨entry, ?_, hline⟩)
    exact List.mem_filter.2 ⟨hentry, by simp [herror]⟩
  refine ⟨{ errors := context.messages Status.error.name }, ?_, rfl, rfl, messages_eq hinfer _, hlines⟩
  simp only [emitWith, herrors, List.isEmpty_iff, hlines, ↓reduceIte]

theorem exists_draft_of_clean (className : String) (hgraph : graph.toValue.writable = true)
    (hinfer : graph.infer Catalogue.standard = .ok context) (hclean : context.hasErrors = false) :
    ∃ draft, Draft.ofGraph Catalogue.standard graph className = .ok draft := by
  obtain ⟨hparams, -⟩ := (Graph.toValue_writable_iff graph).1 hgraph
  exact (Draft.ofGraph_outcome className fun node hnode =>
    known_of_clean hinfer hclean hnode).1 fun node hnode =>
      printable_of_writable (hparams node (mem_nodes_of_ordered hnode))

theorem resolved_of_clean (className : String) (hgraph : graph.toValue.writable = true)
    (hinfer : graph.infer Catalogue.standard = .ok context) (hclean : context.hasErrors = false) :
    Resolved graph context className := by
  obtain ⟨final, hfinal⟩ := exists_draft_of_clean className hgraph hinfer hclean
  refine ⟨fun node hnode => known_of_clean hinfer hclean hnode,
    fun id hid => get?_isSome_of_declared hinfer hid, fun before node after hsplit => ?_⟩
  have hrun : graph.ordered.foldlM (Draft.add Catalogue.standard graph)
      (Draft.start graph className) = .ok final := hfinal
  rw [hsplit] at hrun
  obtain ⟨draft, _, hdraft, -, -⟩ := foldlM_split_eq_ok.1 hrun
  exact ⟨draft, hdraft, isSome_tensor_iff hsplit hdraft, filterMap_eq_filter fun _ _ => rfl⟩

theorem generated_of_clean (hgraph : graph.toValue.writable = true)
    (hnests : graph.nestsWithin settings.nesting = true)
    (hsize : isWritable settings.datasetSize = true)
    (hinfer : graph.infer Catalogue.standard = .ok context) (hclean : context.hasErrors = false) :
    ∃ emission, emitWith Catalogue.standard graph context settings = .ok emission ∧
      Generated graph context settings emission := by
  obtain ⟨final, hfinal⟩ := exists_draft_of_clean settings.className hgraph hinfer hclean
  obtain ⟨ls, hls⟩ := exists_scriptLines hgraph hnests hsize hinfer final.model
  have hemit := (emitWith_of_clean hclean).2 ⟨final, ls, hfinal, hls, rfl⟩
  refine ⟨_, hemit, (emitWith_code_ne_iff hemit).2 hclean, rfl, final.model, final.warnings, ?_, ?_⟩
  · rw [Model.ofGraph, hfinal]
    rfl
  · rw [messages_warning_of_clean hinfer hclean]

theorem emitWith_of_deep (hgraph : graph.toValue.writable = true)
    (hdeep : graph.nestsWithin settings.nesting = false)
    (hinfer : graph.infer Catalogue.standard = .ok context) (hclean : context.hasErrors = false) :
    emitWith Catalogue.standard graph context settings = .error .nestedTooDeep := by
  obtain ⟨-, -, -, -, hspec⟩ := (Graph.toValue_writable_iff graph).1 hgraph
  obtain ⟨final, hfinal⟩ := exists_draft_of_clean settings.className hgraph hinfer hclean
  have hmodel : Model.ofGraph Catalogue.standard graph settings.className =
      .ok (final.model, final.warnings) := by
    rw [Model.ofGraph, hfinal]
    rfl
  simp only [emitWith, hclean, hmodel, scriptLines_of_deep hspec hdeep hinfer, bind, Except.bind,
    Bool.false_eq_true, if_false]

/-- A graph that can be inferred and whose integers can be written is refused if a node is in error,
and otherwise gets its program, and in both cases no message is lost. The one exception is a graph
without errors whose params are nested deeper than a document may be: nothing that is looked up for
its program is missing, but there is no way to write its header. -/
theorem emit_diagnostics (graph : Graph) (settings : Settings) (context : Context)
    (hgraph : graph.toValue.writable = true) (hsize : isWritable settings.datasetSize = true)
    (hinfer : graph.infer Catalogue.standard = .ok context) :
    ((∃ entry ∈ context.results, entry.2.status = .error) →
      ∃ emission, emit Catalogue.standard graph settings = .ok emission ∧
        Refused context emission) ∧
    ((∀ entry ∈ context.results, entry.2.status ≠ .error) →
      Resolved graph context settings.className ∧
      (graph.nestsWithin settings.nesting = true →
        ∃ emission, emit Catalogue.standard graph settings = .ok emission ∧
          Generated graph context settings emission) ∧
      (graph.nestsWithin settings.nesting = false →
        emit Catalogue.standard graph settings = .error .nestedTooDeep)) := by
  have hemit : emit Catalogue.standard graph settings =
      emitWith Catalogue.standard graph context settings := by
    rw [emit, hinfer]
    rfl
  rw [hemit]
  refine ⟨fun hsome => ?_, fun hgood => ?_⟩
  · obtain ⟨entry, hentry, herror⟩ := hsome
    refine refused_of_hasErrors settings hinfer ?_
    by_contra hclean
    exact (hasErrors_eq_false_iff hinfer).1 (by simpa using hclean) entry hentry herror
  · have hclean := (hasErrors_eq_false_iff hinfer).2 hgood
    exact ⟨resolved_of_clean settings.className hgraph hinfer hclean,
      fun hnests => generated_of_clean hgraph hnests hsize hinfer hclean,
      fun hdeep => emitWith_of_deep hgraph hdeep hinfer hclean⟩

def nested : Nat → Value
  | 0 => .list []
  | n + 1 => .list [nested n]

def sloped (slope : Value) : Graph where
  nodes := [⟨"in", "Input", "", [("shape", .list [.int 1, .int 8])]⟩,
    ⟨"act", "ReLU", "", [("slope", slope)]⟩]
  edges := [⟨"1", "in", "act", none⟩]

def dated : Settings := { now := ⟨2024, 1, 1, 0, 0, 0, 0, none⟩ }

theorem sloped_not_emitted :
    (sloped (nested 256)).toValue.writable = true ∧ isWritable dated.datasetSize = true ∧
    (∃ context, (sloped (nested 256)).infer Catalogue.standard = .ok context ∧
      ∀ entry ∈ context.results, entry.2.status ≠ .error) ∧
    emit Catalogue.standard (sloped (nested 256)) dated = .error .nestedTooDeep := by
  have hgraph : (sloped (nested 256)).toValue.writable = true := by decide +kernel
  have hdeep : (sloped (nested 256)).nestsWithin dated.nesting = false := by decide +kernel
  have hrun : ((sloped (nested 256)).infer Catalogue.standard).map (·.hasErrors) = .ok false :=
    eq_ok_of_toOption (by decide +kernel)
  obtain ⟨context, hinfer, hclean⟩ := map_eq_ok.1 hrun
  refine ⟨hgraph, isWritable_of_lt_two_pow (k := 3) (by decide) (by decide),
    ⟨context, hinfer, (hasErrors_eq_false_iff hinfer).1 hclean⟩, ?_⟩
  rw [emit, hinfer]
  exact emitWith_of_deep hgraph hdeep hinfer hclean

/-- An input declared twice, and two layers with one name in the program, one of them with an edge
from nowhere and with a param that is nested almost as deep as a document may be. -/
def twins : Graph where
  nodes := [⟨"in", "Input", "", []⟩, ⟨"in", "Input", "", []⟩,
    ⟨"a-b", "ReLU", "", [("slope", nested 253)]⟩, ⟨"a_b", "Dropout", "", []⟩]
  edges := [⟨"1", "in", "a-b", none⟩, ⟨"2", "nowhere", "a-b", none⟩, ⟨"3", "a-b", "a_b", none⟩]

theorem twins_diagnostics :
    twins.toValue.writable = true ∧ isWritable dated.datasetSize = true ∧
    ∃ context emission, twins.infer Catalogue.standard = .ok context ∧
      (∀ entry ∈ context.results, entry.2.status ≠ .error) ∧
      emit Catalogue.standard twins dated = .ok emission ∧
      Generated twins context dated emission ∧
      emission.warnings = ["a-b: Waiting for upstream nodes",
        "a_b: identifier 'a_b' is shared with node 'a-b', renamed to 'a_b_2'"] := by
  have hgraph : twins.toValue.writable = true := by decide +kernel
  have hnests : twins.nestsWithin dated.nesting = true := by decide +kernel
  have hsize : isWritable dated.datasetSize = true :=
    isWritable_of_lt_two_pow (k := 3) (by decide) (by decide)
  have hrun : (twins.infer Catalogue.standard).map (·.hasErrors) = .ok false :=
    eq_ok_of_toOption (by decide +kernel)
  have hwarnings : (emit Catalogue.standard twins dated).map (·.warnings) =
      .ok ["a-b: Waiting for upstream nodes",
        "a_b: identifier 'a_b' is shared with node 'a-b', renamed to 'a_b_2'"] :=
    eq_ok_of_toOption (by decide +kernel)
  obtain ⟨context, hinfer, hclean⟩ := map_eq_ok.1 hrun
  have hgood := (hasErrors_eq_false_iff hinfer).1 hclean
  obtain ⟨-, hgiven, -⟩ := (emit_diagnostics twins dated context hgraph hsize hinfer).2 hgood
  obtain ⟨emission, hemit, hgenerated⟩ := hgiven hnests
  rw [hemit] at hwarnings
  exact ⟨hgraph, hsize, context, emission, hinfer, hgood, hemit, hgenerated,
    Except.ok.inj hwarnings⟩

end Program

end LayerGraph
