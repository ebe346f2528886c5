import LayerGraph.Proofs.Graph.Results
import LayerGraph.Proofs.Graph.Turns
set_option autoImplicit false

namespace LayerGraph

namespace Node

def outputShape (catalogue : Catalogue) (spec : InputSpec) (node : Node) (inputs : List Shape) :
    Option Shape :=
  match catalogue.find? node.kind with
  | none => none
  | some layer => node.inputShape spec (sized layer inputs (layer.resolve node.params)).1

/-- What is said of a node for the edges that lead into it and the inputs that they give. -/
def remarks (layer : Layer) (spec : InputSpec) (node : Node) (edges : Nat) (inputs : List Shape) :
    List Remark :=
  let params := layer.resolve node.params
  complete (node.inputShape spec (sized layer inputs params).1)
    (arity layer edges inputs.length ++ (sized layer inputs params).2 ++ checked layer inputs params)

end Node

namespace Graph

def inputsOf (graph : Graph) (shapes : Table (Option Shape)) (id : String) : List Shape :=
  (graph.sources id).filterMap fun source => (shapes.get? source).join

/-- The shapes of some nodes, each sized on those before it. -/
def shapesOf (catalogue : Catalogue) (graph : Graph) (nodes : List Node) : Table (Option Shape) :=
  nodes.foldl (fun shapes node => shapes.put node.id
    (node.outputShape catalogue graph.input (graph.inputsOf shapes node.id))) []

def inputsAfter (catalogue : Catalogue) (graph : Graph) (before : List Node) (node : Node) :
    List Shape :=
  graph.inputsOf (graph.shapesOf catalogue before) node.id

/-- A fault of a node, after some others, that is not turned into a message. -/
inductive Breaks (catalogue : Catalogue) (graph : Graph) (before : List Node) (node : Node) :
    Fault → Prop where
  | type {layer : Layer} (known : catalogue.find? node.kind = some layer)
      (input : node.kind = "Input") {declared : Value}
      (given : Fields.get (layer.resolve node.params) "dtype" = declared)
      (unhashable : declared.form = .list ∨ declared.form = .object) :
      Breaks catalogue graph before node (.unhashable declared.form)
  | digits {shape : Shape}
      (sized : node.outputShape catalogue graph.input (graph.inputsAfter catalogue before node) =
        some shape)
      (long : ∃ n ∈ shape, isWritable n = false) :
      Breaks catalogue graph before node .integerTooLong

variable {catalogue : Catalogue} {graph : Graph} {before after : List Node} {node : Node}
  {progress : Progress}

theorem shapesOf_snoc (catalogue : Catalogue) (graph : Graph) (before : List Node) (node : Node) :
    graph.shapesOf catalogue (before ++ [node]) =
      (graph.shapesOf catalogue before).put node.id (node.outputShape catalogue graph.input
        (graph.inputsAfter catalogue before node)) := by
  rw [shapesOf, List.foldl_append]
  rfl

theorem evaluate_shape {spec : InputSpec} {feeds : List (Option NodeResult)} {result : NodeResult}
    (h : node.evaluate catalogue spec feeds = .ok result) :
    result.shape = node.outputShape catalogue spec (Node.inputShapes feeds) := by
  unfold Node.evaluate at h
  unfold Node.outputShape
  cases hfind : catalogue.find? node.kind with
  | none =>
    simp only [hfind] at h ⊢
    cases h
    rfl
  | some layer =>
    simp only [hfind] at h ⊢
    obtain ⟨type, -, rfl⟩ := Node.evaluateAs_eq_ok.1 h
    rfl

/-- The shapes that stand after some nodes are those of the recursion. -/
theorem shape_of_reached (hrun : progressAfter catalogue graph before = .ok progress) (id : String) :
    (progress.results.get? id).bind (·.shape) = ((graph.shapesOf catalogue before).get? id).join := by
  refine foldlM_invariant (fun before progress : _ => ∀ id,
    (progress.results.get? id).bind (·.shape) = ((graph.shapesOf catalogue before).get? id).join)
    hrun ?_ ?_ id
  · intro id
    rw [get?_cycleResults]
    split <;> rfl
  · intro first other rest middle next _ hold hnext id
    obtain ⟨result, lines, hresult, -, rfl⟩ := advance_eq_ok.1 hnext
    have hinputs : Node.inputShapes ((graph.sources other.id).map middle.results.get?) =
        graph.inputsAfter catalogue first other := by
      rw [Node.inputShapes, List.filterMap_map, inputsAfter, inputsOf]
      exact List.filterMap_congr fun source _ => hold source
    rw [shapesOf_snoc]
    by_cases hid : id = other.id
    · subst hid
      rw [Table.get?_put_self, Table.get?_put_self, ← hinputs, ← evaluate_shape hresult]
      rfl
    · rw [Table.get?_put_of_ne _ hid, Table.get?_put_of_ne _ hid]
      exact hold id

theorem inputs_of_reached (hrun : progressAfter catalogue graph before = .ok progress)
    (node : Node) : Node.inputShapes ((graph.sources node.id).map progress.results.get?) =
      graph.inputsAfter catalogue before node := by
  rw [Node.inputShapes, List.filterMap_map, inputsAfter, inputsOf]
  exact List.filterMap_congr fun source _ => shape_of_reached hrun source

theorem declaredType_eq_error_iff {spec : InputSpec} {declared : Value} {fault : Fault} :
    Node.declaredType spec declared = .error fault ↔
      (declared.form = .list ∨ declared.form = .object) ∧ fault = .unhashable declared.form := by
  cases declared <;> simp [Node.declaredType, Value.form, eq_comm (b := fault)]

theorem outputType_eq_error_iff {spec : InputSpec} {params : Fields}
    {feeds : List (Option NodeResult)} {fault : Fault} :
    node.outputType spec params feeds = .error fault ↔
      node.kind = "Input" ∧ Node.declaredType spec (params.get "dtype") = .error fault := by
  unfold Node.outputType
  split
  · rename_i hinput
    have hkind : node.kind = "Input" := hinput
    rw [map_eq_error, and_iff_right hkind]
  · rename_i hinput
    change node.kind ≠ "Input" at hinput
    split <;> simp [hinput]

theorem evaluate_eq_error_iff {spec : InputSpec} {feeds : List (Option NodeResult)}
    {fault : Fault} :
    node.evaluate catalogue spec feeds = .error fault ↔ ∃ layer,
      catalogue.find? node.kind = some layer ∧ node.kind = "Input" ∧
      Node.declaredType spec (Fields.get (layer.resolve node.params) "dtype") = .error fault := by
  unfold Node.evaluate
  cases hfind : catalogue.find? node.kind with
  | none => simp
  | some layer =>
    simp only [Node.evaluateAs, bind_eq_error, outputType_eq_error_iff, Option.some.injEq,
      exists_eq_left', pure, Except.pure, reduceCtorEq, and_false, exists_false, or_false]

theorem label_eq_error_iff {shape : Option Shape} {fault : Fault} :
    Shape.label shape = .error fault ↔
      fault = .integerTooLong ∧ ∃ s, shape = some s ∧ ∃ n ∈ s, isWritable n = false := by
  cases shape with
  | none => simp [Shape.label]
  | some shape =>
    by_cases h : shape.all isWritable = true
    · rw [Shape.label, if_pos h]
      rw [List.all_eq_true] at h
      simp +contextual [h]
    · rw [Shape.label, if_neg h]
      rw [List.all_eq_true] at h
      simpa [eq_comm (b := fault)] using fun _ => h

theorem traceLine_eq_error_iff {shape : Option Shape} {fault : Fault} :
    graph.traceLine node shape = .error fault ↔ Shape.label shape = .error fault := by
  rw [traceLine]
  cases Shape.label shape with
  | error other => simp [bind, Except.bind]
  | ok text =>
    simp only [bind, Except.bind, reduceCtorEq, iff_false]
    split <;> simp [pure, Except.pure]

theorem traceLines_eq_error_iff {shape : Option Shape} {fault : Fault} :
    graph.traceLines catalogue node shape = .error fault ↔
      (catalogue.find? node.kind).isSome ∧ fault = .integerTooLong ∧
        ∃ s, shape = some s ∧ ∃ n ∈ s, isWritable n = false := by
  rw [traceLines]
  split
  · rename_i hknown
    rw [map_eq_error, traceLine_eq_error_iff, label_eq_error_iff, and_iff_right hknown]
  · rename_i hunknown
    simp [hunknown]

theorem breaks_of_advance (hrun : progressAfter catalogue graph before = .ok progress)
    {fault : Fault} (h : graph.advance catalogue progress node = .error fault) :
    Breaks catalogue graph before node fault := by
  rw [advance, bind_eq_error] at h
  rcases h with hevaluate | ⟨result, hresult, hrest⟩
  · obtain ⟨layer, hfind, hinput, htype⟩ := evaluate_eq_error_iff.1 hevaluate
    obtain ⟨hform, rfl⟩ := declaredType_eq_error_iff.1 htype
    exact .type hfind hinput rfl hform
  · rw [bind_eq_error] at hrest
    rcases hrest with htrace | ⟨_, _, hnone⟩
    · obtain ⟨-, rfl, shape, hshape, hlong⟩ := traceLines_eq_error_iff.1 htrace
      rw [evaluate_shape hresult, inputs_of_reached hrun] at hshape
      exact .digits hshape hlong
    · cases hnone

theorem not_breaks_of_advance (hrun : progressAfter catalogue graph before = .ok progress)
    {next : Progress} (h : graph.advance catalogue progress node = .ok next) (fault : Fault) :
    ¬Breaks catalogue graph before node fault := by
  obtain ⟨result, lines, hresult, hlines, -⟩ := advance_eq_ok.1 h
  intro hbreaks
  cases hbreaks with
  | @type layer known input declared given unhashable =>
    have htype : Node.declaredType graph.input (Fields.get (layer.resolve node.params) "dtype") =
        .error (.unhashable declared.form) := by
      rw [given]
      exact declaredType_eq_error_iff.2 ⟨unhashable, rfl⟩
    rw [evaluate_eq_error_iff.2 ⟨layer, known, input, htype⟩] at hresult
    cases hresult
  | @digits shape sized long =>
    have hshape := evaluate_shape hresult
    rw [inputs_of_reached hrun, sized] at hshape
    have hknown : (catalogue.find? node.kind).isSome := by
      unfold Node.outputShape at sized
      split at sized
      · cases sized
      · simp_all
    rw [traceLines_eq_error_iff.2 ⟨hknown, rfl, shape, hshape, long⟩] at hlines
    cases hlines

theorem exists_breaks_of_infer {fault : Fault} (h : graph.infer catalogue = .error fault) :
    ∃ before node after, graph.ordered = before ++ node :: after ∧
      Breaks catalogue graph before node fault := by
  rw [infer, bind_eq_error] at h
  rcases h with hrun | ⟨_, _, hnone⟩
  · obtain ⟨before, node, after, progress, hsplit, hbefore, hstop⟩ := foldlM_eq_error hrun
    exact ⟨before, node, after, hsplit, breaks_of_advance hbefore hstop⟩
  · cases hnone

theorem not_breaks_of_infer {context : Context} (h : graph.infer catalogue = .ok context)
    (hsplit : graph.ordered = before ++ node :: after) (fault : Fault) :
    ¬Breaks catalogue graph before node fault := by
  obtain ⟨final, hrun, -⟩ := infer_eq_ok.1 h
  rw [hsplit] at hrun
  obtain ⟨progress, next, hbefore, hnext, -⟩ := foldlM_split_eq_ok.1 hrun
  exact not_breaks_of_advance hbefore hnext fault

/-- What stands at the end for a node of a known kind. Its shape, its messages and its status are
those of its own layer on its own params and inputs, faults of the layer are messages of an error,
and a graph input without a known element type has that of the input spec. -/
structure Reports (catalogue : Catalogue) (graph : Graph) (before : List Node) (node : Node)
    (layer : Layer) (result : NodeResult) : Prop where
  shape : result.shape =
    node.outputShape catalogue graph.input (graph.inputsAfter catalogue before node)
  remarks : ∃ remarks, remarks = node.remarks layer graph.input (graph.sources node.id).length
      (graph.inputsAfter catalogue before node) ∧
    result.messages = remarks.map (·.message) ∧ result.status = Remark.status remarks
  notSized : ∀ fault, layer.shape (graph.inputsAfter catalogue before node)
      (layer.resolve node.params) = .error fault →
    (Remark.notSized fault).message ∈ result.messages ∧ result.status = .error
  notChecked : ∀ check fault, layer.check = some check →
    check (graph.inputsAfter catalogue before node) (layer.resolve node.params) = .error fault →
    (Remark.notChecked fault).message ∈ result.messages ∧ result.status = .error
  type : node.kind = "Input" →
    (∀ type : ElementType, Fields.get (layer.resolve node.params) "dtype" ≠ .str type.name) →
    result.type = some graph.input.type

theorem declaredType_of_unknown {spec : InputSpec} {declared : Value} {type : ElementType}
    (h : Node.declaredType spec declared = .ok type)
    (hunknown : ∀ type : ElementType, declared ≠ .str type.name) : type = spec.type := by
  cases declared with
  | str s =>
    have hnone : ElementType.ofName? s = none := by
      refine List.find?_eq_none.2 fun type _ hname => hunknown type ?_
      rw [eq_of_beq hname]
    simp only [Node.declaredType, hnone, Option.getD_none, Except.ok.injEq] at h
    exact h.symm
  | list _ | object _ => cases h
  | null | bool _ | int _ | float _ => exact (Except.ok.inj h).symm

theorem reports_of_evaluate {result : NodeResult} {layer : Layer}
    (hrun : progressAfter catalogue graph before = .ok progress)
    (hresult : node.evaluate catalogue graph.input
      ((graph.sources node.id).map progress.results.get?) = .ok result)
    (hfind : catalogue.find? node.kind = some layer) :
    Reports catalogue graph before node layer result := by
  have hshape := evaluate_shape hresult
  rw [inputs_of_reached hrun] at hshape
  simp only [Node.evaluate, hfind] at hresult
  obtain ⟨type, htype, heq⟩ := Node.evaluateAs_eq_ok.1 hresult
  rw [inputs_of_reached hrun, List.length_map] at heq
  have hmessages : ∀ remark : Remark, remark.severity = .error →
      remark ∈ (Node.sized layer (graph.inputsAfter catalogue before node)
          (layer.resolve node.params)).2
        ++ Node.checked layer (graph.inputsAfter catalogue before node)
          (layer.resolve node.params) →
      remark.message ∈ result.messages ∧ result.status = .error := by
    intro remark herror hmem
    have hin : remark ∈ node.remarks layer graph.input (graph.sources node.id).length
        (graph.inputsAfter catalogue before node) := by
      refine Node.mem_complete ?_
      rw [List.append_assoc]
      exact List.mem_append_right _ hmem
    rw [heq]
    exact ⟨List.mem_map_of_mem hin, (Remark.status_eq_error_iff _).2 ⟨remark, hin, herror⟩⟩
  refine ⟨hshape, ⟨_, rfl, by rw [heq]; rfl, by rw [heq]; rfl⟩, fun fault hfault => ?_,
    fun check fault hcheck hfault => ?_, fun hinput hunknown => ?_⟩
  · exact hmessages (.notSized fault) rfl (by simp [Node.sized, hfault])
  · exact hmessages (.notChecked fault) rfl (by simp [Node.checked, hcheck, hfault])
  · have hkind : node.kind = Graph.inputKind := hinput
    rw [Node.outputType, if_pos hkind] at htype
    obtain ⟨declared, hdeclared, rfl⟩ := map_eq_ok.1 htype
    rw [heq]
    exact congrArg some (declaredType_of_unknown hdeclared hunknown)

/-- Inference gives a result exactly if no node has a list or an object as the element type of a
graph input, or a shape that is too long to be written; its faults are these two. In a result, what
is wrong with a node is said of that node alone. -/
theorem infer_returns (catalogue : Catalogue) (graph : Graph) :
    ((∃ context, graph.infer catalogue = .ok context) ↔
      ∀ before node after, graph.ordered = before ++ node :: after →
        ∀ fault, ¬Breaks catalogue graph before node fault) ∧
    (∀ fault, graph.infer catalogue = .error fault →
      ∃ before node after, graph.ordered = before ++ node :: after ∧
        Breaks catalogue graph before node fault) ∧
    ∀ context, graph.infer catalogue = .ok context →
      (∀ id ∈ graph.cyclic, context.results.get? id = some (Node.cycleResult id)) ∧
      ∀ before node after, graph.ordered = before ++ node :: after →
        ∃ result, context.results.get? node.id = some result ∧
          match catalogue.find? node.kind with
          | none => result = node.result none none [.unknownKind node.kind]
          | some layer => Reports catalogue graph before node layer result := by
  refine ⟨⟨?_, fun hnone => ?_⟩, fun fault hfault => exists_breaks_of_infer hfault,
    fun context hinfer => ⟨fun id hid => get?_of_cyclic hinfer hid,
      fun before node after hsplit => ?_⟩⟩
  · intro hgiven before node after hsplit fault
    obtain ⟨context, hinfer⟩ := hgiven
    exact not_breaks_of_infer hinfer hsplit fault
  · cases hinfer : graph.infer catalogue with
    | ok context => exact ⟨context, rfl⟩
    | error fault =>
      obtain ⟨before, node, after, hsplit, hbreaks⟩ := exists_breaks_of_infer hinfer
      exact absurd hbreaks (hnone before node after hsplit fault)
  · obtain ⟨progress, result, hturn⟩ := exists_turn hinfer hsplit
    refine ⟨result, hturn.kept, ?_⟩
    cases hfind : catalogue.find? node.kind with
    | none =>
      have hresult := hturn.evaluated
      rw [Node.evaluate, hfind] at hresult
      exact (Except.ok.inj hresult).symm
    | some layer => exact reports_of_evaluate hturn.reached hturn.evaluated hfind

def listType : Graph := { nodes := [⟨"in", "Input", "", [("dtype", .list [])]⟩] }

theorem listType_not_inferred :
    listType.ids.Nodup ∧ listType.infer Catalogue.standard = .error (.unhashable .list) ∧
      ¬∃ context, listType.infer Catalogue.standard = .ok context := by
  have hinfer : listType.infer Catalogue.standard = .error (.unhashable .list) := by
    decide +kernel
  refine ⟨by decide, hinfer, ?_⟩
  rw [hinfer]
  simp

end Graph

end LayerGraph
