import LayerGraph.Proofs.Program.Diagnostics
set_option autoImplicit false

namespace LayerGraph

namespace Graph

variable {graph : Graph} {context : Context}

theorem take_prefix_visit (targets : String → List String) (n : Nat) (pending : Pending)
    (queue : List String) : queue.take n <+: visit targets n pending queue := by
  induction n generalizing pending queue with
  | zero => simp
  | succ n ih =>
    cases queue with
    | nil => simp
    | cons id queue =>
      rw [List.take_succ_cons, visit]
      refine List.cons_prefix_cons.2 ⟨rfl, List.IsPrefix.trans ?_ (ih _ _)⟩
      rw [List.take_append]
      exact List.prefix_append _ _

theorem seeds_prefix_visited (graph : Graph) : seeds graph.inner graph.ids <+: graph.visited := by
  have hlength : (seeds graph.inner graph.ids).length ≤ graph.nodes.length := by
    have hids := List.length_filter_le (fun id => inDegree graph.inner id == 0) graph.ids
    rwa [ids, List.length_map] at hids
  have hprefix := take_prefix_visit (targets graph.inner) graph.nodes.length
    (inDegree graph.inner) (seeds graph.inner graph.ids)
  rwa [List.take_of_length_le hlength] at hprefix

theorem inDegree_inner (graph : Graph) (id : String) :
    inDegree graph.inner id = ((graph.feeders id).length : Int) := by
  rw [inDegree, feeders, List.length_map, List.countP_eq_length_filter]

theorem feeders_of_isInput (hids : graph.ids.Nodup)
    (hinfer : graph.infer Catalogue.standard = .ok context) (hclean : context.hasErrors = false)
    {node : Node} (hnode : node ∈ graph.nodes) (hin : node.isInput = true) :
    graph.feeders node.id = [] := by
  obtain ⟨before, after, progress, result, layer, hsplit, h⟩ :=
    exists_evaluated_of_mem hids hinfer hclean hnode
  have hlayer : layer = Layer.input := by
    have hknown := h.sound.known
    rw [(Node.isInput_iff node).1 hin] at hknown
    exact (Option.some.inj hknown).symm
  have hmost := h.sound.most 0 (by rw [hlayer]; rfl)
  have hlength := congrArg List.length (h.shapes hids hinfer hclean hsplit)
  simp only [List.length_map] at hlength
  exact List.eq_nil_of_length_eq_zero (by omega)

/-- In a graph without errors the inputs are evaluated in the order of declaration. -/
theorem filter_isInput_ordered (hids : graph.ids.Nodup)
    (hinfer : graph.infer Catalogue.standard = .ok context) (hclean : context.hasErrors = false) :
    graph.ordered.filter (·.isInput) = graph.nodes.filter (·.isInput) := by
  let ready : String → Bool := fun id => inDegree graph.inner id == 0
  have hready : ∀ node ∈ graph.nodes, node.isInput = true → ready node.id = true := by
    intro node hnode hin
    simp [ready, inDegree_inner, feeders_of_isInput hids hinfer hclean hnode hin]
  have hseeds : (seeds graph.inner graph.ids).filterMap graph.node? =
      graph.nodes.filter fun node => ready node.id := filterMap_node? hids ready
  obtain ⟨rest, hvisited⟩ := seeds_prefix_visited graph
  have hrest : (rest.filterMap graph.node?).filter (·.isInput) = [] := by
    refine List.filter_eq_nil_iff.2 fun node hnode hin => ?_
    obtain ⟨id, hid, hfind⟩ := List.mem_filterMap.1 hnode
    have hmem : node ∈ graph.nodes := List.mem_reverse.1 (List.mem_of_find?_eq_some hfind)
    obtain rfl : node.id = id := by simpa using List.find?_some hfind
    have hseed : node.id ∈ seeds graph.inner graph.ids :=
      List.mem_filter.2 ⟨List.mem_map_of_mem hmem, hready node hmem hin⟩
    have hnodup := visited_nodup hids
    rw [← hvisited, List.nodup_append] at hnodup
    exact hnodup.2.2 _ hseed _ hid rfl
  rw [ordered, ← hvisited, List.filterMap_append, List.filter_append, hrest, List.append_nil,
    hseeds, List.filter_filter]
  refine List.filter_congr fun node hnode => ?_
  cases hin : node.isInput with
  | false => rfl
  | true => simp [hready node hnode hin]

end Graph

namespace Program

open LayerGraph.Graph

variable {graph : Graph} {context : Context}

/-- The sample is a random tensor of the shape and the element type that a node was given. -/
def SampleOf (context : Context) (node : Node) (sample : String) : Prop :=
  ∃ result shape type, context.results.get? node.id = some result ∧ result.shape = some shape ∧
    result.type = some type ∧ sample = tensorText (sampleSizes shape) type.isIntegral

/-- What inference gives an input of a graph without errors: a shape, which is empty only if that
of the input spec is, and an element type. -/
theorem exists_input_result (hids : graph.ids.Nodup)
    (hinfer : graph.infer Catalogue.standard = .ok context) (hclean : context.hasErrors = false)
    {node : Node} (hnode : node ∈ graph.nodes) (hin : node.isInput = true) :
    ∃ result shape type, context.results.get? node.id = some result ∧ result.shape = some shape ∧
      result.type = some type ∧ (shape = [] → graph.input.shape = []) := by
  obtain ⟨before, after, progress, result, layer, hsplit, h⟩ :=
    exists_evaluated_of_mem hids hinfer hclean hnode
  have hkind : node.kind = inputKind := (Node.isInput_iff node).1 hin
  obtain ⟨shape, hshape⟩ := Option.isSome_iff_exists.1 h.sound.shaped
  obtain ⟨size, -, hsized⟩ := h.sound.sized
  have htype : ∃ type, result.type = some type := by
    have hevaluated := h.evaluated
    rw [Node.evaluate, h.sound.known] at hevaluated
    obtain ⟨type, htype, rfl⟩ := Node.evaluateAs_eq_ok.1 hevaluated
    rw [Node.outputType, if_pos hkind, map_eq_ok] at htype
    obtain ⟨declared, -, rfl⟩ := htype
    exact ⟨declared, rfl⟩
  obtain ⟨type, htype⟩ := htype
  refine ⟨result, shape, type, h.kept, hshape, htype, fun hempty => ?_⟩
  rw [hshape, hempty, Node.inputShape] at hsized
  split at hsized
  · exact (Option.some.inj hsized).symm
  · rename_i hown
    exact absurd ⟨hkind, by rw [← hsized]; rfl⟩ hown

theorem sampleOf_of_inputSample (hids : graph.ids.Nodup)
    (hinfer : graph.infer Catalogue.standard = .ok context) (hclean : context.hasErrors = false)
    {node : Node} (hnode : node ∈ graph.nodes) (hin : node.isInput = true) {sample : String}
    (h : inputSample graph context node = .ok sample) : SampleOf context node sample := by
  obtain ⟨result, shape, type, hresult, hshape, htype, hempty⟩ :=
    exists_input_result hids hinfer hclean hnode hin
  have hsample : inputSample graph context node = sampleText shape type.isIntegral := by
    simp only [inputSample, hresult, hshape, htype, Option.any_some]
    cases shape with
    | nil => rw [hempty rfl]
    | cons _ _ => rfl
  rw [hsample, sampleText_eq_ok] at h
  exact ⟨result, shape, type, hresult, hshape, htype, h.2⟩

/-- There is a sample for each input in the order of declaration, made from what inference gave that
input, or one made from the input spec if there are no inputs. -/
structure Sampled (graph : Graph) (context : Context) (samples : List String) : Prop where
  count : samples.length = max 1 (graph.nodes.filter (·.isInput)).length
  each : graph.nodes.filter (·.isInput) ≠ [] →
    List.Forall₂ (SampleOf context) (graph.nodes.filter (·.isInput)) samples
  lone : graph.nodes.filter (·.isInput) = [] →
    samples = [tensorText (sampleSizes graph.input.shape) graph.input.type.isIntegral]

theorem sampled_of_sampleTexts (hids : graph.ids.Nodup)
    (hinfer : graph.infer Catalogue.standard = .ok context) (hclean : context.hasErrors = false)
    {samples : List String} (h : sampleTexts graph context = .ok samples) :
    Sampled graph context samples := by
  change ((graph.nodes.filter (·.isInput)).mapM (inputSample graph context) >>= fun made =>
    if made.isEmpty then _ else _) = _ at h
  obtain ⟨made, hmade, hsamples⟩ := bind_eq_ok.1 h
  have heach : List.Forall₂ (SampleOf context) (graph.nodes.filter (·.isInput)) made := by
    have hall : ∀ node ∈ graph.nodes.filter (·.isInput),
        node ∈ graph.nodes ∧ node.isInput = true := fun node hnode => List.mem_filter.1 hnode
    refine ((List.forall₂_and_left _ _).2 ⟨hall, mapM_eq_ok_iff.1 hmade⟩).imp ?_
    intro node sample hgiven
    exact sampleOf_of_inputSample hids hinfer hclean hgiven.1.1 hgiven.1.2 hgiven.2
  have hlength := heach.length_eq
  cases made with
  | nil =>
    have hnone : graph.nodes.filter (·.isInput) = [] := List.eq_nil_of_length_eq_zero hlength
    simp only [List.isEmpty_nil, ↓reduceIte, bind_eq_ok, sampleText_eq_ok, pure, Except.pure,
      Except.ok.injEq] at hsamples
    obtain ⟨text, ⟨-, rfl⟩, rfl⟩ := hsamples
    exact ⟨by rw [hnone]; rfl, fun hsome => absurd hnone hsome, fun _ => rfl⟩
  | cons first rest =>
    obtain rfl : first :: rest = samples := Except.ok.inj hsamples
    have hpos : (graph.nodes.filter (·.isInput)).length = rest.length + 1 := hlength
    refine ⟨by rw [hpos, List.length_cons]; omega, fun _ => heach, fun hnone => ?_⟩
    rw [hnone] at hpos
    simp at hpos

def outputOf? (line : String) : Option String :=
  let cs := line.toList.dropWhile (· == ' ')
  if "outputs = ".toList.isPrefixOf cs then some (String.ofList (cs.drop "outputs = ".length))
  else none

def modelCalls (ls : List String) : List String := ls.filterMap outputOf?

theorem modelCalls_trainingLines (training : Training) (multi : Bool) :
    modelCalls (trainingLines training multi) =
      List.replicate 2 (if multi then "model(*inputs)" else "model(inputs)") := by
  have hcases : ∀ mixed multi, modelCalls (trainingLines { mixedPrecision := mixed } multi) =
      List.replicate 2 (if multi then "model(*inputs)" else "model(inputs)") := by
    decide +kernel
  -- The training loop depends on nothing else of the training.
  exact hcases training.mixedPrecision multi

/-- The signature of the model, its calls in the training loop and the samples all stand for one
input, or all of them stand for several. -/
inductive Alike (inputs : Nat) (model : Model) (training : Training) (samples : List String) :
    Prop where
  | one (hinputs : inputs ≤ 1) (hsignature : model.signature = "def forward(self, x):")
      (hcalls : modelCalls (trainingLines training model.multiInput) =
        ["model(inputs)", "model(inputs)"])
      (hsamples : samples = [samplesText samples])
  | several (hinputs : 1 < inputs) (hsignature : model.signature = "def forward(self, *inputs):")
      (hcalls : modelCalls (trainingLines training model.multiInput) =
        ["model(*inputs)", "model(*inputs)"])
      (hsamples : samplesText samples = "[" ++ ", ".intercalate samples ++ "]")

theorem alike_of_length {model : Model} {samples : List String} (training : Training)
    (h : samples.length = max 1 model.inputs.length) :
    Alike model.inputs.length model training samples := by
  by_cases hmulti : 1 < model.inputs.length
  · have hinput : model.multiInput = true := decide_eq_true hmulti
    refine .several hmulti (by rw [Model.signature, hinput]; rfl)
      (by rw [hinput, modelCalls_trainingLines]; rfl) ?_
    match samples, h with
    | [], h | [_], h => simp at h; omega
    | _ :: _ :: _, _ => rfl
  · have hinput : model.multiInput = false := decide_eq_false hmulti
    refine .one (by omega) (by rw [Model.signature, hinput]; rfl)
      (by rw [hinput, modelCalls_trainingLines]; rfl) ?_
    obtain ⟨sample, rfl⟩ := List.length_eq_one_iff.1 (h.trans (by omega))
    rfl

theorem infix_datasetLines {samples : List String} {target : String} {size : Int}
    {dataset : List String} (h : datasetLines samples target size = .ok dataset) :
    Text.lines ("        sample = " ++ samplesText samples) <:+: dataset := by
  simp only [datasetLines, bind_eq_ok, pure, Except.pure, Except.ok.injEq] at h
  obtain ⟨shown, -, rfl⟩ := h
  rw [List.append_assoc]
  exact List.infix_append _ _ _

theorem signature_mem_render (model : Model) :
    Text.indentLine 1 model.signature ∈ model.render := by
  simp only [Model.render, Text.indent, List.map_append, List.map_cons, List.mem_append,
    List.mem_cons, true_or, or_true]

structure Fits (graph : Graph) (context : Context) (draft : Draft) (samples : List String) :
    Prop where
  inputs : draft.model.inputs =
    (List.range (graph.nodes.filter (·.isInput)).length).map inputName
  fed : (graph.nodes.filter (·.isInput)).map (fun node => draft.tensors.get? node.id) =
    draft.model.inputs.map some
  sampled : Sampled graph context samples
  count : samples.length = max 1 draft.model.inputs.length
  signature : Text.indentLine 1 draft.model.signature ∈ draft.model.render
  alike : Alike draft.model.inputs.length draft.model graph.training samples

/-- The model and the data set of a graph without errors fit, and every program that is generated
for the graph is made of them. -/
theorem dataset_fits {graph : Graph} {context : Context} (hids : graph.ids.Nodup)
    (hinfer : graph.infer Catalogue.standard = .ok context) (hclean : context.hasErrors = false)
    (settings : Settings) :
    graph.ordered.filter (·.isInput) = graph.nodes.filter (·.isInput) ∧
    (∀ draft samples,
      Draft.ofGraph Catalogue.standard graph settings.className = .ok draft →
      sampleTexts graph context = .ok samples → Fits graph context draft samples) ∧
    (graph.toValue.writable = true → isWritable settings.datasetSize = true →
      graph.nestsWithin settings.nesting = true →
      ∃ emission, emit Catalogue.standard graph settings = .ok emission) ∧
    ∀ emission, emit Catalogue.standard graph settings = .ok emission →
      ∃ draft samples target dataset main,
        Draft.ofGraph Catalogue.standard graph settings.className = .ok draft ∧
        sampleTexts graph context = .ok samples ∧
        datasetLines samples target settings.datasetSize = .ok dataset ∧
        Text.lines ("        sample = " ++ samplesText samples) <:+: dataset ∧
        emission.code = Text.unlines (joinSections
          ([importLines ++ [""] ++ headerLines graph.document settings.now]
            ++ (if draft.model.residual then [residualLines] else [])
            ++ [draft.model.render, trainingLines graph.training draft.model.multiInput, dataset,
              main])
          ++ [""]) := by
  have hordered := filter_isInput_ordered hids hinfer hclean
  refine ⟨hordered, fun draft samples hdraft hsamples => ?_, fun hgraph hsize hnests => ?_,
    fun emission hemit => ?_⟩
  · have hdrafted := Draft.Drafted.run hids (List.append_nil _).symm hdraft
    have hsampled := sampled_of_sampleTexts hids hinfer hclean hsamples
    have hinputs := hdrafted.inputs
    have hfed := hdrafted.fed
    rw [hordered] at hinputs hfed
    have hcount : samples.length = max 1 draft.model.inputs.length := by
      rw [hinputs, List.length_map, List.length_range, hsampled.count]
    exact ⟨hinputs, hfed, hsampled, hcount, signature_mem_render draft.model,
      alike_of_length graph.training hcount⟩
  · obtain ⟨emission, hemit, -⟩ := generated_of_clean hgraph hnests hsize hinfer hclean
    exact ⟨emission, emit_eq_ok.2 ⟨context, hinfer, hemit⟩⟩
  · obtain ⟨context', hinfer', hwith⟩ := emit_eq_ok.1 hemit
    obtain rfl : context' = context := Except.ok.inj (hinfer'.symm.trans hinfer)
    obtain ⟨draft, ls, hdraft, hls, rfl⟩ := (emitWith_of_clean hclean).1 hwith
    obtain ⟨samples, target, dataset, main, hsamples, -, -, hdataset, -, rfl⟩ :=
      scriptLines_eq_ok.1 hls
    exact ⟨draft, samples, target, dataset, main, hdraft, hsamples, hdataset,
      infix_datasetLines hdataset, rfl⟩

/-- Two inputs of different shapes and types, declared after the node that they lead into, one of
them with an edge from nowhere. -/
def pairing : Graph where
  nodes := [⟨"cat", "Concat", "", [("dim", .int 1)]⟩,
    ⟨"ids", "Input", "",
      [("shape", .list [.int (-1), .int 4, .int (-1)]), ("dtype", .str "int64")]⟩,
    ⟨"mask", "Input", "", [("shape", .list [.int (-1), .int 2, .int (-1)])]⟩]
  edges := [⟨"1", "mask", "cat", none⟩, ⟨"2", "ids", "cat", none⟩, ⟨"3", "ghost", "ids", none⟩]

theorem pairing_fits :
    pairing.ids.Nodup ∧ ∃ context draft samples, pairing.infer Catalogue.standard = .ok context ∧
      context.hasErrors = false ∧
      Draft.ofGraph Catalogue.standard pairing "Net" = .ok draft ∧
      sampleTexts pairing context = .ok samples ∧
      samples = ["torch.randint(0, 2, (4, 1))", "torch.randn((2, 1))"] ∧
      Fits pairing context draft samples := by
  have hids : pairing.ids.Nodup := by decide
  have hclean : (pairing.infer Catalogue.standard).map (·.hasErrors) = .ok false :=
    eq_ok_of_toOption (by decide +kernel)
  have hmade : (pairing.infer Catalogue.standard >>= fun context => sampleTexts pairing context) =
      .ok ["torch.randint(0, 2, (4, 1))", "torch.randn((2, 1))"] :=
    eq_ok_of_toOption (by decide +kernel)
  have hdrafted : (Draft.ofGraph Catalogue.standard pairing "Net").map (·.model.inputs) =
      .ok ["x", "x_1"] := eq_ok_of_toOption (by decide +kernel)
  obtain ⟨context, hinfer, hsamples⟩ := bind_eq_ok.1 hmade
  obtain ⟨draft, hdraft, -⟩ := map_eq_ok.1 hdrafted
  rw [hinfer] at hclean
  obtain ⟨-, hfits, -⟩ := dataset_fits hids hinfer (Except.ok.inj hclean)
    { dated with className := "Net" }
  exact ⟨hids, context, draft, _, hinfer, Except.ok.inj hclean, hdraft, hsamples, rfl,
    hfits draft _ hdraft hsamples⟩

end Program

end LayerGraph
