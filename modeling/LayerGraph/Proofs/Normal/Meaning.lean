import LayerGraph.Proofs.Layer.Defaults
import LayerGraph.Proofs.Normal.Idempotent
set_option autoImplicit false

namespace LayerGraph

def Param.admits (p : Param) (v : Value) : Bool := v == .null || p.accepts v

namespace Node

/-- A node of a standard kind whose parameters are of their types where they are given. -/
def typed (node : Node) : Bool :=
  match Catalogue.standard.find? node.kind with
  | none => false
  | some layer => layer.schema.all fun (key, p) => (node.params.get? key).all p.admits

def paddingWritable (node : Node) : Bool :=
  node.kind != "Conv2d" || (node.params.get? "padding").all Value.writable

def strideUnset (node : Node) : Bool :=
  (node.kind == "MaxPool2d" || node.kind == "AvgPool2d") && node.params.get? "stride" == some .null

variable {node node' : Node} {layer : Layer}

theorem exists_layer (h : node.typed = true) :
    ∃ layer, Catalogue.standard.find? node.kind = some layer ∧
      ∀ entry ∈ layer.schema, (node.params.get? entry.1).all entry.2.admits = true := by
  unfold typed at h
  split at h
  · cases h
  · rename_i layer hfind
    exact ⟨layer, hfind, List.all_eq_true.1 h⟩

theorem spelled_kind (hfind : Catalogue.standard.find? node.kind = some layer) :
    Normal.Spelled node.kind := by
  obtain ⟨hmem, hkind⟩ := Catalogue.find?_spec hfind
  exact hkind ▸ Normal.spelled_of_mem layer hmem

end Node

namespace Normal

theorem value_of_admits {p : Param} {v : Value} (h : p.admits v = true) :
    value p v = .ok (p.fill v) := by
  rw [Param.fill]
  split
  · rename_i hnull
    rw [hnull, value_null]
  · rename_i hgiven
    have haccepts : p.accepts v = true := by
      simpa [Param.admits, hgiven] using h
    exact value_of_accepts haccepts

/-- Parameters that are null or of their types become what they stand for. -/
theorem ofSchema_of_admits {schema : Schema} {params : Fields}
    (h : ∀ entry ∈ schema, (params.get? entry.1).all entry.2.admits = true) :
    ofSchema schema params = .ok (schema.fill params) := by
  refine ofSchema_eq_ok.2 (List.forall₂_map_right_iff.2 (List.forall₂_same.2 ?_))
  intro entry hentry
  refine ⟨rfl, ?_⟩
  have hadmits := h entry hentry
  cases hget : params.get? entry.1 with
  | none =>
    rw [given, hget, Option.getD_none, Param.fill, ite_self]
  | some v =>
    rw [hget, Option.all_some] at hadmits
    rw [given, hget, Option.getD_some]
    exact value_of_admits hadmits

/-- The padding of a typed convolution is no word, and is kept if it can be written. -/
theorem samePadding_eq_ok_iff {params next : Fields}
    (h : (params.get? "padding").all (Layer.sizeParam "Padding" 0 0).admits = true) :
    samePadding params = .ok next ↔
      next = params ∧ (params.get? "padding").all Value.writable = true := by
  cases hget : params.get? "padding" with
  | none =>
    have hsame : samePadding params = .ok params := by
      have hempty : Text.lower (Text.trim "") ≠ "same" := by decide +kernel
      simp only [samePadding, hget, Option.getD_none, Value.display, bind, Except.bind]
      rw [if_neg hempty]
      rfl
    simp [hsame, eq_comm]
  | some v =>
    rw [hget, Option.all_some] at h
    have hform : v.form ≠ .text := by
      intro htext
      cases v with
      | str s => cases h
      | _ => cases htext
    rw [Option.all_some]
    cases hv : v.writable with
    | true => simp [samePadding_of_get? hget hform hv, eq_comm]
    | false =>
      have hdisplay : v.display = .error .integerTooLong := by
        have hwrite : v.write = .error .integerTooLong := by simp [Value.write, hv]
        cases v with
        | str s => exact absurd rfl hform
        | _ => exact hwrite
      simp [samePadding, hget, hdisplay, bind, Except.bind]

end Normal

namespace Node

variable {node node' : Node} {layer : Layer}

theorem params_typed (h : node.typed = true)
    (hfind : Catalogue.standard.find? node.kind = some layer) {fields : Fields} :
    Normal.params Catalogue.standard node.kind node.params = .ok fields ↔
      node.paddingWritable = true ∧ fields = layer.schema.fill node.params := by
  obtain ⟨layer', hfind', hparams⟩ := exists_layer h
  obtain rfl : layer' = layer := Option.some.inj (hfind'.symm.trans hfind)
  have hschema := Normal.ofSchema_of_admits hparams
  rw [Normal.params_of_find? hfind, paddingWritable]
  by_cases hconv : node.kind = "Conv2d"
  · obtain rfl : layer' = Layer.convolution := by
      rw [hconv, Normal.find?_convolution] at hfind
      exact (Option.some.inj hfind).symm
    have hpadding := hparams ("padding", Layer.sizeParam "Padding" 0 0) (Table.mem_of_get? rfl)
    rw [if_pos hconv, hconv, bne_self_eq_false, Bool.false_or]
    constructor
    · rintro ⟨next, hnext, hfilled⟩
      obtain ⟨rfl, hwritable⟩ := (Normal.samePadding_eq_ok_iff hpadding).1 hnext
      exact ⟨hwritable, Except.ok.inj (hfilled.symm.trans hschema)⟩
    · rintro ⟨hwritable, rfl⟩
      exact ⟨_, (Normal.samePadding_eq_ok_iff hpadding).2 ⟨rfl, hwritable⟩, hschema⟩
  · rw [if_neg hconv, bne_iff_ne.2 hconv, Bool.true_or]
    constructor
    · rintro ⟨next, hnext, hfilled⟩
      cases hnext
      exact ⟨rfl, Except.ok.inj (hfilled.symm.trans hschema)⟩
    · rintro ⟨-, rfl⟩
      exact ⟨_, rfl, hschema⟩

theorem normalize_typed (h : node.typed = true)
    (hfind : Catalogue.standard.find? node.kind = some layer) :
    node.normalize Catalogue.standard = .ok node' ↔ node.paddingWritable = true ∧
      node' = ⟨node.id, node.kind, if node.label.isEmpty then node.kind else node.label,
        layer.schema.fill node.params⟩ := by
  have hkind := Normal.kind_of_spelled (spelled_kind hfind) node.params
  obtain ⟨id, kind, label, params⟩ := node'
  simp only [normalize_eq_ok, hkind, Except.ok.injEq, Node.mk.injEq]
  constructor
  · rintro ⟨rfl, rfl, hparams, rfl⟩
    obtain ⟨hwritable, rfl⟩ := (params_typed h hfind).1 hparams
    exact ⟨hwritable, rfl, rfl, rfl, rfl⟩
  · rintro ⟨hwritable, rfl, rfl, rfl, rfl⟩
    exact ⟨rfl, rfl, (params_typed h hfind).2 ⟨hwritable, rfl⟩, rfl⟩

theorem pool_of_strideUnset (hfind : Catalogue.standard.find? node.kind = some layer)
    (h : node.strideUnset = true) : layer = Layer.maxPool ∨ layer = Layer.avgPool := by
  simp only [strideUnset, Bool.and_eq_true, Bool.or_eq_true, beq_iff_eq] at h
  rcases h.1 with hkind | hkind
  · rw [hkind] at hfind
    exact .inl (Option.some.inj hfind).symm
  · rw [hkind] at hfind
    exact .inr (Option.some.inj hfind).symm

theorem Sound.pooled {spec : InputSpec} {inputs : List Shape} {shape : Option Shape}
    (h : Sound Catalogue.standard spec node inputs shape layer)
    (hpool : layer = Layer.maxPool ∨ layer = Layer.avgPool) :
    layer.shape inputs (layer.resolve node.params) = .ok shape := by
  have hinput : node.kind ≠ Graph.inputKind := by
    rw [← (Catalogue.find?_spec h.known).2]
    rcases hpool with rfl | rfl
    · decide
    · decide
  obtain ⟨size, hsize, rfl⟩ := h.sized
  rw [hsize, inputShape_of_ne hinput]

structure Filled (node node' : Node) : Prop where
  id : node'.id = node.id
  kind : node'.kind = node.kind
  params : ∀ layer, Catalogue.standard.find? node.kind = some layer →
    node'.params = layer.schema.fill node.params

namespace Filled

theorem fills (h : node.Filled node') (hfind : Catalogue.standard.find? node.kind = some layer) :
    layer.schema.Fills (layer.resolve node.params) (layer.resolve node'.params) := by
  rw [h.params layer hfind]
  exact layer.schema.fills_fill node.params

/-- A pooling node is sized as before, or as with a stride of two if its stride is null. -/
theorem pooled (h : node.Filled node') (hfind : Catalogue.standard.find? node.kind = some layer)
    (hpool : layer = Layer.maxPool ∨ layer = Layer.avgPool) (inputs : List Shape) :
    layer.shape inputs (layer.resolve node'.params) =
      layer.shape inputs (layer.resolve
        (if node.strideUnset then node.params.put "stride" (.int 2) else node.params)) := by
  obtain ⟨-, hkind⟩ := Catalogue.find?_spec hfind
  have hunset : node.strideUnset = true ↔ node.params.get? "stride" = some .null := by
    rcases hpool with rfl | rfl
    · simp [strideUnset, ← hkind, Layer.maxPool, Layer.pool]
    · simp [strideUnset, ← hkind, Layer.avgPool, Layer.pool]
  rw [h.params layer hfind]
  split
  · rename_i hnull
    rcases hpool with rfl | rfl
    · exact Layer.Sizing.pool_fill_unset _ _ (hunset.1 hnull) inputs
    · exact Layer.Sizing.pool_fill_unset _ _ (hunset.1 hnull) inputs
  · rename_i hset
    rcases hpool with rfl | rfl
    · exact Layer.Sizing.pool_fill _ _ (fun hnull => hset (hunset.2 hnull)) inputs
    · exact Layer.Sizing.pool_fill _ _ (fun hnull => hset (hunset.2 hnull)) inputs

theorem sized (h : node.Filled node') (hfind : Catalogue.standard.find? node.kind = some layer)
    {inputs : List Shape} {size : Option Shape}
    (hstride : node.strideUnset = true →
      layer.shape inputs (layer.resolve (node.params.put "stride" (.int 2))) =
        layer.shape inputs (layer.resolve node.params))
    (hsize : layer.shape inputs (layer.resolve node.params) = .ok size) :
    layer.shape inputs (layer.resolve node'.params) = .ok size := by
  by_cases hpool : layer = Layer.maxPool ∨ layer = Layer.avgPool
  · rw [h.pooled hfind hpool inputs]
    split
    · rename_i hunset
      rw [hstride hunset, hsize]
    · exact hsize
  · obtain ⟨hmax, havg⟩ := not_or.1 hpool
    have hsteady := Catalogue.standard_steady (List.mem_of_find?_eq_some hfind) hmax havg
    exact hsteady.shape inputs _ _ size (h.fills hfind) hsize

theorem checked (h : node.Filled node') (hfind : Catalogue.standard.find? node.kind = some layer)
    {check : CheckRule} (hcheck : layer.check = some check) {inputs : List Shape}
    {findings : List Finding}
    (hfindings : check inputs (layer.resolve node.params) = .ok findings) :
    check inputs (layer.resolve node'.params) = .ok findings := by
  have hmax : layer ≠ Layer.maxPool := by
    rintro rfl
    cases hcheck
  have havg : layer ≠ Layer.avgPool := by
    rintro rfl
    cases hcheck
  have hsteady := Catalogue.standard_steady (List.mem_of_find?_eq_some hfind) hmax havg
  exact hsteady.check check hcheck inputs _ _ findings (h.fills hfind) hfindings

theorem dtype (h : node.Filled node') (hfind : Catalogue.standard.find? node.kind = some layer)
    (hinput : node.kind = Graph.inputKind) :
    Fields.get (layer.resolve node'.params) "dtype" =
      Fields.get (layer.resolve node.params) "dtype" := by
  have hfills := h.fills hfind
  rw [hinput] at hfind
  obtain rfl : Layer.input = layer := Option.some.inj hfind
  exact hfills.get_eq "dtype" rfl rfl

end Filled

theorem filled_of_normalize (htyped : node.typed = true)
    (h : node.normalize Catalogue.standard = .ok node') :
    node.paddingWritable = true ∧ node.Filled node' := by
  obtain ⟨layer, hfind, -⟩ := exists_layer htyped
  obtain ⟨hpadding, rfl⟩ := (normalize_typed htyped hfind).1 h
  refine ⟨hpadding, rfl, rfl, fun layer' hfind' => ?_⟩
  rw [hfind] at hfind'
  cases hfind'
  rfl

end Node

namespace Graph

variable {graph normal : Graph} {context : Context}

/-- What normalization makes of a graph with typed nodes. -/
structure Filled (graph normal : Graph) : Prop where
  nodes : List.Forall₂ Node.Filled graph.nodes normal.nodes
  edges : normal.edges = graph.inner
  input : normal.input = graph.input

theorem exists_normalize (htyped : ∀ node ∈ graph.nodes, node.typed = true)
    (hpadding : ∀ node ∈ graph.nodes, node.paddingWritable = true) :
    ∃ normal, graph.normalize Catalogue.standard = .ok normal := by
  have hnode : ∀ node ∈ graph.nodes, ∃ node', node.normalize Catalogue.standard = .ok node' := by
    intro node hmem
    obtain ⟨layer, hfind, -⟩ := Node.exists_layer (htyped node hmem)
    exact ⟨_, (Node.normalize_typed (htyped node hmem) hfind).2 ⟨hpadding node hmem, rfl⟩⟩
  obtain ⟨nodes, hnodes⟩ := exists_mapM_eq_ok hnode
  exact ⟨_, normalize_eq_ok.2 ⟨nodes, mapM_eq_ok_iff.1 hnodes, rfl⟩⟩

theorem filled_of_normalize (htyped : ∀ node ∈ graph.nodes, node.typed = true)
    (h : graph.normalize Catalogue.standard = .ok normal) :
    (∀ node ∈ graph.nodes, node.paddingWritable = true) ∧ graph.Filled normal := by
  obtain ⟨nodes, hnodes, rfl⟩ := normalize_eq_ok.1 h
  have hboth : List.Forall₂ (fun node node' : Node =>
      node.paddingWritable = true ∧ node.Filled node') graph.nodes nodes :=
    ((List.forall₂_and_left _ _).2 ⟨htyped, hnodes⟩).imp fun _ _ hnode =>
      Node.filled_of_normalize hnode.1 hnode.2
  obtain ⟨hpadding, hfilled⟩ := (List.forall₂_and_left _ _).1 hboth
  exact ⟨hpadding, hfilled, rfl, rfl⟩

theorem Filled.parallel (h : graph.Filled normal) : Parallel Node.Filled graph normal := by
  have hids := ids_eq h.nodes fun _ _ hnode => hnode.id
  refine ⟨h.nodes, fun _ _ hnode => hnode.id, ?_⟩
  simp only [Graph.inner, h.edges, declares_congr hids]
  exact List.filter_eq_self.2 fun e he => (List.mem_filter.1 he).2

theorem Filled.sources (h : graph.Filled normal) (id : String) :
    normal.sources id = graph.feeders id := by
  rw [Graph.sources, incoming, h.edges]
  rfl

theorem drops_feeders {results : Table NodeResult} {id : String} (hid : id ∈ graph.ids)
    (hnone : ∀ source, source ∉ graph.ids → results.get? source = none) :
    Node.Drops results (graph.sources id) (graph.feeders id) := by
  refine ⟨graph.declares, feeders_eq hid, fun source _ hsource => hnone source fun hin => ?_⟩
  rw [(declares_iff graph source).2 hin] at hsource
  cases hsource

/-- Every pooling window whose stride is null is sized, on the shapes that stand when it has its
turn, as with a stride of two. -/
def StridesAgree (graph : Graph) : Prop :=
  ∀ before node after progress, graph.ordered = before ++ node :: after →
    node.strideUnset = true → progressAfter Catalogue.standard graph before = .ok progress →
    ∀ layer, Catalogue.standard.find? node.kind = some layer →
      layer.shape (progress.shapes graph node.id)
          (layer.resolve (node.params.put "stride" (.int 2))) =
        layer.shape (progress.shapes graph node.id) (layer.resolve node.params)

theorem stridesAgree_of_two (h : ∀ node ∈ graph.nodes, node.strideUnset = true →
      ((node.params.get? "kernel_size").getD (.int 2)).toPair 2 = .ok (2, 2)) :
    graph.StridesAgree := by
  intro before node after progress hsplit hunset _ layer hfind
  have hkernel := h node (mem_nodes_of_ordered (by simp [hsplit])) hunset
  have hnull : node.params.get? "stride" = some .null := by
    simpa using (Bool.and_eq_true_iff.1 hunset).2
  rcases Node.pool_of_strideUnset hfind hunset with rfl | rfl
  · exact Layer.Sizing.pool_put_of_two _ _ hnull hkernel _
  · exact Layer.Sizing.pool_put_of_two _ _ hnull hkernel _

theorem Filled.step (h : graph.Filled normal) (hstrides : graph.StridesAgree) :
    Parallel.Step Catalogue.standard Eq Node.Filled graph normal context := by
  intro before node after progress result hsplit hturn hgood node' others hnode hfollows
  obtain ⟨layer, hsound⟩ := Node.evaluate_sound hturn.evaluated hgood
  have hfind := hsound.known
  have hdeclared : node.id ∈ graph.ids := mem_ids_of_ordered (by simp [hsplit])
  have hdrops : Node.Drops others (graph.sources node.id) (normal.sources node'.id) := by
    rw [hnode.id, h.sources]
    refine drops_feeders hdeclared fun source hsource => ?_
    have hrel := hfollows source
    rw [get?_of_undeclared hsplit hturn.reached hsource] at hrel
    generalize others.get? source = other? at hrel
    cases hrel
    rfl
  refine hturn.follows hgood hfind hnode.kind (by rw [h.input]) (hnode.dtype hfind) hfollows hdrops
    (fun inputs' size hinputs hsize => ?_) (fun inputs' check findings hinputs hcheck hfindings => ?_)
  · rw [List.forall₂_eq_eq_eq] at hinputs
    subst hinputs
    have hstride := fun hunset =>
      hstrides before node after progress hsplit hunset hturn.reached layer hfind
    refine ⟨size, hnode.sized hfind hstride hsize, ?_⟩
    rw [Node.inputShape, Node.inputShape, hnode.kind, h.input]
    cases (if node.kind = inputKind ∧ size.all List.isEmpty then some graph.input.shape else size)
    · exact .none
    · exact .some rfl
  · rw [List.forall₂_eq_eq_eq] at hinputs
    subst hinputs
    exact ⟨findings, hnode.checked hfind hcheck hfindings, List.Subset.refl _⟩

/-- A graph and its normal form give each id the same shape and element type. -/
def SameResults (graph : Graph) (context context' : Context) : Prop :=
  ∀ id ∈ graph.ids, ∃ result result', context.results.get? id = some result ∧
    context'.results.get? id = some result' ∧ result'.shape = result.shape ∧
    result'.type = result.type

theorem sameResults_of_follows (hinfer : graph.infer Catalogue.standard = .ok context)
    {context' : Context} (h : TableFollows Eq context.results context'.results) :
    graph.SameResults context context' := by
  intro id hid
  obtain ⟨result, hresult⟩ := Option.isSome_iff_exists.1 (get?_isSome_of_declared hinfer hid)
  have hrel := h id
  rw [hresult] at hrel
  obtain ⟨result', hresult', hfollow⟩ := exists_of_rel_some hrel
  refine ⟨result, result', hresult, hresult', ?_, hfollow.type⟩
  have hshape := hfollow.shape
  generalize result.shape = shape?, result'.shape = shape'? at hshape
  cases hshape with
  | none => rfl
  | some heq => rw [heq]

/-- Nodes read the same shapes in both graphs if all results have the same shapes. -/
theorem Filled.shapes_eq (h : graph.Filled normal)
    (hinfer : graph.infer Catalogue.standard = .ok context) (hclean : context.hasErrors = false)
    {context' : Context} (hinfer' : normal.infer Catalogue.standard = .ok context')
    (hclean' : context'.hasErrors = false) (hsame : graph.SameResults context context')
    {before after before' after' : List Node} {progress progress' : Progress}
    (hsplit : graph.ordered = before ++ after) (hsplit' : normal.ordered = before' ++ after')
    (hbefore : List.Forall₂ Node.Filled before before')
    (hrun : progressAfter Catalogue.standard graph before = .ok progress)
    (hrun' : progressAfter Catalogue.standard normal before' = .ok progress') {id : String}
    (hid : id ∈ graph.ids) : progress'.shapes normal id = progress.shapes graph id := by
  have hids : before.map (·.id) = before'.map (·.id) := by
    rw [← List.forall₂_eq_eq_eq]
    exact List.rel_map (fun _ _ hnode => hnode.id.symm) hbefore
  have hdrops := (drops_feeders hid fun source hsource =>
    get?_of_undeclared hsplit hrun hsource).filterMap_eq (·.shape)
  rw [Progress.shapes, Progress.shapes, Node.inputShapes, Node.inputShapes, h.sources,
    List.filterMap_map, List.filterMap_map]
  simp only [Function.comp_def]
  rw [← hdrops]
  refine List.filterMap_congr fun source hsource => ?_
  rw [get?_reached hinfer hclean hsplit hrun, get?_reached hinfer' hclean' hsplit' hrun', hids]
  split
  · obtain ⟨result, result', hresult, hresult', hshape, -⟩ :=
      hsame source ((mem_feeders hid).1 hsource).2
    rw [hresult, hresult']
    exact hshape
  · rfl

theorem Filled.stridesAgree (h : graph.Filled normal)
    (hinfer : graph.infer Catalogue.standard = .ok context) (hclean : context.hasErrors = false)
    {context' : Context} (hinfer' : normal.infer Catalogue.standard = .ok context')
    (hclean' : context'.hasErrors = false) (hsame : graph.SameResults context context') :
    graph.StridesAgree := by
  intro before node after progress hsplit hunset hrun layer hfind
  have hid : node.id ∈ graph.ids := mem_ids_of_ordered (by simp [hsplit])
  obtain ⟨before', node', after', hsplit', hbefore, hnode⟩ :=
    forall₂_split (hsplit ▸ h.parallel.ordered)
  obtain ⟨reached, result, hturn⟩ := exists_turn hinfer hsplit
  obtain rfl : reached = progress := Except.ok.inj (hturn.reached.symm.trans hrun)
  obtain ⟨progress', result', hturn'⟩ := exists_turn hinfer' hsplit'
  have hshapes := h.shapes_eq hinfer hclean hinfer' hclean' hsame hsplit hsplit' hbefore hrun
    hturn'.reached hid
  obtain ⟨_, hsound⟩ := hturn.sound hinfer hclean
  obtain rfl := Option.some.inj (hsound.known.symm.trans hfind)
  obtain ⟨_, hsound'⟩ := hturn'.sound hinfer' hclean'
  obtain rfl := Option.some.inj ((hnode.kind ▸ hsound'.known).symm.trans hfind)
  have hpool := Node.pool_of_strideUnset hfind hunset
  have hshape' := hsound'.pooled hpool
  rw [hnode.id, hshapes, hnode.pooled hfind hpool, if_pos hunset] at hshape'
  obtain ⟨_, _, hresult, hresult', hsame, -⟩ := hsame node.id hid
  have hkept' := hturn'.kept
  rw [hturn.kept] at hresult
  rw [hnode.id, hresult'] at hkept'
  cases hresult
  cases hkept'
  rw [hshape', hsound.pooled hpool, hsame]

/-- What is inferred from a typed graph without errors is inferred from its normal form as well if
and only if the paddings of its convolutions can be written and pooling windows slide by two as they
slide where their stride is null. -/
theorem infer_normalize_iff (htyped : ∀ node ∈ graph.nodes, node.typed = true)
    (hinfer : graph.infer Catalogue.standard = .ok context) (hclean : context.hasErrors = false) :
    (∃ normal context', graph.normalize Catalogue.standard = .ok normal ∧
      normal.infer Catalogue.standard = .ok context' ∧ context'.hasErrors = false ∧
      graph.SameResults context context') ↔
      (∀ node ∈ graph.nodes, node.paddingWritable = true) ∧ graph.StridesAgree := by
  constructor
  · rintro ⟨normal, context', hnormal, hinfer', hclean', hsame⟩
    obtain ⟨hpadding, hfilled⟩ := filled_of_normalize htyped hnormal
    exact ⟨hpadding, hfilled.stridesAgree hinfer hclean hinfer' hclean' hsame⟩
  · rintro ⟨hpadding, hstrides⟩
    obtain ⟨normal, hnormal⟩ := exists_normalize htyped hpadding
    obtain ⟨-, hfilled⟩ := filled_of_normalize htyped hnormal
    have hshown : ∀ s s' : Shape, s = s' → s.all isWritable = true → s'.all isWritable = true :=
      fun _ _ heq hshape => heq ▸ hshape
    obtain ⟨context', hinfer', hclean', hfollows⟩ :=
      hfilled.parallel.exists_infer hinfer hclean hshown (hfilled.step hstrides)
    exact ⟨normal, context', hnormal, hinfer', hclean', sameResults_of_follows hinfer hfollows⟩

def halves : Graph where
  nodes := [
    ⟨"in", "Input", "", [("shape", .list [.int 2, .int 3, .int 9, .int 8]), ("dtype", .null)]⟩,
    ⟨"conv", "Conv2d", "", [("stride", .null), ("padding", .list [.int 1]), ("bias", .null)]⟩,
    ⟨"pool", "MaxPool2d", "", [("stride", .null), ("ceil_mode", .str "no")]⟩,
    ⟨"flat", "Flatten", "", []⟩, ⟨"fc", "Linear", "", [("in_features", .int 1024)]⟩]
  edges := [⟨"1", "in", "conv", none⟩, ⟨"2", "conv", "pool", none⟩, ⟨"3", "pool", "flat", none⟩,
    ⟨"4", "flat", "fc", none⟩, ⟨"5", "nowhere", "fc", none⟩]

theorem halves_normalize :
    (∀ node ∈ halves.nodes, node.typed = true) ∧
    (∀ node ∈ halves.nodes, node.paddingWritable = true) ∧ halves.StridesAgree ∧
    ∃ context normal context', halves.infer Catalogue.standard = .ok context ∧
      context.hasErrors = false ∧ halves.normalize Catalogue.standard = .ok normal ∧
      normal.infer Catalogue.standard = .ok context' ∧ context'.hasErrors = false ∧
      halves.SameResults context context' ∧
      (context.results.get? "pool").map (·.shape) = some (some [2, 64, 4, 4]) := by
  have htyped : ∀ node ∈ halves.nodes, node.typed = true := by decide +kernel
  have hpadding : ∀ node ∈ halves.nodes, node.paddingWritable = true := by decide +kernel
  have hstrides : halves.StridesAgree := by
    refine stridesAgree_of_two fun node hnode _ => ?_
    have hkernel : ∀ node ∈ halves.nodes,
        ((node.params.get? "kernel_size").getD (.int 2)).toPair 2 = .ok (2, 2) := by decide +kernel
    exact hkernel node hnode
  have hinfer : (halves.infer Catalogue.standard).map (fun context =>
      (context.hasErrors, (context.results.get? "pool").map (·.shape))) =
        .ok (false, some (some [2, 64, 4, 4])) := eq_ok_of_toOption (by decide +kernel)
  obtain ⟨context, hcontext, hsummary⟩ := map_eq_ok.1 hinfer
  obtain ⟨hclean, hshape⟩ := Prod.mk.inj hsummary
  obtain ⟨normal, context', hnormal, hcontext', hclean', hsame⟩ :=
    (infer_normalize_iff htyped hcontext hclean).2 ⟨hpadding, hstrides⟩
  exact ⟨htyped, hpadding, hstrides, context, normal, context', hcontext, hclean, hnormal,
    hcontext', hclean', hsame, hshape⟩

def thirds : Graph where
  nodes := [⟨"in", "Input", "", [("shape", .list [.int 1, .int 1, .int 9, .int 9])]⟩,
    ⟨"pool", "MaxPool2d", "", [("kernel_size", .int 3), ("stride", .null)]⟩,
    ⟨"flat", "Flatten", "", []⟩, ⟨"fc", "Linear", "", [("in_features", .int 9)]⟩]
  edges := [⟨"1", "in", "pool", none⟩, ⟨"2", "pool", "flat", none⟩, ⟨"3", "flat", "fc", none⟩]

/-- Their normal form halves them, and is in error. -/
theorem thirds_disagree :
    (∀ node ∈ thirds.nodes, node.typed = true ∧ node.paddingWritable = true) ∧
    ∃ context normal context', thirds.infer Catalogue.standard = .ok context ∧
      context.hasErrors = false ∧ thirds.normalize Catalogue.standard = .ok normal ∧
      normal.infer Catalogue.standard = .ok context' ∧ context'.hasErrors = true ∧
      (context.results.get? "pool").map (·.shape) = some (some [1, 1, 3, 3]) ∧
      (context'.results.get? "pool").map (·.shape) = some (some [1, 1, 4, 4]) := by
  have htyped : ∀ node ∈ thirds.nodes, node.typed = true ∧ node.paddingWritable = true := by
    decide +kernel
  have hbefore : (thirds.infer Catalogue.standard).map (fun context =>
      (context.hasErrors, (context.results.get? "pool").map (·.shape))) =
        .ok (false, some (some [1, 1, 3, 3])) := eq_ok_of_toOption (by decide +kernel)
  have hafter : (thirds.normalize Catalogue.standard >>= fun normal =>
      (normal.infer Catalogue.standard).map fun context =>
        (context.hasErrors, (context.results.get? "pool").map (·.shape))) =
          .ok (true, some (some [1, 1, 4, 4])) := eq_ok_of_toOption (by decide +kernel)
  obtain ⟨context, hinfer, hsummary⟩ := map_eq_ok.1 hbefore
  obtain ⟨hclean, hshape⟩ := Prod.mk.inj hsummary
  obtain ⟨normal, hnormal, hrun⟩ := bind_eq_ok.1 hafter
  obtain ⟨context', hinfer', hsummary'⟩ := map_eq_ok.1 hrun
  obtain ⟨herror, hshape'⟩ := Prod.mk.inj hsummary'
  exact ⟨htyped, context, normal, context', hinfer, hclean, hnormal, hinfer', herror, hshape,
    hshape'⟩

end Graph

end LayerGraph
