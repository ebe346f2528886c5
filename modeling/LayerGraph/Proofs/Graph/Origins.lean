import LayerGraph.Proofs.Graph.Faults
import LayerGraph.Proofs.Graph.Locality
import LayerGraph.Proofs.Layer.Parameters
set_option autoImplicit false

namespace LayerGraph

theorem ElementType.name_injective {type other : ElementType} (h : type.name = other.name) :
    type = other := by
  cases type <;> cases other <;> simp [ElementType.name] at h ⊢

/-- A node whose element type does not depend on its inputs. -/
inductive Node.Originates (spec : InputSpec) (node : Node) : ElementType → Prop where
  | declared {type : ElementType} (input : node.kind = Graph.inputKind)
      (given : node.params.get? "dtype" = some (.str type.name)) : Originates spec node type
  | unspecified (input : node.kind = Graph.inputKind)
      (unknown : ∀ type : ElementType, node.params.get? "dtype" ≠ some (.str type.name)) :
      Originates spec node spec.type
  | embedded (embeddings : node.kind = "Embeddings") : Originates spec node .float32

/-- The first edge into a node that comes from a declared one. -/
def Graph.leading? (graph : Graph) (id : String) : Option Edge :=
  (graph.incoming id).find? fun e => graph.declares e.source

/-- The walk back from a node along leading edges ends at an origin of a type. -/
inductive Graph.WalksTo (graph : Graph) : Node → ElementType → Prop where
  | origin {node : Node} {type : ElementType} (here : node.Originates graph.input type) :
      WalksTo graph node type
  | back {node source : Node} {e : Edge} {type : ElementType}
      (input : node.kind ≠ Graph.inputKind) (embeddings : node.kind ≠ "Embeddings")
      (leading : graph.leading? node.id = some e) (mem : source ∈ graph.nodes)
      (id : source.id = e.source) (rest : WalksTo graph source type) : WalksTo graph node type

theorem Catalogue.standard_unfed {layer : Layer} (hmem : layer ∈ standard)
    (hkind : layer.kind ≠ Graph.inputKind) (params : Fields) : layer.shape [] params = .ok none := by
  rcases List.mem_cons.1 hmem with rfl | hother
  · exact absurd rfl hkind
  · simp only [List.mem_cons, List.not_mem_nil, or_false] at hother
    repeat' obtain rfl | hother := hother
    all_goals rfl

namespace Node

variable {spec : InputSpec} {node : Node} {feeds : List (Option NodeResult)} {result : NodeResult}

theorem Originates.unique {first second : ElementType} (h : node.Originates spec first)
    (h' : node.Originates spec second) : first = second := by
  cases h with
  | declared input given =>
    cases h' with
    | declared _ given' =>
      rw [given] at given'
      exact ElementType.name_injective (by simpa using given')
    | unspecified _ unknown => exact absurd given (unknown _)
    | embedded embeddings => simp [input, Graph.inputKind] at embeddings
  | unspecified input unknown =>
    cases h' with
    | declared _ given => exact absurd given (unknown _)
    | unspecified => rfl
    | embedded embeddings => simp [input, Graph.inputKind] at embeddings
  | embedded embeddings =>
    cases h' with
    | declared input | unspecified input => simp [input, Graph.inputKind] at embeddings
    | embedded => rfl

theorem Originates.kind {type : ElementType} (h : node.Originates spec type) :
    node.kind = Graph.inputKind ∨ node.kind = "Embeddings" := by
  cases h with
  | declared input | unspecified input => exact .inl input
  | embedded embeddings => exact .inr embeddings

theorem originates_of_declaredType {type : ElementType} (hinput : node.kind = Graph.inputKind)
    (h : declaredType spec ((node.params.get? "dtype").getD .null) = .ok type) :
    node.Originates spec type := by
  by_cases hknown : ∃ known : ElementType, node.params.get? "dtype" = some (.str known.name)
  · obtain ⟨known, hgiven⟩ := hknown
    have hread : declaredType spec (.str known.name) = .ok known := by
      cases known <;> rfl
    rw [hgiven, Option.getD_some, hread] at h
    cases h
    exact .declared hinput hgiven
  · have hunknown := not_exists.1 hknown
    have hother : ∀ known : ElementType,
        (node.params.get? "dtype").getD .null ≠ .str known.name := by
      intro known
      cases hget : node.params.get? "dtype" with
      | none => simp
      | some v => exact fun heq => hunknown known (hget.trans (congrArg some heq))
    rw [Graph.declaredType_of_unknown h hother]
    exact .unspecified hinput hunknown

theorem evaluate_type (heval : node.evaluate Catalogue.standard spec feeds = .ok result)
    (hknown : (Catalogue.standard.find? node.kind).isSome) :
    (∃ type, node.Originates spec type ∧ result.type = some type) ∨
      node.kind ≠ Graph.inputKind ∧ node.kind ≠ "Embeddings" ∧
        result.type = feeds.findSome? fun feed => feed.bind (·.type) := by
  obtain ⟨layer, hfind⟩ := Option.isSome_iff_exists.1 hknown
  simp only [evaluate, hfind] at heval
  obtain ⟨type, htype, rfl⟩ := evaluateAs_eq_ok.1 heval
  change _ ∨ _ ∧ _ ∧ type = _
  unfold outputType at htype
  split at htype
  · rename_i hinput
    obtain rfl : layer = Layer.input := by
      rw [hinput] at hfind
      exact (Option.some.inj hfind).symm
    obtain ⟨own, hown, rfl⟩ := map_eq_ok.1 htype
    rw [Layer.resolve, Schema.get_resolve _ _ rfl] at hown
    exact .inl ⟨own, originates_of_declaredType hinput hown, rfl⟩
  · rename_i hinput
    split at htype
    · rename_i hembeddings
      cases htype
      exact .inl ⟨.float32, .embedded hembeddings, rfl⟩
    · rename_i hembeddings
      exact .inr ⟨hinput, hembeddings, (Except.ok.inj htype).symm⟩

theorem known_of_shape {catalogue : Catalogue}
    (heval : node.evaluate catalogue spec feeds = .ok result) (hshape : result.shape.isSome) :
    (catalogue.find? node.kind).isSome := by
  cases hfind : catalogue.find? node.kind with
  | some layer => rfl
  | none =>
    rw [evaluate, hfind] at heval
    cases heval
    cases hshape

theorem exists_feed_of_shape (heval : node.evaluate Catalogue.standard spec feeds = .ok result)
    (hinput : node.kind ≠ Graph.inputKind) (hshape : result.shape.isSome) :
    ∃ feed, some feed ∈ feeds ∧ feed.shape.isSome := by
  obtain ⟨layer, hfind⟩ := Option.isSome_iff_exists.1 (known_of_shape heval hshape)
  obtain ⟨hmem, hkind⟩ := Catalogue.find?_spec hfind
  have hout := Graph.evaluate_shape heval
  cases hinputs : inputShapes feeds with
  | nil =>
    have hnone := Catalogue.standard_unfed hmem (hkind ▸ hinput) (layer.resolve node.params)
    simp [hout, outputShape, hfind, sized, hinputs, hnone, inputShape, hinput] at hshape
  | cons shape shapes =>
    obtain ⟨feed?, hfeed, hsome⟩ := List.mem_filterMap.1
      (hinputs ▸ List.mem_cons_self : shape ∈ inputShapes feeds)
    obtain ⟨feed, rfl, hfed⟩ := Option.bind_eq_some_iff.1 hsome
    exact ⟨feed, hfeed, Option.isSome_iff_exists.2 ⟨shape, hfed⟩⟩

/-- One step: if what a node reads has a type wherever it has a shape, so has the node. -/
theorem evaluate_typed (hfeeds : ∀ feed, some feed ∈ feeds → feed.shape.isSome → feed.type.isSome)
    (heval : node.evaluate Catalogue.standard spec feeds = .ok result)
    (hshape : result.shape.isSome) : result.type.isSome := by
  rcases evaluate_type heval (known_of_shape heval hshape) with
    ⟨type, -, htype⟩ | ⟨hinput, -, htype⟩
  · rw [htype, Option.isSome_some]
  · obtain ⟨feed, hfeed, hfed⟩ := exists_feed_of_shape heval hinput hshape
    rw [htype, List.findSome?_isSome_iff]
    exact ⟨some feed, hfeed, hfeeds feed hfeed hfed⟩

end Node

namespace Graph

variable {graph : Graph} {context : Context}

/-- The invariant of a run: wherever there is a shape there is a type. -/
theorem typed_of_infer (hinfer : graph.infer Catalogue.standard = .ok context) :
    ∀ entry ∈ context.results, entry.2.shape.isSome → entry.2.type.isSome := by
  obtain ⟨progress, hrun, rfl⟩ := infer_eq_ok.1 hinfer
  refine foldlM_invariant (fun _ progress : _ => ∀ entry ∈ progress.results,
    entry.2.shape.isSome → entry.2.type.isSome) hrun ?_ ?_
  · intro entry hentry hshape
    obtain ⟨id, -, rfl⟩ := mem_cycleResults hentry
    cases hshape
  · intro before node after progress next _ hold hnext entry hentry hshape
    obtain ⟨result, lines, hresult, -, rfl⟩ := advance_eq_ok.1 hnext
    rcases Table.mem_put hentry with rfl | hin
    · refine Node.evaluate_typed (fun feed hfeed => ?_) hresult hshape
      obtain ⟨source, -, hsome⟩ := List.mem_map.1 hfeed
      exact hold _ (Table.mem_of_get? hsome)
    · exact hold entry hin hshape

theorem leading?_spec {id : String} {e : Edge} (h : graph.leading? id = some e) :
    e.source ∈ graph.sources id ∧ e.source ∈ graph.ids :=
  ⟨List.mem_map_of_mem (List.mem_of_find?_eq_some h), by
    simpa [declares_iff] using List.find?_some (p := fun e : Edge => graph.declares e.source) h⟩

theorem WalksTo.unique (hids : graph.ids.Nodup) {node : Node} {first second : ElementType}
    (h : graph.WalksTo node first) (h' : graph.WalksTo node second) : first = second := by
  induction h with
  | origin here =>
    cases h' with
    | origin here' => exact here.unique here'
    | back input embeddings => exact absurd here.kind (by simp [input, embeddings])
  | @back node source e type input embeddings leading mem id rest ih =>
    cases h' with
    | origin here => exact absurd here.kind (by simp [input, embeddings])
    | @back _ source' e' _ _ _ leading' mem' id' rest' =>
      obtain rfl : e = e' := Option.some.inj (leading.symm.trans leading')
      obtain rfl : source' = source := List.inj_on_of_nodup_map hids mem' mem (id'.trans id.symm)
      exact ih rest'

theorem findSome?_sources {results : String → Option NodeResult}
    (hundeclared : ∀ id, id ∉ graph.ids → results id = none)
    (htyped : ∀ id ∈ graph.ids, ((results id).bind (·.type)).isSome) (id : String) :
    ((graph.sources id).map results).findSome? (fun feed => feed.bind (·.type)) =
      (graph.leading? id).bind fun e => (results e.source).bind (·.type) := by
  rw [sources, leading?, List.map_map, List.findSome?_map]
  induction graph.incoming id with
  | nil => rfl
  | cons e edges ih =>
    rw [List.findSome?_cons, List.find?_cons]
    by_cases hdeclared : e.source ∈ graph.ids
    · obtain ⟨type, htype⟩ := Option.isSome_iff_exists.1 (htyped e.source hdeclared)
      simp [(declares_iff graph e.source).2 hdeclared, htype]
    · have hfalse := (declares_eq_false_iff graph e.source).2 hdeclared
      simpa [hfalse, hundeclared e.source hdeclared] using ih

/-- By induction along the order of evaluation, in which the source of a leading edge comes before
the node that it leads into. -/
theorem walksTo_of_ordered (hids : graph.ids.Nodup)
    (hinfer : graph.infer Catalogue.standard = .ok context) (hclean : context.hasErrors = false) :
    ∀ {before after : List Node}, graph.ordered = before ++ after → ∀ node ∈ before,
      ∃ result type, context.results.get? node.id = some result ∧ result.type = some type ∧
        graph.WalksTo node type := by
  obtain ⟨-, hvalues⟩ := infer_isInference hids hinfer
  have htyped : ∀ id ∈ graph.ids, ((context.results.get? id).bind (·.type)).isSome := by
    intro id hid
    obtain ⟨result, shape, hresult, hshape⟩ := exists_shape_of_clean hinfer hclean hid
    rw [hresult]
    exact typed_of_infer hinfer _ (Table.mem_of_get? hresult) (by simp [hshape])
  intro before
  induction before using List.reverseRecOn with
  | nil => simp
  | append_singleton before last ih =>
    intro after hsplit node hnode
    rw [List.append_assoc, List.singleton_append] at hsplit
    rcases List.mem_append.1 hnode with hold | hlast
    · exact ih hsplit node hold
    · obtain rfl := List.mem_singleton.1 hlast
      have hmem : node ∈ graph.ordered := by simp [hsplit]
      obtain ⟨hdeclared, hcyclic⟩ := (mem_ordered hids).1 hmem
      rw [mem_cyclic_iff_behindCycle hids] at hcyclic
      obtain ⟨result, heval, hresult⟩ := hvalues.evaluated node hdeclared hcyclic
      rcases Node.evaluate_type heval (known_of_clean hinfer hclean hmem) with
        ⟨type, here, htype⟩ | ⟨hinput, hembeddings, htype⟩
      · exact ⟨result, type, hresult, htype, .origin here⟩
      · rw [findSome?_sources hvalues.undeclared htyped] at htype
        obtain ⟨type, hsome⟩ := Option.isSome_iff_exists.1
          (htyped node.id (List.mem_map_of_mem hdeclared))
        rw [hresult, Option.bind_some] at hsome
        rw [hsome] at htype
        obtain ⟨e, hleading, hfed⟩ := Option.bind_eq_some_iff.1 htype.symm
        obtain ⟨hin, hsource⟩ := leading?_spec hleading
        obtain ⟨source, hearlier, hid⟩ :=
          List.mem_map.1 (source_mem_of_ordered hids hsplit hin hsource)
        obtain ⟨fed, other, hgot, hother, hwalk⟩ := ih hsplit source hearlier
        rw [← hid, hgot, Option.bind_some, hother] at hfed
        obtain rfl : other = type := Option.some.inj hfed
        have hnodes : source ∈ graph.nodes := mem_nodes_of_ordered (by simp [hsplit, hearlier])
        exact ⟨result, other, hresult, hsome,
          .back hinput hembeddings hleading hnodes hid hwalk⟩

/-- Wherever inference finds a shape it finds an element type, whatever else is wrong with the
graph. If the ids are distinct and there are no errors, every node has the type to which the walk
back from it leads. -/
theorem infer_types (hinfer : graph.infer Catalogue.standard = .ok context) :
    (∀ entry ∈ context.results, entry.2.shape.isSome → entry.2.type.isSome) ∧
    (graph.ids.Nodup → context.hasErrors = false → ∀ node ∈ graph.nodes,
      ∃ result type, context.results.get? node.id = some result ∧ result.type = some type ∧
        ∀ other, graph.WalksTo node other ↔ other = type) := by
  refine ⟨typed_of_infer hinfer, fun hids hclean node hnode => ?_⟩
  obtain ⟨result, type, hresult, htype, hwalk⟩ :=
    walksTo_of_ordered hids hinfer hclean (List.append_nil _).symm node
      ((ordered_perm hids hinfer hclean).mem_iff.2 hnode)
  refine ⟨result, type, hresult, htype, fun other => ⟨fun h => h.unique hids hwalk, ?_⟩⟩
  intro heq
  subst heq
  exact hwalk

/-- An embedding of integers added to a graph input of an element type that is not known, after an
edge that leads from nowhere. -/
def blend : Graph where
  nodes := [⟨"out", "Output", "", []⟩, ⟨"sum", "Add", "", []⟩,
    ⟨"in", "Input", "", [("shape", .list [.int 2, .int 7, .int 128]), ("dtype", .str "int8")]⟩,
    ⟨"words", "Embeddings", "", []⟩, ⟨"keys", "Dropout", "", []⟩,
    ⟨"tokens", "Input", "", [("dtype", .str "int64")]⟩]
  edges := [⟨"1", "nowhere", "sum", none⟩, ⟨"2", "in", "sum", none⟩, ⟨"3", "words", "sum", none⟩,
    ⟨"4", "tokens", "keys", none⟩, ⟨"5", "keys", "words", none⟩, ⟨"6", "sum", "out", none⟩]
  input := { shape := [2, 7], type := .float16 }

theorem blend_types :
    ∃ context, blend.infer Catalogue.standard = .ok context ∧ blend.ids.Nodup ∧
      context.hasErrors = false ∧
      context.results.map (fun entry => (entry.1, entry.2.type)) =
        [("in", some .float16), ("tokens", some .int64), ("keys", some .int64),
          ("words", some .float32), ("sum", some .float16), ("out", some .float16)] ∧
      (∀ entry ∈ context.results, entry.2.shape.isSome → entry.2.type.isSome) ∧
      ∀ node ∈ blend.nodes, ∃ result type, context.results.get? node.id = some result ∧
        result.type = some type ∧ ∀ other, blend.WalksTo node other ↔ other = type := by
  have hinfer : (blend.infer Catalogue.standard).map (fun context =>
      (context.hasErrors, context.results.map fun entry => (entry.1, entry.2.type))) =
        .ok (false, [("in", some .float16), ("tokens", some .int64), ("keys", some .int64),
          ("words", some .float32), ("sum", some .float16), ("out", some .float16)]) :=
    eq_ok_of_toOption (by decide +kernel)
  obtain ⟨context, hcontext, hsummary⟩ := map_eq_ok.1 hinfer
  obtain ⟨hclean, htypes⟩ := Prod.mk.inj hsummary
  have hids : blend.ids.Nodup := by decide
  obtain ⟨htyped, hwalks⟩ := infer_types hcontext
  exact ⟨context, hcontext, hids, hclean, htypes, htyped, hwalks hids hclean⟩

end Graph

end LayerGraph
