import LayerGraph.Proofs.Graph.Remarks
import LayerGraph.Proofs.Layer.Proper
set_option autoImplicit false

namespace LayerGraph

def Layer.outputSizes : List (String × String) :=
  [("Linear", "out_features"), ("Conv2d", "out_channels"), ("ResidualBlock", "out_channels"),
    ("Embeddings", "embedding_dim"), ("LSTM", "hidden_size"), ("GRU", "hidden_size")]

/-- Every size that the params of a node declare for its output is proper, if it is read at all. -/
structure Node.DeclaresProper (node : Node) : Prop where
  input : node.kind = Graph.inputKind → ∀ items, node.params.get? "shape" = some (.list items) →
    ∀ item ∈ items, ∀ n, item.toInt = .ok n → IsProper n
  sizes : ∀ key, (node.kind, key) ∈ Layer.outputSizes → ∀ value,
    node.params.get? key = some value → ∀ n, value.toInt = .ok n → 1 ≤ n
  pooled : node.kind = "AdaptiveAvgPool2d" → ∀ value, node.params.get? "output_size" = some value →
    ∀ n m, value.toPair 1 = .ok (n, m) → 1 ≤ n ∧ 1 ≤ m

namespace Node.DeclaresProper

variable {node : Node}

theorem positive (h : node.DeclaresProper) {layer : Layer} (hkind : layer.kind = node.kind)
    {key : String} (hkey : (layer.kind, key) ∈ Layer.outputSizes) {p : Param}
    (hparam : layer.schema.get? key = some p) {k : Int} (hdefault : p.default = .int k)
    (hk : 1 ≤ k) : Layer.Sizing.Positive (layer.resolve node.params) key := by
  refine Schema.get_resolve_of _ _ hparam (P := fun v => ∀ n, v.toInt = .ok n → 1 ≤ n) ?_
    (h.sizes key (hkind ▸ hkey))
  intro n hn
  rw [hdefault] at hn
  cases hn
  exact hk

theorem items (h : node.DeclaresProper) (hkind : node.kind = Graph.inputKind) :
    ∀ items, Fields.get (Layer.input.resolve node.params) "shape" = .list items →
      ∀ item ∈ items, ∀ n, item.toInt = .ok n → IsProper n := by
  refine Schema.get_resolve_of _ _ rfl (P := fun v => ∀ items, v = .list items →
    ∀ item ∈ items, ∀ n, item.toInt = .ok n → IsProper n) ?_ ?_
  · intro items hitems
    cases hitems
    simp
  · intro v hgiven items hitems
    exact h.input hkind items (hgiven.trans (congrArg some hitems))

theorem components (h : node.DeclaresProper) (hkind : node.kind = "AdaptiveAvgPool2d") :
    ∀ n m, (Fields.get (Layer.adaptivePool.resolve node.params) "output_size").toPair 1 =
      .ok (n, m) → 1 ≤ n ∧ 1 ≤ m := by
  refine Schema.get_resolve_of _ _ rfl (P := fun v => ∀ n m, v.toPair 1 = .ok (n, m) →
    1 ≤ n ∧ 1 ≤ m) ?_ (h.pooled hkind)
  intro n m hpair
  cases hpair
  decide

end Node.DeclaresProper

theorem Catalogue.standard_keepsProper {node : Node} (h : node.DeclaresProper) {layer : Layer}
    (hfind : Catalogue.standard.find? node.kind = some layer) :
    Layer.Sizing.KeepsProper layer.shape (layer.resolve node.params) := by
  obtain ⟨hmem, hkind⟩ := Catalogue.find?_spec hfind
  simp only [standard, List.mem_cons, List.not_mem_nil, or_false] at hmem
  rcases hmem with rfl | rfl | rfl | rfl | rfl | rfl | rfl | rfl | rfl | rfl | rfl | rfl | rfl | rfl
    | rfl | rfl | rfl | rfl | rfl | rfl | rfl
  · exact Layer.Sizing.input_keepsProper (h.items hkind.symm)
  · exact Layer.Sizing.identity_keepsProper
  · exact Layer.Sizing.linear_keepsProper (h.positive hkind (by decide) rfl rfl (by decide))
  · exact Layer.Sizing.identity_keepsProper
  · exact Layer.Sizing.identity_keepsProper
  · exact Layer.Sizing.identity_keepsProper
  · exact Layer.Sizing.identity_keepsProper
  · exact Layer.Sizing.batchNorm_keepsProper _ _
  · exact Layer.Sizing.batchNorm_keepsProper _ _
  · exact Layer.Sizing.identity_keepsProper
  · exact Layer.Sizing.flatten_keepsProper
  · exact Layer.Sizing.convolution_keepsProper (h.positive hkind (by decide) rfl rfl (by decide))
  · exact Layer.Sizing.pool_keepsProper _
  · exact Layer.Sizing.pool_keepsProper _
  · exact Layer.Sizing.adaptivePool_keepsProper (h.components hkind.symm)
  · exact Layer.Sizing.identity_keepsProper
  · exact Layer.Sizing.concat_keepsProper
  · exact Layer.Sizing.residual_keepsProper (h.positive hkind (by decide) rfl rfl (by decide))
  · exact Layer.Sizing.embedding_keepsProper (h.positive hkind (by decide) rfl rfl (by decide))
  · exact Layer.Sizing.recurrent_keepsProper _ (h.positive hkind (by decide) rfl rfl (by decide))
  · exact Layer.Sizing.recurrent_keepsProper _ (h.positive hkind (by decide) rfl rfl (by decide))

namespace Node

variable {node : Node} {spec : InputSpec} {feeds : List (Option NodeResult)} {result : NodeResult}

theorem inputShapes_proper
    (h : ∀ feed ∈ feeds, ∀ result, feed = some result → ∀ shape, result.shape = some shape →
      shape.Proper) : ∀ shape ∈ inputShapes feeds, Shape.Proper shape := by
  intro shape hshape
  obtain ⟨feed, hfeed, hsome⟩ := List.mem_filterMap.1 hshape
  obtain ⟨result, hresult, hout⟩ := Option.bind_eq_some_iff.1 hsome
  exact h feed hfeed result hresult shape hout

/-- One node: a shape comes from the rule of its layer or, for an input, from the input spec. -/
theorem evaluate_proper (h : node.DeclaresProper) (hspec : Shape.Proper spec.shape)
    (hfeeds : ∀ shape ∈ inputShapes feeds, Shape.Proper shape)
    (heval : node.evaluate Catalogue.standard spec feeds = .ok result) {shape : Shape}
    (hshape : result.shape = some shape) : shape.Proper := by
  unfold evaluate at heval
  split at heval
  · cases heval
    cases hshape
  · rename_i layer hfind
    obtain ⟨type, -, rfl⟩ := evaluateAs_eq_ok.1 heval
    change node.inputShape spec _ = some shape at hshape
    unfold inputShape at hshape
    split at hshape
    · cases hshape
      exact hspec
    · unfold sized at hshape
      split at hshape
      · rename_i size hsize
        change size = some shape at hshape
        subst hshape
        exact Catalogue.standard_keepsProper h hfind _ shape hfeeds hsize
      · cases hshape

end Node

namespace Graph

/-- Resolved shapes stay well formed. -/
theorem infer_proper {graph : Graph} {context : Context} (hspec : Shape.Proper graph.input.shape)
    (hnodes : ∀ node ∈ graph.nodes, node.DeclaresProper)
    (h : graph.infer Catalogue.standard = .ok context) :
    ∀ entry ∈ context.results, ∀ shape, entry.2.shape = some shape → shape.Proper := by
  obtain ⟨progress, hrun, rfl⟩ := infer_eq_ok.1 h
  refine foldlM_invariant (fun _ progress : _ => ∀ entry ∈ progress.results, ∀ shape,
    entry.2.shape = some shape → Shape.Proper shape) hrun ?_ ?_
  · intro entry hentry shape hshape
    obtain ⟨id, -, rfl⟩ := mem_cycleResults hentry
    cases hshape
  · intro before node after progress next hsplit hold hnext entry hentry shape hshape
    obtain ⟨result, lines, hresult, -, rfl⟩ := advance_eq_ok.1 hnext
    rcases Table.mem_put hentry with rfl | hin
    · -- The node reads shapes that stand in the table.
      have hmem : node ∈ graph.nodes := mem_nodes_of_ordered (by simp [hsplit])
      refine Node.evaluate_proper (hnodes node hmem) hspec ?_ hresult hshape
      refine Node.inputShapes_proper fun feed hfeed result hsome => ?_
      obtain ⟨source, -, rfl⟩ := List.mem_map.1 hfeed
      exact hold _ (Table.mem_of_get? hsome)
    · exact hold entry hin shape hshape

/-- A convolution with a kernel of negative size whose channels are a text, a concatenation of
inputs of different rank, and a linear layer that is given other features than it expects. -/
def hostile : Graph where
  nodes := [⟨"in", "Input", "", [("shape", .list [.int (-1), .int 3, .int 8, .int 8])]⟩,
    ⟨"conv", "Conv2d", "",
      [("out_channels", .str "5"), ("kernel_size", .int (-4)),
        ("padding", .list [.int 2, .int (-1)])]⟩,
    ⟨"flat", "Flatten", "", [("start_dim", .int (-2))]⟩,
    ⟨"cat", "Concat", "", [("dim", .int (-1))]⟩, ⟨"fc", "Linear", "", []⟩]
  edges := [⟨"1", "in", "conv", none⟩, ⟨"2", "conv", "flat", none⟩, ⟨"3", "flat", "cat", none⟩,
    ⟨"4", "conv", "cat", none⟩, ⟨"5", "cat", "fc", none⟩]

theorem hostile_declaresProper : ∀ node ∈ hostile.nodes, node.DeclaresProper := by
  intro node hnode
  simp only [hostile, List.mem_cons, List.not_mem_nil, or_false] at hnode
  rcases hnode with rfl | rfl | rfl | rfl | rfl
  · refine ⟨fun _ items hitems item hitem n hn => ?_, by simp [Layer.outputSizes], by simp⟩
    cases hitems
    simp only [List.mem_cons, List.not_mem_nil, or_false] at hitem
    rcases hitem with rfl | rfl | rfl | rfl <;> cases hn <;> decide
  · refine ⟨by simp [inputKind], fun key hkey value hvalue n hn => ?_, by simp⟩
    obtain rfl : key = "out_channels" := by simpa [Layer.outputSizes] using hkey
    cases hvalue
    have hfive : Value.toInt (.str "5") = .ok 5 := eq_ok_of_toOption (by decide +kernel)
    cases hfive.symm.trans hn
    decide
  · exact ⟨by simp [inputKind], by simp [Layer.outputSizes], by simp⟩
  · exact ⟨by simp [inputKind], by simp [Layer.outputSizes], by simp⟩
  · exact ⟨by simp [inputKind], by simp [Table.get?_nil], by simp⟩

theorem hostile_proper :
    Shape.Proper hostile.input.shape ∧ (∀ node ∈ hostile.nodes, node.DeclaresProper) ∧
    ∃ context, hostile.infer Catalogue.standard = .ok context ∧
      (context.results.get? "fc").map (fun result => (result.status, result.shape)) =
        some (.error, some [-1, 5, 64]) ∧
      (context.results.get? "cat").bind (·.shape) = some [-1, 5, 204] ∧
      ∀ entry ∈ context.results, ∀ shape, entry.2.shape = some shape → shape.Proper := by
  have hspec : Shape.Proper hostile.input.shape := by decide
  have hinfer : (hostile.infer Catalogue.standard).map (fun context =>
      ((context.results.get? "fc").map (fun result => (result.status, result.shape)),
        (context.results.get? "cat").bind (·.shape))) =
        .ok (some (.error, some [-1, 5, 64]), some [-1, 5, 204]) :=
    eq_ok_of_toOption (by decide +kernel)
  obtain ⟨context, hcontext, hsummary⟩ := map_eq_ok.1 hinfer
  obtain ⟨hfc, hcat⟩ := Prod.mk.inj hsummary
  exact ⟨hspec, hostile_declaresProper, context, hcontext, hfc, hcat,
    infer_proper hspec hostile_declaresProper hcontext⟩

end Graph

end LayerGraph
