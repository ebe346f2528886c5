import LayerGraph.Graph.Import
import LayerGraph.Proofs.Document.Dumps
import LayerGraph.Proofs.Graph.Parallel
set_option autoImplicit false

namespace LayerGraph

def Node.entry (node : Node) : Fields :=
  [("id", .str node.id), ("kind", .str node.kind), ("label", .str node.label),
    ("params", .object node.params)]

def Edge.entry (e : Edge) : Fields :=
  [("id", .str e.id), ("source", .str e.source), ("target", .str e.target),
    ("port", .ofOption .str e.slot)]

def Graph.entry (graph : Graph) : Fields :=
  [("nodes", .list (graph.nodes.map fun node => .object node.entry)),
    ("edges", .list (graph.edges.map fun e => .object e.entry)),
    ("training", graph.training.toValue), ("input_spec", graph.input.toValue)]

theorem Graph.toValue_eq (graph : Graph) : graph.toValue = .object graph.entry := rfl

namespace Value

theorem display_str (s : String) : (Value.str s).display = .ok s := rfl

theorem str_orElse_empty (s : String) : (Value.str s).orElse (.str "") = .str s := by
  by_cases hs : s = ""
  · rw [hs]
    rfl
  · simp [orElse, truthy, hs]

theorem str_orElse_null (s : String) :
    ((Value.str s).orElse .null).orElse (.str "") = .str s := by
  by_cases hs : s = ""
  · rw [hs]
    rfl
  · simp [orElse, truthy, hs]

theorem str_orElse {s : String} (hs : s ≠ "") (v : Value) : (Value.str s).orElse v = .str s := by
  simp [orElse, truthy, hs]

end Value

namespace Import

variable {catalogue : Catalogue}

theorem entries_objects {α : Type} (entry : α → Fields) (as : List α) :
    entries (.list (as.map fun a => .object (entry a))) = .ok (as.map entry) := by
  simp [entries, List.filterMap_map]

theorem node?_entry (node : Node) :
    node? catalogue node.entry = (node.normalize catalogue).map some := by
  have hkind : wordOf node.entry "kind" "type" = .ok node.kind :=
    congrArg Value.display (Value.str_orElse_null node.kind)
  have hlabel : ((Fields.get node.entry "label").orElse (.str "")).display = .ok node.label :=
    congrArg Value.display (Value.str_orElse_empty node.label)
  have hid : Table.get? node.entry "id" = some (.str node.id) := rfl
  have hparams : paramsOf node.entry = node.params := rfl
  simp only [node?, hid, hkind, hlabel, hparams, Value.display_str, bind, Except.bind]
  cases node.normalize catalogue <;> rfl

theorem nodes_entries (listed : List Node) :
    Import.nodes catalogue (listed.map Node.entry) = listed.mapM (·.normalize catalogue) := by
  induction listed with
  | nil => rfl
  | cons node listed ih =>
    rw [List.map_cons, Import.nodes, node?_entry, ih, List.mapM_cons]
    cases node.normalize catalogue with
    | error fault => rfl
    | ok normal => rfl

theorem slotOf_entry {e : Edge} (hslot : e.slot ≠ some "") : slotOf e.entry = .ok e.slot := by
  have hport : (Fields.get e.entry "port").orElse (Fields.get e.entry "targetHandle") =
      .ofOption .str e.slot := by
    change (Value.ofOption .str e.slot).orElse .null = _
    cases hgiven : e.slot with
    | none => rfl
    | some slot =>
      refine Value.str_orElse (fun hempty => hslot ?_) .null
      rw [hgiven, hempty]
  rw [slotOf, hport]
  cases e.slot <;> rfl

theorem edge?_entry {e : Edge} (hid : e.id ≠ "") (hslot : e.slot ≠ some "") (ids : List String) :
    edge? ids e.entry =
      .ok (if ids.contains e.source && ids.contains e.target then some e else none) := by
  have hsource : (Table.get? e.entry "source").getD (Fields.get e.entry "from") = .str e.source := rfl
  have htarget : (Table.get? e.entry "target").getD (Fields.get e.entry "to") = .str e.target := rfl
  have hedgeId : edgeId e.entry e.source e.target = .ok e.id :=
    congrArg Value.display (Value.str_orElse hid _)
  unfold edge?
  rw [hsource, htarget]
  simp only [Value.display_str, Except.mapError, bind, Except.bind, hedgeId, slotOf_entry hslot]
  split <;> rfl

theorem edges_entries {listed : List Edge} (hids : ∀ e ∈ listed, e.id ≠ "")
    (hslots : ∀ e ∈ listed, e.slot ≠ some "") (ids : List String) :
    Import.edges ids (listed.map Edge.entry) =
      .ok (listed.filter fun e => ids.contains e.source && ids.contains e.target) := by
  induction listed with
  | nil => rfl
  | cons e listed ih =>
    have hrest := ih (fun e' he' => hids e' (List.mem_cons_of_mem _ he'))
      (fun e' he' => hslots e' (List.mem_cons_of_mem _ he'))
    have hedge := edge?_entry (hids e List.mem_cons_self) (hslots e List.mem_cons_self) ids
    rw [List.map_cons, Import.edges, hedge, hrest, List.filter_cons]
    cases ids.contains e.source && ids.contains e.target <;> rfl

theorem contains_ids (graph : Graph) (id : String) : graph.ids.contains id = graph.declares id := by
  rw [Bool.eq_iff_iff, Graph.declares_iff, List.contains_iff_mem]

theorem normalize_id {node node' : Node} (h : node.normalize catalogue = .ok node') :
    node'.id = node.id := by
  simp only [Node.normalize, bind_eq_ok, pure, Except.pure, Except.ok.injEq] at h
  obtain ⟨kind, -, params, -, rfl⟩ := h
  rfl

theorem graph_entry {graph : Graph} (hids : ∀ e ∈ graph.edges, e.id ≠ "")
    (hslots : ∀ e ∈ graph.edges, e.slot ≠ some "") :
    Import.graph catalogue graph.entry = (graph.normalize catalogue).mapError .fault := by
  have hnodes : entries (Fields.get graph.entry "nodes") = .ok (graph.nodes.map Node.entry) :=
    entries_objects Node.entry graph.nodes
  have hedges : entries (Fields.get graph.entry "edges") = .ok (graph.edges.map Edge.entry) :=
    entries_objects Edge.entry graph.edges
  have htraining : Training.decodeFields (trainingFields graph.entry) = .valid graph.training :=
    Training.decode_toValue graph.training
  have hinput (nodes : List Node) :
      InputSpec.decodeFields (inputFields graph.entry nodes) = .valid graph.input :=
    InputSpec.decode_toValue graph.input
  rw [Import.graph, Graph.normalize, hnodes, hedges]
  simp only [Except.mapError, bind, Except.bind, nodes_entries]
  cases hnormal : graph.nodes.mapM (·.normalize catalogue) with
  | error fault => rfl
  | ok nodes =>
    have hsame : Graph.ids { graph with nodes } = graph.ids :=
      Graph.ids_eq (mapM_eq_ok_iff.1 hnormal) fun _ _ => normalize_id
    rw [Graph.ids] at hsame
    simp only [hsame, edges_entries hids hslots, contains_ids, htraining, hinput]
    rfl

end Import

/-- The document of a graph is read as the normal form of the graph, and fails to be read with the
fault that normalization fails with; so a graph comes back as it was exactly if it is normal. -/
theorem Graph.ofDocument_toValue (catalogue : Catalogue) (graph : Graph)
    (hids : ∀ e ∈ graph.edges, e.id ≠ "") (hslots : ∀ e ∈ graph.edges, e.slot ≠ some "") :
    Graph.ofDocument catalogue graph.toValue = (graph.normalize catalogue).mapError .fault ∧
    (Graph.ofDocument catalogue graph.toValue = .ok graph ↔
      graph.normalize catalogue = .ok graph) := by
  have hread : Graph.ofDocument catalogue graph.toValue =
      (graph.normalize catalogue).mapError .fault := by
    rw [Graph.toValue_eq, Graph.ofDocument, Import.graph_entry hids hslots]
  refine ⟨hread, ?_⟩
  rw [hread]
  cases graph.normalize catalogue <;> simp [Except.mapError]

namespace Graph

/-- A kind and a padding in words, a kind that is not known, an edge from nowhere and a slot, with
training and input of their own. -/
def packed : Graph where
  nodes := [⟨"a", "conv", "", [("padding", .str "Same"), ("kernel_size", .int 5)]⟩,
    ⟨"b", "Foo", "last", [("n", .list [.null, .float .nan])]⟩]
  edges := [⟨"1", "a", "b", some "left"⟩, ⟨"2", "nowhere", "b", none⟩]
  training := { classes := none, loss := .meanSquare, learningRate := .infinite false }
  input := ⟨[-1, 3], .int64⟩

def endless : Graph where
  nodes := [⟨"a", "Conv2d", "", [("padding", .str "same"), ("kernel_size", .float (.infinite false))]⟩]

theorem packed_read :
    (∀ e ∈ packed.edges, e.id ≠ "") ∧ (∀ e ∈ packed.edges, e.slot ≠ some "") ∧
    (∃ normal, packed.normalize Catalogue.standard = .ok normal ∧
      Graph.ofDocument Catalogue.standard packed.toValue = .ok normal ∧ normal ≠ packed) ∧
    Graph.ofDocument Catalogue.standard endless.toValue = .error (.fault .infinity) := by
  have hids : ∀ e ∈ packed.edges, e.id ≠ "" := by decide
  have hslots : ∀ e ∈ packed.edges, e.slot ≠ some "" := by decide
  have hchanged : (packed.normalize Catalogue.standard).map (fun normal => decide (normal ≠ packed)) =
      .ok true := eq_ok_of_toOption (by decide +kernel)
  obtain ⟨normal, hnormal, hne⟩ := map_eq_ok.1 hchanged
  obtain ⟨hread, -⟩ := ofDocument_toValue Catalogue.standard packed hids hslots
  obtain ⟨hfails, -⟩ := ofDocument_toValue Catalogue.standard endless (by decide) (by decide)
  refine ⟨hids, hslots, ⟨normal, hnormal, ?_, by simpa using hne⟩, ?_⟩
  · rw [hread, hnormal]
    rfl
  · rw [hfails]
    rfl

end Graph

end LayerGraph
