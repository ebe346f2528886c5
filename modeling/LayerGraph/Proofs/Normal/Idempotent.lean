import LayerGraph.Graph.Import
import LayerGraph.Proofs.Graph.Parallel
import LayerGraph.Proofs.Layer.Parameters
import LayerGraph.Proofs.Normal.Values
import LayerGraph.Proofs.Normal.Words
set_option autoImplicit false

namespace LayerGraph

namespace Normal

def given (params : Fields) (key : String) (p : Param) : Except Fault Value :=
  match params.get? key with
  | some v => value p v
  | none => .ok p.default

theorem ofSchema_eq_ok {schema : Schema} {params fields : Fields} :
    ofSchema schema params = .ok fields ↔
      List.Forall₂ (fun entry field => field.1 = entry.1 ∧
        given params entry.1 entry.2 = .ok field.2) schema fields := by
  have hmap : ofSchema schema params =
      schema.mapM fun entry => (given params entry.1 entry.2).map (entry.1, ·) := by
    rw [ofSchema]
    congr 1
    funext ⟨key, p⟩
    simp only [given]
    cases params.get? key <;> rfl
  have hentry : ∀ (entry : String × Param) (field : String × Value),
      (given params entry.1 entry.2).map (entry.1, ·) = .ok field ↔
        field.1 = entry.1 ∧ given params entry.1 entry.2 = .ok field.2 := by
    intro entry field
    obtain ⟨key, v⟩ := field
    rw [map_eq_ok]
    constructor
    · rintro ⟨v', hv', heq⟩
      cases heq
      exact ⟨rfl, hv'⟩
    · rintro ⟨rfl, hv⟩
      exact ⟨v, hv, rfl⟩
  rw [hmap, mapM_eq_ok_iff]
  simp only [hentry]

theorem get?_ofSchema {schema : Schema} {params fields : Fields}
    (h : ofSchema schema params = .ok fields) {key : String} {p : Param}
    (hp : schema.get? key = some p) :
    ∃ v, fields.get? key = some v ∧ given params key p = .ok v := by
  rw [ofSchema_eq_ok] at h
  induction h with
  | nil => cases hp
  | @cons entry field schema fields hfield _ ih =>
    obtain ⟨k, q⟩ := entry
    obtain ⟨k', v⟩ := field
    obtain ⟨rfl, hv⟩ := hfield
    rw [Table.get?_cons] at hp ⊢
    by_cases hkey : key = k'
    · subst hkey
      rw [if_pos rfl] at hp ⊢
      cases hp
      exact ⟨v, rfl, hv⟩
    · rw [if_neg hkey] at hp ⊢
      exact ih hp

theorem value_of_given {params : Fields} {key : String} {p : Param} (hsound : p.sound = true)
    {v : Value} (h : given params key p = .ok v) : value p v = .ok v := by
  rw [given] at h
  split at h
  · exact value_value hsound h
  · cases h
    exact value_default hsound

theorem forall₂_given {schema : Schema} {params fields table : Fields}
    (hsound : ∀ entry ∈ schema, entry.2.sound = true)
    (hfields : List.Forall₂ (fun entry field => field.1 = entry.1 ∧
      given params entry.1 entry.2 = .ok field.2) schema fields)
    (hget : ∀ field ∈ fields, table.get? field.1 = some field.2) :
    List.Forall₂ (fun entry field => field.1 = entry.1 ∧
      given table entry.1 entry.2 = .ok field.2) schema fields := by
  induction hfields with
  | nil => exact .nil
  | @cons entry field schema fields hfield _ ih =>
    obtain ⟨hentry, hsound⟩ := List.forall_mem_cons.1 hsound
    obtain ⟨hfirst, hget⟩ := List.forall_mem_cons.1 hget
    refine .cons ⟨hfield.1, ?_⟩ (ih hsound hget)
    rw [given, ← hfield.1, hfirst]
    exact value_of_given hentry hfield.2

theorem ofSchema_ofSchema {schema : Schema} (hkeys : (schema.map (·.1)).Nodup)
    (hsound : ∀ entry ∈ schema, entry.2.sound = true) {params fields : Fields}
    (h : ofSchema schema params = .ok fields) : ofSchema schema fields = .ok fields := by
  have hfields := ofSchema_eq_ok.1 h
  have hsame : schema.map (·.1) = fields.map (·.1) := by
    rw [← List.forall₂_eq_eq_eq]
    exact List.rel_map (fun _ _ hfield => hfield.1.symm) hfields
  exact ofSchema_eq_ok.2 (forall₂_given hsound hfields fun field hfield =>
    Table.get?_of_mem (hsame ▸ hkeys) hfield)

theorem samePadding_of_get? {params : Fields} {v : Value} (hget : params.get? "padding" = some v)
    (hform : v.form ≠ .text) (hv : v.writable = true) : samePadding params = .ok params := by
  have hdisplay : v.display = .ok v.literal := by
    have hwrite : v.write = .ok v.literal := by rw [Value.write, if_pos hv]
    cases v with
    | str s => exact absurd rfl hform
    | _ => exact hwrite
  simp only [samePadding, hget, Option.getD_some, hdisplay, bind, Except.bind]
  rw [if_neg (display_ne_same hform hdisplay)]
  rfl

theorem samePadding_writable {params next : Fields}
    (hparams : ∀ field ∈ params, field.2.writable = true) (h : samePadding params = .ok next)
    {v : Value} (hget : next.get? "padding" = some v) : v.writable = true := by
  simp only [samePadding, bind_eq_ok, pure, Except.pure] at h
  obtain ⟨word, -, h⟩ := h
  split at h
  · obtain ⟨kernel, hkernel, hnext⟩ := bind_eq_ok.1 h
    cases hnext
    rw [Table.get?_put_self, Option.some.injEq] at hget
    subst hget
    have hwritable : isWritable kernel = true :=
      size_writable (isWritable_of_lt_two_pow (k := 2) (by decide) (by decide))
        (Value.writable_get hparams "kernel_size") hkernel
    simp only [Value.writable]
    refine isWritable_of_natAbs_le hwritable ?_
    split <;> omega
  · cases h
    exact hparams _ (Table.mem_of_get? hget)

theorem find?_convolution : Catalogue.standard.find? "Conv2d" = some Layer.convolution := rfl

theorem params_of_find? {word : String} {layer : Layer} {params fields : Fields}
    (hfind : Catalogue.standard.find? word = some layer) :
    Normal.params Catalogue.standard word params = .ok fields ↔
      ∃ next, (if word = "Conv2d" then samePadding params else .ok params) = .ok next ∧
        ofSchema layer.schema next = .ok fields := by
  unfold Normal.params
  simp only [hfind]
  split
  · exact bind_eq_ok
  · exact bind_eq_ok

/-- The padding of a convolution is a number afterwards, and so not the word any more. -/
theorem samePadding_ofSchema {params next fields : Fields}
    (hparams : ∀ field ∈ params, field.2.writable = true) (hnext : samePadding params = .ok next)
    (hfields : ofSchema Layer.convolution.schema next = .ok fields) :
    samePadding fields = .ok fields := by
  let p := Layer.sizeParam "Padding" 0 0
  have hp : Layer.convolution.schema.get? "padding" = some p := rfl
  obtain ⟨v, hget, hv⟩ := get?_ofSchema hfields hp
  have hsound : p.sound = true := by decide +kernel
  have hform : v.form ≠ .text := by
    rcases accepts_of_value hsound (value_of_given hsound hv) with haccepts | rfl
    · intro htext
      cases v with
      | str s => cases haccepts
      | _ => cases htext
    · decide
  refine samePadding_of_get? hget hform ?_
  have hdefault : p.default.writable = true := isWritable_of_natAbs_le_one (by decide)
  rw [given] at hv
  split at hv
  · rename_i v' hv'
    exact value_number_writable rfl hdefault (samePadding_writable hparams hnext hv') hv
  · cases hv
    exact hdefault

theorem params_params {word : String} {params fields : Fields}
    (hparams : ∀ field ∈ params, field.2.writable = true)
    (h : Normal.params Catalogue.standard word params = .ok fields) :
    Normal.params Catalogue.standard word fields = .ok fields := by
  cases hfind : Catalogue.standard.find? word with
  | none => simp only [Normal.params, hfind]
  | some layer =>
    obtain ⟨next, hnext, hfields⟩ := (params_of_find? hfind).1 h
    have hmem := List.mem_of_find?_eq_some hfind
    have hkept := ofSchema_ofSchema (Catalogue.standard_keys layer hmem)
      (Catalogue.standard_sound layer hmem) hfields
    refine (params_of_find? hfind).2 ⟨fields, ?_, hkept⟩
    by_cases hword : word = "Conv2d"
    · subst hword
      rw [if_pos rfl] at hnext ⊢
      obtain rfl := Option.some.inj (hfind.symm.trans find?_convolution)
      exact samePadding_ofSchema hparams hnext hfields
    · rw [if_neg hword]

end Normal

namespace Node

theorem normalize_eq_ok {node node' : Node} :
    node.normalize Catalogue.standard = .ok node' ↔
      node'.id = node.id ∧
      Normal.kind Catalogue.standard node.kind node.params = .ok node'.kind ∧
      Normal.params Catalogue.standard node'.kind node.params = .ok node'.params ∧
      node'.label = if node.label.isEmpty then node'.kind else node.label := by
  obtain ⟨id, kind, label, params⟩ := node'
  simp only [normalize, bind_eq_ok, pure, Except.pure, Except.ok.injEq, Node.mk.injEq]
  constructor
  · rintro ⟨kind, hkind, params, hparams, rfl, rfl, rfl, rfl⟩
    exact ⟨rfl, hkind, hparams, rfl⟩
  · rintro ⟨rfl, hkind, hparams, rfl⟩
    exact ⟨kind, hkind, params, hparams, rfl, rfl, rfl, rfl⟩

theorem normalize_normalize {node node' : Node}
    (hparams : ∀ field ∈ node.params, field.2.writable = true)
    (h : node.normalize Catalogue.standard = .ok node') :
    node'.normalize Catalogue.standard = .ok node' := by
  obtain ⟨-, hkind, hfields, hlabel⟩ := normalize_eq_ok.1 h
  refine normalize_eq_ok.2 ⟨rfl, Normal.kind_kind hkind _, Normal.params_params hparams hfields, ?_⟩
  split
  · rename_i hempty
    rw [hlabel] at hempty ⊢
    split
    · rfl
    · rename_i hsome
      rw [if_neg hsome] at hempty
      exact absurd hempty hsome
  · rfl

end Node

namespace Graph

/-- A graph whose nodes are kept by normalization, with edges between its own ids only. -/
structure IsNormal (graph : Graph) : Prop where
  nodes : ∀ node ∈ graph.nodes, node.normalize Catalogue.standard = .ok node
  edges : ∀ e ∈ graph.edges, e.source ∈ graph.ids ∧ e.target ∈ graph.ids

theorem IsNormal.normalize {graph : Graph} (h : graph.IsNormal) :
    graph.normalize Catalogue.standard = .ok graph := by
  have hnodes : graph.nodes.mapM (·.normalize Catalogue.standard) = .ok graph.nodes :=
    mapM_eq_ok_iff.2 (List.forall₂_same.2 h.nodes)
  have hinner : graph.inner = graph.edges := by
    refine List.filter_eq_self.2 fun e he => ?_
    rw [Bool.and_eq_true, declares_iff, declares_iff]
    exact h.edges e he
  rw [Graph.normalize, hnodes, hinner]
  rfl

theorem normalize_eq_ok {graph normal : Graph} :
    graph.normalize Catalogue.standard = .ok normal ↔
      ∃ nodes, List.Forall₂ (fun node node' => node.normalize Catalogue.standard = .ok node')
        graph.nodes nodes ∧ normal = { graph with nodes, edges := graph.inner } := by
  simp only [Graph.normalize, bind_eq_ok, mapM_eq_ok_iff, pure, Except.pure, Except.ok.injEq,
    eq_comm (a := normal)]

theorem isNormal_normalize {graph normal : Graph}
    (hparams : ∀ node ∈ graph.nodes, ∀ field ∈ node.params, field.2.writable = true)
    (h : graph.normalize Catalogue.standard = .ok normal) : normal.IsNormal := by
  obtain ⟨nodes, hnodes, rfl⟩ := normalize_eq_ok.1 h
  refine ⟨fun node hnode => ?_, fun e he => ?_⟩
  · obtain ⟨given, hgiven, hnormal⟩ := exists_of_forall₂ hnodes hnode
    exact Node.normalize_normalize (hparams given hgiven) hnormal
  · have hids : ids { graph with nodes, edges := graph.inner } = graph.ids :=
      ids_eq hnodes fun _ _ hnormal => (Node.normalize_eq_ok.1 hnormal).1
    rw [hids]
    exact ((mem_inner_iff graph e).1 he).2

end Graph

namespace Import

section Read

variable {ε α : Type} (one : Fields → Except ε (Option α)) (read : List Fields → Except ε (List α))
  (hnil : read [] = .ok [])
  (hcons : ∀ entry entries, read (entry :: entries) = do
    let first ← one entry
    return first.toList ++ (← read entries))
include hnil hcons

theorem forall₂_of_read (keep : Fields → Bool)
    (hkeep : ∀ entry first, one entry = .ok first → keep entry = first.isSome)
    {entries : List Fields} {items : List α} (h : read entries = .ok items) :
    List.Forall₂ (fun entry item => one entry = .ok (some item)) (entries.filter keep) items := by
  induction entries generalizing items with
  | nil =>
    cases hnil.symm.trans h
    exact .nil
  | cons entry entries ih =>
    rw [hcons] at h
    simp only [bind_eq_ok, pure, Except.pure, Except.ok.injEq] at h
    obtain ⟨first, hfirst, rest, hrest, rfl⟩ := h
    rw [List.filter_cons, hkeep entry first hfirst]
    cases first with
    | none => exact ih hrest
    | some item => exact .cons hfirst (ih hrest)

theorem exists_of_read {entries : List Fields} {items : List α} (h : read entries = .ok items)
    {item : α} (hitem : item ∈ items) : ∃ entry ∈ entries, one entry = .ok (some item) := by
  have hread := forall₂_of_read one read hnil hcons (fun entry => (one entry).toOption.join.isSome)
    (fun entry first hfirst => by rw [hfirst]; rfl) h
  obtain ⟨entry, hentry, heq⟩ := exists_of_forall₂ hread hitem
  exact ⟨entry, (List.mem_filter.1 hentry).1, heq⟩

end Read

theorem exists_of_nodes {entries : List Fields} {nodes : List Node}
    (h : Import.nodes Catalogue.standard entries = .ok nodes) {node : Node} (hnode : node ∈ nodes) :
    ∃ entry ∈ entries, node? Catalogue.standard entry = .ok (some node) :=
  exists_of_read (node? Catalogue.standard) (Import.nodes Catalogue.standard) rfl (fun _ _ => rfl) h
    hnode

theorem exists_of_edges {ids : List String} {entries : List Fields} {edges : List Edge}
    (h : Import.edges ids entries = .ok edges) {e : Edge} (he : e ∈ edges) :
    ∃ entry ∈ entries, edge? ids entry = .ok (some e) :=
  exists_of_read (edge? ids) (Import.edges ids) rfl (fun _ _ => rfl) h he

theorem node?_eq_ok {fields : Fields} {node : Node}
    (h : node? Catalogue.standard fields = .ok (some node)) :
    ∃ read : Node, read.params = paramsOf fields ∧
      read.normalize Catalogue.standard = .ok node := by
  rw [node?] at h
  split at h
  · cases h
  · simp only [bind_eq_ok, pure, Except.pure, Except.ok.injEq, Option.some.injEq] at h
    obtain ⟨id, -, kind, -, label, -, normal, hnormal, rfl⟩ := h
    exact ⟨_, rfl, hnormal⟩

theorem edge?_eq_ok {ids : List String} {fields : Fields} {e : Edge}
    (h : edge? ids fields = .ok (some e)) : e.source ∈ ids ∧ e.target ∈ ids := by
  unfold edge? at h
  split at h
  · cases h
  · cases h
  · simp only [bind_eq_ok] at h
    obtain ⟨source, -, target, -, h⟩ := h
    split at h
    · rename_i hends
      simp only [bind_eq_ok, pure, Except.pure, Except.ok.injEq, Option.some.injEq] at h
      obtain ⟨id, -, slot, -, rfl⟩ := h
      simpa using hends
    · cases h

/-- The parts of a graph that is read: its nodes and edges are those of the entries. -/
theorem graph_entries {fields : Fields} {graph : Graph}
    (h : Import.graph Catalogue.standard fields = .ok graph) :
    ∃ nodeEntries edgeEntries, entries (fields.get "nodes") = .ok nodeEntries ∧
      entries (fields.get "edges") = .ok edgeEntries ∧
      Import.nodes Catalogue.standard nodeEntries = .ok graph.nodes ∧
      Import.edges graph.ids edgeEntries = .ok graph.edges := by
  simp only [Import.graph, bind_eq_ok, mapError_eq_ok] at h
  obtain ⟨nodeEntries, hentries, nodes, hnodes, edgeEntries, hlisted, edges, hedges, hgraph⟩ := h
  generalize (Training.decodeFields (trainingFields fields)).under (.key "training") = training,
    (InputSpec.decodeFields (inputFields fields nodes)).under (.key "input_spec") = input at hgraph
  cases training with
  | invalid defects => cases input <;> cases hgraph
  | valid training =>
    cases input with
    | invalid defects => cases hgraph
    | valid input =>
      cases hgraph
      exact ⟨nodeEntries, edgeEntries, hentries, hlisted, hnodes, hedges⟩

theorem graph_eq_ok {fields : Fields} {graph : Graph}
    (h : Import.graph Catalogue.standard fields = .ok graph) :
    ∃ nodeEntries edgeEntries, entries (fields.get "nodes") = .ok nodeEntries ∧
      Import.nodes Catalogue.standard nodeEntries = .ok graph.nodes ∧
      Import.edges graph.ids edgeEntries = .ok graph.edges := by
  obtain ⟨nodeEntries, edgeEntries, hentries, -, hnodes, hedges⟩ := graph_entries h
  exact ⟨nodeEntries, edgeEntries, hentries, hnodes, hedges⟩

theorem exists_of_entries {v : Value} {listed : List Fields} (h : entries v = .ok listed)
    {entry : Fields} (hentry : entry ∈ listed) :
    ∃ items, v = .list items ∧ Value.object entry ∈ items := by
  unfold entries at h
  split at h
  · rename_i items
    obtain rfl := Except.ok.inj h
    obtain ⟨item, hitem, hobject⟩ := List.mem_filterMap.1 hentry
    split at hobject
    · cases hobject
      exact ⟨items, rfl, hitem⟩
    · cases hobject
  · obtain rfl := Except.ok.inj h
    cases hentry
  · obtain rfl := Except.ok.inj h
    cases hentry
  · split at h
    · cases h
    · obtain rfl := Except.ok.inj h
      cases hentry

/-- The entries of nodes in a document have no parameter with an integer too long to be written. -/
def WritableParams (document : Value) : Prop :=
  ∀ (fields : Fields) (items : List Value) (entry : Fields), document = .object fields →
    Fields.get fields "nodes" = .list items → .object entry ∈ items →
      ∀ field ∈ paramsOf entry, field.2.writable = true

end Import

namespace Graph

theorem isNormal_ofDocument {document : Value} {graph : Graph}
    (hdocument : Import.WritableParams document)
    (h : Graph.ofDocument Catalogue.standard document = .ok graph) : graph.IsNormal := by
  cases document with
  | object fields =>
    obtain ⟨nodeEntries, edgeEntries, hentries, hnodes, hedges⟩ := Import.graph_eq_ok h
    refine ⟨fun node hnode => ?_, fun e he => ?_⟩
    · obtain ⟨entry, hentry, hread⟩ := Import.exists_of_nodes hnodes hnode
      obtain ⟨read, hparams, hnormal⟩ := Import.node?_eq_ok hread
      obtain ⟨items, hitems, hitem⟩ := Import.exists_of_entries hentries hentry
      refine Node.normalize_normalize ?_ hnormal
      rw [hparams]
      exact hdocument fields items entry rfl hitems hitem
    · obtain ⟨entry, -, hread⟩ := Import.exists_of_edges hedges he
      exact Import.edge?_eq_ok hread
  | _ => cases h

/-- Normalization is idempotent, and a graph that is read from a document is normal already. -/
theorem normalize_idempotent :
    (∀ graph normal : Graph,
      (∀ node ∈ graph.nodes, ∀ field ∈ node.params, field.2.writable = true) →
      graph.normalize Catalogue.standard = .ok normal →
        normal.normalize Catalogue.standard = .ok normal) ∧
    ∀ (document : Value) (graph : Graph), Import.WritableParams document →
      Graph.ofDocument Catalogue.standard document = .ok graph →
        graph.normalize Catalogue.standard = .ok graph :=
  ⟨fun _ _ hparams h => (isNormal_normalize hparams h).normalize,
    fun _ _ hdocument h => (isNormal_ofDocument hdocument h).normalize⟩

def scruffy : Graph where
  nodes := [⟨"a", " CONV ", "", [("padding", .str " Same"), ("kernel_size", .list [.str "5"]),
      ("bias", .str "off"), ("groups", .int 2)]⟩,
    ⟨"b", "Activation", "", [("activation", .str "Tanh")]⟩, ⟨"c", " Foo ", "Foo", [("n", .str "1")]⟩]
  edges := [⟨"1", "a", "b", none⟩, ⟨"2", "nowhere", "b", none⟩]

def neat : Graph where
  nodes := [⟨"a", "Conv2d", "Conv2d", [("in_channels", .int 3), ("out_channels", .int 64),
      ("kernel_size", .list [.int 5]), ("stride", .int 1), ("padding", .int 2), ("dilation", .int 1),
      ("bias", .bool false)]⟩,
    ⟨"b", "Tanh", "Tanh", []⟩, ⟨"c", "Foo", "Foo", [("n", .str "1")]⟩]
  edges := [⟨"1", "a", "b", none⟩]

def loose : Value :=
  .object [("nodes", .list [
    .object [("id", .int 7), ("type", .str "fc"), ("params", .object [("in_features", .str "64")])],
    .null])]

theorem scruffy_idempotent :
    scruffy.normalize Catalogue.standard = .ok neat ∧
    neat.normalize Catalogue.standard = .ok neat ∧
    ∃ graph, Graph.ofDocument Catalogue.standard loose = .ok graph ∧
      graph.normalize Catalogue.standard = .ok graph := by
  have hnormal : scruffy.normalize Catalogue.standard = .ok neat :=
    eq_ok_of_toOption (by decide +kernel)
  have hparams : ∀ node ∈ scruffy.nodes, ∀ field ∈ node.params, field.2.writable = true := by
    decide +kernel
  have hdocument : Import.WritableParams loose := by
    intro fields items entry hfields hitems hentry
    cases hfields
    cases hitems
    rcases List.mem_cons.1 hentry with heq | hrest
    · cases heq
      decide +kernel
    · simp at hrest
  have hread : (Graph.ofDocument Catalogue.standard loose).toOption.isSome := by decide +kernel
  obtain ⟨hgraphs, hdocuments⟩ := normalize_idempotent
  refine ⟨hnormal, hgraphs scruffy neat hparams hnormal, ?_⟩
  cases h : Graph.ofDocument Catalogue.standard loose with
  | error fault => simp [h, Except.toOption] at hread
  | ok graph => exact ⟨graph, rfl, hdocuments loose graph hdocument h⟩

end Graph

end LayerGraph
