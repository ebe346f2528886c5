import LayerGraph.Proofs.Graph.Parallel
import LayerGraph.Proofs.Layer.Parameters
import LayerGraph.Proofs.Layer.Symbolic
set_option autoImplicit false

namespace LayerGraph

def Value.Forgets (v v' : Value) : Prop := v' = v ∨ v' = .int (-1)

/-- A parameter that is kept, or the declared shape of a graph input with sizes made symbolic. -/
def Node.ForgetsField (kind : String) (field field' : String × Value) : Prop :=
  field'.1 = field.1 ∧ (field'.2 = field.2 ∨
    kind = Graph.inputKind ∧ field.1 = "shape" ∧ ∃ items items', field.2 = .list items ∧
      field'.2 = .list items' ∧ List.Forall₂ Value.Forgets items items')

structure Node.Forgets (node node' : Node) : Prop where
  id : node'.id = node.id
  kind : node'.kind = node.kind
  params : List.Forall₂ (Node.ForgetsField node.kind) node.params node'.params

/-- A graph with some of the sizes that its inputs and its input spec declare made symbolic. -/
structure Graph.Forgets (graph graph' : Graph) : Prop where
  nodes : List.Forall₂ Node.Forgets graph.nodes graph'.nodes
  edges : graph'.edges = graph.edges
  type : graph'.input.type = graph.input.type
  shape : Shape.Forgets graph.input.shape graph'.input.shape

namespace Node.Forgets

variable {node node' : Node}

theorem get? (h : node.Forgets node') (key : String) :
    Option.Rel (fun v v' => ForgetsField node.kind (key, v) (key, v')) (node.params.get? key)
      (node'.params.get? key) := by
  have hparams := h.params
  generalize node.params = params, node'.params = params' at hparams
  induction hparams with
  | nil => exact .none
  | @cons field field' params params' hfield _ ih =>
    obtain ⟨k, v⟩ := field
    obtain ⟨k', v'⟩ := field'
    obtain rfl : k' = k := hfield.1
    rw [Table.get?_cons, Table.get?_cons]
    split
    · rename_i hkey
      subst hkey
      exact .some hfield
    · exact ih

theorem get?_eq (h : node.Forgets node') {key : String} (hkey : key ≠ "shape") :
    node'.params.get? key = node.params.get? key := by
  have hrel := h.get? key
  generalize node.params.get? key = v?, node'.params.get? key = v'? at hrel
  cases hrel with
  | none => rfl
  | some hfield =>
    rcases hfield.2 with heq | ⟨-, hshape, -⟩
    · exact congrArg some heq
    · exact absurd hshape hkey

theorem params_eq (h : node.Forgets node') (hkind : node.kind ≠ Graph.inputKind) :
    node'.params = node.params := by
  have hfields : List.Forall₂ Eq node.params node'.params := by
    refine h.params.imp fun field field' hfield => ?_
    rcases hfield.2 with hvalue | ⟨hinput, -⟩
    · exact Prod.ext hfield.1.symm hvalue.symm
    · exact absurd hinput hkind
  exact (List.forall₂_eq_eq_eq ▸ hfields : node.params = node'.params).symm

end Node.Forgets

namespace Layer.Sizing

theorem sizes_forget {items items' : List Value} (h : List.Forall₂ Value.Forgets items items')
    {sizes : Shape} (hsizes : items.mapM Value.toInt = .ok sizes) :
    ∃ sizes', items'.mapM Value.toInt = .ok sizes' ∧ Shape.Forgets sizes sizes' := by
  rw [mapM_eq_ok_iff] at hsizes
  induction h generalizing sizes with
  | nil =>
    cases hsizes
    exact ⟨[], rfl, .nil⟩
  | @cons v v' items items' hv _ ih =>
    obtain ⟨n, rest, hn, hrest, rfl⟩ := List.forall₂_cons_left_iff.1 hsizes
    obtain ⟨rest', hrest', hforgets⟩ := ih hrest
    rw [mapM_eq_ok_iff] at hrest'
    rcases hv with rfl | rfl
    · exact ⟨n :: rest', mapM_eq_ok_iff.2 (.cons hn hrest'), .cons (.refl n) hforgets⟩
    · exact ⟨-1 :: rest', mapM_eq_ok_iff.2 (.cons rfl hrest'), .cons (.inr rfl) hforgets⟩

/-- Declared shapes with sizes made symbolic are read like the shapes themselves. -/
theorem input_forgets {params params' : Fields}
    (h : params'.get "shape" = params.get "shape" ∨ ∃ items items', params.get "shape" = .list items ∧
      params'.get "shape" = .list items' ∧ List.Forall₂ Value.Forgets items items')
    (inputs inputs' : List Shape) {size : Option Shape} (hsize : input inputs params = .ok size) :
    ∃ size', input inputs' params' = .ok size' ∧ Option.Rel Shape.Forgets size size' := by
  unfold input at hsize ⊢
  rcases h with heq | ⟨items, items', hitems, hitems', hforget⟩
  · rw [heq]
    refine ⟨size, hsize, ?_⟩
    cases size with
    | none => exact .none
    | some shape => exact .some (Shape.forgets_refl shape)
  · rw [hitems] at hsize
    rw [hitems']
    cases hforget with
    | nil =>
      cases hsize
      exact ⟨none, rfl, .none⟩
    | @cons v v' items items' hv hforget =>
      obtain ⟨sizes, hsizes, rfl⟩ := map_eq_ok.1 hsize
      obtain ⟨sizes', hsizes', hshape⟩ := sizes_forget (.cons hv hforget) hsizes
      exact ⟨some sizes', map_eq_ok.2 ⟨sizes', hsizes', rfl⟩, .some hshape⟩

end Layer.Sizing

namespace Node.Forgets

variable {node node' : Node}

theorem shape_resolve (h : node.Forgets node') :
    Fields.get (Layer.input.resolve node'.params) "shape" =
        Fields.get (Layer.input.resolve node.params) "shape" ∨
      ∃ items items', Fields.get (Layer.input.resolve node.params) "shape" = .list items ∧
        Fields.get (Layer.input.resolve node'.params) "shape" = .list items' ∧
        List.Forall₂ Value.Forgets items items' := by
  rw [Layer.resolve, Layer.resolve, Schema.get_resolve _ _ rfl, Schema.get_resolve _ _ rfl]
  have hrel := h.get? "shape"
  generalize node.params.get? "shape" = v?, node'.params.get? "shape" = v'? at hrel
  cases hrel with
  | none => exact .inl rfl
  | some hfield =>
    rcases hfield.2 with heq | ⟨-, -, hlists⟩
    · exact .inl heq
    · exact .inr hlists

theorem dtype_resolve (h : node.Forgets node') :
    Fields.get (Layer.input.resolve node'.params) "dtype" =
      Fields.get (Layer.input.resolve node.params) "dtype" := by
  rw [Layer.resolve, Layer.resolve, Schema.get_resolve _ _ rfl, Schema.get_resolve _ _ rfl,
    h.get?_eq (by decide)]

end Node.Forgets

namespace Graph

variable {graph graph' : Graph} {context : Context}

theorem Forgets.parallel (h : graph.Forgets graph') : Parallel Node.Forgets graph graph' := by
  have hids := ids_eq h.nodes fun _ _ hnode => hnode.id
  refine ⟨h.nodes, fun _ _ hnode => hnode.id, ?_⟩
  simp only [inner, h.edges, declares_congr hids]

theorem Forgets.sources (h : graph.Forgets graph') (id : String) :
    graph'.sources id = graph.sources id := by
  rw [Graph.sources, Graph.sources, incoming, incoming, h.edges]

theorem find?_input : Catalogue.standard.find? inputKind = some Layer.input := rfl

theorem Forgets.step (h : graph.Forgets graph') (hadd : ∀ node ∈ graph.nodes, node.kind ≠ "Add") :
    Parallel.Step Catalogue.standard Shape.Forgets Node.Forgets graph graph' context := by
  intro before node after progress result hsplit hturn hgood node' others hnode hfollows
  have hmem : node ∈ graph.nodes := mem_nodes_of_ordered (by simp [hsplit])
  obtain ⟨layer, hsound⟩ := Node.evaluate_sound hturn.evaluated hgood
  have hfind := hsound.known
  have hdrops : Node.Drops others (graph.sources node.id) (graph'.sources node'.id) := by
    rw [hnode.id, h.sources]
    exact Node.drops_refl _ _
  by_cases hinput : node.kind = inputKind
  · -- An input is sized on what it declares, and not on other nodes.
    rw [hinput, find?_input] at hfind
    cases hfind
    refine hturn.follows hgood hsound.known hnode.kind h.type (fun _ => hnode.dtype_resolve) hfollows
      hdrops (fun inputs' size _ hsize => ?_) (fun _ check _ _ hcheck => by cases hcheck)
    obtain ⟨size', hsize', hrel⟩ := Layer.Sizing.input_forgets hnode.shape_resolve
      (progress.shapes graph node.id) inputs' hsize
    refine ⟨size', hsize', ?_⟩
    rw [Node.inputShape, Node.inputShape, hnode.kind]
    cases hrel with
    | none =>
      rw [if_pos ⟨hinput, rfl⟩, if_pos ⟨hinput, rfl⟩]
      exact .some h.shape
    | some hshape =>
      cases hshape with
      | nil =>
        rw [if_pos ⟨hinput, rfl⟩, if_pos ⟨hinput, rfl⟩]
        exact .some h.shape
      | cons hn hrest =>
        rw [if_neg (by simp), if_neg (by simp)]
        exact .some (.cons hn hrest)
  · obtain ⟨hlayer, hkind⟩ := Catalogue.find?_spec hfind
    have htolerates := Catalogue.standard_tolerates hlayer (hkind ▸ hadd node hmem) (hkind ▸ hinput)
    have hparams := hnode.params_eq hinput
    refine hturn.follows hgood hfind hnode.kind h.type (fun hin => absurd hin hinput) hfollows hdrops
      (fun inputs' size hinputs hsize => ?_) (fun inputs' check findings hinputs hcheck hfindings => ?_)
    · obtain ⟨size', hsize', hrel⟩ := htolerates.shape _ inputs' _ size hinputs hsize
      rw [hparams]
      refine ⟨size', hsize', ?_⟩
      rw [Node.inputShape_of_ne hinput, Node.inputShape_of_ne (hnode.kind ▸ hinput)]
      exact hrel
    · rw [hparams]
      exact htolerates.check check hcheck _ inputs' _ findings hinputs hfindings

/-- What is inferred without errors stays when sizes of the inputs are made symbolic: no errors come
up, and every shape has the same axes, with the sizes that it had as far as they are still known. -/
theorem infer_symbolic (h : graph.Forgets graph') (hadd : ∀ node ∈ graph.nodes, node.kind ≠ "Add")
    (hinfer : graph.infer Catalogue.standard = .ok context) (hclean : context.hasErrors = false) :
    ∃ context', graph'.infer Catalogue.standard = .ok context' ∧ context'.hasErrors = false ∧
      ∀ id ∈ graph.ids, ∃ result result' shape shape',
        context.results.get? id = some result ∧ context'.results.get? id = some result' ∧
        result.shape = some shape ∧ result'.shape = some shape' ∧
        shape'.length = shape.length ∧
        (∀ (axis : Nat) n, shape'[axis]? = some n → 0 ≤ n → shape[axis]? = some n) ∧
        result'.type = result.type ∧ result'.status.rank ≤ result.status.rank := by
  obtain ⟨context', hinfer', hclean', hfollows⟩ := h.parallel.exists_infer hinfer hclean
    (fun _ _ hshape => hshape.writable) (h.step hadd)
  refine ⟨context', hinfer', hclean', fun id hid => ?_⟩
  obtain ⟨result, shape, hresult, hshape⟩ := exists_shape_of_clean hinfer hclean hid
  have hrel := hfollows id
  rw [hresult] at hrel
  obtain ⟨result', hresult', hfollow⟩ := exists_of_rel_some hrel
  have hshapes := hfollow.shape
  rw [hshape] at hshapes
  obtain ⟨shape', hshape', hforgets⟩ := exists_of_rel_some hshapes
  exact ⟨result, result', shape, shape', hresult, hresult', hshape, hshape', hforgets.length_eq.symm,
    fun _ _ hn hpos => hforgets.getElem?_of_nonneg hn hpos, hfollow.type, hfollow.status⟩

def pictures : Graph where
  nodes := [⟨"in", "Input", "", [("shape", .list [.int 2, .int 3, .int 9, .int 8])]⟩,
    ⟨"conv", "Conv2d", "", [("padding", .int 1)]⟩, ⟨"pool", "MaxPool2d", "", []⟩,
    ⟨"cat", "Concat", "", []⟩, ⟨"flat", "Flatten", "", []⟩]
  edges := [⟨"1", "in", "conv", none⟩, ⟨"2", "conv", "pool", none⟩, ⟨"3", "pool", "cat", none⟩,
    ⟨"4", "pool", "cat", none⟩, ⟨"5", "cat", "flat", none⟩]

def anyPictures : Graph :=
  { pictures with
    nodes := ⟨"in", "Input", "", [("shape", .list [.int (-1), .int 3, .int (-1), .int 8])]⟩ ::
      pictures.nodes.drop 1 }

theorem pictures_forget : pictures.Forgets anyPictures := by
  have hsame : ∀ node : Node, node.Forgets node := fun node =>
    ⟨rfl, rfl, List.forall₂_same.2 fun _ _ => ⟨rfl, .inl rfl⟩⟩
  refine ⟨.cons ⟨rfl, rfl, .cons ⟨rfl, .inr ⟨rfl, rfl, _, _, rfl, rfl, ?_⟩⟩ .nil⟩
    (List.forall₂_same.2 fun node _ => hsame node), rfl, rfl, Shape.forgets_refl _⟩
  exact .cons (.inr rfl) (.cons (.inl rfl) (.cons (.inr rfl) (.cons (.inl rfl) .nil)))

theorem pictures_symbolic :
    pictures.Forgets anyPictures ∧ (∀ node ∈ pictures.nodes, node.kind ≠ "Add") ∧
    ∃ context context' result result',
      pictures.infer Catalogue.standard = .ok context ∧ context.hasErrors = false ∧
      anyPictures.infer Catalogue.standard = .ok context' ∧ context'.hasErrors = false ∧
      context.results.get? "cat" = some result ∧ context'.results.get? "cat" = some result' ∧
      result.shape = some [2, 128, 4, 4] ∧ result'.shape = some [-1, 128, -1, 4] := by
  have hadd : ∀ node ∈ pictures.nodes, node.kind ≠ "Add" := by decide
  have hinfer : (pictures.infer Catalogue.standard).map (fun context =>
      (context.hasErrors, (context.results.get? "cat").map (·.shape))) =
        .ok (false, some (some [2, 128, 4, 4])) := eq_ok_of_toOption (by decide +kernel)
  have hinfer' : (anyPictures.infer Catalogue.standard).map (fun context =>
      (context.results.get? "cat").map (·.shape)) =
        .ok (some (some [-1, 128, -1, 4])) := eq_ok_of_toOption (by decide +kernel)
  obtain ⟨context, hcontext, hsummary⟩ := map_eq_ok.1 hinfer
  obtain ⟨hclean, hshape⟩ := Prod.mk.inj hsummary
  obtain ⟨context', hcontext', hclean', hids⟩ :=
    infer_symbolic pictures_forget hadd hcontext hclean
  obtain ⟨result, result', _, _, hresult, hresult', -⟩ := hids "cat" (by decide)
  rw [hcontext'] at hinfer'
  have hshape' := Except.ok.inj hinfer'
  exact ⟨pictures_forget, hadd, context, context', result, result', hcontext, hclean, hcontext',
    hclean', hresult, hresult', by simpa [hresult] using hshape, by simpa [hresult'] using hshape'⟩

end Graph

end LayerGraph
