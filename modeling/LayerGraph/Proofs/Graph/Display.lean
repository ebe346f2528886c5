import LayerGraph.Proofs.Graph.Evaluation
set_option autoImplicit false

namespace LayerGraph

def Node.bare (node : Node) : Node := { node with label := "" }

def Edge.bare (edge : Edge) : Edge := { edge with id := "", slot := none }

namespace Graph

/-- The graph without display text. -/
def bare (graph : Graph) : Graph :=
  { graph with nodes := graph.nodes.map (·.bare), edges := graph.edges.map (·.bare) }

variable (graph : Graph) (catalogue : Catalogue)

theorem ids_bare : graph.bare.ids = graph.ids := by
  simp [ids, bare, Node.bare]

theorem declares_bare (id : String) : graph.bare.declares id = graph.declares id := by
  simp [declares, bare, Node.bare, Function.comp_def]

theorem sources_bare (id : String) : graph.bare.sources id = graph.sources id := by
  simp [sources, incoming, bare, Edge.bare, List.filter_map, Function.comp_def]

theorem inner_bare : graph.bare.inner = graph.inner.map (·.bare) := by
  simp only [inner, declares_bare]
  simp [bare, Edge.bare, List.filter_map, Function.comp_def]

theorem targets_bare (edges : List Edge) (id : String) :
    targets (edges.map (·.bare)) id = targets edges id := by
  simp [targets, Edge.bare, List.filter_map, Function.comp_def]

theorem inDegree_bare (edges : List Edge) : inDegree (edges.map (·.bare)) = inDegree edges := by
  funext id
  simp [inDegree, Edge.bare, List.countP_map, Function.comp_def]

theorem visited_bare : graph.bare.visited = graph.visited := by
  have htargets : targets graph.bare.inner = targets graph.inner := by
    funext id
    rw [inner_bare, targets_bare]
  have hdegree : inDegree graph.bare.inner = inDegree graph.inner := by
    rw [inner_bare, inDegree_bare]
  simp only [visited, htargets, hdegree, seeds, ids_bare]
  simp [bare]

theorem node?_bare (id : String) : graph.bare.node? id = (graph.node? id).map (·.bare) := by
  rw [node?, node?, bare, ← List.map_reverse, List.find?_map]
  rfl

theorem ordered_bare : graph.bare.ordered = graph.ordered.map (·.bare) := by
  simp only [ordered, visited_bare, List.map_filterMap, node?_bare]

theorem cyclic_bare : graph.bare.cyclic = graph.cyclic := by
  simp only [cyclic, ids_bare, visited_bare]

theorem evaluate_bare (node : Node) (spec : InputSpec) (feeds : List (Option NodeResult)) :
    node.bare.evaluate catalogue spec feeds = node.evaluate catalogue spec feeds := rfl

theorem traceLines_bare (node : Node) (shape : Option Shape) :
    (graph.bare.traceLines catalogue node.bare shape).map (fun _ => ()) =
      (graph.traceLines catalogue node shape).map (fun _ => ()) := by
  have hline : ∀ (graph : Graph) (node : Node), (graph.traceLine node shape).map (fun _ => ()) =
      (Shape.label shape).map (fun _ => ()) := by
    intro graph node
    rw [traceLine]
    cases Shape.label shape with
    | error fault => rfl
    | ok label =>
      change Except.map _ (if node.kind = inputKind then _ else _) = _
      split <;> rfl
  have hlines : ∀ (graph : Graph) (node : Node),
      (graph.traceLines catalogue node shape).map (fun _ => ()) =
        if (catalogue.find? node.kind).isSome then (Shape.label shape).map (fun _ => ())
        else .ok () := by
    intro graph node
    rw [traceLines]
    split
    · rw [← hline graph node]
      cases graph.traceLine node shape <;> rfl
    · rfl
  rw [hlines, hlines]
  rfl

theorem advance_results (progress : Progress) (node : Node) :
    (graph.advance catalogue progress node).map (·.results) =
      node.evaluate catalogue graph.input ((graph.sources node.id).map progress.results.get?) >>=
        fun result => ((graph.traceLines catalogue node result.shape).map fun _ => ()).map fun _ =>
          progress.results.put node.id result := by
  rw [advance]
  cases node.evaluate catalogue graph.input
      ((graph.sources node.id).map progress.results.get?) with
  | error fault => rfl
  | ok result =>
    change Except.map _ (graph.traceLines catalogue node result.shape >>= _) = Except.map _ _
    cases graph.traceLines catalogue node result.shape <;> rfl

theorem advance_bare {progress other : Progress} (node : Node)
    (h : progress.results = other.results) :
    (graph.advance catalogue progress node).map (·.results) =
      (graph.bare.advance catalogue other node.bare).map (·.results) := by
  rw [advance_results, advance_results, evaluate_bare, ← h]
  simp only [traceLines_bare]
  rw [show node.bare.id = node.id from rfl, sources_bare]
  rfl

/-- What inference finds, which is all that it gives but the trace. -/
def findings (context : Context) : Table NodeResult × Bool := (context.results, context.hasErrors)

theorem infer_bare :
    (graph.bare.infer catalogue).map findings = (graph.infer catalogue).map findings := by
  have hrun : (graph.ordered.foldlM (graph.advance catalogue) ⟨graph.cycleResults, []⟩).map
      (·.results) = (graph.bare.ordered.foldlM (graph.bare.advance catalogue)
        ⟨graph.bare.cycleResults, []⟩).map (·.results) := by
    rw [ordered_bare]
    refine map_foldlM_congr (fun progress other node h => graph.advance_bare catalogue node h) ?_
    rw [cycleResults, cycleResults, cyclic_bare]
  have hfound : ∀ run : Except Fault Progress,
      (run >>= fun progress => pure (⟨progress.results, progress.trace,
        progress.results.any (·.2.status == .error)⟩ : Context)).map findings =
      (run.map (·.results)).map fun results => (results, results.any (·.2.status == .error)) := by
    intro run
    cases run <;> rfl
  rw [infer, infer, hfound, hfound, hrun]

theorem infer_of_bare_eq {graph other : Graph} (h : graph.bare = other.bare) :
    (graph.infer catalogue).map findings = (other.infer catalogue).map findings := by
  rw [← infer_bare, h, infer_bare]

end Graph

end LayerGraph
