import LayerGraph.Proofs.Graph.Remarks
set_option autoImplicit false

namespace LayerGraph.Graph

/-- The declared ids from which edges lead into a node, once for each edge, in their order. -/
def feeders (graph : Graph) (id : String) : List String :=
  (graph.inner.filter (·.target == id)).map (·.source)

def Progress.shapes (progress : Progress) (graph : Graph) (id : String) : List Shape :=
  Node.inputShapes ((graph.sources id).map progress.results.get?)

variable {catalogue : Catalogue} {graph : Graph} {context : Context}

theorem feeders_eq {id : String} (h : id ∈ graph.ids) :
    graph.feeders id = (graph.sources id).filter fun source => graph.declares source := by
  have hid : graph.declares id = true := (declares_iff graph id).2 h
  simp only [feeders, inner, sources, incoming, List.filter_map, List.filter_filter]
  refine congrArg (List.map _) (List.filter_congr fun e _ => ?_)
  by_cases ht : e.target = id
  · simp [ht, hid]
  · have hother : (e.target == id) = false := by simpa using ht
    simp [hother]

theorem mem_feeders {id source : String} (h : id ∈ graph.ids) :
    source ∈ graph.feeders id ↔ source ∈ graph.sources id ∧ source ∈ graph.ids := by
  rw [feeders_eq h, List.mem_filter, declares_iff]

theorem filterMap_eq_filter {α β : Type} {f : α → Option β} {p : α → Bool} {xs : List α}
    (h : ∀ x ∈ xs, p x = (f x).isSome) : (xs.filterMap f).map some = (xs.filter p).map f := by
  induction xs with
  | nil => rfl
  | cons x xs ih =>
    have hrest := ih fun y hy => h y (List.mem_cons_of_mem _ hy)
    have hx := h x List.mem_cons_self
    cases hf : f x with
    | none => simpa [hf, hx] using hrest
    | some y => simpa [hf, hx] using hrest

theorem get?_of_advance {nodes : List Node} {progress next : Progress}
    (hrun : nodes.foldlM (graph.advance catalogue) progress = .ok next) {id : String}
    (hid : id ∉ nodes.map (·.id)) : next.results.get? id = progress.results.get? id := by
  refine foldlM_invariant (fun _ later : _ =>
    later.results.get? id = progress.results.get? id) hrun rfl ?_
  intro before node after later last heq hold hnext
  subst heq
  obtain ⟨result, lines, -, -, rfl⟩ := advance_eq_ok.1 hnext
  have hne : id ≠ node.id := by
    intro heq
    subst heq
    simp at hid
  rw [Table.get?_put_of_ne _ hne]
  exact hold

theorem cyclic_eq_nil (hinfer : graph.infer catalogue = .ok context)
    (hclean : context.hasErrors = false) : graph.cyclic = [] := by
  refine List.eq_nil_iff_forall_not_mem.2 fun id hid => ?_
  rw [hasErrors_of_cyclic hinfer hid] at hclean
  cases hclean

theorem ordered_perm (hids : graph.ids.Nodup) (hinfer : graph.infer catalogue = .ok context)
    (hclean : context.hasErrors = false) : graph.ordered.Perm graph.nodes := by
  have hnodes : graph.nodes.Nodup := List.Nodup.of_map _ hids
  have hordered : graph.ordered.Nodup := List.Nodup.of_map _ (ordered_nodup hids)
  refine (List.perm_ext_iff_of_nodup hordered hnodes).2 fun node => ?_
  rw [mem_ordered hids, cyclic_eq_nil hinfer hclean]
  simp

/-- A node of a graph without errors, in its turn. -/
structure Evaluated (catalogue : Catalogue) (graph : Graph) (context : Context)
    (before : List Node) (node : Node) (progress : Progress) (result : NodeResult)
    (layer : Layer) : Prop where
  reached : progressAfter catalogue graph before = .ok progress
  evaluated : node.evaluate catalogue graph.input ((graph.sources node.id).map progress.results.get?) =
    .ok result
  kept : context.results.get? node.id = some result
  sound : Node.Sound catalogue graph.input node (progress.shapes graph node.id) result.shape layer

theorem exists_evaluated (hids : graph.ids.Nodup) (hinfer : graph.infer catalogue = .ok context)
    (hclean : context.hasErrors = false) {before after : List Node} {node : Node}
    (hsplit : graph.ordered = before ++ node :: after) :
    ∃ progress result layer,
      Evaluated catalogue graph context before node progress result layer := by
  have hresults := (hasErrors_eq_false_iff hinfer).1 hclean
  obtain ⟨final, hrun, rfl⟩ := infer_eq_ok.1 hinfer
  rw [hsplit] at hrun
  obtain ⟨progress, next, hbefore, hnext, hafter⟩ := foldlM_split_eq_ok.1 hrun
  obtain ⟨result, lines, hresult, -, rfl⟩ := advance_eq_ok.1 hnext
  have hcut : graph.ordered = (before ++ [node]) ++ after := by simp [hsplit]
  have hkept : final.results.get? node.id = some result := by
    rw [get?_of_advance hafter (not_mem_of_ordered hids hcut (by simp)), Table.get?_put_self]
  have hgood : result.status ≠ .error := hresults _ (Table.mem_of_get? hkept)
  obtain ⟨layer, hsound⟩ := Node.evaluate_sound hresult hgood
  exact ⟨progress, result, layer, hbefore, hresult, hkept, hsound⟩

theorem exists_evaluated_of_mem (hids : graph.ids.Nodup)
    (hinfer : graph.infer catalogue = .ok context) (hclean : context.hasErrors = false)
    {node : Node} (hnode : node ∈ graph.nodes) :
    ∃ before after progress result layer, graph.ordered = before ++ node :: after ∧
      Evaluated catalogue graph context before node progress result layer := by
  obtain ⟨before, after, hsplit⟩ :=
    List.append_of_mem ((ordered_perm hids hinfer hclean).mem_iff.2 hnode)
  obtain ⟨progress, result, layer, h⟩ := exists_evaluated hids hinfer hclean hsplit
  exact ⟨before, after, progress, result, layer, hsplit, h⟩

variable {before after : List Node} {node : Node} {progress : Progress} {result : NodeResult}
  {layer : Layer}

theorem Evaluated.stands (hids : graph.ids.Nodup) (hinfer : graph.infer catalogue = .ok context)
    (hsplit : graph.ordered = before ++ node :: after)
    (h : Evaluated catalogue graph context before node progress result layer) {earlier : Node}
    (hmem : earlier ∈ before) :
    context.results.get? earlier.id = progress.results.get? earlier.id := by
  obtain ⟨final, hrun, rfl⟩ := infer_eq_ok.1 hinfer
  rw [hsplit] at hrun
  obtain ⟨reached, hreached, hrest⟩ := foldlM_append_eq_ok.1 hrun
  obtain rfl : reached = progress := Except.ok.inj (hreached.symm.trans h.reached)
  exact get?_of_advance hrest (not_mem_of_ordered hids hsplit (List.mem_map_of_mem hmem))

theorem Evaluated.feeder (hids : graph.ids.Nodup) (hinfer : graph.infer catalogue = .ok context)
    (hclean : context.hasErrors = false) (hsplit : graph.ordered = before ++ node :: after)
    (h : Evaluated catalogue graph context before node progress result layer) {source : String}
    (hsource : source ∈ graph.feeders node.id) :
    ∃ fed : NodeResult, progress.results.get? source = some fed ∧
      context.results.get? source = some fed ∧ fed.shape.isSome := by
  have hnode : node.id ∈ graph.ids := mem_ids_of_ordered (by simp [hsplit])
  obtain ⟨hedge, hdeclared⟩ := (mem_feeders hnode).1 hsource
  obtain ⟨earlier, hmem, rfl⟩ :=
    List.mem_map.1 (source_mem_of_ordered hids hsplit hedge hdeclared)
  obtain ⟨first, rest, hbefore⟩ := List.append_of_mem hmem
  have hcut : graph.ordered = first ++ earlier :: (rest ++ node :: after) := by
    simp [hsplit, hbefore]
  obtain ⟨_, fed, _, hfed⟩ := exists_evaluated hids hinfer hclean hcut
  refine ⟨fed, ?_, hfed.kept, hfed.sound.shaped⟩
  rw [← h.stands hids hinfer hsplit hmem, hfed.kept]

theorem Evaluated.shapes (hids : graph.ids.Nodup) (hinfer : graph.infer catalogue = .ok context)
    (hclean : context.hasErrors = false) (hsplit : graph.ordered = before ++ node :: after)
    (h : Evaluated catalogue graph context before node progress result layer) :
    (progress.shapes graph node.id).map some =
      (graph.feeders node.id).map fun source => (context.results.get? source).bind (·.shape) := by
  have hnode : node.id ∈ graph.ids := mem_ids_of_ordered (by simp [hsplit])
  have hlookup : ∀ source ∈ graph.sources node.id,
      graph.declares source = ((progress.results.get? source).bind (·.shape)).isSome := by
    intro source hsource
    by_cases hdeclared : source ∈ graph.ids
    · obtain ⟨fed, hfed, -, hshape⟩ :=
        h.feeder hids hinfer hclean hsplit ((mem_feeders hnode).2 ⟨hsource, hdeclared⟩)
      rw [(declares_iff graph source).2 hdeclared, hfed]
      exact hshape.symm
    · have hsettled := Settled.run hids hsplit h.reached
      have hnone : progress.results.get? source = none := by
        rw [Table.get?_eq_none_iff, hsettled.keys, cyclic_eq_nil hinfer hclean, List.nil_append]
        intro hin
        obtain ⟨earlier, hmem, rfl⟩ := List.mem_map.1 hin
        exact hdeclared (mem_ids_of_ordered (by simp [hsplit, hmem]))
      rw [hnone, (declares_eq_false_iff graph source).2 hdeclared]
      rfl
  rw [Progress.shapes, Node.inputShapes, List.filterMap_map]
  refine (filterMap_eq_filter hlookup).trans ?_
  rw [← feeders_eq hnode]
  refine List.map_congr_left fun source hsource => ?_
  obtain ⟨fed, hfed, hkept, -⟩ := h.feeder hids hinfer hclean hsplit hsource
  rw [hfed, hkept]

end LayerGraph.Graph
