import LayerGraph.Proofs.Graph.Clean
set_option autoImplicit false

/-!
What holds of every turn of a node in the order of evaluation, whatever ids are repeated. An id can
have several turns only if no edge from a declared node leads into it; it is then evaluated on
nothing each time, and with the same result. So the result of each turn is the one that stands at
the end, and what stands in the table when a node has its turn is known from the final results.
-/

namespace LayerGraph.Graph

/-- A turn of a node: what is made of it with the results that stand then, and stands at the end. -/
structure Turn (catalogue : Catalogue) (graph : Graph) (context : Context) (before : List Node)
    (node : Node) (progress : Progress) (result : NodeResult) : Prop where
  reached : progressAfter catalogue graph before = .ok progress
  evaluated : node.evaluate catalogue graph.input
    ((graph.sources node.id).map progress.results.get?) = .ok result
  traced : ∃ lines, graph.traceLines catalogue node result.shape = .ok lines
  kept : context.results.get? node.id = some result

variable {catalogue : Catalogue} {graph : Graph} {context : Context} {before after : List Node}
  {node : Node} {progress : Progress}

theorem node?_of_ordered (h : node ∈ graph.ordered) : graph.node? node.id = some node := by
  obtain ⟨id, -, hnode⟩ := List.mem_filterMap.1 h
  have hid : node.id = id := by simpa using List.find?_some hnode
  rw [hid, hnode]

theorem eq_of_ordered {other : Node} (h : node ∈ graph.ordered) (hother : other ∈ graph.ordered)
    (hid : other.id = node.id) : other = node := by
  have hnode := node?_of_ordered h
  rw [← hid, node?_of_ordered hother] at hnode
  exact Option.some.inj hnode

/-- The ids with a result after some nodes: those that are left out, and those of the nodes. -/
theorem mem_keys_of_reached (hrun : progressAfter catalogue graph before = .ok progress)
    (id : String) :
    id ∈ progress.results.map (·.1) ↔ id ∈ graph.cyclic ∨ id ∈ before.map (·.id) := by
  refine foldlM_invariant (fun before progress : _ => id ∈ progress.results.map (·.1) ↔
    id ∈ graph.cyclic ∨ id ∈ before.map (·.id)) hrun ?_ ?_
  · have hkeys := Table.get?_eq_none_iff graph.cycleResults id
    rw [get?_cycleResults] at hkeys
    by_cases hid : id ∈ graph.cyclic
    · simpa [hid] using hkeys
    · simpa [hid] using hkeys
  · intro first other rest middle next _ hold hnext
    obtain ⟨result, lines, -, -, rfl⟩ := advance_eq_ok.1 hnext
    rw [Table.keys_put]
    simp only [List.map_append, List.mem_append, List.map_cons, List.map_nil, List.mem_singleton]
    split
    · rename_i hin
      rw [hold]
      refine ⟨fun h => h.imp_right .inl, fun h => ?_⟩
      rcases h with hcyclic | hbefore | rfl
      · exact .inl hcyclic
      · exact .inr hbefore
      · exact hold.1 hin
    · rw [List.mem_append, List.mem_singleton, hold, or_assoc]

theorem get?_eq_none_of_reached (hrun : progressAfter catalogue graph before = .ok progress)
    {id : String} (hcyclic : id ∉ graph.cyclic) (hbefore : id ∉ before.map (·.id)) :
    progress.results.get? id = none := by
  rw [Table.get?_eq_none_iff, mem_keys_of_reached hrun]
  simp [hcyclic, hbefore]

theorem get?_of_undeclared (hsplit : graph.ordered = before ++ after)
    (hrun : progressAfter catalogue graph before = .ok progress) {id : String}
    (hid : id ∉ graph.ids) : progress.results.get? id = none := by
  refine get?_eq_none_of_reached hrun (fun hcyclic => hid (mem_cyclic.1 hcyclic).1) fun hin => ?_
  obtain ⟨earlier, hearlier, rfl⟩ := List.mem_map.1 hin
  exact hid (mem_ids_of_ordered (by simp [hsplit, hearlier]))

theorem source_not_mem_of_repeated (hsplit : graph.ordered = before ++ node :: after)
    (hagain : node.id ∈ after.map (·.id)) : ∀ source ∈ graph.sources node.id, source ∉ graph.ids := by
  intro source hsource hdeclared
  have hcount := count_visited graph node.id
  have htwice : 2 ≤ graph.visited.count node.id := by
    have hpos := List.one_le_count_iff.2 hagain
    rw [← ordered_ids, hsplit, List.map_append, List.map_cons, List.count_append,
      List.count_cons_self]
    omega
  have hzero : degree graph.inner node.id = 0 := by
    by_contra hpos
    rw [if_neg hpos] at hcount
    split at hcount <;> omega
  have hnode : node.id ∈ graph.ids := mem_ids_of_ordered (by simp [hsplit])
  exact degree_eq_zero_iff.1 hzero source (feeds_iff.2 ⟨hsource, hdeclared, hnode⟩)

theorem exists_last {id : String} : ∀ {nodes : List Node}, id ∈ nodes.map (·.id) →
    ∃ first last rest, nodes = first ++ last :: rest ∧ last.id = id ∧ id ∉ rest.map (·.id) := by
  intro nodes
  induction nodes with
  | nil => simp
  | cons head nodes ih =>
    intro hid
    by_cases hlater : id ∈ nodes.map (·.id)
    · obtain ⟨first, last, rest, rfl, hlast, hrest⟩ := ih hlater
      exact ⟨head :: first, last, rest, rfl, hlast, hrest⟩
    · have hhead : head.id = id := by
        simpa [hlater, eq_comm] using hid
      exact ⟨[], head, nodes, rfl, hhead, hlater⟩

theorem exists_turn (hinfer : graph.infer catalogue = .ok context)
    (hsplit : graph.ordered = before ++ node :: after) :
    ∃ progress result, Turn catalogue graph context before node progress result := by
  obtain ⟨final, hrun, rfl⟩ := infer_eq_ok.1 hinfer
  have hwhole := hrun
  rw [progressAfter, hsplit] at hrun
  obtain ⟨progress, next, hbefore, hnext, hafter⟩ := foldlM_split_eq_ok.1 hrun
  obtain ⟨result, lines, hresult, hlines, rfl⟩ := advance_eq_ok.1 hnext
  refine ⟨progress, result, hbefore, hresult, ⟨lines, hlines⟩, ?_⟩
  by_cases hagain : node.id ∈ after.map (·.id)
  · -- The node comes up again: each time it is evaluated on sources that have no result.
    obtain ⟨first, last, rest, rfl, hid, hrest⟩ := exists_last hagain
    have hmem : node ∈ graph.ordered := by simp [hsplit]
    have hlast : last ∈ graph.ordered := by simp [hsplit]
    obtain rfl := eq_of_ordered hmem hlast hid
    have hsources := source_not_mem_of_repeated hsplit hagain
    have hcut : graph.ordered = (before ++ last :: first) ++ last :: rest := by simp [hsplit]
    rw [progressAfter, hcut] at hwhole
    obtain ⟨later, latest, hlater, hlatest, hend⟩ := foldlM_split_eq_ok.1 hwhole
    obtain ⟨result', lines', hresult', -, rfl⟩ := advance_eq_ok.1 hlatest
    have hfeeds : (graph.sources last.id).map later.results.get? =
        (graph.sources last.id).map progress.results.get? :=
      List.map_congr_left fun source hsource => by
        rw [get?_of_undeclared hcut hlater (hsources source hsource),
          get?_of_undeclared hsplit hbefore (hsources source hsource)]
    rw [hfeeds, hresult] at hresult'
    cases hresult'
    rw [get?_of_advance hend hrest, Table.get?_put_self]
  · rw [get?_of_advance hafter hagain, Table.get?_put_self]

theorem get?_of_reached (hinfer : graph.infer catalogue = .ok context)
    (hsplit : graph.ordered = before ++ after)
    (hrun : progressAfter catalogue graph before = .ok progress) {id : String}
    (hid : id ∈ before.map (·.id)) : progress.results.get? id = context.results.get? id := by
  obtain ⟨first, last, rest, rfl, rfl, hrest⟩ := exists_last hid
  have hcut : graph.ordered = first ++ last :: (rest ++ after) := by simp [hsplit]
  obtain ⟨earlier, result, hturn⟩ := exists_turn hinfer hcut
  obtain ⟨middle, next, hmiddle, hnext, hlater⟩ := foldlM_split_eq_ok.1 hrun
  obtain rfl : middle = earlier := Except.ok.inj (hmiddle.symm.trans hturn.reached)
  obtain ⟨result', lines, hresult', -, rfl⟩ := advance_eq_ok.1 hnext
  obtain rfl : result' = result := Except.ok.inj (hresult'.symm.trans hturn.evaluated)
  rw [get?_of_advance hlater hrest, Table.get?_put_self, hturn.kept]

theorem mem_cyclic_or_ordered {id : String} (h : id ∈ graph.ids) :
    id ∈ graph.cyclic ∨ ∃ node ∈ graph.ordered, node.id = id := by
  by_cases hvisited : id ∈ graph.visited
  · rw [← ordered_ids] at hvisited
    exact .inr (List.mem_map.1 hvisited)
  · exact .inl (mem_cyclic.2 ⟨h, hvisited⟩)

theorem get?_isSome_of_declared (hinfer : graph.infer catalogue = .ok context) {id : String}
    (hid : id ∈ graph.ids) : (context.results.get? id).isSome := by
  rcases mem_cyclic_or_ordered hid with hcyclic | ⟨node, hnode, rfl⟩
  · rw [get?_of_cyclic hinfer hcyclic]
    rfl
  · obtain ⟨before, after, hsplit⟩ := List.append_of_mem hnode
    obtain ⟨progress, result, hturn⟩ := exists_turn hinfer hsplit
    rw [hturn.kept]
    rfl

/-- In a graph without errors, what stands at a turn is what stands at the end for earlier nodes. -/
theorem get?_reached (hinfer : graph.infer catalogue = .ok context)
    (hclean : context.hasErrors = false) (hsplit : graph.ordered = before ++ after)
    (hrun : progressAfter catalogue graph before = .ok progress) (id : String) :
    progress.results.get? id =
      if id ∈ before.map (·.id) then context.results.get? id else none := by
  split
  · rename_i hin
    exact get?_of_reached hinfer hsplit hrun hin
  · rename_i hout
    refine get?_eq_none_of_reached hrun ?_ hout
    rw [cyclic_eq_nil hinfer hclean]
    exact List.not_mem_nil

theorem Turn.sound {result : NodeResult} (hinfer : graph.infer catalogue = .ok context)
    (hclean : context.hasErrors = false)
    (h : Turn catalogue graph context before node progress result) :
    ∃ layer, Node.Sound catalogue graph.input node (progress.shapes graph node.id) result.shape
      layer :=
  Node.evaluate_sound h.evaluated
    ((hasErrors_eq_false_iff hinfer).1 hclean _ (Table.mem_of_get? h.kept))

theorem known_of_clean (hinfer : graph.infer catalogue = .ok context)
    (hclean : context.hasErrors = false) (hnode : node ∈ graph.ordered) :
    (catalogue.find? node.kind).isSome := by
  obtain ⟨before, after, hsplit⟩ := List.append_of_mem hnode
  obtain ⟨progress, result, hturn⟩ := exists_turn hinfer hsplit
  obtain ⟨layer, hsound⟩ := hturn.sound hinfer hclean
  rw [hsound.known]
  rfl

theorem exists_shape_of_clean (hinfer : graph.infer catalogue = .ok context)
    (hclean : context.hasErrors = false) {id : String} (hid : id ∈ graph.ids) :
    ∃ result shape, context.results.get? id = some result ∧ result.shape = some shape := by
  rcases mem_cyclic_or_ordered hid with hcyclic | ⟨node, hnode, rfl⟩
  · rw [cyclic_eq_nil hinfer hclean] at hcyclic
    cases hcyclic
  · obtain ⟨before, after, hsplit⟩ := List.append_of_mem hnode
    obtain ⟨progress, result, hturn⟩ := exists_turn hinfer hsplit
    obtain ⟨layer, hsound⟩ := hturn.sound hinfer hclean
    obtain ⟨shape, hshape⟩ := Option.isSome_iff_exists.1 hsound.shaped
    exact ⟨result, shape, hturn.kept, hshape⟩

end LayerGraph.Graph
