import LayerGraph.Graph.Inference
import LayerGraph.Layer.Standard
import LayerGraph.Proofs.Fold
import LayerGraph.Proofs.Graph.Cycles
import Mathlib.Data.List.Perm.Basic
set_option autoImplicit false

/-!
Inference walks over the nodes once and looks results up in a table. Its results satisfy equations
that do not mention the walk: a node behind a cycle is reported, and any other one is what its rule
makes of the results of its sources. Of distinct ids these equations have one solution only, so the
walk computes the recursive definition.
-/

namespace LayerGraph.Graph

def progressAfter (catalogue : Catalogue) (graph : Graph) (nodes : List Node) :
    Except Fault Progress :=
  nodes.foldlM (graph.advance catalogue) ⟨graph.cycleResults, []⟩

/-- The recursive definition of inference: results that follow from each other. -/
structure IsInference (catalogue : Catalogue) (graph : Graph)
    (results : String → Option NodeResult) : Prop where
  undeclared : ∀ id, id ∉ graph.ids → results id = none
  behindCycle : ∀ id, graph.BehindCycle id →
    results id = some ⟨id, none, none, .error, ["Cycle detected"]⟩
  evaluated : ∀ node ∈ graph.nodes, ¬graph.BehindCycle node.id →
    ∃ result, node.evaluate catalogue graph.input ((graph.sources node.id).map results) =
      .ok result ∧ results node.id = some result

variable {catalogue : Catalogue} {graph : Graph}

theorem infer_eq_ok {context : Context} :
    graph.infer catalogue = .ok context ↔
      ∃ progress, progressAfter catalogue graph graph.ordered = .ok progress ∧
        context = ⟨progress.results, progress.trace,
          progress.results.any (·.2.status == .error)⟩ := by
  simp only [infer, bind_eq_ok, progressAfter, pure, Except.pure, Except.ok.injEq,
    eq_comm (b := context)]

theorem advance_eq_ok {progress next : Progress} {node : Node} :
    graph.advance catalogue progress node = .ok next ↔
      ∃ result lines,
        node.evaluate catalogue graph.input ((graph.sources node.id).map progress.results.get?) =
          .ok result ∧
        graph.traceLines catalogue node result.shape = .ok lines ∧
        next = ⟨progress.results.put node.id result, progress.trace ++ lines⟩ := by
  simp only [advance, bind_eq_ok, pure, Except.pure, Except.ok.injEq, eq_comm (b := next),
    exists_and_left]

theorem evaluate_node {node : Node} {spec : InputSpec} {feeds : List (Option NodeResult)}
    {result : NodeResult} (h : node.evaluate catalogue spec feeds = .ok result) :
    result.node = node.id := by
  unfold Node.evaluate at h
  split at h
  · cases h
    rfl
  · simp only [Node.evaluateAs, bind_eq_ok, pure, Except.pure, Except.ok.injEq] at h
    obtain ⟨type, -, rfl⟩ := h
    rfl

theorem get?_foldl_put {α : Type} (value : String → α) (ids : List String) (table : Table α)
    (id : String) :
    (ids.foldl (fun results id => results.put id (value id)) table).get? id =
      if id ∈ ids then some (value id) else table.get? id := by
  induction ids generalizing table with
  | nil => simp
  | cons first ids ih =>
    rw [List.foldl_cons, ih]
    by_cases h : id = first
    · subst h
      simp
    · simp [h, Table.get?_put_of_ne table h]

theorem keys_foldl_put {α : Type} (value : String → α) (ids : List String) (table : Table α)
    (hnew : ∀ id ∈ ids, id ∉ table.map (·.1)) (hids : ids.Nodup) :
    (ids.foldl (fun results id => results.put id (value id)) table).map (·.1) =
      table.map (·.1) ++ ids := by
  induction ids generalizing table with
  | nil => simp
  | cons first ids ih =>
    obtain ⟨hfirst, hrest⟩ := List.nodup_cons.1 hids
    have hkeys : (table.put first (value first)).map (·.1) = table.map (·.1) ++ [first] := by
      rw [Table.keys_put, if_neg (hnew first List.mem_cons_self)]
    rw [List.foldl_cons, ih _ _ hrest, hkeys, List.append_assoc, List.singleton_append]
    intro id hid
    rw [hkeys, List.mem_append, List.mem_singleton]
    intro hcase
    rcases hcase with hold | rfl
    · exact hnew id (List.mem_cons_of_mem _ hid) hold
    · exact hfirst hid

theorem get?_cycleResults (graph : Graph) (id : String) :
    graph.cycleResults.get? id =
      if id ∈ graph.cyclic then some (Node.cycleResult id) else none := by
  rw [cycleResults, get?_foldl_put, Table.get?_nil]

theorem mem_foldl_put {ids : List String} {table : Table NodeResult} {entry : String × NodeResult}
    (h : entry ∈ ids.foldl (fun results id => results.put id (Node.cycleResult id)) table) :
    entry ∈ table ∨ ∃ id ∈ ids, entry = (id, Node.cycleResult id) := by
  induction ids generalizing table with
  | nil => exact .inl h
  | cons first ids ih =>
    rcases ih h with hput | ⟨id, hid, hentry⟩
    · rcases Table.mem_put hput with hfirst | hold
      · exact .inr ⟨first, List.mem_cons_self, hfirst⟩
      · exact .inl hold
    · exact .inr ⟨id, List.mem_cons_of_mem _ hid, hentry⟩

theorem mem_cycleResults {entry : String × NodeResult} (h : entry ∈ graph.cycleResults) :
    ∃ id ∈ graph.cyclic, entry = (id, Node.cycleResult id) := by
  rcases mem_foldl_put h with hnil | hcyclic
  · cases hnil
  · exact hcyclic

/-- An id that the order leaves out keeps the result of a cycle, whatever ids are repeated. -/
theorem get?_of_cyclic {context : Context} (h : graph.infer catalogue = .ok context) {id : String}
    (hid : id ∈ graph.cyclic) : context.results.get? id = some (Node.cycleResult id) := by
  obtain ⟨progress, hrun, rfl⟩ := infer_eq_ok.1 h
  refine foldlM_invariant (fun _ progress : _ =>
    progress.results.get? id = some (Node.cycleResult id)) hrun ?_ ?_
  · simp [get?_cycleResults, hid]
  · intro before node after progress next hsplit hold hnext
    obtain ⟨result, lines, -, -, rfl⟩ := advance_eq_ok.1 hnext
    have hnode : node ∈ graph.ordered := by simp [hsplit]
    have hne : id ≠ node.id := fun heq => not_mem_cyclic_of_ordered hnode (heq ▸ hid)
    rw [Table.get?_put_of_ne _ hne]
    exact hold

/-- What holds of the results after some nodes: the nodes have been evaluated on the results that
stand in the table now. -/
structure Settled (catalogue : Catalogue) (graph : Graph) (before : List Node)
    (progress : Progress) : Prop where
  keys : progress.results.map (·.1) = graph.cyclic ++ before.map (·.id)
  named : ∀ entry ∈ progress.results, entry.2.node = entry.1
  cyclic : ∀ id ∈ graph.cyclic, progress.results.get? id = some (Node.cycleResult id)
  evaluated : ∀ node ∈ before, ∃ result,
    node.evaluate catalogue graph.input ((graph.sources node.id).map progress.results.get?) =
      .ok result ∧ progress.results.get? node.id = some result

theorem cyclic_nodup (hids : graph.ids.Nodup) : graph.cyclic.Nodup := hids.filter _

theorem settled_start (hids : graph.ids.Nodup) :
    Settled catalogue graph [] ⟨graph.cycleResults, []⟩ where
  keys := by
    rw [cycleResults, keys_foldl_put _ _ _ (by simp) (cyclic_nodup hids)]
    simp
  named := fun entry hentry => by
    obtain ⟨id, -, rfl⟩ := mem_cycleResults hentry
    rfl
  cyclic := fun id hid => by rw [get?_cycleResults, if_pos hid]
  evaluated := by simp

theorem not_mem_sources (hids : graph.ids.Nodup) {before after : List Node} {node : Node}
    (hsplit : graph.ordered = before ++ node :: after) {earlier : Node}
    (hearlier : earlier ∈ before ++ [node]) : node.id ∉ graph.sources earlier.id := by
  intro hsource
  have hfresh : node.id ∉ before.map (·.id) := fun hin =>
    not_mem_of_ordered hids hsplit hin List.mem_cons_self
  have hd : node.id ∈ graph.ids := mem_ids_of_ordered (by simp [hsplit])
  rcases List.mem_append.1 hearlier with hin | hlast
  · obtain ⟨first, rest, rfl⟩ := List.append_of_mem hin
    have hcut : graph.ordered = first ++ earlier :: (rest ++ node :: after) := by
      simpa using hsplit
    have hfirst := source_mem_of_ordered hids hcut hsource hd
    exact hfresh (by simp only [List.map_append, List.mem_append]; exact .inl hfirst)
  · obtain rfl := List.mem_singleton.1 hlast
    exact hfresh (source_mem_of_ordered hids hsplit hsource hd)

theorem Settled.advance (hids : graph.ids.Nodup) {before after : List Node} {node : Node}
    (hsplit : graph.ordered = before ++ node :: after) {progress next : Progress}
    (h : Settled catalogue graph before progress)
    (hnext : graph.advance catalogue progress node = .ok next) :
    Settled catalogue graph (before ++ [node]) next := by
  obtain ⟨result, lines, hresult, -, rfl⟩ := advance_eq_ok.1 hnext
  have hfresh : ∀ earlier ∈ before, earlier.id ≠ node.id := fun earlier hearlier heq =>
    not_mem_of_ordered hids hsplit (List.mem_map_of_mem hearlier)
      (by rw [heq]; exact List.mem_cons_self)
  have hcyclic : node.id ∉ graph.cyclic := ((mem_ordered hids).1 (by simp [hsplit])).2
  have hsources : ∀ earlier ∈ before ++ [node],
      (graph.sources earlier.id).map (progress.results.put node.id result).get? =
        (graph.sources earlier.id).map progress.results.get? := by
    intro earlier hearlier
    refine List.map_congr_left fun source hsource => Table.get?_put_of_ne _ ?_ _
    intro heq
    subst heq
    exact not_mem_sources hids hsplit hearlier hsource
  refine ⟨?_, ?_, ?_, ?_⟩
  · have hnew : node.id ∉ progress.results.map (·.1) := by
      rw [h.keys, List.mem_append]
      intro hcase
      rcases hcase with hin | hin
      · exact hcyclic hin
      · obtain ⟨earlier, hearlier, heq⟩ := List.mem_map.1 hin
        exact hfresh earlier hearlier heq
    rw [Table.keys_put, if_neg hnew, h.keys]
    simp
  · intro entry hentry
    rcases Table.mem_put hentry with rfl | hold
    · exact evaluate_node hresult
    · exact h.named entry hold
  · intro id hid
    have hne : id ≠ node.id := by
      intro heq
      subst heq
      exact hcyclic hid
    rw [Table.get?_put_of_ne _ hne]
    exact h.cyclic id hid
  · intro earlier hearlier
    rw [hsources earlier hearlier]
    rcases List.mem_append.1 hearlier with hin | hlast
    · rw [Table.get?_put_of_ne _ (hfresh earlier hin)]
      exact h.evaluated earlier hin
    · obtain rfl := List.mem_singleton.1 hlast
      exact ⟨result, hresult, Table.get?_put_self _ _ _⟩

theorem Settled.run (hids : graph.ids.Nodup) {before after : List Node}
    (hsplit : graph.ordered = before ++ after) {progress : Progress}
    (hrun : progressAfter catalogue graph before = .ok progress) :
    Settled catalogue graph before progress := by
  refine foldlM_invariant (Settled catalogue graph) hrun (settled_start hids) ?_
  intro first node rest progress next hfirst h hnext
  have hcut : graph.ordered = first ++ node :: (rest ++ after) := by simp [hsplit, hfirst]
  exact h.advance hids hcut hnext

theorem Settled.keys_perm (hids : graph.ids.Nodup) {progress : Progress}
    (h : Settled catalogue graph graph.ordered progress) :
    (progress.results.map (·.1)).Perm graph.ids := by
  rw [h.keys, ordered_ids]
  refine (List.perm_ext_iff_of_nodup ?_ hids).2 fun id => ?_
  · refine List.nodup_append.2 ⟨cyclic_nodup hids, visited_nodup hids, ?_⟩
    intro id hc _ hv heq
    subst heq
    exact (mem_cyclic.1 hc).2 hv
  · rw [List.mem_append, mem_cyclic]
    constructor
    · intro hcase
      rcases hcase with hc | hv
      · exact hc.1
      · exact mem_ids_of_visited hv
    · intro hid
      by_cases hv : id ∈ graph.visited
      · exact .inr hv
      · exact .inl ⟨hid, hv⟩

theorem Settled.isInference (hids : graph.ids.Nodup) {progress : Progress}
    (h : Settled catalogue graph graph.ordered progress) :
    IsInference catalogue graph progress.results.get? where
  undeclared := fun id hid => by
    rw [Table.get?_eq_none_iff, (h.keys_perm hids).mem_iff]
    exact hid
  behindCycle := fun id hid => h.cyclic id ((mem_cyclic_iff_behindCycle hids).2 hid)
  evaluated := fun node hnode hid => by
    refine h.evaluated node ((mem_ordered hids).2 ⟨hnode, ?_⟩)
    rwa [mem_cyclic_iff_behindCycle hids]

/-- Results that satisfy the recursive definition agree: by induction along the order. -/
theorem IsInference.unique (hids : graph.ids.Nodup) {results results' : String → Option NodeResult}
    (h : IsInference catalogue graph results) (h' : IsInference catalogue graph results') :
    results = results' := by
  have hnodes : ∀ before after, graph.ordered = before ++ after →
      ∀ node ∈ before, results node.id = results' node.id := by
    intro before
    induction before using List.reverseRecOn with
    | nil => simp
    | append_singleton before last ih =>
      intro after hsplit node hnode
      rw [List.append_assoc, List.singleton_append] at hsplit
      have hbefore := ih (last :: after) hsplit
      rcases List.mem_append.1 hnode with hold | hlast
      · exact hbefore node hold
      · obtain rfl := List.mem_singleton.1 hlast
        have hsources : (graph.sources node.id).map results =
            (graph.sources node.id).map results' := by
          refine List.map_congr_left fun source hsource => ?_
          by_cases hd : source ∈ graph.ids
          · obtain ⟨earlier, hearlier, rfl⟩ :=
              List.mem_map.1 (source_mem_of_ordered hids hsplit hsource hd)
            exact hbefore earlier hearlier
          · rw [h.undeclared source hd, h'.undeclared source hd]
        obtain ⟨hmem, hc⟩ := (mem_ordered hids).1 (by simp [hsplit] : node ∈ graph.ordered)
        rw [mem_cyclic_iff_behindCycle hids] at hc
        obtain ⟨result, heval, hresult⟩ := h.evaluated node hmem hc
        obtain ⟨result', heval', hresult'⟩ := h'.evaluated node hmem hc
        rw [hsources, heval'] at heval
        cases heval
        rw [hresult, hresult']
  funext id
  by_cases hd : id ∈ graph.ids
  · by_cases hc : graph.BehindCycle id
    · rw [h.behindCycle id hc, h'.behindCycle id hc]
    · obtain ⟨node, hnode, rfl⟩ := List.mem_map.1 hd
      refine hnodes graph.ordered [] (by simp) node ((mem_ordered hids).2 ⟨hnode, ?_⟩)
      rwa [mem_cyclic_iff_behindCycle hids]
  · rw [h.undeclared id hd, h'.undeclared id hd]

/-- Inference computes its recursive definition: there is one result for each declared id, the
results are the only solution of the equations, and no node is evaluated before its sources. -/
theorem infer_unique_inference {context : Context} (hids : graph.ids.Nodup)
    (h : graph.infer catalogue = .ok context) :
    (context.results.map (·.1)).Perm graph.ids ∧
    (∀ entry ∈ context.results, entry.2.node = entry.1) ∧
    (∀ results, IsInference catalogue graph results ↔ results = context.results.get?) ∧
    (∀ node, node ∈ graph.ordered ↔ node ∈ graph.nodes ∧ ¬graph.BehindCycle node.id) ∧
    (∀ before node after, graph.ordered = before ++ node :: after →
      ∀ source ∈ graph.sources node.id, source ∈ graph.ids → source ∈ before.map (·.id)) := by
  obtain ⟨progress, hrun, rfl⟩ := infer_eq_ok.1 h
  have hsettled := Settled.run hids (List.append_nil _).symm hrun
  refine ⟨hsettled.keys_perm hids, hsettled.named, fun results => ?_, fun node => ?_, ?_⟩
  · constructor
    · exact fun hresults => hresults.unique hids (hsettled.isInference hids)
    · intro heq
      subst heq
      exact hsettled.isInference hids
  · rw [mem_ordered hids, mem_cyclic_iff_behindCycle hids]
  · intro before node after hsplit source hsource hd
    exact source_mem_of_ordered hids hsplit hsource hd

/-- An input that feeds a sum by two edges and a third one that leads nowhere, a loop on one node,
and a node behind the loop. -/
def tangle : Graph where
  nodes := [⟨"after", "ReLU", "", []⟩, ⟨"sum", "Add", "", []⟩, ⟨"loop", "ReLU", "", []⟩,
    ⟨"in", "Input", "", []⟩]
  edges := [⟨"1", "in", "sum", none⟩, ⟨"2", "nowhere", "sum", none⟩, ⟨"3", "in", "sum", none⟩,
    ⟨"4", "loop", "loop", none⟩, ⟨"5", "in", "loop", none⟩, ⟨"6", "loop", "after", none⟩]

theorem tangle_inference :
    tangle.ids.Nodup ∧ ∃ context, tangle.infer Catalogue.standard = .ok context ∧
      (context.results.map (·.1)).Perm tangle.ids ∧
      IsInference Catalogue.standard tangle context.results.get? ∧
      tangle.ordered.map (·.id) = ["in", "sum"] := by
  have hids : tangle.ids.Nodup := by decide
  cases h : tangle.infer Catalogue.standard with
  | error _ =>
    have hok : (tangle.infer Catalogue.standard).toOption.isSome := by decide +kernel
    simp [h, Except.toOption] at hok
  | ok context =>
    obtain ⟨hperm, -, hunique, -, -⟩ := infer_unique_inference hids h
    exact ⟨hids, context, rfl, hperm, (hunique _).2 rfl, by decide +kernel⟩

end LayerGraph.Graph
