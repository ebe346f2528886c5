import LayerGraph.Graph.Normal
import LayerGraph.Proofs.Graph.Parallel
import LayerGraph.Proofs.Program.Diagnostics
set_option autoImplicit false

/-!
An edge that names an undeclared id is passed over by the order of evaluation, by inference and by
the making of a model, each by a test of its own. A graph without these edges has the same order,
the same shapes, element types and errors, and the same model. All that a node can lose with them
is the remark that it waits for its sources.
-/

namespace LayerGraph

namespace Table

variable {α β : Type} {R : String → α → β → Prop} {table : Table α} {other : Table β}

/-- The tables have the same keys in the same order, and related values under them. -/
def InStep (R : String → α → β → Prop) (table : Table α) (other : Table β) : Prop :=
  List.Forall₂ (fun entry entry' => entry'.1 = entry.1 ∧ R entry.1 entry.2 entry'.2) table other

theorem InStep.put (h : InStep R table other) {key : String} {value : α} {value' : β}
    (hvalue : R key value value') : InStep R (table.put key value) (other.put key value') := by
  induction h with
  | nil => exact .cons ⟨rfl, hvalue⟩ .nil
  | @cons entry entry' rest rest' hentry hrest ih =>
    obtain ⟨k, v⟩ := entry
    obtain ⟨k', v'⟩ := entry'
    obtain ⟨rfl, hv⟩ : k' = k ∧ R k v v' := hentry
    rw [Table.put, Table.put]
    split
    · exact .cons ⟨rfl, hvalue⟩ hrest
    · exact .cons ⟨rfl, hv⟩ ih

theorem InStep.get? (h : InStep R table other) (key : String) :
    Option.Rel (R key) (table.get? key) (other.get? key) := by
  induction h with
  | nil => exact .none
  | @cons entry entry' rest rest' hentry _ ih =>
    obtain ⟨k, v⟩ := entry
    obtain ⟨k', v'⟩ := entry'
    obtain ⟨rfl, hv⟩ : k' = k ∧ R k v v' := hentry
    rw [get?_cons, get?_cons]
    split
    · rename_i heq
      exact .some (heq ▸ hv)
    · exact ih

theorem InStep.any_eq (h : InStep R table other) {p : α → Bool} {q : β → Bool}
    (hpq : ∀ key value value', R key value value' → q value' = p value) :
    (other.any fun entry => q entry.2) = table.any fun entry => p entry.2 := by
  induction h with
  | nil => rfl
  | cons hentry _ ih => rw [List.any_cons, List.any_cons, ih, hpq _ _ _ hentry.2]

end Table

namespace Remark

theorem two_le_rank (severity : Severity) : 2 ≤ severity.status.rank := by
  cases severity <;> decide

theorem status_waiting (remarks : List Remark) :
    status (.waiting :: remarks) = if remarks = [] then .warning else status remarks := by
  split
  · rename_i hnone
    subst hnone
    rfl
  · rename_i hsome
    obtain ⟨worst, hworst⟩ := List.exists_mem_of_ne_nil _ hsome
    obtain ⟨hvalid, hall⟩ := (rank_status_le_iff remarks _).1 (Nat.le_refl _)
    have hwaiting : Remark.waiting.severity.status.rank ≤ (status remarks).rank :=
      Nat.le_trans (two_le_rank worst.severity) (hall worst hworst)
    have hle : (status (.waiting :: remarks)).rank ≤ (status remarks).rank :=
      (rank_status_le_iff _ _).2 ⟨hvalid, List.forall_mem_cons.2 ⟨hwaiting, hall⟩⟩
    have hge : (status remarks).rank ≤ (status (.waiting :: remarks)).rank :=
      rank_status_mono fun _ => List.mem_cons_of_mem _
    exact Status.rank_injective (Nat.le_antisymm hle hge)

end Remark

/-- The other result is the same, or it lacks the message that the node waits for its sources, which
came first. Without messages the node is valid; otherwise its status stays. -/
structure NodeResult.Sheds (result other : NodeResult) : Prop where
  node : other.node = result.node
  shape : other.shape = result.shape
  type : other.type = result.type
  said : other.messages = result.messages ∧ other.status = result.status ∨
    result.messages = "Waiting for upstream nodes" :: other.messages ∧
      if other.messages = [] then result.status = .warning ∧ other.status = .valid
      else other.status = result.status

namespace NodeResult

variable {result other : NodeResult}

theorem sheds_refl (result : NodeResult) : result.Sheds result :=
  ⟨rfl, rfl, rfl, .inl ⟨rfl, rfl⟩⟩

theorem Sheds.error_iff (h : result.Sheds other) :
    other.status = .error ↔ result.status = .error := by
  rcases h.said with ⟨-, hstatus⟩ | ⟨-, hcase⟩
  · rw [hstatus]
  · split at hcase
    · simp [hcase]
    · rw [hcase]

theorem Sheds.follows (h : result.Sheds other) : result.Follows Eq other where
  shape := by
    rw [h.shape]
    cases result.shape with
    | none => exact .none
    | some shape => exact .some rfl
  type := h.type
  status := by
    rcases h.said with ⟨-, hstatus⟩ | ⟨-, hcase⟩
    · rw [hstatus]
    · split at hcase
      · rw [hcase.1, hcase.2]
        decide
      · rw [hcase]

end NodeResult

namespace Node

variable {catalogue : Catalogue} {spec : InputSpec} {node : Node}
  {feeds feeds' : List (Option NodeResult)} {result : NodeResult}

theorem arity_eq (layer : Layer) (edges shapes : Nat) :
    arity layer edges shapes =
      (if shapes < edges then [.waiting] else []) ++ arity layer shapes shapes := by
  simp only [arity, Nat.lt_irrefl, ↓reduceIte, List.nil_append, List.append_assoc]

theorem complete_waiting (shape : Option Shape) (remarks : List Remark) :
    complete shape (.waiting :: remarks) = .waiting :: complete shape remarks := by
  have hstatus : Remark.status (.waiting :: remarks) = .error ↔ Remark.status remarks = .error := by
    simp [Remark.status_eq_error_iff, Remark.severity]
  unfold complete
  by_cases herror : Remark.status remarks = .error
  · simp [herror, hstatus.2 herror]
  · have hwaiting : Remark.status (.waiting :: remarks) ≠ .error := fun h => herror (hstatus.1 h)
    cases shape <;> simp [herror, hwaiting]

theorem result_sheds (node : Node) (shape : Option Shape) (type : Option ElementType)
    (remarks : List Remark) :
    (node.result shape type (complete shape (.waiting :: remarks))).Sheds
      (node.result shape type (complete shape remarks)) := by
  rw [complete_waiting]
  refine ⟨rfl, rfl, rfl, .inr ⟨rfl, ?_⟩⟩
  have hstatus := Remark.status_waiting (complete shape remarks)
  by_cases hnone : complete shape remarks = []
  · rw [if_pos hnone] at hstatus
    rw [if_pos (by simp [result, hnone])]
    exact ⟨hstatus, (Remark.status_eq_valid_iff _).2 hnone⟩
  · rw [if_neg hnone] at hstatus
    rw [if_neg (by simp [result, hnone])]
    exact hstatus.symm

/-- A node that has fewer sources, but the same inputs, can only lose the remark that it waits. -/
theorem evaluate_sheds (hshapes : inputShapes feeds' = inputShapes feeds)
    (hfirst : feeds'.findSome? (fun result? => result?.bind (·.type)) =
      feeds.findSome? (fun result? => result?.bind (·.type)))
    (hle : feeds'.length ≤ feeds.length)
    (heval : node.evaluate catalogue spec feeds = .ok result) :
    ∃ result', node.evaluate catalogue spec feeds' = .ok result' ∧ result.Sheds result' ∧
      (feeds'.length = feeds.length → result' = result) := by
  unfold evaluate at heval ⊢
  split at heval
  · cases heval
    exact ⟨_, rfl, NodeResult.sheds_refl _, fun _ => rfl⟩
  · rename_i layer _
    obtain ⟨type, htype, rfl⟩ := evaluateAs_eq_ok.1 heval
    have htype' : node.outputType spec (layer.resolve node.params) feeds' = .ok type := by
      rw [outputType_congr rfl rfl (fun _ => rfl) hfirst, htype]
    refine ⟨_, evaluateAs_eq_ok.2 ⟨type, htype', rfl⟩, ?_, fun hlength => by rw [hlength, hshapes]⟩
    rw [hshapes, arity_eq layer feeds'.length, arity_eq layer feeds.length]
    by_cases hfew : (inputShapes feeds).length < feeds.length
    · by_cases hfew' : (inputShapes feeds).length < feeds'.length
      · rw [if_pos hfew, if_pos hfew']
        exact NodeResult.sheds_refl _
      · rw [if_pos hfew, if_neg hfew']
        exact result_sheds node _ type _
    · rw [if_neg hfew, if_neg (by omega)]
      exact NodeResult.sheds_refl _

end Node

namespace Graph

/-- The graph without the edges that name an undeclared id. -/
def trimmed (graph : Graph) : Graph := { graph with edges := graph.inner }

/-- What the results under an id have to do with each other when dangling edges are taken away. -/
def Sheds (graph : Graph) (id : String) (result other : NodeResult) : Prop :=
  result.Sheds other ∧ (graph.feeders id = graph.sources id → other = result)

variable {catalogue : Catalogue} {graph : Graph} {context : Context} {before after : List Node}
  {node : Node} {progress progress' next : Progress}

theorem inner_trimmed (graph : Graph) : graph.trimmed.inner = graph.inner := by
  have hall : ∀ e ∈ graph.inner, (graph.declares e.source && graph.declares e.target) = true :=
    fun e he => (List.mem_filter.1 he).2
  exact List.filter_eq_self.2 hall

theorem visited_trimmed (graph : Graph) : graph.trimmed.visited = graph.visited := by
  rw [visited, visited, inner_trimmed]
  rfl

theorem ordered_trimmed (graph : Graph) : graph.trimmed.ordered = graph.ordered := by
  rw [ordered, ordered, visited_trimmed]
  rfl

theorem cyclic_trimmed (graph : Graph) : graph.trimmed.cyclic = graph.cyclic := by
  rw [cyclic, cyclic, visited_trimmed]
  rfl

theorem advance_trimmed (hsplit : graph.ordered = before ++ node :: after)
    (hrun : progressAfter catalogue graph before = .ok progress)
    (h : Table.InStep graph.Sheds progress.results progress'.results)
    (hnext : graph.advance catalogue progress node = .ok next) :
    ∃ next', graph.trimmed.advance catalogue progress' node = .ok next' ∧
      Table.InStep graph.Sheds next.results next'.results := by
  obtain ⟨result, lines, heval, hlines, rfl⟩ := advance_eq_ok.1 hnext
  have hnode : node.id ∈ graph.ids := mem_ids_of_ordered (by simp [hsplit])
  have hfollows : TableFollows Eq progress.results progress'.results := fun id =>
    rel_imp (h.get? id) fun _ _ hsheds => hsheds.1.follows
  -- The sources that are dropped are undeclared, and no undeclared id has a result.
  have hdrops : Node.Drops progress'.results (graph.sources node.id) (graph.feeders node.id) := by
    refine ⟨fun source => graph.declares source, feeders_eq hnode, fun source _ hundeclared => ?_⟩
    have hout : source ∉ graph.ids := fun hin =>
      absurd ((declares_iff graph source).2 hin) (by simpa using hundeclared)
    have hrel := h.get? source
    rw [get?_of_undeclared hsplit hrun hout] at hrel
    exact eq_none_of_rel hrel
  have hshapes : Node.inputShapes ((graph.feeders node.id).map progress'.results.get?) =
      Node.inputShapes ((graph.sources node.id).map progress.results.get?) :=
    (List.forall₂_eq_eq_eq ▸ Node.inputShapes_follow hfollows hdrops).symm
  obtain ⟨result', heval', hsheds, hsame⟩ := Node.evaluate_sheds hshapes
    (Node.firstType_eq hfollows hdrops) (by simpa using hdrops.length_le) heval
  obtain ⟨lines', hlines'⟩ :
      ∃ lines', graph.trimmed.traceLines catalogue node result'.shape = .ok lines' :=
    (traceLines_eq_ok_iff result'.shape).2
      (hsheds.shape ▸ (traceLines_eq_ok_iff result.shape).1 ⟨lines, hlines⟩)
  refine ⟨_, advance_eq_ok.2 ⟨result', lines', heval', hlines', rfl⟩,
    h.put ⟨hsheds, fun hfed => ?_⟩⟩
  exact hsame (by rw [List.length_map, List.length_map, hfed])

theorem progressAfter_trimmed (hsplit : graph.ordered = before ++ after)
    (hrun : progressAfter catalogue graph before = .ok progress) :
    ∃ progress', progressAfter catalogue graph.trimmed before = .ok progress' ∧
      Table.InStep graph.Sheds progress.results progress'.results := by
  induction before using List.reverseRecOn generalizing after progress with
  | nil =>
    cases hrun
    refine ⟨_, rfl, ?_⟩
    have hstart : graph.trimmed.cycleResults = graph.cycleResults := by
      rw [cycleResults, cycleResults, cyclic_trimmed]
    rw [hstart]
    exact List.forall₂_same.2 fun entry _ => ⟨rfl, NodeResult.sheds_refl _, fun _ => rfl⟩
  | append_singleton before node ih =>
    rw [List.append_assoc, List.singleton_append] at hsplit
    obtain ⟨earlier, hbefore, hnext⟩ := foldlM_snoc_eq_ok.1 hrun
    obtain ⟨earlier', hbefore', hstep⟩ := ih hsplit hbefore
    obtain ⟨next', hnext', hend⟩ := advance_trimmed hsplit hbefore hstep hnext
    exact ⟨next', foldlM_snoc_eq_ok.2 ⟨earlier', hbefore', hnext'⟩, hend⟩

theorem exists_infer_trimmed (hinfer : graph.infer catalogue = .ok context) :
    ∃ context', graph.trimmed.infer catalogue = .ok context' ∧
      context'.hasErrors = context.hasErrors ∧
      Table.InStep graph.Sheds context.results context'.results := by
  obtain ⟨progress, hrun, rfl⟩ := infer_eq_ok.1 hinfer
  obtain ⟨progress', hrun', hstep⟩ := progressAfter_trimmed (List.append_nil _).symm hrun
  rw [← ordered_trimmed] at hrun'
  refine ⟨_, infer_eq_ok.2 ⟨progress', hrun', rfl⟩, ?_, hstep⟩
  refine hstep.any_eq (p := (·.status == .error)) (q := (·.status == .error)) ?_
  intro id result result' hsheds
  rw [Bool.eq_iff_iff, beq_iff_eq, beq_iff_eq, hsheds.1.error_iff]

end Graph

namespace Program

open LayerGraph.Graph

namespace Draft

variable {catalogue : Catalogue} {graph : Graph} {className : String} {before after : List Node}
  {node : Node} {draft : Draft}

/-- No undeclared id has a tensor, so dangling edges give no operand. -/
theorem operands_trimmed (hsplit : graph.ordered = before ++ node :: after)
    (hrun : draftAfter catalogue graph className before = .ok draft) :
    draft.operands graph.trimmed node.id = draft.operands graph node.id := by
  have hnode : node.id ∈ graph.ids := mem_ids_of_ordered (by simp [hsplit])
  change (graph.feeders node.id).filterMap draft.tensors.get? = _
  rw [operands, feeders_eq hnode, List.filterMap_filter]
  refine List.filterMap_congr fun source _ => ?_
  split
  · rfl
  · rename_i hundeclared
    symm
    by_contra hsome
    obtain ⟨other, hother, rfl, -⟩ :=
      (isSome_tensor_iff hsplit hrun source).1 (Option.isSome_iff_ne_none.2 hsome)
    exact hundeclared ((declares_iff graph _).2 (mem_ids_of_ordered hother))

theorem draftAfter_trimmed (hsplit : graph.ordered = before ++ after) :
    draftAfter catalogue graph.trimmed className before =
      draftAfter catalogue graph className before := by
  induction before using List.reverseRecOn generalizing after with
  | nil =>
    rw [draftAfter, draftAfter, start, start, ordered_trimmed]
    rfl
  | append_singleton before node ih =>
    rw [List.append_assoc, List.singleton_append] at hsplit
    have hbefore := ih hsplit
    rw [draftAfter, draftAfter, List.foldlM_append, List.foldlM_append]
    change draftAfter catalogue graph.trimmed className before >>= _ =
      draftAfter catalogue graph className before >>= _
    rw [hbefore]
    cases hrun : draftAfter catalogue graph className before with
    | error _ => rfl
    | ok draft =>
      have hadd : add catalogue graph.trimmed draft node = add catalogue graph draft node := by
        rw [add, add, operands_trimmed hsplit hrun]
      change [node].foldlM (add catalogue graph.trimmed) draft =
        [node].foldlM (add catalogue graph) draft
      rw [List.foldlM_cons, List.foldlM_cons, hadd]
      rfl

end Draft

theorem ofGraph_trimmed (catalogue : Catalogue) (graph : Graph) (className : String) :
    Model.ofGraph catalogue graph.trimmed className = Model.ofGraph catalogue graph className := by
  have hdraft : Draft.draftAfter catalogue graph.trimmed className graph.ordered =
      Draft.draftAfter catalogue graph className graph.ordered :=
    Draft.draftAfter_trimmed (List.append_nil _).symm
  rw [← ordered_trimmed graph] at hdraft
  rw [Model.ofGraph, Model.ofGraph]
  refine congrArg (Except.map _) (hdraft.trans ?_)
  rw [ordered_trimmed]
  rfl

/-- Edges that name an undeclared id, which a normal graph does not keep, change neither the order
nor the ids that it leaves out, no shape, element type or error, and nothing in the model. -/
theorem trimmed_unchanged {catalogue : Catalogue} {graph : Graph} {context : Context}
    (hinfer : graph.infer catalogue = .ok context) (className : String) :
    (∀ normal, graph.normalize catalogue = .ok normal → normal.edges = graph.trimmed.edges) ∧
    graph.trimmed.ordered = graph.ordered ∧ graph.trimmed.cyclic = graph.cyclic ∧
    (∃ context', graph.trimmed.infer catalogue = .ok context' ∧
      context'.hasErrors = context.hasErrors ∧
      Table.InStep graph.Sheds context.results context'.results) ∧
    Model.ofGraph catalogue graph.trimmed className = Model.ofGraph catalogue graph className := by
  refine ⟨fun normal hnormal => ?_, ordered_trimmed graph, cyclic_trimmed graph,
    exists_infer_trimmed hinfer, ofGraph_trimmed catalogue graph className⟩
  rw [Graph.normalize, bind_eq_ok] at hnormal
  obtain ⟨nodes, -, hnormal⟩ := hnormal
  cases hnormal
  rfl

def loose : Graph where
  nodes := [⟨"in", "Input", "", []⟩, ⟨"act", "ReLU", "", []⟩, ⟨"sum", "Add", "", []⟩]
  edges := [⟨"1", "ghost", "in", none⟩, ⟨"2", "in", "act", none⟩, ⟨"3", "act", "ghost", none⟩,
    ⟨"4", "act", "sum", none⟩, ⟨"5", "ghost", "sum", none⟩]

theorem loose_trimmed :
    ∃ context context', loose.infer Catalogue.standard = .ok context ∧
      loose.trimmed.infer Catalogue.standard = .ok context' ∧
      context.results.map (fun entry => (entry.1, entry.2.status, entry.2.messages)) = [
        ("in", .warning, ["Waiting for upstream nodes"]), ("act", .valid, []),
        ("sum", .error, ["Waiting for upstream nodes", "Requires at least 2 input(s)"])] ∧
      context'.results.map (fun entry => (entry.1, entry.2.status, entry.2.messages)) = [
        ("in", .valid, []), ("act", .valid, []),
        ("sum", .error, ["Requires at least 2 input(s)"])] ∧
      Table.InStep loose.Sheds context.results context'.results := by
  have hrun : (loose.infer Catalogue.standard).map (fun context =>
      context.results.map fun entry => (entry.1, entry.2.status, entry.2.messages)) = .ok [
        ("in", .warning, ["Waiting for upstream nodes"]), ("act", .valid, []),
        ("sum", .error, ["Waiting for upstream nodes", "Requires at least 2 input(s)"])] :=
    eq_ok_of_toOption (by decide +kernel)
  have hrun' : (loose.trimmed.infer Catalogue.standard).map (fun context =>
      context.results.map fun entry => (entry.1, entry.2.status, entry.2.messages)) = .ok [
        ("in", .valid, []), ("act", .valid, []),
        ("sum", .error, ["Requires at least 2 input(s)"])] :=
    eq_ok_of_toOption (by decide +kernel)
  obtain ⟨context, hinfer, hresults⟩ := map_eq_ok.1 hrun
  obtain ⟨-, -, -, ⟨context', hinfer', -, hstep⟩, -⟩ := trimmed_unchanged hinfer "Net"
  rw [hinfer'] at hrun'
  exact ⟨context, context', hinfer, hinfer', hresults, Except.ok.inj hrun', hstep⟩

end Program

end LayerGraph
