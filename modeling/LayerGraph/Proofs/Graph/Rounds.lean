import LayerGraph.Proofs.Graph.Cycles
set_option autoImplicit false

namespace LayerGraph.Graph

structure Round where
  pending : Pending
  queue : List String
  done : List String

def firstRound (graph : Graph) : Round :=
  ⟨inDegree graph.inner, seeds graph.inner graph.ids, []⟩

namespace Round

def next? (edges : List Edge) (round : Round) : Option Round :=
  match round.queue with
  | [] => none
  | id :: queue =>
    let (pending, ready) := settle round.pending (targets edges id)
    some ⟨pending, queue ++ ready, round.done ++ [id]⟩

/-- The counts are those of the edges from ids that were not taken, and so is the queue. -/
structure Accounted (edges : List Edge) (ids : List String) (round : Round) : Prop where
  pending : round.pending = remaining edges round.done
  frontier : Frontier edges ids round.done round.queue

variable {edges : List Edge} {ids : List String} {round next : Round}

theorem next?_eq_some_iff :
    round.next? edges = some next ↔ ∃ id queue, round.queue = id :: queue ∧
      next = ⟨(settle round.pending (targets edges id)).1,
        queue ++ (settle round.pending (targets edges id)).2, round.done ++ [id]⟩ := by
  unfold next?
  cases round.queue with
  | nil => simp
  | cons id queue => simp [eq_comm (b := next)]

theorem next?_eq_none_iff : round.next? edges = none ↔ round.queue = [] := by
  unfold next?
  cases round.queue <;> simp

theorem Accounted.step (h : round.Accounted edges ids) (hnext : round.next? edges = some next) :
    next.Accounted edges ids := by
  obtain ⟨id, queue, hqueue, rfl⟩ := next?_eq_some_iff.1 hnext
  have hfrontier := h.frontier
  rw [hqueue] at hfrontier
  rw [h.pending]
  exact ⟨settle_remaining edges round.done id, hfrontier.step⟩

theorem accounted_firstRound (graph : Graph) :
    graph.firstRound.Accounted graph.inner graph.ids :=
  ⟨(remaining_nil graph.inner).symm, frontier_start⟩

end Round

inductive Rounds (edges : List Edge) : Nat → Round → Round → Prop where
  | none (round : Round) : Rounds edges 0 round round
  | more {count : Nat} {first next last : Round} (step : first.next? edges = some next)
      (rest : Rounds edges count next last) : Rounds edges (count + 1) first last

variable {edges : List Edge} {count : Nat} {first last : Round} {graph : Graph}

/-- What every round keeps holds after any number of them. -/
theorem Rounds.keeps {P : Round → Prop} (h : Rounds edges count first last)
    (hstep : ∀ round next, P round → round.next? edges = some next → P next) (hfirst : P first) :
    P last := by
  induction h with
  | none => exact hfirst
  | more step _ ih => exact ih (hstep _ _ hfirst step)

theorem Rounds.length_done (h : Rounds edges count first last) :
    last.done.length = first.done.length + count := by
  induction h with
  | none => rfl
  | more step _ ih =>
    obtain ⟨id, queue, -, rfl⟩ := Round.next?_eq_some_iff.1 step
    simp only [List.length_append, List.length_singleton] at ih
    omega

theorem Rounds.accounted (h : Rounds graph.inner count graph.firstRound last) :
    last.Accounted graph.inner graph.ids :=
  h.keeps (fun _ _ => Round.Accounted.step) (Round.accounted_firstRound graph)

theorem Rounds.length_le (h : Rounds graph.inner count graph.firstRound last) :
    count + last.queue.length ≤ graph.nodes.length := by
  have hlength := h.accounted.frontier.length_le (inner_target_mem graph)
  have hdone : last.done.length = 0 + count := h.length_done
  rw [List.length_append, ids, List.length_map] at hlength
  omega

theorem exists_rounds (edges : List Edge) (n : Nat) (round : Round) :
    ∃ count last, count ≤ n ∧ Rounds edges count round last ∧
      last.done = round.done ++ visit (targets edges) n round.pending round.queue ∧
      (last.queue = [] ∨ count = n) := by
  induction n generalizing round with
  | zero => exact ⟨0, round, Nat.le_refl 0, .none round, by simp [visit], .inr rfl⟩
  | succ n ih =>
    cases hqueue : round.queue with
    | nil => exact ⟨0, round, Nat.zero_le _, .none round, by simp [visit], .inl hqueue⟩
    | cons id queue =>
      obtain ⟨count, last, hcount, hrounds, hdone, hend⟩ :=
        ih ⟨(settle round.pending (targets edges id)).1,
          queue ++ (settle round.pending (targets edges id)).2, round.done ++ [id]⟩
      refine ⟨count + 1, last, by omega,
        .more (Round.next?_eq_some_iff.2 ⟨id, queue, hqueue, rfl⟩) hrounds, ?_, ?_⟩
      · rw [hdone, visit, List.append_assoc, List.singleton_append]
      · exact hend.imp_right (congrArg (· + 1))

/-- The loop ends, and the ids that it has taken then are the visits. -/
theorem exists_lastRound (graph : Graph) :
    ∃ count last, Rounds graph.inner count graph.firstRound last ∧
      last.next? graph.inner = none ∧ last.done = graph.visited := by
  obtain ⟨count, last, -, hrounds, hdone, hend⟩ :=
    exists_rounds graph.inner graph.nodes.length graph.firstRound
  refine ⟨count, last, hrounds, Round.next?_eq_none_iff.2 ?_, hdone⟩
  rcases hend with hempty | hcount
  · exact hempty
  · have hlength := hrounds.length_le
    exact List.eq_nil_of_length_eq_zero (by omega)

theorem exists_split_of_node? {id : String} {node : Node} (h : graph.node? id = some node) :
    ∃ before after, graph.nodes = before ++ node :: after ∧ node.id = id ∧
      id ∉ after.map (·.id) := by
  obtain ⟨hid, after, before, hsplit, hafter⟩ := List.find?_eq_some_iff_append.1 h
  refine ⟨before.reverse, after.reverse, ?_, by simpa using hid, ?_⟩
  · rw [List.reverse_eq_iff] at hsplit
    simpa using hsplit
  · simpa using hafter

theorem source_not_mem_ids_of_unfed {id : String} (hid : id ∈ graph.ids)
    (h : ∀ source, ¬graph.Feeds source id) {e : Edge} (he : e ∈ graph.edges) (ht : e.target = id) :
    e.source ∉ graph.ids := fun hsource =>
  h e.source ⟨e, (mem_inner_iff graph e).2 ⟨he, hsource, by rwa [ht]⟩, rfl, ht⟩

/-- Whatever ids are repeated, the loop ends after at most one round for each node, and what it has
taken from the queue is the order. The ids in the order and those left out are apart and together
all that are declared, the order consists of the nodes that stand for their ids, and only an id that
is declared more than once and has no edge from a declared one comes up more than once. -/
theorem rounds_end (graph : Graph) :
    (∀ count round, Rounds graph.inner count graph.firstRound round →
      count ≤ graph.nodes.length) ∧
    (∃ count last, Rounds graph.inner count graph.firstRound last ∧
      last.next? graph.inner = none ∧ last.done = graph.ordered.map (·.id)) ∧
    (∀ id, id ∈ graph.ids ↔ id ∈ graph.ordered.map (·.id) ∨ id ∈ graph.cyclic) ∧
    (graph.ordered.map (·.id)).Disjoint graph.cyclic ∧
    (∀ node ∈ graph.ordered, ∃ before after, graph.nodes = before ++ node :: after ∧
      node.id ∉ after.map (·.id)) ∧
    (∀ id, 2 ≤ (graph.ordered.map (·.id)).count id →
      2 ≤ graph.ids.count id ∧ ∀ e ∈ graph.edges, e.target = id → e.source ∉ graph.ids) := by
  rw [ordered_ids]
  refine ⟨fun count round h => ?_, exists_lastRound graph, fun id => ?_, fun id hvisited hcyclic => ?_,
    fun node hnode => ?_, fun id htwice => ?_⟩
  · have hlength := h.length_le
    omega
  · rw [mem_cyclic]
    constructor
    · intro hid
      by_cases hvisited : id ∈ graph.visited
      · exact .inl hvisited
      · exact .inr ⟨hid, hvisited⟩
    · intro hcase
      rcases hcase with hvisited | ⟨hid, -⟩
      · exact mem_ids_of_visited hvisited
      · exact hid
  · exact (mem_cyclic.1 hcyclic).2 hvisited
  · obtain ⟨id, -, hfind⟩ := List.mem_filterMap.1 hnode
    obtain ⟨before, after, hsplit, rfl, hafter⟩ := exists_split_of_node? hfind
    exact ⟨before, after, hsplit, hafter⟩
  · have hturns : ¬graph.turns id ≤ 1 := by
      have hle : graph.visited.count id ≤ graph.turns id := count_visited_le id
      omega
    obtain ⟨hcount, hunfed⟩ := not_not.1 (turns_le_one_iff.not.1 hturns)
    have hid : id ∈ graph.ids := List.one_le_count_iff.1 (by omega)
    exact ⟨hcount, fun e he ht => source_not_mem_ids_of_unfed hid hunfed he ht⟩

end LayerGraph.Graph
