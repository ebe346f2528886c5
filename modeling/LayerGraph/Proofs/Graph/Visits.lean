import LayerGraph.Graph.Order
import Mathlib.Data.List.Nodup
import Mathlib.Data.List.Perm.Subperm
set_option autoImplicit false

namespace LayerGraph.Graph

/-- The weights of the sources of the edges into an id, added up edge by edge. -/
def inflow : List Edge → (String → Nat) → String → Nat
  | [], _, _ => 0
  | e :: edges, weight, id =>
    (if e.target = id then weight e.source else 0) + inflow edges weight id

theorem inflow_append (edges edges' : List Edge) (weight : String → Nat) (id : String) :
    inflow (edges ++ edges') weight id = inflow edges weight id + inflow edges' weight id := by
  induction edges with
  | nil => simp [inflow]
  | cons e edges ih =>
    simp only [List.cons_append, inflow, ih]
    omega

@[simp] theorem inflow_zero (edges : List Edge) (id : String) : inflow edges (fun _ => 0) id = 0 := by
  induction edges with
  | nil => rfl
  | cons e edges ih => simp [inflow, ih]

def degree (edges : List Edge) (id : String) : Nat := inflow edges (fun _ => 1) id

theorem inDegree_eq (edges : List Edge) (id : String) :
    inDegree edges id = (degree edges id : Int) := by
  unfold inDegree degree
  congr 1
  induction edges with
  | nil => rfl
  | cons e edges ih =>
    rw [List.countP_cons, ih, inflow]
    by_cases h : e.target = id
    · simp [h]
      omega
    · simp [h]

theorem degree_pos_iff (edges : List Edge) (id : String) :
    0 < degree edges id ↔ ∃ e ∈ edges, e.target = id := by
  have hcount : degree edges id = edges.countP (·.target == id) := by
    have := inDegree_eq edges id
    simp only [inDegree] at this
    omega
  simp [hcount, List.countP_pos_iff]

theorem inflow_add (edges : List Edge) (w w' : String → Nat) (id : String) :
    inflow edges (fun u => w u + w' u) id = inflow edges w id + inflow edges w' id := by
  induction edges with
  | nil => rfl
  | cons e edges ih =>
    simp only [inflow, ih]
    split <;> omega

theorem inflow_le {edges : List Edge} {w w' : String → Nat} {id : String}
    (h : ∀ e ∈ edges, e.target = id → w e.source ≤ w' e.source) :
    inflow edges w id ≤ inflow edges w' id := by
  induction edges with
  | nil => exact Nat.le_refl _
  | cons e edges ih =>
    have hrest := ih fun e' he' => h e' (List.mem_cons_of_mem _ he')
    have hhead := h e List.mem_cons_self
    simp only [inflow]
    split
    · have := hhead ‹_›
      omega
    · omega

theorem inflow_congr {edges : List Edge} {w w' : String → Nat} {id : String}
    (h : ∀ e ∈ edges, e.target = id → w e.source = w' e.source) :
    inflow edges w id = inflow edges w' id :=
  Nat.le_antisymm (inflow_le fun e he ht => Nat.le_of_eq (h e he ht))
    (inflow_le fun e he ht => Nat.le_of_eq (h e he ht).symm)

theorem exists_of_inflow_lt {edges : List Edge} {w w' : String → Nat} {id : String}
    (h : inflow edges w id < inflow edges w' id) :
    ∃ e ∈ edges, e.target = id ∧ w e.source < w' e.source := by
  by_contra hnone
  have hle : inflow edges w' id ≤ inflow edges w id :=
    inflow_le fun e he ht => Nat.le_of_not_lt fun hw => hnone ⟨e, he, ht, hw⟩
  omega

theorem inflow_lt {edges : List Edge} {w w' : String → Nat} {id : String}
    (h : ∀ e ∈ edges, e.target = id → w e.source ≤ w' e.source)
    (hlt : ∃ e ∈ edges, e.target = id ∧ w e.source < w' e.source) :
    inflow edges w id < inflow edges w' id := by
  obtain ⟨e, he, ht, hw⟩ := hlt
  refine Nat.lt_of_le_of_ne (inflow_le h) fun heq => ?_
  obtain ⟨before, after, rfl⟩ := List.append_of_mem he
  have hsplit : ∀ weight : String → Nat, inflow (before ++ e :: after) weight id =
      inflow before weight id + (weight e.source + inflow after weight id) := by
    intro weight
    rw [inflow_append, inflow, if_pos ht]
  have hbefore : inflow before w id ≤ inflow before w' id :=
    inflow_le fun e' he' => h e' (by simp [he'])
  have hafter : inflow after w id ≤ inflow after w' id :=
    inflow_le fun e' he' => h e' (by simp [he'])
  rw [hsplit, hsplit] at heq
  omega

/-- If distinct visits account for all edges into an id, they are visits to all their sources. -/
theorem source_mem_of_degree_le {edges : List Edge} {done : List String} {id : String}
    (hdone : done.Nodup) (h : degree edges id ≤ inflow edges (done.count ·) id) {e : Edge}
    (he : e ∈ edges) (ht : e.target = id) : e.source ∈ done := by
  by_contra hout
  have hlt : inflow edges (done.count ·) id < degree edges id := by
    refine inflow_lt (fun e' _ _ => List.nodup_iff_count_le_one.1 hdone e'.source) ⟨e, he, ht, ?_⟩
    simp [List.count_eq_zero_of_not_mem hout]
  omega

theorem mem_targets {edges : List Edge} {source id : String} :
    id ∈ targets edges source ↔ ∃ e ∈ edges, e.source = source ∧ e.target = id := by
  simp [targets, and_assoc]

theorem count_targets (edges : List Edge) (source id : String) :
    (targets edges source).count id = inflow edges (fun u => [source].count u) id := by
  induction edges with
  | nil => rfl
  | cons e edges ih =>
    have hcons : (targets (e :: edges) source).count id =
        (if e.target = id then [source].count e.source else 0)
          + (targets edges source).count id := by
      by_cases hs : e.source = source
      · by_cases ht : e.target = id <;> simp [targets, hs, ht, Nat.add_comm]
      · simp [targets, hs, Ne.symm hs]
    rw [hcons, ih, inflow]

theorem settle_fst (pending : Pending) (ids : List String) :
    (settle pending ids).1 = fun id => pending id - ids.count id := by
  induction ids generalizing pending with
  | nil => simp [settle]
  | cons target ids ih =>
    funext id
    simp only [settle, ih, Pending.release, List.count_cons]
    by_cases h : id = target
    · simp [h]
      omega
    · simp [h, Ne.symm h]

/-- The ids that become ready are those whose last edges are among the targets, each once. -/
theorem count_settle_snd (pending : Pending) (ids : List String) (id : String) :
    (settle pending ids).2.count id =
      if 0 < pending id ∧ pending id ≤ ids.count id then 1 else 0 := by
  induction ids generalizing pending with
  | nil =>
    have hnot : ¬(0 < pending id ∧ pending id ≤ (0 : Nat)) := by omega
    simp only [settle, List.count_nil, hnot, ↓reduceIte]
  | cons target ids ih =>
    have hrest := ih (pending.release target)
    by_cases h : id = target
    · subst h
      simp only [settle, Pending.release, ↓reduceIte, List.count_cons_self] at hrest ⊢
      by_cases hz : pending id - 1 = 0
      · rw [if_pos hz, List.count_cons_self, hrest, if_neg (by omega), if_pos (by omega)]
      · rw [if_neg hz, hrest]
        split <;> split <;> omega
    · have hne : (target == id) = false := by simpa using Ne.symm h
      simp only [Pending.release, h, ↓reduceIte] at hrest
      simp only [settle, List.count_cons, hne, Bool.false_eq_true, ↓reduceIte, Nat.add_zero]
      split <;> simp [hrest, List.count_cons, hne, Pending.release]

theorem mem_settle_snd {pending : Pending} {ids : List String} {id : String}
    (h : id ∈ (settle pending ids).2) : id ∈ ids ∧ pending id ≤ ids.count id := by
  have hcount := count_settle_snd pending ids id
  have hpos := List.count_pos_iff.2 h
  have hready : 0 < pending id ∧ pending id ≤ ids.count id := by
    by_contra hnot
    rw [if_neg hnot] at hcount
    omega
  exact ⟨List.count_pos_iff.1 (by omega), hready.2⟩

def remaining (edges : List Edge) (done : List String) : Pending :=
  fun id => inDegree edges id - inflow edges (done.count ·) id

theorem remaining_nil (edges : List Edge) : remaining edges [] = inDegree edges := by
  funext id
  simp [remaining]

theorem inflow_snoc (edges : List Edge) (done : List String) (last id : String) :
    inflow edges ((done ++ [last]).count ·) id =
      inflow edges (done.count ·) id + (targets edges last).count id := by
  simp only [List.count_append, count_targets, inflow_add]

theorem settle_remaining (edges : List Edge) (done : List String) (id : String) :
    (settle (remaining edges done) (targets edges id)).1 = remaining edges (done ++ [id]) := by
  funext other
  simp only [settle_fst, remaining, inflow_snoc]
  omega

/-- The ids visited and those in the queue, by number: of an id without edges into it every
declaration, any other one once all its edges are accounted for. -/
def Frontier (edges : List Edge) (ids done queue : List String) : Prop :=
  ∀ id, (done ++ queue).count id =
    if degree edges id = 0 then ids.count id
    else if degree edges id ≤ inflow edges (done.count ·) id then 1 else 0

variable {edges : List Edge} {ids : List String}

theorem frontier_start : Frontier edges ids [] (seeds edges ids) := by
  intro id
  simp only [List.nil_append, List.count_nil, inflow_zero, Nat.le_zero_eq, seeds]
  by_cases h : degree edges id = 0
  · rw [List.count_filter (by simp [inDegree_eq, h])]
    simp [h]
  · have hout : id ∉ ids.filter fun id => inDegree edges id == 0 := by
      simp [List.mem_filter, inDegree_eq, h]
    simp [h, List.count_eq_zero_of_not_mem hout]

theorem Frontier.step {done queue : List String} {id : String}
    (h : Frontier edges ids done (id :: queue)) :
    Frontier edges ids (done ++ [id])
      (queue ++ (settle (remaining edges done) (targets edges id)).2) := by
  intro other
  have hold := h other
  have hready := count_settle_snd (remaining edges done) (targets edges id) other
  simp only [remaining, inDegree_eq] at hready
  have hsplit : (done ++ [id] ++ (queue ++ (settle (remaining edges done) (targets edges id)).2)
      ).count other = (done ++ id :: queue).count other +
        (settle (remaining edges done) (targets edges id)).2.count other := by
    simp only [List.count_append, List.count_cons, List.count_nil]
    omega
  rw [hsplit, hold]
  simp only [inflow_snoc, hready]
  by_cases hz : degree edges other = 0
  · simp only [hz, ↓reduceIte]
    split <;> omega
  · simp only [hz, ↓reduceIte]
    split <;> split <;> split <;> omega

theorem Frontier.length_le {done queue : List String} (h : Frontier edges ids done queue)
    (hids : ∀ e ∈ edges, e.target ∈ ids) : (done ++ queue).length ≤ ids.length := by
  refine (List.subperm_ext_iff.2 fun id _ => ?_).length_le
  rw [h id]
  split
  · exact Nat.le_refl _
  · have hpos : 0 < degree edges id := by omega
    obtain ⟨e, he, rfl⟩ := (degree_pos_iff edges id).1 hpos
    have hcount := List.one_le_count_iff.2 (hids e he)
    split <;> omega

theorem Frontier.nodup {done queue : List String} (h : Frontier edges ids done queue)
    (hids : ids.Nodup) : (done ++ queue).Nodup := by
  refine List.nodup_iff_count_le_one.2 fun id => ?_
  have hcount := List.nodup_iff_count_le_one.1 hids id
  rw [h id]
  split
  · exact hcount
  · split <;> omega

theorem Frontier.ready {done queue : List String} {id : String}
    (h : Frontier edges ids done queue) (hid : id ∈ queue) :
    degree edges id ≤ inflow edges (done.count ·) id := by
  have hcount := h id
  have hpos : 0 < (done ++ queue).count id := List.count_pos_iff.2 (by simp [hid])
  rw [hcount] at hpos
  by_contra hnot
  by_cases hz : degree edges id = 0
  · omega
  · simp [hz, hnot] at hpos

theorem Frontier.visit {n : Nat} {done queue : List String} (h : Frontier edges ids done queue)
    (hids : ∀ e ∈ edges, e.target ∈ ids) (hn : ids.length ≤ done.length + n) :
    Frontier edges ids (done ++ visit (targets edges) n (remaining edges done) queue) [] := by
  induction n generalizing done queue with
  | zero =>
    have hlen := h.length_le hids
    have hq : queue = [] := by
      apply List.eq_nil_of_length_eq_zero
      simp only [List.length_append] at hlen
      omega
    simpa [Graph.visit, hq] using h
  | succ n ih =>
    cases queue with
    | nil => simpa [Graph.visit] using h
    | cons id queue =>
      have hnext := ih h.step (by simp only [List.length_append, List.length_singleton]; omega)
      simpa [Graph.visit, settle_remaining] using hnext

/-- When an id comes up, its edges are all accounted for by the visits before it. -/
theorem Frontier.visit_split {n : Nat} {done queue before after : List String} {id : String}
    (h : Frontier edges ids done queue)
    (hsplit : Graph.visit (targets edges) n (remaining edges done) queue = before ++ id :: after) :
    degree edges id ≤ inflow edges ((done ++ before).count ·) id := by
  induction n generalizing done queue before with
  | zero => simp [Graph.visit] at hsplit
  | succ n ih =>
    cases queue with
    | nil => simp [Graph.visit] at hsplit
    | cons first queue =>
      simp only [Graph.visit, settle_remaining] at hsplit
      cases before with
      | nil =>
        simp only [List.nil_append, List.cons.injEq] at hsplit
        obtain ⟨rfl, -⟩ := hsplit
        simpa using h.ready List.mem_cons_self
      | cons head before =>
        simp only [List.cons_append, List.cons.injEq] at hsplit
        obtain ⟨rfl, hrest⟩ := hsplit
        simpa using ih h.step hrest

theorem declares_iff (graph : Graph) (id : String) : graph.declares id = true ↔ id ∈ graph.ids := by
  simp [declares, ids]

theorem declares_eq_false_iff (graph : Graph) (id : String) :
    graph.declares id = false ↔ id ∉ graph.ids := by
  rw [← Bool.not_eq_true, declares_iff]

theorem mem_inner_iff (graph : Graph) (e : Edge) :
    e ∈ graph.inner ↔ e ∈ graph.edges ∧ e.source ∈ graph.ids ∧ e.target ∈ graph.ids := by
  simp [inner, declares_iff]

theorem inner_target_mem (graph : Graph) : ∀ e ∈ graph.inner, e.target ∈ graph.ids :=
  fun e he => ((mem_inner_iff graph e).1 he).2.2

theorem count_visited (graph : Graph) (id : String) :
    graph.visited.count id =
      if degree graph.inner id = 0 then graph.ids.count id
      else if degree graph.inner id ≤ inflow graph.inner (graph.visited.count ·) id then 1
      else 0 := by
  have hstart : Frontier graph.inner graph.ids [] (seeds graph.inner graph.ids) := frontier_start
  have hrun := hstart.visit (n := graph.nodes.length) (inner_target_mem graph) (by simp [ids])
  have hcount := hrun id
  rw [remaining_nil, List.nil_append, List.append_nil] at hcount
  exact hcount

theorem degree_le_of_visited {graph : Graph} {before after : List String} {id : String}
    (h : graph.visited = before ++ id :: after) :
    degree graph.inner id ≤ inflow graph.inner (before.count ·) id := by
  have hstart : Frontier graph.inner graph.ids [] (seeds graph.inner graph.ids) := frontier_start
  rw [visited, ← remaining_nil] at h
  simpa using hstart.visit_split h

end LayerGraph.Graph
