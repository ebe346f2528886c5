import LayerGraph.Proofs.Graph.Rounds
import Mathlib.Order.Bounds.Defs
set_option autoImplicit false

/-!
Where a node stands in the order of evaluation when all ids are distinct. Nodes on or behind a cycle
are left out and each of the others comes after all nodes that it reads. Those without a declared
source come first, and any other one is released by its latest source: nodes follow each other as
these sources do, and nodes with the same latest source as the last edges from it do. So a node
never comes before one with fewer edges on the longest path to it.
-/

namespace LayerGraph.Graph

/-- No edge from a declared node leads into the id. -/
def unfed (graph : Graph) (id : String) : Bool :=
  (graph.sources id).all fun source => !graph.declares source

/-- The index of the last edge from one id to another. -/
structure LastEdge (edges : List Edge) (source target : String) (index : Nat) : Prop where
  joins : ∃ e, edges[index]? = some e ∧ e.source = source ∧ e.target = target
  last : ∀ later e, index < later → edges[later]? = some e →
    ¬(e.source = source ∧ e.target = target)

/-- What an id waits for last: the source that comes latest in an order, by its place there, and of
the edges from that source the last one, by its index. -/
def ReleasedAt (graph : Graph) (order : List String) (id : String) (place index : Nat) : Prop :=
  ∃ source, order[place]? = some source ∧ graph.Feeds source id ∧
    LastEdge graph.edges source id index ∧
    ∀ other, graph.Feeds other id → ∃ earlier ≤ place, order[earlier]? = some other

/-- One id is released before the other: by an earlier source, or by an earlier edge of the same. -/
def ReleasedBefore (graph : Graph) (order : List String) (id other : String) : Prop :=
  ∃ place index place' index', graph.ReleasedAt order id place index ∧
    graph.ReleasedAt order other place' index' ∧
    (place < place' ∨ place = place' ∧ index < index')

/-- There is a path of so many edges between declared nodes that ends at the id. -/
inductive PathTo (graph : Graph) : Nat → String → Prop where
  | start {id : String} (declared : id ∈ graph.ids) : PathTo graph 0 id
  | step {length : Nat} {source id : String} (path : PathTo graph length source)
      (feeds : graph.Feeds source id) : PathTo graph (length + 1) id

variable {graph : Graph} {edges : List Edge} {source target id : String} {order : List String}
  {place index : Nat}

theorem LastEdge.unique {index' : Nat} (h : LastEdge edges source target index)
    (h' : LastEdge edges source target index') : index = index' := by
  obtain ⟨e, he, hjoins⟩ := h.joins
  obtain ⟨e', he', hjoins'⟩ := h'.joins
  rcases Nat.lt_trichotomy index index' with hlt | heq | hgt
  · exact absurd hjoins' (h.last index' e' hlt he')
  · exact heq
  · exact absurd hjoins (h'.last index e hgt he)

theorem exists_lastEdge {e : Edge} (he : e ∈ edges) (hsource : e.source = source)
    (htarget : e.target = target) : ∃ index, LastEdge edges source target index := by
  have hsome : (edges.reverse.find? fun e => e.source == source && e.target == target).isSome :=
    List.find?_isSome.2 ⟨e, List.mem_reverse.2 he, by simp [hsource, htarget]⟩
  obtain ⟨last, hlast⟩ := Option.isSome_iff_exists.1 hsome
  obtain ⟨hjoins, after, before, hsplit, hafter⟩ := List.find?_eq_some_iff_append.1 hlast
  have hedges : edges = before.reverse ++ last :: after.reverse := by
    rw [List.reverse_eq_iff] at hsplit
    simpa using hsplit
  refine ⟨before.length, ⟨last, by simp [hedges], by simpa using hjoins⟩,
    fun later e' hlater he' hjoins' => ?_⟩
  obtain ⟨n, rfl⟩ : ∃ n, later = before.reverse.length + (n + 1) :=
    ⟨later - before.length - 1, by rw [List.length_reverse]; omega⟩
  rw [hedges, List.getElem?_append_right (Nat.le_add_right _ _), Nat.add_sub_cancel_left,
    List.getElem?_cons_succ] at he'
  have hnot := hafter e' (List.mem_reverse.1 (List.mem_of_getElem? he'))
  simp [hjoins'] at hnot

theorem LastEdge.lt_of_cut {before after : List Edge} {other : String} {index' : Nat}
    (h : LastEdge (before ++ after) source id index)
    (h' : LastEdge (before ++ after) source other index')
    (hid : ∀ e ∈ after, ¬(e.source = source ∧ e.target = id))
    (hother : ∃ e ∈ after, e.source = source ∧ e.target = other) : index < index' := by
  have hleft : index < before.length := by
    by_contra hright
    obtain ⟨e, he, hjoins⟩ := h.joins
    rw [List.getElem?_append_right (by omega)] at he
    exact hid e (List.mem_of_getElem? he) hjoins
  have hright : before.length ≤ index' := by
    by_contra hleft
    obtain ⟨e, he, hjoins⟩ := hother
    obtain ⟨n, hn⟩ := List.mem_iff_getElem?.1 he
    refine h'.last (before.length + n) e (by omega) ?_ hjoins
    rwa [List.getElem?_append_right (by omega), Nat.add_sub_cancel_left]
  omega

/-- The ids that a visit makes ready follow each other as the last edges to them do, since no edge
is released twice. -/
theorem settle_pairwise {pending : Pending} {ids : List String}
    (hpending : ∀ id, (ids.count id : Int) ≤ pending id) :
    (settle pending ids).2.Pairwise fun id other =>
      ∃ before after, ids = before ++ after ∧ id ∉ after ∧ other ∈ after := by
  induction ids generalizing pending with
  | nil => exact .nil
  | cons first ids ih =>
    have hnext : ∀ id, (ids.count id : Int) ≤ pending.release first id := by
      intro id
      have hcount := hpending id
      rw [List.count_cons] at hcount
      unfold Pending.release
      by_cases hid : id = first
      · subst hid
        simp only [beq_self_eq_true, ↓reduceIte] at hcount ⊢
        omega
      · simp only [beq_eq_false_iff_ne.2 (Ne.symm hid), Bool.false_eq_true, ↓reduceIte,
          hid] at hcount ⊢
        omega
    have hrest := (ih hnext).imp fun {id other} hgiven => by
      obtain ⟨before, after, hcut, hid, hother⟩ := hgiven
      exact (⟨first :: before, after, by rw [hcut, List.cons_append], hid, hother⟩ :
        ∃ before after, first :: ids = before ++ after ∧ id ∉ after ∧ other ∈ after)
    rw [settle]
    dsimp only
    split
    · rename_i hzero
      refine List.pairwise_cons.2 ⟨fun other hother => ⟨[first], ids, rfl, ?_, ?_⟩, hrest⟩
      · have hleft := hnext first
        rw [hzero] at hleft
        exact List.count_eq_zero.1 (by omega)
      · exact (mem_settle_snd hother).1
    · exact hrest

theorem exists_cut {before after : List String}
    (hcut : targets graph.inner source = before ++ after) :
    ∃ first last, graph.edges = first ++ last ∧ ∀ id, id ∈ after ↔
      source ∈ graph.ids ∧ id ∈ graph.ids ∧ ∃ e ∈ last, e.source = source ∧ e.target = id := by
  rw [targets, inner, List.filter_filter, List.map_eq_append_iff] at hcut
  obtain ⟨_, _, hfilter, -, rfl⟩ := hcut
  obtain ⟨first, last, hedges, -, rfl⟩ := List.filter_eq_append_iff.1 hfilter
  refine ⟨first, last, hedges, fun id => ?_⟩
  simp only [List.mem_map, List.mem_filter, Bool.and_eq_true, beq_iff_eq, declares_iff]
  constructor
  · intro hgiven
    obtain ⟨e, ⟨he, rfl, hs, ht⟩, rfl⟩ := hgiven
    exact ⟨hs, ht, e, he, rfl, rfl⟩
  · intro hgiven
    obtain ⟨hs, ht, e, he, rfl, rfl⟩ := hgiven
    exact ⟨e, ⟨he, rfl, hs, ht⟩, rfl⟩

theorem lastEdges_of_cut {before after : List String}
    (hcut : targets graph.inner source = before ++ after) {other : String}
    (hid : id ∈ targets graph.inner source) (hout : id ∉ after) (hother : other ∈ after) :
    ∃ index index', LastEdge graph.edges source id index ∧
      LastEdge graph.edges source other index' ∧ index < index' := by
  obtain ⟨e, he, rfl, rfl⟩ := mem_targets.1 hid
  obtain ⟨he, hs, ht⟩ := (mem_inner_iff graph e).1 he
  obtain ⟨first, last, hedges, hafter⟩ := exists_cut hcut
  obtain ⟨-, -, later, hlater, hjoins⟩ := (hafter other).1 hother
  obtain ⟨index, hindex⟩ := exists_lastEdge he rfl rfl
  have hin : later ∈ graph.edges := by simp [hedges, hlater]
  obtain ⟨index', hindex'⟩ := exists_lastEdge hin hjoins.1 hjoins.2
  refine ⟨index, index', hindex, hindex', ?_⟩
  rw [hedges] at hindex hindex'
  exact hindex.lt_of_cut hindex'
    (fun e' he' hjoins' => hout ((hafter e.target).2 ⟨hs, ht, e', he', hjoins'⟩))
    ⟨later, hlater, hjoins⟩

theorem ReleasedAt.append {more : List String} (h : graph.ReleasedAt order id place index) :
    graph.ReleasedAt (order ++ more) id place index := by
  have hkept : ∀ {place : Nat} {source : String}, order[place]? = some source →
      (order ++ more)[place]? = some source := by
    intro place source hplace
    rw [List.getElem?_append_left (List.getElem?_eq_some_iff.1 hplace).1, hplace]
  obtain ⟨source, hplace, hfeeds, hlast, hlatest⟩ := h
  refine ⟨source, hkept hplace, hfeeds, hlast, fun other hother => ?_⟩
  obtain ⟨earlier, hle, hearlier⟩ := hlatest other hother
  exact ⟨earlier, hle, hkept hearlier⟩

theorem ReleasedAt.place_lt (h : graph.ReleasedAt order id place index) : place < order.length := by
  obtain ⟨source, hplace, -⟩ := h
  exact (List.getElem?_eq_some_iff.1 hplace).1

theorem ReleasedBefore.append {more : List String} {other : String}
    (h : graph.ReleasedBefore order id other) : graph.ReleasedBefore (order ++ more) id other := by
  obtain ⟨place, index, place', index', hid, hother, hlt⟩ := h
  exact ⟨place, index, place', index', hid.append, hother.append, hlt⟩

/-- The ids taken and those in the queue: first the ids without a declared source, then others in
the order in which they were released. -/
def Lined (graph : Graph) (round : Round) : Prop :=
  ∃ later, round.done ++ round.queue = seeds graph.inner graph.ids ++ later ∧
    (∀ id ∈ later, ∃ place index, graph.ReleasedAt round.done id place index) ∧
    later.Pairwise (graph.ReleasedBefore round.done)

section

variable {round next : Round} {queue : List String} {last : String}

/-- Before the first id of the queue is taken, each id waits for all its edges from that id. -/
theorem count_targets_le_pending (hids : graph.ids.Nodup)
    (h : round.Accounted graph.inner graph.ids) (hqueue : round.queue = last :: queue)
    (id : String) : ((targets graph.inner last).count id : Int) ≤ round.pending id := by
  have hnodup := h.frontier.nodup hids
  rw [hqueue, List.append_cons] at hnodup
  have hdone : ∀ source, (round.done ++ [last]).count source ≤ 1 :=
    List.nodup_iff_count_le_one.1 (List.nodup_append.1 hnodup).1
  have hinflow : inflow graph.inner ((round.done ++ [last]).count ·) id ≤ degree graph.inner id :=
    inflow_le fun e _ _ => hdone e.source
  rw [inflow_snoc] at hinflow
  rw [h.pending, remaining, inDegree_eq]
  omega

theorem releasedAt_of_ready (hids : graph.ids.Nodup) (h : round.Accounted graph.inner graph.ids)
    (hqueue : round.queue = last :: queue)
    (hready : id ∈ (settle round.pending (targets graph.inner last)).2)
    (hlast : LastEdge graph.edges last id index) :
    graph.ReleasedAt (round.done ++ [last]) id round.done.length index := by
  obtain ⟨hmem, hle⟩ := mem_settle_snd hready
  have hnodup := h.frontier.nodup hids
  rw [hqueue, List.append_cons] at hnodup
  have hall : degree graph.inner id ≤ inflow graph.inner ((round.done ++ [last]).count ·) id := by
    rw [h.pending, remaining, inDegree_eq] at hle
    rw [inflow_snoc]
    omega
  refine ⟨last, by simp, mem_targets.1 hmem, hlast, fun other hother => ?_⟩
  obtain ⟨e, he, rfl, rfl⟩ := hother
  obtain ⟨earlier, hearlier⟩ := List.mem_iff_getElem?.1
    (source_mem_of_degree_le (List.nodup_append.1 hnodup).1 hall he rfl)
  have hlt := (List.getElem?_eq_some_iff.1 hearlier).1
  rw [List.length_append, List.length_singleton] at hlt
  exact ⟨earlier, by omega, hearlier⟩

theorem Lined.step (hids : graph.ids.Nodup) (hround : round.Accounted graph.inner graph.ids)
    (h : graph.Lined round) (hnext : round.next? graph.inner = some next) : graph.Lined next := by
  obtain ⟨last, queue, hqueue, rfl⟩ := Round.next?_eq_some_iff.1 hnext
  obtain ⟨later, hline, hreleased, hordered⟩ := h
  have hready : ∀ id ∈ (settle round.pending (targets graph.inner last)).2, ∃ index,
      graph.ReleasedAt (round.done ++ [last]) id round.done.length index := by
    intro id hid
    obtain ⟨e, he, hsource, htarget⟩ := mem_targets.1 (mem_settle_snd hid).1
    obtain ⟨index, hlast⟩ :=
      exists_lastEdge ((mem_inner_iff graph e).1 he).1 hsource htarget
    exact ⟨index, releasedAt_of_ready hids hround hqueue hid hlast⟩
  refine ⟨later ++ (settle round.pending (targets graph.inner last)).2, ?_, fun id hid => ?_, ?_⟩
  · rw [hqueue] at hline
    rw [← List.append_assoc _ later, ← hline]
    simp
  · rcases List.mem_append.1 hid with hold | hnew
    · obtain ⟨place, index, hid⟩ := hreleased id hold
      exact ⟨place, index, hid.append⟩
    · exact ⟨round.done.length, hready id hnew⟩
  · refine List.pairwise_append.2 ⟨hordered.imp fun h => h.append, ?_, fun id hid other hother => ?_⟩
    · refine (settle_pairwise (count_targets_le_pending hids hround hqueue)).imp_of_mem
        fun hid hother hcut => ?_
      obtain ⟨before, after, hcut, hout, hin⟩ := hcut
      obtain ⟨index, index', hindex, hindex', hlt⟩ :=
        lastEdges_of_cut hcut (mem_settle_snd hid).1 hout hin
      exact ⟨_, index, _, index', releasedAt_of_ready hids hround hqueue hid hindex,
        releasedAt_of_ready hids hround hqueue hother hindex', .inr ⟨rfl, hlt⟩⟩
    · obtain ⟨place, index, hid⟩ := hreleased id hid
      obtain ⟨index', hother⟩ := hready other hother
      exact ⟨place, index, _, index', hid.append, hother, .inl hid.place_lt⟩

end

theorem visited_lined (hids : graph.ids.Nodup) :
    ∃ later, graph.visited = seeds graph.inner graph.ids ++ later ∧
      (∀ id ∈ later, ∃ place index, graph.ReleasedAt graph.visited id place index) ∧
      later.Pairwise (graph.ReleasedBefore graph.visited) := by
  obtain ⟨count, last, hrounds, hend, hdone⟩ := exists_lastRound graph
  have hstep : ∀ round next : Round, round.Accounted graph.inner graph.ids ∧ graph.Lined round →
      round.next? graph.inner = some next →
      next.Accounted graph.inner graph.ids ∧ graph.Lined next :=
    fun round next h hnext => ⟨h.1.step hnext, h.2.step hids h.1 hnext⟩
  have hfirst : graph.Lined graph.firstRound := ⟨[], (List.append_nil _).symm, by simp, .nil⟩
  obtain ⟨-, later, hline, hreleased, hordered⟩ :=
    hrounds.keeps hstep ⟨Round.accounted_firstRound graph, hfirst⟩
  rw [Round.next?_eq_none_iff.1 hend, List.append_nil, hdone] at hline
  rw [hdone] at hreleased hordered
  exact ⟨later, hline, hreleased, hordered⟩

section

variable {place' index' : Nat} {other : String}

theorem ReleasedAt.unique (horder : order.Nodup) (h : graph.ReleasedAt order id place index)
    (h' : graph.ReleasedAt order id place' index') : place = place' ∧ index = index' := by
  have hle : ∀ {place place' : Nat} {source : String}, place' < order.length →
      order[place']? = some source → (∃ earlier ≤ place, order[earlier]? = some source) →
      place' ≤ place := by
    intro place place' source hlt hplace' hgiven
    obtain ⟨earlier, hearlier, hsource⟩ := hgiven
    rw [← hplace'] at hsource
    exact (List.getElem?_inj hlt horder).1 hsource.symm ▸ hearlier
  have hlt := h.place_lt
  have hlt' := h'.place_lt
  obtain ⟨source, hplace, hfeeds, hlast, hlatest⟩ := h
  obtain ⟨source', hplace', hfeeds', hlast', hlatest'⟩ := h'
  obtain rfl : place = place' := Nat.le_antisymm (hle hlt hplace (hlatest' source hfeeds))
    (hle hlt' hplace' (hlatest source' hfeeds'))
  obtain rfl : source = source' := Option.some.inj (hplace.symm.trans hplace')
  exact ⟨rfl, hlast.unique hlast'⟩

theorem mem_seeds_iff : id ∈ seeds graph.inner graph.ids ↔
    id ∈ graph.ids ∧ ∀ source, ¬graph.Feeds source id := by
  rw [seeds, List.mem_filter, inDegree_eq, ← degree_eq_zero_iff]
  simp

theorem seeds_eq (graph : Graph) : seeds graph.inner graph.ids = graph.ids.filter graph.unfed := by
  refine List.filter_congr fun id hid => ?_
  rw [Bool.eq_iff_iff, inDegree_eq]
  simp only [beq_iff_eq, Int.natCast_eq_zero, degree_eq_zero_iff, feeds_iff, unfed, List.all_eq_true,
    Bool.not_eq_true', declares_eq_false_iff]
  exact ⟨fun h source hsource hs => h source ⟨hsource, hs, hid⟩,
    fun h source hgiven => h source hgiven.1 hgiven.2.1⟩

theorem fed_iff (hids : graph.ids.Nodup) (hplace : graph.visited[place]? = some id) :
    (∃ source, graph.Feeds source id) ↔ (seeds graph.inner graph.ids).length ≤ place := by
  obtain ⟨later, hvisited, hreleased, -⟩ := visited_lined hids
  rw [hvisited] at hplace
  constructor
  · intro hfed
    by_contra hlt
    rw [List.getElem?_append_left (by omega)] at hplace
    obtain ⟨source, hsource⟩ := hfed
    exact (mem_seeds_iff.1 (List.mem_of_getElem? hplace)).2 source hsource
  · intro hle
    rw [List.getElem?_append_right hle] at hplace
    obtain ⟨_, _, source, -, hsource, -⟩ := hreleased id (List.mem_of_getElem? hplace)
    exact ⟨source, hsource⟩

theorem exists_releasedAt (hids : graph.ids.Nodup) (hplace : graph.visited[place]? = some id)
    (hfed : ∃ source, graph.Feeds source id) :
    ∃ place index, graph.ReleasedAt graph.visited id place index := by
  have hle := (fed_iff hids hplace).1 hfed
  obtain ⟨later, hvisited, hreleased, -⟩ := visited_lined hids
  rw [hvisited, List.getElem?_append_right hle] at hplace
  exact hreleased id (List.mem_of_getElem? hplace)

theorem ReleasedAt.fed (h : graph.ReleasedAt order id place index) :
    ∃ source, graph.Feeds source id := by
  obtain ⟨source, -, hsource, -⟩ := h
  exact ⟨source, hsource⟩

theorem released_of_lt (hids : graph.ids.Nodup) {i j : Nat} (hlt : i < j)
    (hi : graph.visited[i]? = some id) (hj : graph.visited[j]? = some other)
    (h : graph.ReleasedAt graph.visited id place index)
    (h' : graph.ReleasedAt graph.visited other place' index') :
    place < place' ∨ place = place' ∧ index < index' := by
  have hi' := (fed_iff hids hi).1 h.fed
  have hj' := (fed_iff hids hj).1 h'.fed
  obtain ⟨later, hvisited, -, hordered⟩ := visited_lined hids
  rw [hvisited, List.getElem?_append_right hi', List.getElem?_eq_some_iff] at hi
  rw [hvisited, List.getElem?_append_right hj', List.getElem?_eq_some_iff] at hj
  obtain ⟨hi, rfl⟩ := hi
  obtain ⟨hj, rfl⟩ := hj
  obtain ⟨p, k, q, l, hp, hq, hbefore⟩ :=
    List.pairwise_iff_getElem.1 hordered _ _ hi hj (by omega)
  obtain ⟨rfl, rfl⟩ := hp.unique (visited_nodup hids) h
  obtain ⟨rfl, rfl⟩ := hq.unique (visited_nodup hids) h'
  exact hbefore

theorem lt_iff_released (hids : graph.ids.Nodup) {i j : Nat}
    (hi : graph.visited[i]? = some id) (hj : graph.visited[j]? = some other)
    (h : graph.ReleasedAt graph.visited id place index)
    (h' : graph.ReleasedAt graph.visited other place' index') :
    i < j ↔ place < place' ∨ place = place' ∧ index < index' := by
  refine ⟨fun hlt => released_of_lt hids hlt hi hj h h', fun hbefore => ?_⟩
  rcases Nat.lt_trichotomy i j with hlt | rfl | hgt
  · exact hlt
  · obtain rfl : id = other := Option.some.inj (hi.symm.trans hj)
    obtain ⟨rfl, rfl⟩ := h.unique (visited_nodup hids) h'
    omega
  · have hafter := released_of_lt hids hgt hj hi h' h
    omega

theorem exists_place_lt (hids : graph.ids.Nodup) (hplace : graph.visited[place]? = some id)
    (hsource : graph.Feeds source id) : ∃ earlier < place, graph.visited[earlier]? = some source := by
  obtain ⟨hlt, rfl⟩ := List.getElem?_eq_some_iff.1 hplace
  have hsplit : graph.visited = graph.visited.take place ++
      graph.visited[place] :: graph.visited.drop (place + 1) := by
    rw [List.getElem_cons_drop, List.take_append_drop]
  obtain ⟨earlier, hearlier⟩ :=
    List.mem_iff_getElem?.1 (source_mem_of_visited hids hsplit hsource)
  have hbound := (List.getElem?_eq_some_iff.1 hearlier).1
  rw [List.length_take] at hbound
  rw [List.getElem?_take_of_lt (by omega)] at hearlier
  exact ⟨earlier, by omega, hearlier⟩

/-- The longest path to an id of the order, which is no shorter than that to any id before it: by
induction on the place, since the longest path goes through the latest source. -/
theorem exists_longest (hids : graph.ids.Nodup) (hplace : graph.visited[place]? = some id) :
    ∃ length, graph.PathTo length id ∧ ∀ earlier ≤ place, ∀ other,
      graph.visited[earlier]? = some other → ∀ n, graph.PathTo n other → n ≤ length := by
  induction place using Nat.strongRecOn generalizing id with
  | ind place ih =>
    by_cases hfed : ∃ source, graph.Feeds source id
    · obtain ⟨p, k, hreleased⟩ := exists_releasedAt hids hplace hfed
      have hlatest := hreleased
      obtain ⟨source, hp, hsource, -, -⟩ := hlatest
      have hlt : p < place := by
        obtain ⟨earlier, hlt, hearlier⟩ := exists_place_lt hids hplace hsource
        rw [← hp] at hearlier
        exact (List.getElem?_inj hreleased.place_lt (visited_nodup hids)).1 hearlier.symm ▸ hlt
      obtain ⟨length, hpath, hlongest⟩ := ih p hlt hp
      refine ⟨length + 1, .step hpath hsource, fun earlier hearlier other hother n hn => ?_⟩
      cases hn with
      | start _ => exact Nat.zero_le _
      | @step n before _ hn hbefore =>
        obtain ⟨q, l, hreleased'⟩ := exists_releasedAt hids hother ⟨before, hbefore⟩
        have hle : q ≤ p := by
          rcases Nat.eq_or_lt_of_le hearlier with rfl | hlt
          · obtain rfl : id = other := Option.some.inj (hplace.symm.trans hother)
            exact Nat.le_of_eq (hreleased'.unique (visited_nodup hids) hreleased).1
          · have horder := released_of_lt hids hlt hother hplace hreleased' hreleased
            omega
        obtain ⟨-, -, -, -, hall⟩ := hreleased'
        obtain ⟨first, hfirst, hmem⟩ := hall before hbefore
        exact Nat.succ_le_succ (hlongest first (by omega) before hmem n hn)
    · refine ⟨0, .start (mem_ids_of_visited (List.mem_of_getElem? hplace)),
        fun earlier hearlier other hother n hn => ?_⟩
      cases hn with
      | start _ => exact Nat.le_refl 0
      | @step n before _ hn hbefore =>
        have hle := (fed_iff hids hother).1 ⟨before, hbefore⟩
        exact absurd ((fed_iff hids hplace).2 (by omega)) hfed

end

/-- Of distinct ids those on or behind a cycle are left out, in the order of declaration, the other
nodes come up once each, and every edge between declared nodes leads forward in the order. -/
theorem edges_lead_forward (hids : graph.ids.Nodup) :
    (graph.cyclic.Sublist graph.ids ∧ ∀ id, id ∈ graph.cyclic ↔ graph.BehindCycle id) ∧
    ((graph.ordered.map (·.id)).Nodup ∧
      ∀ node, node ∈ graph.ordered ↔ node ∈ graph.nodes ∧ ¬graph.BehindCycle node.id) ∧
    ∀ e ∈ graph.edges, e.source ∈ graph.ids → e.target ∈ graph.ids →
      ∀ place : Nat, (graph.ordered.map (·.id))[place]? = some e.target →
        ∃ earlier < place, (graph.ordered.map (·.id))[earlier]? = some e.source := by
  refine ⟨⟨List.filter_sublist, fun id => mem_cyclic_iff_behindCycle hids⟩,
    ⟨ordered_nodup hids, fun node => ?_⟩, fun e he hs ht place hplace => ?_⟩
  · rw [mem_ordered hids, mem_cyclic_iff_behindCycle hids]
  · rw [ordered_ids] at hplace ⊢
    exact exists_place_lt hids hplace ⟨e, (mem_inner_iff graph e).2 ⟨he, hs, ht⟩, rfl, rfl⟩

/-- Two inputs, one of which feeds a node by two edges with an edge to its neighbour between them, a
sum of these and of the other input, a loop on one node, and a node behind the loop. -/
def weave : Graph where
  nodes := [⟨"late", "Add", "", []⟩, ⟨"sum", "Add", "", []⟩, ⟨"left", "Add", "", []⟩,
    ⟨"right", "Add", "", []⟩, ⟨"first", "Input", "", []⟩, ⟨"loop", "ReLU", "", []⟩,
    ⟨"second", "Input", "", []⟩]
  edges := [⟨"1", "first", "left", none⟩, ⟨"2", "first", "right", none⟩,
    ⟨"3", "first", "left", none⟩, ⟨"4", "nowhere", "right", none⟩, ⟨"5", "left", "sum", none⟩,
    ⟨"6", "right", "sum", none⟩, ⟨"7", "second", "sum", none⟩, ⟨"8", "loop", "loop", none⟩,
    ⟨"9", "loop", "late", none⟩, ⟨"10", "first", "late", none⟩]

theorem weave_leads_forward :
    weave.ids.Nodup ∧ weave.BehindCycle "late" ∧ ¬weave.BehindCycle "sum" ∧
      ∃ earlier < 4, (weave.ordered.map (·.id))[earlier]? = some "second" := by
  have hids : weave.ids.Nodup := by decide
  obtain ⟨⟨-, hcyclic⟩, ⟨-, hordered⟩, hedges⟩ := edges_lead_forward hids
  refine ⟨hids, (hcyclic "late").1 (by decide +kernel),
    ((hordered ⟨"sum", "Add", "", []⟩).1 (by decide +kernel)).2, ?_⟩
  exact hedges ⟨"7", "second", "sum", none⟩ (by decide) (by decide) (by decide) 4
    (by decide +kernel)

/-- Of distinct ids, those that no declared node feeds come first, in the order of declaration. Each
other id of the order has a latest source there and a last edge from it, and these two tell which of
two such ids comes first. So the longest paths to the ids never get shorter along the order. -/
theorem ordered_by_release (hids : graph.ids.Nodup) :
    (∃ rest, graph.ordered = graph.nodes.filter (fun node => graph.unfed node.id) ++ rest ∧
      ∀ node ∈ rest, ∃ place index,
        graph.ReleasedAt (graph.ordered.map (·.id)) node.id place index) ∧
    (∀ (i j : Nat) (id other : String), (graph.ordered.map (·.id))[i]? = some id →
      (graph.ordered.map (·.id))[j]? = some other → ∀ place index place' index',
        graph.ReleasedAt (graph.ordered.map (·.id)) id place index →
        graph.ReleasedAt (graph.ordered.map (·.id)) other place' index' →
        (i < j ↔ place < place' ∨ place = place' ∧ index < index')) ∧
    (∀ (i j : Nat) (id other : String), i ≤ j → (graph.ordered.map (·.id))[i]? = some id →
      (graph.ordered.map (·.id))[j]? = some other →
        ∃ m n, IsGreatest {length | graph.PathTo length id} m ∧
          IsGreatest {length | graph.PathTo length other} n ∧ m ≤ n) := by
  rw [ordered_ids]
  refine ⟨?_, fun i j id other hi hj place index place' index' h h' =>
    lt_iff_released hids hi hj h h', fun i j id other hle hi hj => ?_⟩
  · obtain ⟨later, hvisited, hreleased, -⟩ := visited_lined hids
    refine ⟨later.filterMap graph.node?, ?_, fun node hnode => ?_⟩
    · conv_lhs => rw [ordered, hvisited]
      rw [List.filterMap_append, seeds_eq, filterMap_node? hids]
    · obtain ⟨id, hid, hfind⟩ := List.mem_filterMap.1 hnode
      obtain rfl : node.id = id := by simpa using List.find?_some hfind
      exact hreleased node.id hid
  · obtain ⟨m, hm, hshorter⟩ := exists_longest hids hi
    obtain ⟨n, hn, hlonger⟩ := exists_longest hids hj
    exact ⟨m, n, ⟨hm, fun length => hshorter i (Nat.le_refl i) id hi length⟩,
      ⟨hn, fun length => hlonger j (Nat.le_refl j) other hj length⟩, hlonger i hle id hi m hm⟩

/-- The edge between the two parallel ones decides. -/
theorem weave_released :
    weave.ids.Nodup ∧
    (∃ place index place' index',
      weave.ReleasedAt (weave.ordered.map (·.id)) "right" place index ∧
      weave.ReleasedAt (weave.ordered.map (·.id)) "left" place' index' ∧
      (place < place' ∨ place = place' ∧ index < index')) ∧
    ∃ m n, IsGreatest {length | weave.PathTo length "second"} m ∧
      IsGreatest {length | weave.PathTo length "sum"} n ∧ m ≤ n := by
  have hids : weave.ids.Nodup := by decide
  obtain ⟨⟨rest, hsplit, hrest⟩, hrelease, hlongest⟩ := ordered_by_release hids
  have hknown : weave.ordered = weave.nodes.filter (fun node => weave.unfed node.id) ++
      [⟨"right", "Add", "", []⟩, ⟨"left", "Add", "", []⟩, ⟨"sum", "Add", "", []⟩] := by
    decide +kernel
  have hrest' := List.append_cancel_left (hsplit.symm.trans hknown)
  obtain ⟨place, index, hright⟩ := hrest ⟨"right", "Add", "", []⟩ (by simp [hrest'])
  obtain ⟨place', index', hleft⟩ := hrest ⟨"left", "Add", "", []⟩ (by simp [hrest'])
  refine ⟨hids, ⟨place, index, place', index', hright, hleft, ?_⟩, ?_⟩
  · exact (hrelease 2 3 "right" "left" (by decide +kernel) (by decide +kernel) place index place'
      index' hright hleft).1 (by decide)
  · exact hlongest 1 4 "second" "sum" (by decide) (by decide +kernel) (by decide +kernel)

end LayerGraph.Graph
