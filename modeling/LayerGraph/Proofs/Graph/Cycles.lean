import LayerGraph.Proofs.Graph.Visits
import Mathlib.Data.List.Basic
import Mathlib.Data.Set.Finite.List
import Mathlib.Order.WellFounded
set_option autoImplicit false

/-!
Which ids the order of evaluation leaves out. In general they are the largest blocked set: ids that
the visits from outside the set, weighted by how often the sources are declared, never make ready.
When all ids are distinct, these are the ids on a cycle or behind one, and the ids that are visited
come in an order in which every edge points forward.
-/

namespace LayerGraph.Graph

def Feeds (graph : Graph) (source target : String) : Prop :=
  ∃ e ∈ graph.inner, e.source = source ∧ e.target = target

def OnCycle (graph : Graph) (id : String) : Prop := Relation.TransGen graph.Feeds id id

/-- The id lies on a cycle or can be reached from one. -/
def BehindCycle (graph : Graph) (id : String) : Prop :=
  ∃ start, graph.OnCycle start ∧ Relation.ReflTransGen graph.Feeds start id

def SameCycle (graph : Graph) (id other : String) : Prop :=
  Relation.TransGen graph.Feeds id other ∧ Relation.TransGen graph.Feeds other id

/-- The id is declared more than once and no edge leads into it. -/
def Doubled (graph : Graph) (id : String) : Prop :=
  2 ≤ graph.ids.count id ∧ ∀ source, ¬graph.Feeds source id

/-- How often an id comes up if it does: once for each declaration when no edge leads into it. -/
def turns (graph : Graph) (id : String) : Nat :=
  if degree graph.inner id = 0 then graph.ids.count id else 1

/-- The visits that come from outside are too few for every member of the set. -/
def Blocked (graph : Graph) (set : List String) : Prop :=
  ∀ id ∈ set, id ∈ graph.ids ∧
    inflow graph.inner (fun u => if u ∈ set then 0 else graph.turns u) id < degree graph.inner id

variable {graph : Graph}

theorem feeds_iff {source target : String} :
    graph.Feeds source target ↔
      source ∈ graph.sources target ∧ source ∈ graph.ids ∧ target ∈ graph.ids := by
  simp only [Feeds, mem_inner_iff, sources, incoming, List.mem_map, List.mem_filter, beq_iff_eq]
  constructor
  · intro hgiven
    obtain ⟨e, ⟨he, hs, ht⟩, rfl, rfl⟩ := hgiven
    exact ⟨⟨e, ⟨he, rfl⟩, rfl⟩, hs, ht⟩
  · intro hgiven
    obtain ⟨⟨e, ⟨he, rfl⟩, rfl⟩, hs, ht⟩ := hgiven
    exact ⟨e, ⟨he, hs, ht⟩, rfl, rfl⟩

theorem degree_eq_zero_iff {id : String} :
    degree graph.inner id = 0 ↔ ∀ source, ¬graph.Feeds source id := by
  constructor
  · intro hzero source hgiven
    obtain ⟨e, he, -, rfl⟩ := hgiven
    have hpos := (degree_pos_iff graph.inner e.target).2 ⟨e, he, rfl⟩
    omega
  · intro hnone
    by_contra hpos
    obtain ⟨e, he, rfl⟩ := (degree_pos_iff graph.inner id).1 (by omega)
    exact hnone e.source ⟨e, he, rfl, rfl⟩

theorem mem_cyclic {id : String} : id ∈ graph.cyclic ↔ id ∈ graph.ids ∧ id ∉ graph.visited := by
  simp [cyclic]

theorem mem_ids_of_visited {id : String} (h : id ∈ graph.visited) : id ∈ graph.ids := by
  have hcount := count_visited graph id
  have hpos := List.one_le_count_iff.2 h
  by_cases hz : degree graph.inner id = 0
  · rw [if_pos hz] at hcount
    exact List.one_le_count_iff.1 (by omega)
  · obtain ⟨e, he, rfl⟩ := (degree_pos_iff graph.inner id).1 (by omega)
    exact inner_target_mem graph e he

theorem count_visited_le (id : String) : graph.visited.count id ≤ graph.turns id := by
  rw [count_visited, turns]
  split
  · exact Nat.le_refl _
  · split <;> omega

theorem turns_pos {id : String} (h : id ∈ graph.ids) : 1 ≤ graph.turns id := by
  rw [turns]
  split
  · exact List.one_le_count_iff.2 h
  · exact Nat.le_refl _

theorem turns_le_one_iff {id : String} : graph.turns id ≤ 1 ↔ ¬graph.Doubled id := by
  rw [turns, Doubled, ← degree_eq_zero_iff]
  split <;> omega

theorem turns_le_one (h : graph.ids.Nodup) (id : String) : graph.turns id ≤ 1 := by
  rw [turns_le_one_iff]
  intro hgiven
  obtain ⟨htwice, -⟩ := hgiven
  have hcount := List.nodup_iff_count_le_one.1 h id
  omega

theorem cyclic_blocked (graph : Graph) : graph.Blocked graph.cyclic := by
  intro id hid
  obtain ⟨hids, hout⟩ := mem_cyclic.1 hid
  refine ⟨hids, ?_⟩
  have hcount := count_visited graph id
  rw [List.count_eq_zero_of_not_mem hout] at hcount
  have hdegree : inflow graph.inner (graph.visited.count ·) id < degree graph.inner id := by
    by_contra hnot
    have hdeclared := List.one_le_count_iff.2 hids
    by_cases hz : degree graph.inner id = 0
    · rw [if_pos hz] at hcount
      omega
    · rw [if_neg hz, if_pos (by omega)] at hcount
      omega
  refine Nat.lt_of_le_of_lt (Nat.le_of_eq (inflow_congr fun e he _ => ?_)) hdegree
  have hsource := ((mem_inner_iff graph e).1 he).2.1
  by_cases hc : e.source ∈ graph.cyclic
  · rw [if_pos hc, List.count_eq_zero_of_not_mem (mem_cyclic.1 hc).2]
  · have hvisited : e.source ∈ graph.visited := by
      by_contra hnot
      exact hc (mem_cyclic.2 ⟨hsource, hnot⟩)
    have hpos := List.one_le_count_iff.2 hvisited
    have hsplit := count_visited graph e.source
    rw [if_neg hc, turns]
    by_cases hz : degree graph.inner e.source = 0
    · rw [if_pos hz, hsplit, if_pos hz]
    · rw [if_neg hz] at hsplit ⊢
      split at hsplit <;> omega

theorem Blocked.not_mem_visited {set : List String} (h : graph.Blocked set) {id : String}
    (hid : id ∈ set) : id ∉ graph.visited := by
  -- No member of the set comes up first: by induction on the visits before it.
  have hnone : ∀ before after : List String, graph.visited = before ++ after →
      ∀ other ∈ before, other ∉ set := by
    intro before
    induction before using List.reverseRecOn with
    | nil => simp
    | append_singleton before last ih =>
      intro after hsplit other hother
      rw [List.append_assoc, List.singleton_append] at hsplit
      have hbefore := ih (last :: after) hsplit
      rcases List.mem_append.1 hother with hold | hlast
      · exact hbefore other hold
      · obtain rfl := List.mem_singleton.1 hlast
        intro hmem
        have hready := degree_le_of_visited hsplit
        have hle : inflow graph.inner (before.count ·) other ≤
            inflow graph.inner (fun u => if u ∈ set then 0 else graph.turns u) other := by
          refine inflow_le fun e _ _ => ?_
          by_cases hs : e.source ∈ set
          · have hnot : e.source ∉ before := fun hin => hbefore _ hin hs
            rw [List.count_eq_zero_of_not_mem hnot]
            exact Nat.zero_le _
          · have hcount : graph.visited.count e.source ≤ graph.turns e.source :=
              count_visited_le e.source
            rw [hsplit, List.count_append] at hcount
            rw [if_neg hs]
            omega
        have hlt := (h other hmem).2
        omega
  intro hin
  exact hnone graph.visited [] (by simp) id hin hid

/-- The ids that are left out are those of all blocked sets. -/
theorem mem_cyclic_iff_blocked {id : String} :
    id ∈ graph.cyclic ↔ ∃ set, graph.Blocked set ∧ id ∈ set := by
  constructor
  · intro h
    exact ⟨graph.cyclic, cyclic_blocked graph, h⟩
  · intro hgiven
    obtain ⟨set, hset, hid⟩ := hgiven
    exact mem_cyclic.2 ⟨(hset id hid).1, hset.not_mem_visited hid⟩

/-- A set whose members feed each other is blocked unless a repeated id feeds it. -/
theorem blocked_of_feeds {set : List String}
    (hfeeds : ∀ id ∈ set, ∃ source ∈ set, graph.Feeds source id)
    (hturns : ∀ id ∈ set, ∀ source, graph.Feeds source id → graph.turns source ≤ 1) :
    graph.Blocked set := by
  intro id hid
  obtain ⟨source, hsource, e, he, rfl, rfl⟩ := hfeeds id hid
  refine ⟨inner_target_mem graph e he, inflow_lt (fun e' he' ht' => ?_) ⟨e, he, rfl, ?_⟩⟩
  · have hle := hturns e.target hid e'.source ⟨e', he', rfl, ht'⟩
    split <;> omega
  · simp [hsource]

theorem OnCycle.mem_ids {id : String} (h : graph.OnCycle id) : id ∈ graph.ids := by
  obtain ⟨_, -, hlast⟩ := Relation.TransGen.tail'_iff.1 h
  exact (feeds_iff.1 hlast).2.2

theorem BehindCycle.mem_ids {id : String} (h : graph.BehindCycle id) : id ∈ graph.ids := by
  obtain ⟨start, hstart, hpath⟩ := h
  rcases Relation.ReflTransGen.cases_tail hpath with rfl | ⟨_, -, hlast⟩
  · exact hstart.mem_ids
  · exact (feeds_iff.1 hlast).2.2

theorem BehindCycle.exists_feeds {id : String} (h : graph.BehindCycle id) :
    ∃ source, graph.BehindCycle source ∧ graph.Feeds source id := by
  obtain ⟨start, hstart, hpath⟩ := h
  rcases Relation.ReflTransGen.cases_tail hpath with rfl | ⟨source, hsource, hlast⟩
  · obtain ⟨source, hsource, hlast⟩ := Relation.TransGen.tail'_iff.1 hstart
    exact ⟨source, ⟨id, hstart, hsource⟩, hlast⟩
  · exact ⟨source, ⟨start, hstart, hsource⟩, hlast⟩

theorem cyclic_exists_feeds {id : String} (h : id ∈ graph.cyclic) :
    ∃ source ∈ graph.cyclic, graph.Feeds source id := by
  obtain ⟨e, he, rfl, hlt⟩ := exists_of_inflow_lt (cyclic_blocked graph id h).2
  refine ⟨e.source, ?_, e, he, rfl, rfl⟩
  by_contra hout
  rw [if_neg hout] at hlt
  have hpos := turns_pos ((mem_inner_iff graph e).1 he).2.1
  omega

theorem behindCycle_of_cyclic {id : String} (h : id ∈ graph.cyclic) : graph.BehindCycle id := by
  by_contra hnot
  -- The ids left out that lie behind no cycle are finitely many, and each is fed by another one.
  let Bad := {id : String // id ∈ graph.cyclic ∧ ¬graph.BehindCycle id}
  have hfinite : Finite Bad :=
    ((List.finite_toSet graph.cyclic).subset fun _ hid => hid.1).to_subtype
  let Before : Bad → Bad → Prop := fun a b => Relation.TransGen graph.Feeds a.1 b.1
  have htrans : IsTrans Bad Before := ⟨fun _ _ _ => Relation.TransGen.trans⟩
  have hirrefl : Std.Irrefl Before := ⟨fun a ha => a.2.2 ⟨a.1, ha, .refl⟩⟩
  have hwf : WellFounded Before := Finite.wellFounded_of_trans_of_irrefl Before
  obtain ⟨least, -, hleast⟩ := hwf.has_min Set.univ ⟨⟨id, h, hnot⟩, trivial⟩
  obtain ⟨source, hsource, hfeeds⟩ := cyclic_exists_feeds least.2.1
  have hbad : ¬graph.BehindCycle source := by
    intro hgiven
    obtain ⟨start, hstart, hpath⟩ := hgiven
    exact least.2.2 ⟨start, hstart, hpath.tail hfeeds⟩
  exact hleast ⟨source, hsource, hbad⟩ trivial (.single hfeeds)

/-- Of distinct ids, those on cycles and behind them are left out, and no others. -/
theorem mem_cyclic_iff_behindCycle (hids : graph.ids.Nodup) {id : String} :
    id ∈ graph.cyclic ↔ graph.BehindCycle id := by
  classical
  refine ⟨behindCycle_of_cyclic, fun h => mem_cyclic_iff_blocked.2
    ⟨graph.ids.filter graph.BehindCycle, blocked_of_feeds ?_ ?_, ?_⟩⟩
  · intro other hother
    have hbehind : graph.BehindCycle other := by simpa using (List.mem_filter.1 hother).2
    obtain ⟨source, hsource, hfeeds⟩ := hbehind.exists_feeds
    exact ⟨source, by simp [hsource, hsource.mem_ids], hfeeds⟩
  · intro _ _ source _
    exact turns_le_one hids source
  · simp [h, h.mem_ids]

/-- A cycle is left out unless it is fed by an id that is declared more than once. -/
theorem OnCycle.blocked {id : String} (h : graph.OnCycle id)
    (hfed : ∀ other, graph.SameCycle id other → ∀ source, graph.Feeds source other →
      ¬graph.Doubled source) : ∃ set, graph.Blocked set ∧ id ∈ set := by
  classical
  refine ⟨graph.ids.filter (graph.SameCycle id), blocked_of_feeds ?_ ?_, ?_⟩
  · intro other hother
    obtain ⟨hto, hfrom⟩ : graph.SameCycle id other := by simpa using (List.mem_filter.1 hother).2
    obtain ⟨source, hpath, hfeeds⟩ := Relation.TransGen.tail'_iff.1 hto
    have hback : Relation.TransGen graph.Feeds source id := .head hfeeds hfrom
    have hsame : graph.SameCycle id source := by
      rcases Relation.reflTransGen_iff_eq_or_transGen.1 hpath with rfl | hlong
      · exact ⟨h, h⟩
      · exact ⟨hlong, hback⟩
    exact ⟨source, by simp [hsame, (feeds_iff.1 hfeeds).2.1], hfeeds⟩
  · intro other hother source hfeeds
    have hsame : graph.SameCycle id other := by simpa using (List.mem_filter.1 hother).2
    exact turns_le_one_iff.2 (hfed other hsame source hfeeds)
  · have hsame : graph.SameCycle id id := ⟨h, h⟩
    simp [hsame, h.mem_ids]

theorem visited_nodup (hids : graph.ids.Nodup) : graph.visited.Nodup :=
  List.nodup_iff_count_le_one.2 fun id =>
    Nat.le_trans (count_visited_le id) (turns_le_one hids id)

theorem source_mem_of_visited (hids : graph.ids.Nodup) {before after : List String} {id : String}
    (h : graph.visited = before ++ id :: after) {source : String} (hs : graph.Feeds source id) :
    source ∈ before := by
  obtain ⟨e, he, rfl, rfl⟩ := hs
  have hnodup := visited_nodup hids
  rw [h] at hnodup
  exact source_mem_of_degree_le (List.nodup_append.1 hnodup).1 (degree_le_of_visited h) he rfl

theorem node?_isSome {id : String} (h : id ∈ graph.ids) :
    ∃ node, graph.node? id = some node ∧ node.id = id ∧ node ∈ graph.nodes := by
  obtain ⟨node, hnode, rfl⟩ := List.mem_map.1 h
  cases hfind : graph.node? node.id with
  | none =>
    have hnone := List.find?_eq_none.1 hfind node (List.mem_reverse.2 hnode)
    simp at hnone
  | some found =>
    refine ⟨found, rfl, ?_, ?_⟩
    · simpa using List.find?_some hfind
    · exact List.mem_reverse.1 (List.mem_of_find?_eq_some hfind)

theorem node?_of_mem (hids : graph.ids.Nodup) {node : Node} (h : node ∈ graph.nodes) :
    graph.node? node.id = some node := by
  obtain ⟨found, hfind, hid, hmem⟩ := node?_isSome (List.mem_map_of_mem h)
  rw [hfind]
  exact congrArg some (List.inj_on_of_nodup_map hids hmem h hid)

theorem filterMap_node? (hids : graph.ids.Nodup) (p : String → Bool) :
    (graph.ids.filter p).filterMap graph.node? = graph.nodes.filter fun node => p node.id := by
  rw [ids, List.filter_map, List.filterMap_map]
  refine (List.filterMap_congr fun node hnode => ?_).trans List.filterMap_some
  exact node?_of_mem hids (List.mem_filter.1 hnode).1

theorem ordered_ids (graph : Graph) : graph.ordered.map (·.id) = graph.visited := by
  have hall : ∀ id ∈ graph.visited, ∃ node, graph.node? id = some node ∧ node.id = id := by
    intro id hid
    obtain ⟨node, hnode, hnid, -⟩ := node?_isSome (mem_ids_of_visited hid)
    exact ⟨node, hnode, hnid⟩
  unfold ordered
  generalize graph.visited = visited at hall
  induction visited with
  | nil => rfl
  | cons id rest ih =>
    obtain ⟨node, hnode, rfl⟩ := hall id List.mem_cons_self
    simp [hnode, ih fun id hid => hall id (List.mem_cons_of_mem _ hid)]

theorem ordered_nodup (hids : graph.ids.Nodup) : (graph.ordered.map (·.id)).Nodup := by
  rw [ordered_ids]
  exact visited_nodup hids

theorem not_mem_of_ordered (hids : graph.ids.Nodup) {before after : List Node}
    (h : graph.ordered = before ++ after) {id : String} (hid : id ∈ before.map (·.id)) :
    id ∉ after.map (·.id) := by
  have hnodup := ordered_nodup hids
  rw [h, List.map_append, List.nodup_append] at hnodup
  exact fun hin => hnodup.2.2 id hid id hin rfl

theorem mem_nodes_of_ordered {node : Node} (h : node ∈ graph.ordered) : node ∈ graph.nodes := by
  obtain ⟨id, hid, hnode⟩ := List.mem_filterMap.1 h
  exact List.mem_reverse.1 (List.mem_of_find?_eq_some hnode)

theorem mem_ids_of_ordered {node : Node} (h : node ∈ graph.ordered) : node.id ∈ graph.ids :=
  List.mem_map_of_mem (mem_nodes_of_ordered h)

theorem not_mem_cyclic_of_ordered {node : Node} (h : node ∈ graph.ordered) :
    node.id ∉ graph.cyclic := by
  intro hcyclic
  refine (mem_cyclic.1 hcyclic).2 ?_
  rw [← ordered_ids]
  exact List.mem_map_of_mem h

theorem mem_ordered (hids : graph.ids.Nodup) {node : Node} :
    node ∈ graph.ordered ↔ node ∈ graph.nodes ∧ node.id ∉ graph.cyclic := by
  constructor
  · exact fun h => ⟨mem_nodes_of_ordered h, not_mem_cyclic_of_ordered h⟩
  · intro hgiven
    obtain ⟨hnode, hc⟩ := hgiven
    have hvisited : node.id ∈ graph.visited := by
      by_contra hnot
      exact hc (mem_cyclic.2 ⟨List.mem_map_of_mem hnode, hnot⟩)
    exact List.mem_filterMap.2 ⟨node.id, hvisited, node?_of_mem hids hnode⟩

theorem source_mem_of_ordered (hids : graph.ids.Nodup) {before after : List Node} {node : Node}
    (h : graph.ordered = before ++ node :: after) {source : String}
    (hs : source ∈ graph.sources node.id) (hd : source ∈ graph.ids) :
    source ∈ before.map (·.id) := by
  have hvisited : graph.visited = before.map (·.id) ++ node.id :: after.map (·.id) := by
    rw [← ordered_ids, h]
    simp
  refine source_mem_of_visited hids hvisited (feeds_iff.2 ⟨hs, hd, ?_⟩)
  exact mem_ids_of_visited (by simp [hvisited])

end LayerGraph.Graph
