import LayerGraph.Proofs.Graph.Evaluation
set_option autoImplicit false

/-!
A region of a graph is closed if no edge enters it from a node outside. Graphs that agree on such a
region give its ids the same results. Around the region anything may differ: the nodes and their
params, what fails, the cycles, the edges, and the order of the declarations.
-/

namespace LayerGraph.Graph

/-- The graphs have the same nodes in the region and the same edges into it, and what feeds the
region lies in it or is declared nowhere. -/
structure AgreesOn (graph other : Graph) (region : Set String) : Prop where
  input : graph.input = other.input
  nodes : ∀ node, node.id ∈ region → (node ∈ graph.nodes ↔ node ∈ other.nodes)
  sources : ∀ id ∈ region, graph.sources id = other.sources id
  closed : ∀ id ∈ region, ∀ source ∈ graph.sources id,
    source ∈ region ∨ source ∉ graph.ids ∧ source ∉ other.ids

namespace AgreesOn

variable {catalogue : Catalogue} {graph other : Graph} {region : Set String}

theorem symm (h : graph.AgreesOn other region) : other.AgreesOn graph region where
  input := h.input.symm
  nodes := fun node hnode => (h.nodes node hnode).symm
  sources := fun id hid => (h.sources id hid).symm
  closed := fun id hid source hsource => by
    rw [← h.sources id hid] at hsource
    exact (h.closed id hid source hsource).imp_right And.symm

theorem declared (h : graph.AgreesOn other region) {id : String} (hid : id ∈ region)
    (hd : id ∈ graph.ids) : id ∈ other.ids := by
  obtain ⟨node, hnode, rfl⟩ := List.mem_map.1 hd
  exact List.mem_map_of_mem ((h.nodes node hid).1 hnode)

theorem feeds (h : graph.AgreesOn other region) {source target : String} (ht : target ∈ region)
    (hfeeds : graph.Feeds source target) : source ∈ region ∧ other.Feeds source target := by
  obtain ⟨hsource, hds, hdt⟩ := feeds_iff.1 hfeeds
  have hs : source ∈ region := by
    rcases h.closed target ht source hsource with hin | ⟨hout, -⟩
    · exact hin
    · exact absurd hds hout
  rw [h.sources target ht] at hsource
  exact ⟨hs, feeds_iff.2 ⟨hsource, h.declared hs hds, h.declared ht hdt⟩⟩

theorem path (h : graph.AgreesOn other region) {start id : String} (hid : id ∈ region)
    (hpath : Relation.ReflTransGen graph.Feeds start id) :
    start ∈ region ∧ Relation.ReflTransGen other.Feeds start id := by
  induction hpath using Relation.ReflTransGen.head_induction_on with
  | refl => exact ⟨hid, .refl⟩
  | head hfirst _ ih =>
    obtain ⟨hnext, hrest⟩ := ih
    obtain ⟨hsource, hfeeds⟩ := h.feeds hnext hfirst
    exact ⟨hsource, .head hfeeds hrest⟩

theorem onCycle (h : graph.AgreesOn other region) {id : String} (hid : id ∈ region)
    (hcycle : graph.OnCycle id) : other.OnCycle id := by
  obtain ⟨last, hpath, hback⟩ := Relation.TransGen.tail'_iff.1 hcycle
  obtain ⟨hlast, hfeeds⟩ := h.feeds hid hback
  exact .tail' (h.path hlast hpath).2 hfeeds

theorem behindCycle (h : graph.AgreesOn other region) {id : String} (hid : id ∈ region)
    (hbehind : graph.BehindCycle id) : other.BehindCycle id := by
  obtain ⟨start, hcycle, hpath⟩ := hbehind
  obtain ⟨hstart, hpath'⟩ := h.path hid hpath
  exact ⟨start, h.onCycle hstart hcycle, hpath'⟩

theorem behindCycle_iff (h : graph.AgreesOn other region) {id : String} (hid : id ∈ region) :
    graph.BehindCycle id ↔ other.BehindCycle id :=
  ⟨h.behindCycle hid, h.symm.behindCycle hid⟩

variable {values values' : String → Option NodeResult}

theorem evaluated (h : graph.AgreesOn other region) (hvalues : IsInference catalogue graph values)
    (hvalues' : IsInference catalogue other values') {node : Node} (hid : node.id ∈ region)
    (hnode : node ∈ graph.nodes) (hbehind : ¬graph.BehindCycle node.id)
    (hsources : ∀ source ∈ graph.sources node.id, values source = values' source) :
    values node.id = values' node.id := by
  obtain ⟨result, heval, hresult⟩ := hvalues.evaluated node hnode hbehind
  obtain ⟨result', heval', hresult'⟩ := hvalues'.evaluated node ((h.nodes node hid).1 hnode)
    (fun hin => hbehind ((h.behindCycle_iff hid).2 hin))
  have hfeeds : (graph.sources node.id).map values = (other.sources node.id).map values' := by
    rw [← h.sources node.id hid]
    exact List.map_congr_left hsources
  rw [← h.input, ← hfeeds, heval] at heval'
  cases heval'
  rw [hresult, hresult']

/-- The nodes of the region that come up: by induction along the order of one of the graphs, which
is the order of the other one only by chance. -/
theorem ordered (h : graph.AgreesOn other region) (hids : graph.ids.Nodup)
    (hvalues : IsInference catalogue graph values)
    (hvalues' : IsInference catalogue other values') {before after : List Node}
    (hsplit : graph.ordered = before ++ after) :
    ∀ node ∈ before, node.id ∈ region → values node.id = values' node.id := by
  induction before using List.reverseRecOn generalizing after with
  | nil => simp
  | append_singleton before last ih =>
    intro node hin hid
    rw [List.append_assoc, List.singleton_append] at hsplit
    rcases List.mem_append.1 hin with hold | hlast
    · exact ih hsplit node hold hid
    · obtain rfl := List.mem_singleton.1 hlast
      obtain ⟨hnode, hc⟩ := (mem_ordered hids).1 (by simp [hsplit] : node ∈ graph.ordered)
      rw [mem_cyclic_iff_behindCycle hids] at hc
      refine h.evaluated hvalues hvalues' hid hnode hc fun source hsource => ?_
      rcases h.closed node.id hid source hsource with hs | ⟨hout, hout'⟩
      · by_cases hd : source ∈ graph.ids
        · obtain ⟨earlier, hearlier, rfl⟩ :=
            List.mem_map.1 (source_mem_of_ordered hids hsplit hsource hd)
          exact ih hsplit earlier hearlier hs
        · have hd' : source ∉ other.ids := fun hin => hd (h.symm.declared hs hin)
          rw [hvalues.undeclared source hd, hvalues'.undeclared source hd']
      · rw [hvalues.undeclared source hout, hvalues'.undeclared source hout']

theorem results (h : graph.AgreesOn other region) (hids : graph.ids.Nodup)
    (hvalues : IsInference catalogue graph values)
    (hvalues' : IsInference catalogue other values') {id : String} (hid : id ∈ region) :
    values id = values' id := by
  by_cases hd : id ∈ graph.ids
  · by_cases hc : graph.BehindCycle id
    · rw [hvalues.behindCycle id hc, hvalues'.behindCycle id (h.behindCycle hid hc)]
    · obtain ⟨node, hnode, rfl⟩ := List.mem_map.1 hd
      refine h.ordered hids hvalues hvalues' (List.append_nil _).symm node ?_ hid
      rw [mem_ordered hids, mem_cyclic_iff_behindCycle hids]
      exact ⟨hnode, hc⟩
  · have hd' : id ∉ other.ids := fun hin => hd (h.symm.declared hid hin)
    rw [hvalues.undeclared id hd, hvalues'.undeclared id hd']

end AgreesOn

theorem infer_isInference {catalogue : Catalogue} {graph : Graph} {context : Context}
    (hids : graph.ids.Nodup) (h : graph.infer catalogue = .ok context) :
    (context.results.map (·.1)).Perm graph.ids ∧
      IsInference catalogue graph context.results.get? := by
  obtain ⟨progress, hrun, rfl⟩ := infer_eq_ok.1 h
  have hsettled := Settled.run hids (List.append_nil _).symm hrun
  exact ⟨hsettled.keys_perm hids, hsettled.isInference hids⟩

/-- Failures stay local: what inference says of a region follows from the region. -/
theorem infer_agreesOn {catalogue : Catalogue} {graph other : Graph} {region : Set String}
    {context context' : Context} (hids : graph.ids.Nodup) (hids' : other.ids.Nodup)
    (hagrees : graph.AgreesOn other region) (h : graph.infer catalogue = .ok context)
    (h' : other.infer catalogue = .ok context') :
    ∀ id ∈ region, id ∈ graph.ids → ∃ result,
      context.results.get? id = some result ∧ context'.results.get? id = some result := by
  intro id hid hd
  obtain ⟨hperm, hvalues⟩ := infer_isInference hids h
  obtain ⟨-, hvalues'⟩ := infer_isInference hids' h'
  have heq := hagrees.results hids hvalues hvalues' hid
  cases hresult : context.results.get? id with
  | none => exact absurd (hperm.mem_iff.2 hd) ((Table.get?_eq_none_iff _ _).1 hresult)
  | some result => exact ⟨result, rfl, by rw [← heq, hresult]⟩

def calm : Graph where
  nodes := [⟨"in", "Input", "", []⟩, ⟨"sum", "Add", "", []⟩, ⟨"loop", "ReLU", "", []⟩]
  edges := [⟨"1", "in", "sum", none⟩, ⟨"2", "nowhere", "sum", none⟩, ⟨"3", "loop", "loop", none⟩]

/-- The same nodes declared the other way round, among others that fail on them and on a cycle. -/
def stormy : Graph where
  nodes := [⟨"a", "Dropout", "", []⟩, ⟨"loop", "ReLU", "", []⟩, ⟨"b", "Mystery", "", []⟩,
    ⟨"sum", "Add", "", []⟩, ⟨"c", "Conv2d", "", []⟩, ⟨"in", "Input", "", []⟩]
  edges := [⟨"1", "in", "c", none⟩, ⟨"2", "in", "sum", none⟩, ⟨"3", "a", "b", none⟩,
    ⟨"4", "b", "a", none⟩, ⟨"5", "loop", "a", none⟩, ⟨"6", "loop", "loop", none⟩,
    ⟨"7", "nowhere", "sum", none⟩]

theorem calm_agreesOn : calm.AgreesOn stormy {"in", "sum", "loop"} where
  input := rfl
  nodes := by
    intro node hnode
    obtain ⟨id, kind, label, params⟩ := node
    rcases hnode with rfl | rfl | rfl <;> simp [calm, stormy]
  sources := by
    intro id hid
    rcases hid with rfl | rfl | rfl <;> decide
  closed := by
    intro id hid source hsource
    rcases hid with rfl | rfl | rfl
    · simp [sources, incoming, calm] at hsource
    · have hcases : source = "in" ∨ source = "nowhere" := by
        simpa [sources, incoming, calm] using hsource
      rcases hcases with rfl | rfl
      · exact .inl (.inl rfl)
      · exact .inr ⟨by decide, by decide⟩
    · have hloop : source = "loop" := by simpa [sources, incoming, calm] using hsource
      exact .inl (.inr (.inr hloop))

theorem calm_stormy : calm.ids.Nodup ∧ stormy.ids.Nodup ∧ ∃ context context',
    calm.infer Catalogue.standard = .ok context ∧ stormy.infer Catalogue.standard = .ok context' ∧
      stormy.ordered.map (·.id) = ["in", "c", "sum"] ∧
      ∀ id ∈ ["in", "sum", "loop"], ∃ result,
        context.results.get? id = some result ∧ context'.results.get? id = some result := by
  have hids : calm.ids.Nodup := by decide
  have hids' : stormy.ids.Nodup := by decide
  cases h : calm.infer Catalogue.standard with
  | error _ =>
    have hok : (calm.infer Catalogue.standard).toOption.isSome := by decide +kernel
    simp [h, Except.toOption] at hok
  | ok context =>
    cases h' : stormy.infer Catalogue.standard with
    | error _ =>
      have hok : (stormy.infer Catalogue.standard).toOption.isSome := by decide +kernel
      simp [h', Except.toOption] at hok
    | ok context' =>
      refine ⟨hids, hids', context, context', rfl, rfl, by decide +kernel, fun id hid => ?_⟩
      have hregion : id ∈ ({"in", "sum", "loop"} : Set String) := by simpa using hid
      have hd : id ∈ calm.ids := by
        rcases hregion with rfl | rfl | rfl <;> decide
      exact infer_agreesOn hids hids' calm_agreesOn h h' id hregion hd

end LayerGraph.Graph
