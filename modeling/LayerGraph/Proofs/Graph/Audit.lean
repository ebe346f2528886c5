import LayerGraph.Graph.Audit
import LayerGraph.Proofs.Graph.Visits
import Mathlib.Data.Finset.Card
import Mathlib.Data.List.Perm.Basic
set_option autoImplicit false

namespace LayerGraph

namespace Graph

def ends (graph : Graph) : List (Edge × String) :=
  graph.edges.flatMap fun e => [(e, e.source), (e, e.target)]

def joints (edges : List Edge) : List (String × String) := edges.map fun e => (e.source, e.target)

/-- The rules whose breach is an error: a graph has inputs and outputs, and its edges end in nodes. -/
structure IsComplete (graph : Graph) : Prop where
  input : ∃ node ∈ graph.nodes, node.kind = inputKind
  output : ∃ node ∈ graph.nodes, node.kind = outputKind
  edges : ∀ e ∈ graph.edges, e.source ∈ graph.ids ∧ e.target ∈ graph.ids

/-- Nothing that the graph computes depends on the node. -/
def Unread (graph : Graph) (node : Node) : Prop :=
  node.kind ≠ inputKind ∧ ∀ e ∈ graph.edges, e.source ≠ node.id

instance (graph : Graph) (node : Node) : Decidable (graph.Unread node) :=
  inferInstanceAs (Decidable (_ ∧ _))

theorem danglingEnds_eq (graph : Graph) :
    graph.danglingEnds = (graph.ends.filter fun (_, id) => id ∉ graph.ids).map
      fun (e, id) => .unknownNode e.id id := by
  rw [danglingEnds, ends, List.filter_flatMap, List.map_flatMap]
  refine List.flatMap_congr fun e _ => ?_
  have hends : [(e, e.source), (e, e.target)] = [e.source, e.target].map (Prod.mk e) := rfl
  have hloose : ∀ id, (!graph.declares id) = decide (id ∉ graph.ids) := fun id => by
    simp [← declares_iff]
  rw [hends, List.filter_map, List.map_map, funext hloose]
  rfl

theorem danglingEnds_eq_nil_iff (graph : Graph) :
    graph.danglingEnds = [] ↔ ∀ e ∈ graph.edges, e.source ∈ graph.ids ∧ e.target ∈ graph.ids := by
  rw [danglingEnds, List.flatMap_eq_nil_iff]
  refine forall₂_congr fun e _ => ?_
  simp [List.filter_eq_nil_iff, ← declares_iff]

theorem missingKinds_eq_nil_iff (graph : Graph) :
    graph.missingKinds = [] ↔ (∃ node ∈ graph.nodes, node.kind = inputKind) ∧
      ∃ node ∈ graph.nodes, node.kind = outputKind := by
  simp [missingKinds]

theorem unreadNodes_eq (graph : Graph) :
    graph.unreadNodes = (graph.nodes.filter fun node => graph.Unread node).map .unread := by
  have hunread : ∀ node : Node, (node.kind != inputKind && !graph.edges.any (·.source == node.id)) =
      decide (graph.Unread node) := fun node => by
    rw [Bool.eq_iff_iff, decide_eq_true_eq]
    simp [Unread]
  rw [unreadNodes, funext hunread]

theorem exists_of_mem_repeats {seen : List (String × String)} {edges : List Edge} {flaw : Flaw}
    (h : flaw ∈ repeats seen edges) : ∃ source target, flaw = .repeatedEdge source target := by
  induction edges generalizing seen with
  | nil => cases h
  | cons e edges ih =>
    rw [repeats] at h
    split at h
    · rcases List.mem_cons.1 h with rfl | hrest
      · exact ⟨_, _, rfl⟩
      · exact ih hrest
    · exact ih h

/-- All edges between two ends are repeated, but for the first one where none was seen before. -/
theorem count_repeats (seen : List (String × String)) (edges : List Edge) (source target : String) :
    (repeats seen edges).count (.repeatedEdge source target) =
      (joints edges).count (source, target) - if (source, target) ∈ seen then 0 else 1 := by
  induction edges generalizing seen with
  | nil => simp [repeats, joints]
  | cons e edges ih =>
    have hjoints : joints (e :: edges) = (e.source, e.target) :: joints edges := rfl
    rw [hjoints, repeats]
    by_cases hsame : (e.source, e.target) = (source, target)
    · obtain ⟨rfl, rfl⟩ := Prod.mk.inj hsame
      rw [List.count_cons_self]
      by_cases hseen : (e.source, e.target) ∈ seen
      · rw [if_pos hseen, List.count_cons_self, ih, if_pos hseen]
        omega
      · rw [if_neg hseen, ih, if_pos List.mem_cons_self, if_neg hseen]
        omega
    · rw [List.count_cons_of_ne hsame]
      have hother : Flaw.repeatedEdge e.source e.target ≠ .repeatedEdge source target := fun heq =>
        hsame (by rw [(Flaw.repeatedEdge.inj heq).1, (Flaw.repeatedEdge.inj heq).2])
      by_cases hseen : (e.source, e.target) ∈ seen
      · rw [if_pos hseen, List.count_cons_of_ne hother, ih]
      · rw [if_neg hseen, ih]
        simp [Ne.symm hsame]

theorem length_repeats (seen : List (String × String)) (edges : List Edge) :
    (repeats seen edges).length + (seen.toFinset ∪ (joints edges).toFinset).card =
      edges.length + seen.toFinset.card := by
  induction edges generalizing seen with
  | nil => simp [repeats, joints]
  | cons e edges ih =>
    have hjoints : (joints (e :: edges)).toFinset =
        insert (e.source, e.target) (joints edges).toFinset := List.toFinset_cons
    rw [hjoints, Finset.union_insert, ← Finset.insert_union, repeats, List.length_cons]
    by_cases hseen : (e.source, e.target) ∈ seen
    · rw [if_pos hseen, List.length_cons, Finset.insert_eq_of_mem (List.mem_toFinset.2 hseen)]
      have hrest := ih seen
      omega
    · have hrest := ih ((e.source, e.target) :: seen)
      rw [List.toFinset_cons, Finset.card_insert_of_notMem (mt List.mem_toFinset.1 hseen)] at hrest
      rw [if_neg hseen]
      omega

theorem repeats_perm {edges others : List Edge} (h : others.Perm edges) :
    (repeats [] others).Perm (repeats [] edges) := by
  rw [List.perm_iff_count]
  intro flaw
  cases flaw with
  | repeatedEdge source target => rw [count_repeats, count_repeats, joints, (h.map _).count_eq, joints]
  | noInput | noOutput | unknownNode | unread =>
    rw [List.count_eq_zero_of_not_mem, List.count_eq_zero_of_not_mem] <;>
      exact fun hin => by obtain ⟨_, _, heq⟩ := exists_of_mem_repeats hin; cases heq

/-- What a report says of the parts of a graph. Errors stand first; a warning that names a node is of
one that nothing reads, and one that names none is of a repeated edge. -/
structure IsReport (graph : Graph) (issues : List Issue) : Prop where
  clean : (∀ issue ∈ issues, issue.severity ≠ .error) ↔ graph.IsComplete
  errors : issues.filter (·.severity = .error) =
    graph.missingKinds.map (·.issue) ++ (graph.ends.filter fun (_, id) => id ∉ graph.ids).map
      fun (e, id) => (Flaw.unknownNode e.id id).issue
  unread : issues.filter (·.node.isSome) =
    (graph.nodes.filter fun node => graph.Unread node).map fun node => (Flaw.unread node).issue
  repeated : (issues.filter fun issue => issue.severity = .warning ∧ issue.node = none).length +
    (joints graph.edges).toFinset.card = graph.edges.length

section Blocks

variable {graph : Graph} {flaw : Flaw}

theorem missing_issue (h : flaw ∈ graph.missingKinds ++ graph.danglingEnds) :
    flaw.issue.severity = .error ∧ flaw.issue.node = none := by
  rcases List.mem_append.1 h with hmissing | hdangling
  · have hkind : flaw = .noInput ∨ flaw = .noOutput := by
      rw [missingKinds, List.mem_append] at hmissing
      refine hmissing.imp (fun hin => ?_) fun hin => ?_ <;> split at hin <;> simp_all
    rcases hkind with rfl | rfl <;> exact ⟨rfl, rfl⟩
  · rw [danglingEnds_eq] at hdangling
    obtain ⟨end_, -, rfl⟩ := List.mem_map.1 hdangling
    exact ⟨rfl, rfl⟩

theorem unread_issue (h : flaw ∈ graph.unreadNodes) :
    flaw.issue.severity = .warning ∧ flaw.issue.node.isSome := by
  obtain ⟨node, -, rfl⟩ := List.mem_map.1 h
  exact ⟨rfl, rfl⟩

theorem repeated_issue (h : flaw ∈ repeats [] graph.edges) :
    flaw.issue.severity = .warning ∧ flaw.issue.node = none := by
  obtain ⟨source, target, rfl⟩ := exists_of_mem_repeats h
  exact ⟨rfl, rfl⟩

end Blocks

theorem filter_issues (graph : Graph) (p : Issue → Bool) :
    graph.issues.filter p =
      ((graph.missingKinds ++ graph.danglingEnds).filter (p ·.issue)).map (·.issue) ++
        (graph.unreadNodes.filter (p ·.issue)).map (·.issue) ++
        ((repeats [] graph.edges).filter (p ·.issue)).map (·.issue) := by
  simp only [issues, flaws, List.filter_map, List.filter_append, List.map_append]
  rfl

theorem isReport_issues (graph : Graph) : graph.IsReport graph.issues := by
  have herrors : graph.issues.filter (·.severity = .error) =
      (graph.missingKinds ++ graph.danglingEnds).map (·.issue) := by
    rw [filter_issues, List.filter_eq_self.2, List.filter_eq_nil_iff.2, List.filter_eq_nil_iff.2]
    · simp
    · intro flaw hin
      simp [(repeated_issue hin).1]
    · intro flaw hin
      simp [(unread_issue hin).1]
    · intro flaw hin
      simp [(missing_issue hin).1]
  have hunread : graph.issues.filter (·.node.isSome) = graph.unreadNodes.map (·.issue) := by
    rw [filter_issues, List.filter_eq_nil_iff.2, List.filter_eq_self.2, List.filter_eq_nil_iff.2]
    · simp
    · intro flaw hin
      simp [(repeated_issue hin).2]
    · intro flaw hin
      exact (unread_issue hin).2
    · intro flaw hin
      simp [(missing_issue hin).2]
  have hrepeated : graph.issues.filter (fun issue => issue.severity = .warning ∧ issue.node = none) =
      (repeats [] graph.edges).map (·.issue) := by
    rw [filter_issues, List.filter_eq_nil_iff.2, List.filter_eq_nil_iff.2, List.filter_eq_self.2]
    · simp
    · intro flaw hin
      simp [repeated_issue hin]
    · intro flaw hin
      simp [Option.isSome_iff_ne_none.1 (unread_issue hin).2]
    · intro flaw hin
      simp [(missing_issue hin).1]
  refine ⟨?_, ?_, ?_, ?_⟩
  · have hnone : (∀ issue ∈ graph.issues, issue.severity ≠ .error) ↔
        graph.missingKinds ++ graph.danglingEnds = [] := by
      rw [← List.map_eq_nil_iff (f := Flaw.issue), ← herrors, List.filter_eq_nil_iff]
      simp
    rw [hnone, List.append_eq_nil_iff, missingKinds_eq_nil_iff, danglingEnds_eq_nil_iff]
    exact ⟨fun h => ⟨h.1.1, h.1.2, h.2⟩, fun h => ⟨⟨h.input, h.output⟩, h.edges⟩⟩
  · rw [herrors, List.map_append, danglingEnds_eq, List.map_map]
    rfl
  · rw [hunread, unreadNodes_eq, List.map_map]
    rfl
  · have hlength := length_repeats [] graph.edges
    rw [hrepeated, List.length_map]
    simpa using hlength

theorem flaws_perm {graph other : Graph} (hnodes : other.nodes.Perm graph.nodes)
    (hedges : other.edges.Perm graph.edges) : other.flaws.Perm graph.flaws := by
  have hids : ∀ id, id ∈ other.ids ↔ id ∈ graph.ids := fun id => (hnodes.map _).mem_iff
  have hmissing : other.missingKinds = graph.missingKinds := by
    rw [missingKinds, missingKinds, hnodes.any_eq, hnodes.any_eq]
  have hends : other.danglingEnds.Perm graph.danglingEnds := by
    simp only [danglingEnds_eq, hids]
    exact ((hedges.flatMap_right _).filter _).map _
  have hunread : other.unreadNodes.Perm graph.unreadNodes := by
    have hsame : ∀ node, other.Unread node ↔ graph.Unread node := fun node => by
      simp only [Unread, hedges.mem_iff]
    simp only [unreadNodes_eq, hsame]
    exact (hnodes.filter _).map _
  rw [flaws, flaws, hmissing]
  exact ((hends.append_left _).append hunread).append (repeats_perm hedges)

theorem count_repeatedEdge (graph : Graph) (source target : String) :
    graph.flaws.count (.repeatedEdge source target) =
      (joints graph.edges).count (source, target) - 1 := by
  have hfirst : Flaw.repeatedEdge source target ∉ graph.missingKinds ++ graph.danglingEnds :=
    fun hin => by cases (missing_issue hin).1
  have hunread : Flaw.repeatedEdge source target ∉ graph.unreadNodes :=
    fun hin => by cases (unread_issue hin).2
  rw [flaws, List.count_append, List.count_append, List.count_eq_zero_of_not_mem hfirst,
    List.count_eq_zero_of_not_mem hunread, count_repeats]
  simp

/-- The report of a graph says all that its errors, its unread nodes and its repeated edges are,
with each edge between two ends repeated but one. In another order of nodes and edges the graph has
the same report in another order. -/
theorem issues_report (graph : Graph) :
    graph.IsReport graph.issues ∧
    (∀ source target, graph.flaws.count (.repeatedEdge source target) =
      (joints graph.edges).count (source, target) - 1) ∧
    ∀ other : Graph, other.nodes.Perm graph.nodes → other.edges.Perm graph.edges →
      other.issues.Perm graph.issues :=
  ⟨isReport_issues graph, count_repeatedEdge graph,
    fun _ hnodes hedges => (flaws_perm hnodes hedges).map _⟩

/-- An id that is declared twice, three edges between the same ends, an edge from a node to itself,
and one whose ends are both unknown. -/
def thicket : Graph where
  nodes := [⟨"in", "Input", "", []⟩, ⟨"a", "ReLU", "", []⟩, ⟨"b", "Add", "sum", []⟩,
    ⟨"b", "Tanh", "", []⟩]
  edges := [⟨"1", "in", "a", none⟩, ⟨"2", "a", "b", none⟩, ⟨"3", "a", "b", some "left"⟩,
    ⟨"4", "a", "a", none⟩, ⟨"5", "ghost", "ghost", none⟩, ⟨"2", "a", "b", none⟩]

def turned (graph : Graph) : Graph :=
  { graph with nodes := graph.nodes.reverse, edges := graph.edges.reverse }

theorem thicket_report :
    thicket.issues = [⟨.error, "Graph needs at least one Output node", none⟩,
      ⟨.error, "Edge 5 references unknown node: ghost", none⟩,
      ⟨.error, "Edge 5 references unknown node: ghost", none⟩,
      ⟨.warning, "sum is not connected to any downstream node", some "b"⟩,
      ⟨.warning, "b is not connected to any downstream node", some "b"⟩,
      ⟨.warning, "Multiple edges detected between a and b", none⟩,
      ⟨.warning, "Multiple edges detected between a and b", none⟩] ∧
    ¬thicket.IsComplete ∧ (joints thicket.edges).toFinset.card = 4 ∧
    thicket.turned.issues.Perm thicket.issues := by
  obtain ⟨hreport, -, hperm⟩ := issues_report thicket
  have hissues : thicket.issues = [⟨.error, "Graph needs at least one Output node", none⟩,
      ⟨.error, "Edge 5 references unknown node: ghost", none⟩,
      ⟨.error, "Edge 5 references unknown node: ghost", none⟩,
      ⟨.warning, "sum is not connected to any downstream node", some "b"⟩,
      ⟨.warning, "b is not connected to any downstream node", some "b"⟩,
      ⟨.warning, "Multiple edges detected between a and b", none⟩,
      ⟨.warning, "Multiple edges detected between a and b", none⟩] := by decide +kernel
  refine ⟨hissues, fun hcomplete => ?_, ?_,
    hperm thicket.turned (List.reverse_perm _) (List.reverse_perm _)⟩
  · refine hreport.clean.2 hcomplete ⟨.error, "Graph needs at least one Output node", none⟩ ?_ rfl
    rw [hissues]
    exact List.mem_cons_self
  · have hlength := hreport.repeated
    rw [hissues] at hlength
    exact Nat.add_left_cancel hlength

end Graph

end LayerGraph
