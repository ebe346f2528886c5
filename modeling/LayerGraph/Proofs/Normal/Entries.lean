import LayerGraph.Proofs.Graph.Audit
import LayerGraph.Proofs.Normal.Troubles
set_option autoImplicit false

namespace LayerGraph

namespace Value

theorem literalChars_ne_nil (v : Value) : v.literalChars ≠ [] := by
  cases v with
  | null => decide
  | bool b => cases b <;> decide
  | int n =>
    rw [literalChars, Text.decimalChars]
    split
    · exact List.cons_ne_nil _ _
    · exact Nat.toDigits_ne_nil
  | float x =>
    obtain ⟨c, -, hc⟩ := Layout.literal_mark x
    exact List.ne_nil_of_mem hc
  | str s =>
    rw [literalChars, Text.quotedChars]
    exact List.cons_ne_nil _ _
  | list items => exact List.cons_ne_nil _ _
  | object fields => exact List.cons_ne_nil _ _

theorem display_ne_empty {v : Value} (hset : v.truthy = true) {text : String}
    (h : v.display = .ok text) : text ≠ "" := by
  cases v with
  | str s =>
    obtain rfl := Except.ok.inj h
    simpa [truthy] using hset
  | null | bool _ | int _ | float _ | list _ | object _ =>
    rw [display, write] at h
    · split at h
      · obtain rfl := Except.ok.inj h
        rw [literal, Ne, String.ofList_eq_empty_iff]
        exact literalChars_ne_nil _
      · cases h
    · simp

end Value

namespace Import

def objects : Value → List Fields
  | .list items => items.filterMap fun | .object fields => some fields | _ => none
  | _ => []

def isNode (entry : Fields) : Bool := entry.has "id"

def isEnd (ids : List String) (v : Value) : Bool := v != .null && v.display.toOption.any ids.contains

def isEdge (ids : List String) (entry : Fields) : Bool :=
  isEnd ids (sourceGiven entry) && isEnd ids (targetGiven entry)

/-- The node of an entry has the id of the entry, as a text, and is the normal form of what else the
entry says. -/
structure NodeOf (entry : Fields) (node : Node) : Prop where
  id : ∃ v, entry.get? "id" = some v ∧ v.display = .ok node.id
  normal : ∃ kind label, (kindGiven entry).display = .ok kind ∧
    (labelGiven entry).display = .ok label ∧
    Node.normalize Catalogue.standard ⟨node.id, kind, label, paramsOf entry⟩ = .ok node

/-- The edge of an entry has the ends and the id of the entry, as texts, and its slot. -/
structure EdgeOf (entry : Fields) (e : Edge) : Prop where
  source : (sourceGiven entry).display = .ok e.source
  target : (targetGiven entry).display = .ok e.target
  id : (edgeIdGiven entry e.source e.target).display = .ok e.id
  slot : slotGiven entry = .ofOption .str e.slot

theorem eq_objects_of_entries {v : Value} {listed : List Fields} (h : entries v = .ok listed) :
    listed = objects v := by
  cases v with
  | null | str _ | list _ | object _ => exact (Except.ok.inj h).symm
  | bool _ | int _ | float _ =>
    rw [entries] at h
    · split at h
      · cases h
      · exact (Except.ok.inj h).symm
    all_goals simp

theorem isNode_of_node? {entry : Fields} {first : Option Node}
    (h : node? Catalogue.standard entry = .ok first) : isNode entry = first.isSome := by
  rw [node?] at h
  rw [Bool.eq_iff_iff, isNode, Table.has_iff, ← not_iff_not, ← Table.get?_eq_none_iff]
  split at h
  · rename_i hid
    cases h
    simp [hid]
  · rename_i v hid
    simp only [bind_eq_ok, pure, Except.pure, Except.ok.injEq] at h
    obtain ⟨_, -, _, -, _, -, node, -, rfl⟩ := h
    simp [hid]

theorem nodeOf_of_node? {entry : Fields} {node : Node}
    (h : node? Catalogue.standard entry = .ok (some node)) : NodeOf entry node := by
  rw [node?] at h
  split at h
  · cases h
  · rename_i v hid
    simp only [bind_eq_ok, pure, Except.pure, Except.ok.injEq, Option.some.injEq] at h
    obtain ⟨id, hshown, kind, hkind, label, hlabel, normal, hnormal, rfl⟩ := h
    have hsame : normal.id = id := (Node.normalize_eq_ok.1 hnormal).1
    refine ⟨⟨v, hid, ?_⟩, kind, label, hkind, hlabel, ?_⟩
    · rw [hsame, hshown]
    · rw [hsame, hnormal]

theorem isEnd_iff {ids : List String} {v : Value} :
    isEnd ids v = true ↔ v ≠ .null ∧ ∃ id, v.display = .ok id ∧ id ∈ ids := by
  rw [isEnd, Bool.and_eq_true, bne_iff_ne]
  refine and_congr_right fun _ => ?_
  cases v.display with
  | error fault => simp [Except.toOption]
  | ok id => simp [Except.toOption]

theorem isEdge_iff {ids : List String} {entry : Fields} :
    isEdge ids entry = true ↔ ∃ source target, Joins ids entry source target := by
  rw [isEdge, Bool.and_eq_true, isEnd_iff, isEnd_iff]
  constructor
  · rintro ⟨⟨hset, source, hsource, hin⟩, hset', target, htarget, hin'⟩
    exact ⟨source, target, ⟨hset, hset'⟩, hsource, htarget, hin, hin'⟩
  · rintro ⟨source, target, hjoins⟩
    exact ⟨⟨hjoins.set.1, source, hjoins.start, hjoins.known.1⟩,
      hjoins.set.2, target, hjoins.stop, hjoins.known.2⟩

theorem slotGiven_of_slotOf {entry : Fields} {slot : Option String} (h : slotOf entry = .ok slot) :
    slotGiven entry = .ofOption .str slot := by
  rw [slotOf, ← slotGiven] at h
  cases hgiven : slotGiven entry with
  | null =>
    rw [hgiven] at h
    cases h
    rfl
  | str s =>
    rw [hgiven] at h
    cases h
    rfl
  | bool _ | int _ | float _ | list _ | object _ =>
    rw [hgiven] at h
    cases h

/-- An entry is read as an edge if both its ends are known, and as nothing otherwise. -/
theorem edgeOf_of_edge? {ids : List String} {entry : Fields} {first : Option Edge}
    (h : edge? ids entry = .ok first) :
    isEdge ids entry = first.isSome ∧ ∀ e, first = some e → EdgeOf entry e := by
  by_cases hset : sourceGiven entry ≠ .null ∧ targetGiven entry ≠ .null
  · rw [edge?_of_set ids hset] at h
    simp only [bind_eq_ok, mapError_eq_ok] at h
    obtain ⟨source, hsource, target, htarget, h⟩ := h
    split at h
    · rename_i hknown
      have hjoins : Joins ids entry source target := ⟨hset, hsource, htarget, by simpa using hknown⟩
      simp only [bind_eq_ok, mapError_eq_ok, pure, Except.pure, Except.ok.injEq] at h
      obtain ⟨id, hid, slot, hslot, rfl⟩ := h
      refine ⟨isEdge_iff.2 ⟨source, target, hjoins⟩, fun e he => ?_⟩
      cases he
      exact ⟨hsource, htarget, hid, slotGiven_of_slotOf hslot⟩
    · rename_i hunknown
      cases h
      refine ⟨?_, fun e he => by cases he⟩
      rw [Option.isSome_none, ← Bool.not_eq_true, isEdge_iff]
      rintro ⟨source', target', hjoins⟩
      obtain rfl := Except.ok.inj (hsource.symm.trans hjoins.start)
      obtain rfl := Except.ok.inj (htarget.symm.trans hjoins.stop)
      exact hunknown (by simpa using hjoins.known)
  · rw [edge?_of_unset ids hset] at h
    cases h
    refine ⟨?_, fun e he => by cases he⟩
    rw [Option.isSome_none, ← Bool.not_eq_true, isEdge_iff]
    rintro ⟨source, target, hjoins⟩
    exact hset hjoins.set

/-- An edge has an id that is not empty: the one that is set, or one made of its ends. -/
theorem EdgeOf.id_ne_empty {entry : Fields} {e : Edge} (h : EdgeOf entry e) : e.id ≠ "" := by
  refine Value.display_ne_empty ?_ h.id
  rw [edgeIdGiven, Value.orElse]
  split
  · assumption
  · simp [Value.truthy]

end Import

namespace Graph

theorem unknownNode_mem_flaws_iff {graph : Graph} {edge id : String} :
    Flaw.unknownNode edge id ∈ graph.flaws ↔
      ∃ e ∈ graph.edges, e.id = edge ∧ (id = e.source ∨ id = e.target) ∧ id ∉ graph.ids := by
  have hmissing : Flaw.unknownNode edge id ∉ graph.missingKinds := by
    rw [missingKinds]
    split <;> split <;> simp
  have hunread : Flaw.unknownNode edge id ∉ graph.unreadNodes := by simp [unreadNodes]
  have hrepeats : Flaw.unknownNode edge id ∉ repeats [] graph.edges := fun hin => by
    obtain ⟨source, target, heq⟩ := exists_of_mem_repeats hin
    cases heq
  have hdangling : Flaw.unknownNode edge id ∈ graph.flaws ↔
      Flaw.unknownNode edge id ∈ graph.danglingEnds := by
    simp [flaws, hmissing, hunread, hrepeats]
  rw [hdangling, danglingEnds, List.mem_flatMap]
  refine exists_congr fun e => and_congr_right fun _ => ?_
  simp only [List.mem_map, List.mem_filter, List.mem_cons, List.not_mem_nil, or_false,
    Bool.not_eq_true', declares_eq_false_iff, Flaw.unknownNode.injEq]
  constructor
  · rintro ⟨_, hend, rfl, rfl⟩
    exact ⟨rfl, hend⟩
  · rintro ⟨rfl, hend⟩
    exact ⟨id, hend, rfl, rfl⟩

/-- The nodes of a graph that is read from a document are those of the objects with an id, and its
edges those of the objects that join two of these, one for each and in their order. Each edge has an
id, and none leads to an unknown node. -/
theorem ofDocument_entries {document : Value} {graph : Graph}
    (h : Graph.ofDocument Catalogue.standard document = .ok graph) :
    ∃ fields, document = .object fields ∧
      List.Forall₂ Import.NodeOf ((Import.objects (Fields.get fields "nodes")).filter Import.isNode)
        graph.nodes ∧
      List.Forall₂ Import.EdgeOf
        ((Import.objects (Fields.get fields "edges")).filter (Import.isEdge graph.ids))
        graph.edges ∧
      (∀ e ∈ graph.edges, e.id ≠ "") ∧
      ∀ edge id, Flaw.unknownNode edge id ∉ graph.flaws := by
  cases document with
  | object fields =>
    obtain ⟨nodeEntries, edgeEntries, hnodeEntries, hedgeEntries, hnodes, hedges⟩ :=
      Import.graph_entries h
    obtain rfl := Import.eq_objects_of_entries hnodeEntries
    obtain rfl := Import.eq_objects_of_entries hedgeEntries
    have hedgesOf := (Import.forall₂_of_read (Import.edge? graph.ids) (Import.edges graph.ids) rfl
      (fun _ _ => rfl) (Import.isEdge graph.ids)
      (fun _ _ hread => (Import.edgeOf_of_edge? hread).1) hedges).imp
      fun _ _ hread => (Import.edgeOf_of_edge? hread).2 _ rfl
    have hnodesOf := (Import.forall₂_of_read (Import.node? Catalogue.standard)
      (Import.nodes Catalogue.standard) rfl (fun _ _ => rfl) Import.isNode
      (fun _ _ hread => Import.isNode_of_node? hread) hnodes).imp
      fun _ _ hread => Import.nodeOf_of_node? hread
    refine ⟨fields, rfl, hnodesOf, hedgesOf, fun e he => ?_, fun edge id hreported => ?_⟩
    · obtain ⟨entry, -, hof⟩ := exists_of_forall₂ hedgesOf he
      exact hof.id_ne_empty
    · obtain ⟨e, he, -, hend, hundeclared⟩ := unknownNode_mem_flaws_iff.1 hreported
      obtain ⟨entry, -, hread⟩ := Import.exists_of_edges hedges he
      obtain ⟨hsource, htarget⟩ := Import.edge?_eq_ok hread
      rcases hend with rfl | rfl
      · exact hundeclared hsource
      · exact hundeclared htarget
  | null | bool _ | int _ | float _ | str _ | list _ => cases h

/-- A document with entries that are no objects, a node without an id, ids that are a number and
null, an edge that spells its ends in other words and has no id, one whose source is null, and one to
an unknown node. -/
def mingled : Fields :=
  [("nodes", .list [.object [("id", .int 7), ("type", .str "Input")], .null,
      .object [("kind", .str "ReLU")], .object [("kind", .str "Output"), ("id", .null)]]),
    ("edges", .list [.str "7", .object [("to", .str "None"), ("from", .int 7)],
      .object [("source", .null), ("from", .int 7), ("to", .str "None")],
      .object [("source", .int 7), ("target", .str "8")]])]

theorem mingled_entries :
    ∃ graph, Graph.ofDocument Catalogue.standard (.object mingled) = .ok graph ∧
      graph.ids = ["7", "None"] ∧ graph.edges = [⟨"e-7-None", "7", "None", none⟩] ∧
      List.Forall₂ Import.NodeOf ((Import.objects (mingled.get "nodes")).filter Import.isNode)
        graph.nodes ∧
      List.Forall₂ Import.EdgeOf
        ((Import.objects (mingled.get "edges")).filter (Import.isEdge graph.ids)) graph.edges ∧
      ∀ edge id, Flaw.unknownNode edge id ∉ graph.flaws := by
  have hsummary : (Graph.ofDocument Catalogue.standard (.object mingled)).map
      (fun graph => (graph.ids, graph.edges)) =
        .ok (["7", "None"], [⟨"e-7-None", "7", "None", none⟩]) :=
    eq_ok_of_toOption (by decide +kernel)
  obtain ⟨graph, hread, heq⟩ := map_eq_ok.1 hsummary
  obtain ⟨hids, hedges⟩ := Prod.mk.inj heq
  obtain ⟨fields, hfields, hnodesOf, hedgesOf, -, hclosed⟩ := ofDocument_entries hread
  obtain rfl := Value.object.inj hfields
  exact ⟨graph, hread, hids, hedges, hnodesOf, hedgesOf, hclosed⟩

end Graph

end LayerGraph
