import LayerGraph.Proofs.Graph.Clean
import LayerGraph.Proofs.Program.Names
set_option autoImplicit false

namespace LayerGraph

namespace Node

def isInput (node : Node) : Bool := node.kind == Graph.inputKind

def isOutput (node : Node) : Bool := node.kind == Graph.outputKind

def isLayer (node : Node) : Bool := !node.isInput && !node.isOutput

theorem isInput_iff (node : Node) : node.isInput = true ↔ node.kind = "Input" := by
  simp [isInput, Graph.inputKind]

theorem isOutput_iff (node : Node) : node.isOutput = true ↔ node.kind = "Output" := by
  simp [isOutput, Graph.outputKind]

theorem isLayer_iff (node : Node) :
    node.isLayer = true ↔ node.kind ≠ "Input" ∧ node.kind ≠ "Output" := by
  simp [isLayer, isInput, isOutput, Graph.inputKind, Graph.outputKind]

theorem not_of_isInput {node : Node} (h : node.isInput = true) :
    node.isOutput = false ∧ node.isLayer = false := by
  rw [isInput_iff] at h
  simp [isLayer, isInput, isOutput, Graph.inputKind, Graph.outputKind, h]

theorem not_of_isOutput {node : Node} (h : node.isOutput = true) :
    node.isInput = false ∧ node.isLayer = false := by
  rw [isOutput_iff] at h
  simp [isLayer, isInput, isOutput, Graph.inputKind, Graph.outputKind, h]

theorem not_of_isLayer {node : Node} (h : node.isLayer = true) :
    node.isInput = false ∧ node.isOutput = false := by
  simpa [isLayer] using h

end Node

namespace Program

open LayerGraph.Graph

def Model.targets (model : Model) : List String := model.statements.map (·.target)

def Model.bound (model : Model) : List String := model.inputs ++ model.targets

namespace Draft

def start (graph : Graph) (className : String) : Draft :=
  (graph.ordered.filter (·.isInput)).foldl addInput { model := { className } }

def draftAfter (catalogue : Catalogue) (graph : Graph) (className : String) (nodes : List Node) :
    Except Fault Draft :=
  nodes.foldlM (add catalogue graph) (start graph className)

variable {catalogue : Catalogue} {graph : Graph} {className : String}

structure Says (layer : Layer) (node : Node) (name : String) (operands : List String)
    (statement : Statement) : Prop where
  target : statement.target = name
  unpack : statement.unpack = layer.stateful
  sum : node.kind = "Add" → statement.expression = " + ".intercalate operands
  join : node.kind = "Concat" → ∃ dim, ((layer.resolve node.params).get "dim").write = .ok dim ∧
    statement.expression = "torch.cat([" ++ ", ".intercalate operands ++ "], dim=" ++ dim ++ ")"
  call : node.kind ≠ "Add" → node.kind ≠ "Concat" → layer.module.isSome →
    statement.expression = "self." ++ name ++ "(" ++ operands.headD "x" ++ ")"
  pass : node.kind ≠ "Add" → node.kind ≠ "Concat" → layer.module = none →
    statement.expression = operands.headD "x"

/-- What a node is compiled to: what is declared for it, and the expression of its statement. -/
inductive Compiled (layer : Layer) (node : Node) (name : String) (operands : List String) :
    Option Declaration → String → Prop where
  | sum (hadd : node.kind = "Add") :
      Compiled layer node name operands none (" + ".intercalate operands)
  | join (hconcat : node.kind = "Concat") {dim : String}
      (hdim : ((layer.resolve node.params).get "dim").write = .ok dim) :
      Compiled layer node name operands none
        ("torch.cat([" ++ ", ".intercalate operands ++ "], dim=" ++ dim ++ ")")
  | pass (hadd : node.kind ≠ "Add") (hconcat : node.kind ≠ "Concat")
      (hmodule : layer.module = none) :
      Compiled layer node name operands none (operands.headD "x")
  | call (hadd : node.kind ≠ "Add") (hconcat : node.kind ≠ "Concat") {module call : String}
      (hmodule : layer.module = some module) (hcall : moduleCall layer module node = .ok call) :
      Compiled layer node name operands (some ⟨name, call⟩)
        ("self." ++ name ++ "(" ++ operands.headD "x" ++ ")")

section Compiled

variable {layer : Layer} {node : Node} {name expression : String} {operands : List String}
  {declaration : Option Declaration}

theorem compiled_of_compile
    (h : compile layer node name operands = .ok (declaration, expression)) :
    Compiled layer node name operands declaration expression := by
  unfold compile at h
  extract_lets source at h
  by_cases hadd : node.kind = "Add"
  · rw [if_pos hadd] at h
    cases h
    exact .sum hadd
  · rw [if_neg hadd] at h
    by_cases hconcat : node.kind = "Concat"
    · rw [if_pos hconcat, bind_eq_ok] at h
      obtain ⟨dim, hdim, hrest⟩ := h
      cases hrest
      exact .join hconcat hdim
    · rw [if_neg hconcat] at h
      cases hmodule : layer.module with
      | none =>
        simp only [hmodule, Except.ok.injEq, Prod.mk.injEq] at h
        obtain ⟨rfl, rfl⟩ := h
        exact .pass hadd hconcat hmodule
      | some module =>
        simp only [hmodule, bind_eq_ok] at h
        obtain ⟨call, hcall, hrest⟩ := h
        cases hrest
        exact .call hadd hconcat hmodule hcall

theorem compile_statement
    (h : compile layer node name operands = .ok (declaration, expression)) :
    Says layer node name operands ⟨name, expression, layer.stateful⟩ := by
  cases compiled_of_compile h with
  | sum hadd => exact ⟨rfl, rfl, fun _ => rfl, by simp [hadd], by simp [hadd], by simp [hadd]⟩
  | @join hconcat dim hdim =>
    exact ⟨rfl, rfl, by simp [hconcat], fun _ => ⟨dim, hdim, rfl⟩, by simp [hconcat],
      by simp [hconcat]⟩
  | pass hadd hconcat hmodule =>
    exact ⟨rfl, rfl, by simp [hadd], by simp [hconcat], by simp [hmodule], fun _ _ _ => rfl⟩
  | call hadd hconcat hmodule =>
    exact ⟨rfl, rfl, by simp [hadd], by simp [hconcat], fun _ _ _ => rfl, by simp [hmodule]⟩

end Compiled

def grouped : List String → String
  | [] => inputName 0
  | [tensor] => tensor
  | operands => "(" ++ ", ".intercalate operands ++ ")"

theorem addOutput_eq (draft : Draft) (node : Node) (operands : List String) :
    draft.addOutput node operands =
      { draft with
        model := { draft.model with result := draft.model.result ++ [grouped operands] }
        tensors := draft.tensors.put node.id (grouped operands) } := by
  rcases operands with _ | ⟨first, _ | ⟨second, rest⟩⟩ <;> rfl

theorem addLayer_eq_ok {draft next : Draft} {layer : Layer} {node : Node} {operands : List String}
    (h : draft.addLayer layer node operands = .ok next) :
    ∃ statement, Says layer node (nameFor draft.owners node.id).1 operands statement ∧
      next.model.inputs = draft.model.inputs ∧
      next.model.statements = draft.model.statements ++ [statement] ∧
      next.model.result = draft.model.result ∧
      next.tensors = draft.tensors.put node.id statement.target ∧
      next.owners = draft.owners.put statement.target node.id := by
  simp only [addLayer, bind_eq_ok] at h
  obtain ⟨⟨declaration, expression⟩, hcompile, hnext⟩ := h
  cases hnext
  exact ⟨_, compile_statement hcompile, rfl, rfl, rfl, rfl, rfl⟩

theorem add_eq_ok {draft next : Draft} {node : Node}
    (h : add catalogue graph draft node = .ok next) :
    ∃ layer, catalogue.find? node.kind = some layer ∧
      (node.isInput = true ∧ next = draft ∨
        node.isOutput = true ∧ next = draft.addOutput node (draft.operands graph node.id) ∨
        node.isLayer = true ∧
          draft.addLayer layer node (draft.operands graph node.id) = .ok next) := by
  simp only [add, bind_eq_ok, Catalogue.find] at h
  obtain ⟨layer, hfind, hadd⟩ := h
  refine ⟨layer, ?_, ?_⟩
  · split at hfind
    · cases hfind
      assumption
    · cases hfind
  · by_cases hin : node.kind = Graph.inputKind
    · rw [if_pos hin] at hadd
      cases hadd
      exact .inl ⟨by simp [Node.isInput, hin], rfl⟩
    · rw [if_neg hin] at hadd
      by_cases hout : node.kind = Graph.outputKind
      · rw [if_pos hout] at hadd
        cases hadd
        exact .inr (.inl ⟨by simp [Node.isOutput, hout], rfl⟩)
      · rw [if_neg hout] at hadd
        exact .inr (.inr ⟨by simp [Node.isLayer, Node.isInput, Node.isOutput, hin, hout], hadd⟩)

theorem map_get?_put {table : Table String} {key value : String} {nodes : List Node}
    (h : ∀ node ∈ nodes, node.id ≠ key) :
    nodes.map (fun node => (table.put key value).get? node.id) =
      nodes.map (fun node => table.get? node.id) :=
  List.map_congr_left fun node hnode => Table.get?_put_of_ne _ (h node hnode) _

theorem exists_of_map_eq {α β : Type} {f : α → Option β} {xs : List α} {ys : List β}
    (h : xs.map f = ys.map some) {x : α} (hx : x ∈ xs) : ∃ y ∈ ys, f x = some y := by
  have hmem : f x ∈ ys.map some := h ▸ List.mem_map_of_mem hx
  obtain ⟨y, hy, heq⟩ := List.mem_map.1 hmem
  exact ⟨y, hy, heq.symm⟩

structure Opened (nodes : List Node) (draft : Draft) : Prop where
  inputs : draft.model.inputs = (List.range nodes.length).map inputName
  fed : nodes.map (fun node => draft.tensors.get? node.id) = draft.model.inputs.map some
  keys : ∀ id, (draft.tensors.get? id).isSome → id ∈ nodes.map (·.id)
  statements : draft.model.statements = []
  result : draft.model.result = []
  owners : draft.owners = []

theorem opened_foldl (className : String) (nodes : List Node)
    (hids : (nodes.map (·.id)).Nodup) :
    Opened nodes (nodes.foldl addInput { model := { className } }) := by
  induction nodes using List.reverseRecOn with
  | nil => exact ⟨rfl, rfl, by simp, rfl, rfl, rfl⟩
  | append_singleton nodes last ih =>
    rw [List.map_append, List.nodup_append] at hids
    have h := ih hids.1
    have hne : ∀ node ∈ nodes, node.id ≠ last.id := fun node hnode =>
      hids.2.2 _ (List.mem_map_of_mem hnode) _ (by simp)
    rw [List.foldl_append, List.foldl_cons, List.foldl_nil]
    generalize nodes.foldl addInput { model := { className } } = draft at h
    refine ⟨?_, ?_, ?_, h.statements, h.result, h.owners⟩
    · simp [addInput, h.inputs, List.range_succ]
    · simp [addInput, map_get?_put hne, h.fed]
    · intro id hsome
      by_cases heq : id = last.id
      · simp [heq]
      · rw [addInput, Table.get?_put_of_ne _ heq] at hsome
        rw [List.map_append, List.mem_append]
        exact .inl (h.keys id hsome)

/-- The draft after some nodes in the order of evaluation. -/
structure Drafted (graph : Graph) (before : List Node) (draft : Draft) : Prop where
  inputs : draft.model.inputs =
    (List.range (graph.ordered.filter (·.isInput)).length).map inputName
  fed : (graph.ordered.filter (·.isInput)).map (fun node => draft.tensors.get? node.id) =
    draft.model.inputs.map some
  stated : (before.filter (·.isLayer)).map (fun node => draft.tensors.get? node.id) =
    draft.model.targets.map some
  returned : (before.filter (·.isOutput)).map (fun node => draft.tensors.get? node.id) =
    draft.model.result.map some
  keys : ∀ id, (draft.tensors.get? id).isSome →
    ∃ node ∈ graph.ordered, node.id = id ∧ (node.isInput = true ∨ node ∈ before)
  owners : draft.owners.map (·.1) = draft.model.targets
  distinct : draft.model.targets.Nodup
  named : ∀ target ∈ draft.model.targets, IsName target ∧ ∀ position, target ≠ inputName position

theorem drafted_start (hids : graph.ids.Nodup) : Drafted graph [] (start graph className) := by
  have hinputs : ((graph.ordered.filter (·.isInput)).map (·.id)).Nodup :=
    (ordered_nodup hids).sublist (List.filter_sublist.map _)
  have h := opened_foldl className (graph.ordered.filter (·.isInput)) hinputs
  have htargets : (start graph className).model.targets = [] := by
    rw [Model.targets, start, h.statements, List.map_nil]
  refine ⟨h.inputs, h.fed, ?_, ?_, fun id hsome => ?_, ?_, ?_, ?_⟩
  · rw [htargets]
    rfl
  · rw [start, h.result]
    rfl
  · obtain ⟨node, hnode, heq⟩ := List.mem_map.1 (h.keys id hsome)
    obtain ⟨hmem, hin⟩ := List.mem_filter.1 hnode
    exact ⟨node, hmem, heq, .inl hin⟩
  · rw [htargets, start, h.owners]
    rfl
  · rw [htargets]
    exact List.nodup_nil
  · rw [htargets]
    simp

theorem id_fresh (hids : graph.ids.Nodup) {before after : List Node} {node : Node}
    (hsplit : graph.ordered = before ++ node :: after) :
    (∀ earlier ∈ before, earlier.id ≠ node.id) ∧
      ∀ other ∈ graph.ordered, other.id = node.id → other = node := by
  refine ⟨fun earlier hearlier heq => ?_, fun other hother heq => ?_⟩
  · have hout := not_mem_of_ordered hids hsplit (List.mem_map_of_mem hearlier)
    simp [heq] at hout
  · exact List.inj_on_of_nodup_map (ordered_nodup hids) hother (by simp [hsplit]) heq

variable {before after : List Node} {node : Node} {draft next : Draft}

theorem Drafted.keys_put (h : Drafted graph before draft)
    (hsplit : graph.ordered = before ++ node :: after) (value : String) (id : String)
    (hsome : ((draft.tensors.put node.id value).get? id).isSome) :
    ∃ other ∈ graph.ordered, other.id = id ∧ (other.isInput = true ∨ other ∈ before ++ [node]) := by
  by_cases heq : id = node.id
  · exact ⟨node, by simp [hsplit], heq.symm, .inr (by simp)⟩
  · rw [Table.get?_put_of_ne _ heq] at hsome
    obtain ⟨other, hother, hid, hwhere⟩ := h.keys id hsome
    exact ⟨other, hother, hid, hwhere.imp_right (List.mem_append_left _)⟩

theorem Drafted.fed_put (hids : graph.ids.Nodup) (h : Drafted graph before draft)
    (hsplit : graph.ordered = before ++ node :: after) (hin : node.isInput = false)
    (value : String) :
    (graph.ordered.filter (·.isInput)).map
        (fun input => (draft.tensors.put node.id value).get? input.id) =
      draft.model.inputs.map some := by
  rw [map_get?_put, h.fed]
  intro input hinput heq
  obtain ⟨hmem, hkind⟩ := List.mem_filter.1 hinput
  rw [(id_fresh hids hsplit).2 input hmem heq, hin] at hkind
  cases hkind

theorem map_put_before (hids : graph.ids.Nodup)
    (hsplit : graph.ordered = before ++ node :: after) (tensors : Table String) (value : String)
    (p : Node → Bool) :
    (before.filter p).map (fun earlier => (tensors.put node.id value).get? earlier.id) =
      (before.filter p).map (fun earlier => tensors.get? earlier.id) :=
  map_get?_put fun earlier hearlier =>
    (id_fresh hids hsplit).1 earlier (List.mem_filter.1 hearlier).1

theorem Drafted.addOutput (hids : graph.ids.Nodup) (h : Drafted graph before draft)
    (hsplit : graph.ordered = before ++ node :: after) (hout : node.isOutput = true)
    (operands : List String) :
    Drafted graph (before ++ [node]) (draft.addOutput node operands) := by
  obtain ⟨hin, hlayer⟩ := Node.not_of_isOutput hout
  rw [addOutput_eq]
  refine ⟨h.inputs, h.fed_put hids hsplit hin _, ?_, ?_, h.keys_put hsplit _, h.owners, h.distinct,
    h.named⟩
  · rw [List.filter_append, List.filter_cons_of_neg (by simp [hlayer]), List.filter_nil,
      List.append_nil]
    exact (map_put_before hids hsplit _ _ _).trans h.stated
  · simp [List.filter_append, hout, map_put_before hids hsplit, h.returned]

theorem Drafted.addLayer (hids : graph.ids.Nodup) (h : Drafted graph before draft)
    (hsplit : graph.ordered = before ++ node :: after) (hlayer : node.isLayer = true)
    {layer : Layer} {operands : List String}
    (hnext : draft.addLayer layer node operands = .ok next) :
    Drafted graph (before ++ [node]) next := by
  obtain ⟨hin, hout⟩ := Node.not_of_isLayer hlayer
  obtain ⟨statement, hsaid, hinputs, hstatements, hresult, htensors, howners⟩ :=
    addLayer_eq_ok hnext
  obtain ⟨hfree, hname, hinput, -⟩ := nameFor_named draft.owners node.id
  rw [← hsaid.target] at hfree hname hinput
  have htargets : next.model.targets = draft.model.targets ++ [statement.target] := by
    rw [Model.targets, hstatements, List.map_append]
    rfl
  have hfresh : statement.target ∉ draft.model.targets := by
    rw [← h.owners, ← Table.has_iff, hfree]
    simp
  refine ⟨hinputs ▸ h.inputs, ?_, ?_, ?_, ?_, ?_, ?_, ?_⟩
  · rw [htensors, hinputs]
    exact h.fed_put hids hsplit hin _
  · simp [List.filter_append, hlayer, htensors, htargets, map_put_before hids hsplit, h.stated]
  · rw [List.filter_append, List.filter_cons_of_neg (by simp [hout]), List.filter_nil,
      List.append_nil, htensors, hresult, map_put_before hids hsplit]
    exact h.returned
  · rw [htensors]
    exact h.keys_put hsplit _
  · rw [howners, Table.keys_put, h.owners, if_neg hfresh, htargets]
  · rw [htargets]
    exact h.distinct.append (List.nodup_singleton _) (by simpa using hfresh)
  · intro target htarget
    rw [htargets, List.mem_append, List.mem_singleton] at htarget
    rcases htarget with hold | rfl
    · exact h.named target hold
    · exact ⟨hname, hinput⟩

theorem Drafted.add (hids : graph.ids.Nodup) (h : Drafted graph before draft)
    (hsplit : graph.ordered = before ++ node :: after)
    (hnext : add catalogue graph draft node = .ok next) : Drafted graph (before ++ [node]) next := by
  obtain ⟨layer, -, ⟨hin, rfl⟩ | ⟨hout, rfl⟩ | ⟨hlayer, hadd⟩⟩ := add_eq_ok hnext
  · obtain ⟨hout, hlayer⟩ := Node.not_of_isInput hin
    refine ⟨h.inputs, h.fed, ?_, ?_, fun id hsome => ?_, h.owners, h.distinct, h.named⟩
    · simpa [List.filter_append, hlayer] using h.stated
    · simpa [List.filter_append, hout] using h.returned
    · obtain ⟨other, hother, hid, hwhere⟩ := h.keys id hsome
      exact ⟨other, hother, hid, hwhere.imp_right (List.mem_append_left _)⟩
  · exact h.addOutput hids hsplit hout _
  · exact h.addLayer hids hsplit hlayer hadd

theorem Drafted.run (hids : graph.ids.Nodup) (hsplit : graph.ordered = before ++ after)
    (hrun : draftAfter catalogue graph className before = .ok draft) :
    Drafted graph before draft := by
  refine foldlM_invariant (Drafted graph) hrun (drafted_start hids) ?_
  intro first node rest draft next hfirst h hnext
  have hcut : graph.ordered = first ++ node :: (rest ++ after) := by simp [hsplit, hfirst]
  exact h.add hids hcut hnext

theorem get?_of_add {nodes : List Node} (hrun : nodes.foldlM (Draft.add catalogue graph) draft =
    .ok next) {id : String} (hid : id ∉ nodes.map (·.id)) :
    next.tensors.get? id = draft.tensors.get? id := by
  refine foldlM_invariant (fun _ later : _ => later.tensors.get? id = draft.tensors.get? id)
    hrun rfl ?_
  intro first node rest later last heq hold hlast
  subst heq
  have hne : id ≠ node.id := by
    intro heq
    subst heq
    simp at hid
  obtain ⟨layer, -, ⟨-, rfl⟩ | ⟨-, rfl⟩ | ⟨-, hadd⟩⟩ := add_eq_ok hlast
  · exact hold
  · rw [addOutput_eq, Table.get?_put_of_ne _ hne]
    exact hold
  · obtain ⟨statement, -, -, -, -, htensors, -⟩ := addLayer_eq_ok hadd
    rw [htensors, Table.get?_put_of_ne _ hne]
    exact hold

theorem statements_grow {nodes : List Node} (hrun : nodes.foldlM (Draft.add catalogue graph) draft =
    .ok next) :
    next.model.inputs = draft.model.inputs ∧ draft.model.statements <+: next.model.statements := by
  refine foldlM_invariant (fun _ later : _ => later.model.inputs = draft.model.inputs ∧
    draft.model.statements <+: later.model.statements) hrun ⟨rfl, List.prefix_rfl⟩ ?_
  intro first node rest later last _ hgiven hlast
  obtain ⟨hinputs, hgrown⟩ := hgiven
  obtain ⟨layer, -, ⟨-, rfl⟩ | ⟨-, rfl⟩ | ⟨-, hadd⟩⟩ := add_eq_ok hlast
  · exact ⟨hinputs, hgrown⟩
  · exact ⟨hinputs, hgrown⟩
  · obtain ⟨statement, -, hsame, hstatements, -, -, -⟩ := addLayer_eq_ok hadd
    rw [hsame, hstatements]
    exact ⟨hinputs, hgrown.trans (List.prefix_append _ _)⟩

theorem Drafted.isSome (h : Drafted graph before draft) (hmem : node ∈ graph.ordered)
    (hwhere : node.isInput = true ∨ node ∈ before) : (draft.tensors.get? node.id).isSome := by
  by_cases hin : node.isInput = true
  · obtain ⟨tensor, -, htensor⟩ := exists_of_map_eq h.fed (List.mem_filter.2 ⟨hmem, hin⟩)
    simp [htensor]
  · have hbefore := hwhere.resolve_left hin
    by_cases hout : node.isOutput = true
    · obtain ⟨tensor, -, htensor⟩ :=
        exists_of_map_eq h.returned (List.mem_filter.2 ⟨hbefore, hout⟩)
      simp [htensor]
    · have hlayer : node.isLayer = true := by simp [Node.isLayer, hin, hout]
      obtain ⟨tensor, -, htensor⟩ :=
        exists_of_map_eq h.stated (List.mem_filter.2 ⟨hbefore, hlayer⟩)
      simp [htensor]

/-- The operands of a node are the tensors of its declared sources. -/
theorem Drafted.operands_eq (hids : graph.ids.Nodup) (h : Drafted graph before draft)
    (hsplit : graph.ordered = before ++ node :: after) :
    (draft.operands graph node.id).map some =
      (graph.feeders node.id).map draft.tensors.get? := by
  have hnode : node.id ∈ graph.ids := mem_ids_of_ordered (by simp [hsplit])
  have hlookup : ∀ source ∈ graph.sources node.id,
      graph.declares source = (draft.tensors.get? source).isSome := by
    intro source hsource
    by_cases hdeclared : source ∈ graph.ids
    · obtain ⟨earlier, hmem, rfl⟩ :=
        List.mem_map.1 (source_mem_of_ordered hids hsplit hsource hdeclared)
      rw [(declares_iff graph _).2 hdeclared, h.isSome (by simp [hsplit, hmem]) (.inr hmem)]
    · have hnone : (draft.tensors.get? source).isSome = false := by
        by_contra hsome
        obtain ⟨other, hother, rfl, -⟩ := h.keys source (by rwa [Bool.not_eq_false] at hsome)
        exact hdeclared (mem_ids_of_ordered hother)
      rw [hnone, (declares_eq_false_iff graph source).2 hdeclared]
  rw [feeders_eq hnode]
  exact filterMap_eq_filter hlookup

end Draft

end Program

end LayerGraph
