import LayerGraph.Proofs.Graph.Totals
import LayerGraph.Proofs.Program.Arguments
set_option autoImplicit false

namespace LayerGraph

namespace Program

structure Call where
  module : String
  arguments : Fields

namespace Call

def text (call : Call) : String :=
  call.module ++ "(" ++ ", ".intercalate
    (call.arguments.map fun (key, v) => key ++ "=" ++ v.literal) ++ ")"

def parameters? (call : Call) : Option Int := do
  let rule ← Tensors.rules.get? call.module
  let tensors ← rule call.arguments
  return Tensors.elements tensors

end Call

end Program

def Node.call? (node : Node) : Option Program.Call := do
  let layer ← Catalogue.standard.find? node.kind
  layer.module.map fun module => ⟨module, Program.moduleArguments layer node⟩

/-- The params that decide on the tensors of the node's module suit it, where they are given. -/
def Node.SuitsModule (node : Node) : Prop :=
  ∀ layer ∈ Catalogue.standard.find? node.kind, layer.count.isSome → ∀ entry ∈ layer.schema,
    ∀ v ∈ node.params.get? entry.1, Tensors.suits entry.1 v = true

instance (node : Node) : Decidable node.SuitsModule :=
  inferInstanceAs (Decidable (∀ layer ∈ Catalogue.standard.find? node.kind, layer.count.isSome →
    ∀ entry ∈ layer.schema, ∀ v ∈ node.params.get? entry.1, Tensors.suits entry.1 v = true))

def Graph.calls (graph : Graph) : List Program.Call := graph.ordered.filterMap Node.call?

theorem Catalogue.standard_suits : ∀ layer ∈ Catalogue.standard, layer.count.isSome →
    ∀ entry ∈ layer.schema, Tensors.suits entry.1 entry.2.default = true := by
  decide +kernel

namespace Node

variable {node : Node} {layer : Layer}

theorem SuitsModule.suited (h : node.SuitsModule)
    (hfind : Catalogue.standard.find? node.kind = some layer) (hcount : layer.count.isSome) :
    Tensors.Suited layer.schema (layer.resolve node.params)
      (Program.moduleArguments layer node) := by
  refine ⟨Program.moduleArguments_renders layer node, fun key p hp => ?_⟩
  have hmem : (key, p) ∈ layer.schema := Table.mem_of_get? hp
  exact Schema.get_resolve_of _ _ hp (P := fun v => Tensors.suits key v = true)
    (Catalogue.standard_suits layer (Catalogue.find?_spec hfind).1 hcount _ hmem)
    (h layer hfind hcount _ hmem)

theorem call?_eq (hfind : Catalogue.standard.find? node.kind = some layer) :
    node.call? = layer.module.map fun module =>
      (⟨module, Program.moduleArguments layer node⟩ : Program.Call) := by
  rw [call?, hfind]
  rfl

/-- A node counts as many parameters as the module that it calls trains, none without a module. -/
theorem count_eq (hknown : (Catalogue.standard.find? node.kind).isSome) (h : node.SuitsModule) :
    match node.call? with
    | some call => ∃ n, call.parameters? = some n ∧ node.count Catalogue.standard = .ok n
    | none => node.count Catalogue.standard = .ok 0 := by
  obtain ⟨layer, hfind⟩ := Option.isSome_iff_exists.1 hknown
  have hcovers := Tensors.standard_covers (Catalogue.find?_spec hfind).1
  rw [call?_eq hfind]
  cases hmodule : layer.module with
  | none =>
    rw [hmodule] at hcovers
    simp only [Option.map_none, count, hfind, hcovers]
  | some module =>
    rw [hmodule] at hcovers
    obtain ⟨rule, hrule, hcounts⟩ := hcovers
    unfold Tensors.Covers at hcounts
    simp only [Option.map_some, count, hfind, Program.Call.parameters?, hrule, bind, pure]
    split at hcounts
    · rename_i rule' hcount
      obtain ⟨tensors, htensors, hok⟩ := hcounts _ _ (h.suited hfind (by simp [hcount]))
      exact ⟨Tensors.elements tensors, by simp [htensors], by simp [hcount, hok]⟩
    · rename_i hcount
      exact ⟨0, by simp [hcounts, Tensors.elements], by simp [hcount]⟩

end Node

def Node.parameters (node : Node) : Int := (node.call?.bind (·.parameters?)).getD 0

theorem Node.count_parameters {node : Node}
    (hknown : (Catalogue.standard.find? node.kind).isSome) (h : node.SuitsModule) :
    node.count Catalogue.standard = .ok node.parameters ∧
      ∀ call, node.call? = some call → call.parameters? = some node.parameters := by
  have hcount := count_eq hknown h
  rw [parameters]
  cases hcall : node.call? with
  | none =>
    rw [hcall] at hcount
    exact ⟨hcount, nofun⟩
  | some call =>
    rw [hcall] at hcount
    obtain ⟨n, hn, hok⟩ := hcount
    rw [Option.bind_some, hn, Option.getD_some]
    refine ⟨hok, fun other hother => ?_⟩
    rw [← Option.some.inj hother, hn]

/-- Nodes without a call do not count, so the calls of some nodes have the sum of the nodes. -/
theorem Node.mapM_parameters {nodes : List Node}
    (h : ∀ node ∈ nodes, ∀ call, node.call? = some call →
      call.parameters? = some node.parameters) :
    ∃ counts, (nodes.filterMap Node.call?).mapM Program.Call.parameters? = some counts ∧
      counts.sum = (nodes.map (·.parameters)).sum := by
  induction nodes with
  | nil => exact ⟨[], rfl, rfl⟩
  | cons node nodes ih =>
    obtain ⟨counts, hcounts, hsum⟩ := ih fun other hother => h other (List.mem_cons_of_mem _ hother)
    cases hcall : node.call? with
    | none =>
      refine ⟨counts, by rw [List.filterMap_cons_none hcall, hcounts], ?_⟩
      simp [hsum, parameters, hcall]
    | some call =>
      have hcount := h node List.mem_cons_self call hcall
      refine ⟨node.parameters :: counts, ?_, by simp [hsum]⟩
      rw [List.filterMap_cons_some hcall, List.mapM_cons, hcount, hcounts]
      rfl

namespace Program

open LayerGraph.Graph

theorem moduleCall_text {layer : Layer} {module : String} {node : Node} {call : String}
    (h : moduleCall layer module node = .ok call) :
    call = (⟨module, moduleArguments layer node⟩ : Call).text := by
  simp only [moduleCall, bind_eq_ok, pure, Except.pure, Except.ok.injEq] at h
  obtain ⟨text, htext, rfl⟩ := h
  rw [arguments_eq_ok htext, Call.text]

theorem Draft.Declares.call_text {draft : Draft} {node : Node} {declaration : Declaration}
    (h : Draft.Declares draft node declaration) :
    ∃ call, node.call? = some call ∧ declaration.call = call.text := by
  obtain ⟨-, layer, module, hfind, hbuilt, hcall⟩ := h
  exact ⟨⟨module, moduleArguments layer node⟩, by rw [Node.call?_eq hfind, hbuilt]; rfl,
    moduleCall_text hcall⟩

theorem calls_of_modules (nodes : List Node) :
    (nodes.filter (·.isModule)).filterMap Node.call? = nodes.filterMap Node.call? := by
  rw [List.filterMap_filter]
  refine List.filterMap_congr fun node _ => ?_
  cases hfind : Catalogue.standard.find? node.kind with
  | none => simp [Node.isModule, Node.call?, hfind]
  | some layer =>
    rw [Node.isModule, hfind, Node.call?_eq hfind, Option.bind_some]
    cases layer.module <;> rfl

/-- The declarations of a model are the calls of its nodes. -/
theorem Draft.Declared.calls {nodes : List Node} {draft : Draft} (h : Declared nodes draft) :
    draft.model.declarations.map (·.call) = (nodes.filterMap Node.call?).map Call.text := by
  have hall : ∀ (nodes : List Node) (declarations : List Declaration),
      List.Forall₂ (Draft.Declares draft) nodes declarations →
      declarations.map (·.call) = (nodes.filterMap Node.call?).map Call.text := by
    intro nodes declarations hdeclared
    induction hdeclared with
    | nil => rfl
    | cons hfirst _ ih =>
      obtain ⟨call, hcall, htext⟩ := hfirst.call_text
      rw [List.map_cons, List.filterMap_cons_some hcall, List.map_cons, htext, ih]
  rw [hall _ _ h, calls_of_modules]

/-- The estimate of a graph without errors is the number of elements of the tensors that the
modules declared in its model train. The tensors of a residual block are those of the layers that
its class declares. -/
theorem countParameters_declarations {graph : Graph} {context : Context} (hids : graph.ids.Nodup)
    (hinfer : graph.infer Catalogue.standard = .ok context) (hclean : context.hasErrors = false)
    (hsizes : ∀ node ∈ graph.nodes, node.SuitsModule) (className : String) :
    (∃ counts, graph.calls.mapM Call.parameters? = some counts ∧
      graph.countParameters Catalogue.standard = .ok counts.sum) ∧
    (∀ draft, Draft.ofGraph Catalogue.standard graph className = .ok draft →
      draft.model.declarations.map (·.call) = graph.calls.map Call.text) ∧
    ((∀ node ∈ graph.nodes, Printable Catalogue.standard node) →
      ∃ draft, Draft.ofGraph Catalogue.standard graph className = .ok draft) ∧
    residualLines.filter Tensors.callsTrainable = Tensors.parts.map (·.line) := by
  have hperm := ordered_perm hids hinfer hclean
  have hknown : ∀ node ∈ graph.ordered, (Catalogue.standard.find? node.kind).isSome := by
    intro node hnode
    obtain ⟨before, after, hsplit⟩ := List.append_of_mem hnode
    obtain ⟨_, _, layer, h⟩ := exists_evaluated hids hinfer hclean hsplit
    simp [h.sound.known]
  have hcounts : ∀ node ∈ graph.ordered, node.count Catalogue.standard = .ok node.parameters ∧
      ∀ call, node.call? = some call → call.parameters? = some node.parameters :=
    fun node hnode => Node.count_parameters (hknown node hnode) (hsizes node (hperm.mem_iff.1 hnode))
  refine ⟨?_, fun draft hdraft => ?_, fun hall => ?_, Tensors.parts_lines⟩
  · obtain ⟨counts, hcalls, hsum⟩ := Node.mapM_parameters fun node hnode => (hcounts node hnode).2
    refine ⟨counts, hcalls, ?_⟩
    rw [countParameters_eq fun node hnode => (hcounts node (hperm.mem_iff.2 hnode)).1, hsum,
      (hperm.map _).sum_eq]
  · exact (Draft.Declared.run hids (List.append_nil _).symm hdraft).calls
  · exact (Draft.ofGraph_outcome className hknown).1 fun node hnode =>
      hall node (hperm.mem_iff.1 hnode)

/-- A convolution that is not square, a block with a projection, two recurrent layers that read in
both directions, and a layer without a bias. -/
def tall : Graph where
  nodes := [⟨"in", "Input", "", [("shape", .list [.int 1, .int 3, .int 8, .int 8])]⟩,
    ⟨"conv", "Conv2d", "", [("in_channels", .int 3), ("out_channels", .int 4),
      ("kernel_size", .list [.int 3, .int 5]), ("padding", .list [.int 1, .int 2])]⟩,
    ⟨"block", "ResidualBlock", "", [("in_channels", .int 4), ("out_channels", .int 8),
      ("stride", .int 2), ("use_projection", .bool true)]⟩,
    ⟨"flat", "Flatten", "", [("start_dim", .int 2)]⟩,
    ⟨"lstm", "LSTM", "", [("input_size", .int 16), ("hidden_size", .int 5), ("num_layers", .int 2),
      ("bidirectional", .bool true)]⟩,
    ⟨"head", "Linear", "", [("in_features", .int 10), ("out_features", .int 2),
      ("bias", .bool false)]⟩,
    ⟨"out", "Output", "", []⟩]
  edges := [⟨"1", "in", "conv", none⟩, ⟨"2", "conv", "block", none⟩, ⟨"3", "block", "flat", none⟩,
    ⟨"4", "flat", "lstm", none⟩, ⟨"5", "lstm", "head", none⟩, ⟨"6", "head", "out", none⟩]

theorem tall_parameters :
    tall.ids.Nodup ∧ (∀ node ∈ tall.nodes, node.SuitsModule) ∧
    (∃ context, tall.infer Catalogue.standard = .ok context ∧ context.hasErrors = false) ∧
    tall.countParameters Catalogue.standard = .ok 2748 ∧
    tall.calls.mapM Call.parameters? = some [184, 944, 0, 1600, 20] ∧
    ∃ draft, Draft.ofGraph Catalogue.standard tall "Net" = .ok draft ∧
      draft.model.declarations.map (·.call) = tall.calls.map Call.text ∧
      (draft.model.declarations.map (·.call)).head? = some ("nn.Conv2d(in_channels=3, "
        ++ "out_channels=4, kernel_size=[3, 5], stride=1, padding=[1, 2], dilation=1, bias=True)") := by
  have hids : tall.ids.Nodup := by decide
  have hsizes : ∀ node ∈ tall.nodes, node.SuitsModule := by decide +kernel
  have hinfer : (tall.infer Catalogue.standard).map (·.hasErrors) = .ok false :=
    eq_ok_of_toOption (by decide +kernel)
  have hmodel : (Draft.ofGraph Catalogue.standard tall "Net").map
      (fun draft => (draft.model.declarations.map (·.call)).head?) = .ok (some ("nn.Conv2d("
        ++ "in_channels=3, out_channels=4, kernel_size=[3, 5], stride=1, padding=[1, 2], dilation=1, "
        ++ "bias=True)")) :=
    eq_ok_of_toOption (by decide +kernel)
  have hcalls : tall.calls.mapM Call.parameters? = some [184, 944, 0, 1600, 20] := by
    decide +kernel
  obtain ⟨context, hcontext, hclean⟩ := map_eq_ok.1 hinfer
  obtain ⟨draft, hdraft, hhead⟩ := map_eq_ok.1 hmodel
  obtain ⟨⟨counts, hcounts, hcount⟩, hdeclared, -, -⟩ :=
    countParameters_declarations hids hcontext hclean hsizes "Net"
  obtain rfl : counts = [184, 944, 0, 1600, 20] := Option.some.inj (hcounts.symm.trans hcalls)
  exact ⟨hids, hsizes, ⟨context, hcontext, hclean⟩, hcount, hcalls, draft, hdraft,
    hdeclared draft hdraft, hhead⟩

end Program

end LayerGraph
