import LayerGraph.Layer.Standard
import LayerGraph.Program.Script
import LayerGraph.Proofs.Graph.Remarks
set_option autoImplicit false

namespace LayerGraph

namespace Program

open LayerGraph.Graph

variable {catalogue : Catalogue} {graph : Graph} {settings : Settings} {emission : Emission}

theorem emit_eq_ok :
    emit catalogue graph settings = .ok emission ↔
      ∃ context, graph.infer catalogue = .ok context ∧
        emitWith catalogue graph context settings = .ok emission := by
  rw [emit, bind_eq_ok]

theorem emitWith_of_hasErrors {context : Context} (herrors : context.hasErrors = true)
    (h : emitWith catalogue graph context settings = .ok emission) :
    emission.code = "" ∧ ∀ message ∈ context.messages Status.error.name, message ∈ emission.errors := by
  rw [emitWith, if_pos herrors] at h
  cases h
  refine ⟨rfl, fun message hmessage => ?_⟩
  rw [if_neg]
  · exact hmessage
  · rw [List.isEmpty_iff]
    exact List.ne_nil_of_mem hmessage

theorem dump_of_nests {nesting : Nat} (h : graph.nestsWithin nesting = true) :
    graph.dump nesting = .ok graph.document :=
  if_pos h

theorem dump_of_deep {nesting : Nat} (h : graph.nestsWithin nesting = false) :
    graph.dump nesting = .error .nestedTooDeep :=
  if_neg (by simp [h])

theorem dump_eq_ok {nesting : Nat} {text : String} :
    graph.dump nesting = .ok text ↔
      graph.nestsWithin nesting = true ∧ text = graph.document := by
  cases hnests : graph.nestsWithin nesting with
  | true => simp [dump_of_nests hnests, eq_comm]
  | false => simp [dump_of_deep hnests]

theorem dump_bind {α : Type} (nesting : Nat) (next : String → Except Fault α) :
    graph.dump nesting >>= next =
      (graph.dump nesting).map (fun _ => ()) >>= fun _ => next graph.document := by
  cases hnests : graph.nestsWithin nesting with
  | true => rw [dump_of_nests hnests]; rfl
  | false => rw [dump_of_deep hnests]; rfl

theorem scriptLines_eq_ok {context : Context} {model : Model} {ls : List String} :
    scriptLines graph context model settings = .ok ls ↔
      ∃ samples target dataset main, sampleTexts graph context = .ok samples ∧
        graph.nestsWithin settings.nesting = true ∧ targetText graph.training = .ok target ∧
        datasetLines samples target settings.datasetSize = .ok dataset ∧
        mainLines graph.training settings.className = .ok main ∧
        ls = joinSections ([importLines ++ [""] ++ headerLines graph.document settings.now]
          ++ (if model.residual then [residualLines] else [])
          ++ [model.render, trainingLines graph.training model.multiInput, dataset, main])
          ++ [""] := by
  simp only [scriptLines, bind_eq_ok, dump_eq_ok, pure, Except.pure, Except.ok.injEq,
    and_assoc, exists_and_left, exists_eq_left, eq_comm (b := ls)]

theorem emitWith_of_clean {context : Context} (hclean : context.hasErrors = false) :
    emitWith catalogue graph context settings = .ok emission ↔
      ∃ draft ls, Draft.ofGraph catalogue graph settings.className = .ok draft ∧
        scriptLines graph context draft.model settings = .ok ls ∧
        emission = {
          code := Text.unlines ls
          warnings := context.messages Status.warning.name ++ draft.warnings } := by
  rw [emitWith, if_neg (by simp [hclean])]
  simp only [bind_eq_ok, Model.ofGraph, map_eq_ok, pure, Except.pure, Except.ok.injEq,
    eq_comm (b := emission)]
  constructor
  · rintro ⟨_, ⟨draft, hdraft, rfl⟩, ls, hls, rfl⟩
    exact ⟨draft, ls, hdraft, hls, rfl⟩
  · rintro ⟨draft, ls, hdraft, hls, rfl⟩
    exact ⟨_, ⟨draft, hdraft, rfl⟩, ls, hls, rfl⟩

theorem scriptLines_eq_cons {context : Context} {model : Model} {ls : List String}
    (h : scriptLines graph context model settings = .ok ls) :
    ∃ next rest, ls = "import argparse" :: next :: rest := by
  obtain ⟨samples, target, dataset, main, -, -, -, -, -, rfl⟩ := scriptLines_eq_ok.1 h
  cases model.residual <;> exact ⟨_, _, rfl⟩

theorem emitWith_code_ne_iff {context : Context}
    (h : emitWith catalogue graph context settings = .ok emission) :
    emission.code ≠ "" ↔ context.hasErrors = false := by
  constructor
  · intro hcode
    by_contra herrors
    exact hcode (emitWith_of_hasErrors (by simpa using herrors) h).1
  · intro hclean
    obtain ⟨draft, ls, -, hlines, rfl⟩ := (emitWith_of_clean hclean).1 h
    obtain ⟨next, rest, rfl⟩ := scriptLines_eq_cons hlines
    intro hempty
    have hchars := congrArg String.toList hempty
    simp [Text.unlines] at hchars

theorem mem_messages_of_cyclic {context : Context} (h : graph.infer catalogue = .ok context)
    {id : String} (hid : id ∈ graph.cyclic) :
    id ++ ": Cycle detected" ∈ context.messages Status.error.name := by
  have happend : id ++ ": Cycle detected" = id ++ ": " ++ "Cycle detected" := by
    rw [String.append_assoc]
    rfl
  have hmessage : id ++ ": Cycle detected" ∈
      (Node.cycleResult id).messages.map (id ++ ": " ++ ·) := by
    rw [happend]
    exact List.mem_map_of_mem (List.mem_singleton.2 rfl)
  exact List.mem_flatMap.2 ⟨_, Table.mem_of_get? (get?_of_cyclic h hid), hmessage⟩

theorem emit_of_cyclic (h : emit catalogue graph settings = .ok emission) {id : String}
    (hid : id ∈ graph.cyclic) : emission.code = "" ∧ id ++ ": Cycle detected" ∈ emission.errors := by
  obtain ⟨context, hinfer, hemit⟩ := emit_eq_ok.1 h
  obtain ⟨hcode, herrors⟩ := emitWith_of_hasErrors (hasErrors_of_cyclic hinfer hid) hemit
  exact ⟨hcode, herrors _ (mem_messages_of_cyclic hinfer hid)⟩

/-- Exactly the ids of blocked sets are reported, and nothing is generated while there are any. If
a program is generated all the same for a graph with a cycle, the cycle is fed by an id that is
declared more than once and has no edges into it. -/
theorem emit_cycles (catalogue : Catalogue) (graph : Graph) (settings : Settings) :
    (∀ context, graph.infer catalogue = .ok context → ∀ id,
      context.results.get? id = some ⟨id, none, none, .error, ["Cycle detected"]⟩ ↔
        ∃ set, graph.Blocked set ∧ id ∈ set) ∧
    (∀ emission, emit catalogue graph settings = .ok emission → ∀ set, graph.Blocked set →
      ∀ id ∈ set, emission.code = "" ∧ id ++ ": Cycle detected" ∈ emission.errors) ∧
    (∀ emission, emit catalogue graph settings = .ok emission → emission.code ≠ "" →
      ∀ id, graph.OnCycle id → ∃ other source, graph.SameCycle id other ∧
        graph.Feeds source other ∧ graph.Doubled source) := by
  refine ⟨fun context h id => ?_, fun emission h set hset id hid => ?_,
    fun emission h hcode id hcycle => ?_⟩
  · rw [← mem_cyclic_iff_blocked]
    exact get?_eq_cycleResult_iff h
  · exact emit_of_cyclic h (mem_cyclic_iff_blocked.2 ⟨set, hset, hid⟩)
  · by_contra hnone
    have hfed : ∀ other, graph.SameCycle id other → ∀ source, graph.Feeds source other →
        ¬graph.Doubled source := fun other hsame source hfeeds hdoubled =>
      hnone ⟨other, source, hsame, hfeeds, hdoubled⟩
    have hcyclic := mem_cyclic_iff_blocked.2 (hcycle.blocked hfed)
    exact hcode (emit_of_cyclic h hcyclic).1

/-- Two nodes that feed each other, and an input that is declared twice and feeds one of them. -/
def fedTwice : Graph where
  nodes := [⟨"a", "Input", "", []⟩, ⟨"a", "Input", "", []⟩, ⟨"b", "ReLU", "", []⟩,
    ⟨"c", "ReLU", "", []⟩]
  edges := [⟨"1", "a", "b", none⟩, ⟨"2", "c", "b", none⟩, ⟨"3", "b", "c", none⟩]

theorem fedTwice_emitted :
    fedTwice.OnCycle "b" ∧
    ∃ emission, emit Catalogue.standard fedTwice { now := ⟨2024, 1, 1, 0, 0, 0, 0, none⟩ } =
      .ok emission ∧ emission.code ≠ "" := by
  have hcycle : fedTwice.OnCycle "b" := by
    have hforth : fedTwice.Feeds "b" "c" := ⟨⟨"3", "b", "c", none⟩, by decide, rfl, rfl⟩
    have hback : fedTwice.Feeds "c" "b" := ⟨⟨"2", "c", "b", none⟩, by decide, rfl, rfl⟩
    exact .tail (.single hforth) hback
  refine ⟨hcycle, ?_⟩
  cases hemit : emit Catalogue.standard fedTwice { now := ⟨2024, 1, 1, 0, 0, 0, 0, none⟩ } with
  | error _ =>
    have hok : (emit Catalogue.standard fedTwice
      { now := ⟨2024, 1, 1, 0, 0, 0, 0, none⟩ }).toOption.isSome := by decide +kernel
    simp [hemit, Except.toOption] at hok
  | ok emission =>
    obtain ⟨context, hinfer, hwith⟩ := emit_eq_ok.1 hemit
    refine ⟨emission, rfl, (emitWith_code_ne_iff hwith).2 ?_⟩
    have hclean : ((fedTwice.infer Catalogue.standard).map (·.hasErrors)).toOption =
      some false := by decide +kernel
    simpa [hinfer, Except.map, Except.toOption] using hclean

end Program

end LayerGraph
