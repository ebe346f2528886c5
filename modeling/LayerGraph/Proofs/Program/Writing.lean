import LayerGraph.Proofs.Program.Drafts
set_option autoImplicit false

namespace LayerGraph.Program

open LayerGraph.Graph

def written (layer : Layer) (node : Node) : List Value :=
  if node.kind = "Concat" then [(layer.resolve node.params).get "dim"]
  else if node.isLayer && node.kind != "Add" && layer.module.isSome then
    (moduleArguments layer node).map (·.2)
  else []

def shown (catalogue : Catalogue) (node : Node) : List Value :=
  match catalogue.find? node.kind with
  | some layer => written layer node
  | none => []

/-- All integers that are shown for a node are short enough to be written. -/
def Printable (catalogue : Catalogue) (node : Node) : Prop :=
  ∀ value ∈ shown catalogue node, value.writable = true

/-- What is made of some values: a result if they can all be written, else the fault of writing. -/
inductive Outcome {α : Type} (values : List Value) (made : Except Fault α) : Prop where
  | written (h : ∀ value ∈ values, value.writable = true) (result : α) (heq : made = .ok result)
  | tooLong (h : ∃ value ∈ values, value.writable = false) (heq : made = .error .integerTooLong)

theorem write_outcome (value : Value) : Outcome [value] value.write := by
  cases h : value.writable with
  | true => exact .written (by simp [h]) _ (by rw [Value.write, if_pos h])
  | false => exact .tooLong (by simp [h]) (by rw [Value.write, if_neg (by simp [h])])

theorem Outcome.done {α : Type} (result : α) : Outcome [] (.ok result : Except Fault α) :=
  .written (by simp) result rfl

theorem Outcome.bind {α β : Type} {values others : List Value} {made : Except Fault α}
    {next : α → Except Fault β} (h : Outcome values made)
    (hnext : ∀ result, made = .ok result → Outcome others (next result)) :
    Outcome (values ++ others) (made >>= next) := by
  cases h with
  | tooLong h heq =>
    obtain ⟨value, hmem, hlong⟩ := h
    exact .tooLong ⟨value, List.mem_append_left _ hmem, hlong⟩ (by rw [heq]; rfl)
  | written h result heq =>
    cases hnext result heq with
    | tooLong hrest hfault =>
      obtain ⟨value, hmem, hlong⟩ := hrest
      exact .tooLong ⟨value, List.mem_append_right _ hmem, hlong⟩ (by rw [heq]; exact hfault)
    | written hrest last hlast =>
      refine .written (fun value hvalue => ?_) last (by rw [heq]; exact hlast)
      rcases List.mem_append.1 hvalue with hmem | hmem
      · exact h value hmem
      · exact hrest value hmem

theorem Outcome.map {α β : Type} {values : List Value} {made : Except Fault α}
    (h : Outcome values made) (f : α → β) : Outcome values (made >>= fun a => pure (f a)) := by
  have hdone := h.bind fun result _ => Outcome.done (f result)
  rwa [List.append_nil] at hdone

theorem mapM_outcome (fields : Fields) :
    Outcome (fields.map (·.2)) (fields.mapM fun (key, v) => return key ++ "=" ++ (← v.write)) := by
  induction fields with
  | nil => exact .done []
  | cons field fields ih =>
    rw [List.mapM_cons]
    exact ((write_outcome field.2).map _).bind fun _ _ => ih.map _

theorem arguments_outcome (fields : Fields) : Outcome (fields.map (·.2)) (arguments fields) :=
  (mapM_outcome fields).map _

namespace Draft

variable {catalogue : Catalogue} {graph : Graph}

theorem compile_outcome (layer : Layer) {node : Node} (hlayer : node.isLayer = true)
    (name : String) (operands : List String) :
    Outcome (written layer node) (compile layer node name operands) := by
  unfold compile
  extract_lets source
  by_cases hadd : node.kind = "Add"
  · rw [if_pos hadd, show written layer node = [] by simp [written, hadd]]
    exact .done _
  · rw [if_neg hadd]
    by_cases hconcat : node.kind = "Concat"
    · rw [if_pos hconcat, written, if_pos hconcat]
      exact (write_outcome _).map _
    · rw [if_neg hconcat, written, if_neg hconcat]
      cases hmodule : layer.module with
      | none =>
        rw [if_neg (by simp)]
        exact .done _
      | some module =>
        rw [if_pos (by simp [hlayer, hadd])]
        exact ((arguments_outcome _).map _).map _

theorem add_outcome {node : Node} {layer : Layer} (hfind : catalogue.find? node.kind = some layer)
    (draft : Draft) : Outcome (written layer node) (add catalogue graph draft node) := by
  have hlayer : catalogue.find node.kind = .ok layer := by rw [Catalogue.find, hfind]
  rw [add, hlayer]
  change Outcome _ (if node.kind = inputKind then _ else _)
  have hnone : node.isLayer = false → written layer node = [] := by
    intro hnot
    have hkind : node.kind ≠ "Concat" := by
      intro hconcat
      rw [← Bool.not_eq_true, Node.isLayer_iff, hconcat] at hnot
      exact hnot (by decide)
    simp [written, hkind, hnot]
  by_cases hin : node.kind = inputKind
  · rw [if_pos hin, hnone (Node.not_of_isInput (by simp [Node.isInput, hin])).2]
    exact .done _
  · rw [if_neg hin]
    by_cases hout : node.kind = outputKind
    · rw [if_pos hout, hnone (Node.not_of_isOutput (by simp [Node.isOutput, hout])).2]
      exact .done _
    · rw [if_neg hout]
      have hlayer : node.isLayer = true := by
        simp [Node.isLayer, Node.isInput, Node.isOutput, hin, hout]
      exact (compile_outcome layer hlayer _ _).map _

theorem run_outcome {nodes : List Node} (hknown : ∀ node ∈ nodes, (catalogue.find? node.kind).isSome)
    (draft : Draft) :
    Outcome (nodes.flatMap (shown catalogue)) (nodes.foldlM (add catalogue graph) draft) := by
  induction nodes generalizing draft with
  | nil => exact .done draft
  | cons node nodes ih =>
    obtain ⟨layer, hfind⟩ := Option.isSome_iff_exists.1 (hknown node List.mem_cons_self)
    have hshown : shown catalogue node = written layer node := by rw [shown, hfind]
    rw [List.foldlM_cons, List.flatMap_cons, hshown]
    exact (add_outcome hfind draft).bind fun next _ =>
      ih (fun other hother => hknown other (List.mem_cons_of_mem _ hother)) next

/-- A model is made of nodes of known kinds exactly if each of them can be written. -/
theorem ofGraph_outcome (className : String)
    (hknown : ∀ node ∈ graph.ordered, (catalogue.find? node.kind).isSome) :
    ((∀ node ∈ graph.ordered, Printable catalogue node) →
      ∃ draft, ofGraph catalogue graph className = .ok draft) ∧
    ((∃ node ∈ graph.ordered, ¬Printable catalogue node) →
      ofGraph catalogue graph className = .error .integerTooLong) := by
  have hrun : Outcome (graph.ordered.flatMap (shown catalogue))
      (ofGraph catalogue graph className) := run_outcome hknown (start graph className)
  cases hrun with
  | written h draft heq =>
    refine ⟨fun _ => ⟨draft, heq⟩, ?_⟩
    intro hgiven
    obtain ⟨node, hnode, hlong⟩ := hgiven
    exact absurd (fun value hvalue => h value (List.mem_flatMap.2 ⟨node, hnode, hvalue⟩)) hlong
  | tooLong h heq =>
    refine ⟨fun hall => ?_, fun _ => heq⟩
    obtain ⟨value, hvalue, hlong⟩ := h
    obtain ⟨node, hnode, hshown⟩ := List.mem_flatMap.1 hvalue
    rw [hall node hnode value hshown] at hlong
    cases hlong

end Draft

end LayerGraph.Program
