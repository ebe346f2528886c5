import LayerGraph.Proofs.Graph.Evaluation
set_option autoImplicit false

namespace LayerGraph

theorem Status.escalate_eq_error_iff (current : Status) (severity : Severity) :
    current.escalate severity.status = .error ↔ current = .error ∨ severity = .error := by
  cases current <;> cases severity <;> decide

namespace Remark

theorem status_eq_error_iff (remarks : List Remark) :
    status remarks = .error ↔ ∃ remark ∈ remarks, remark.severity = .error := by
  have hfrom : ∀ current : Status,
      remarks.foldl (fun status remark => status.escalate remark.severity.status) current = .error ↔
        current = .error ∨ ∃ remark ∈ remarks, remark.severity = .error := by
    induction remarks with
    | nil => simp
    | cons remark remarks ih =>
      intro current
      rw [List.foldl_cons, ih, Status.escalate_eq_error_iff, List.exists_mem_cons_iff, or_assoc]
  rw [status, hfrom]
  simp

theorem shapeFault_message_ne (why : ShapeFault) : why.message ≠ "Cycle detected" := by
  intro h
  cases why with
  | rank kind ranks layout shape =>
    change (_ ++ ("[" ++ _ ++ "]") : String) = _ at h
    have hbracket := congrArg (fun s => '[' ∈ s.toList) h
    simp at hbracket
  | noOutput kind height width =>
    change (_ ++ " output dimensions are non-positive: (" ++ _ ++ _ ++ _ ++ _ : String) = _ at h
    have hbracket := congrArg (fun s => '(' ∈ s.toList) h
    simp at hbracket
  | stride _ | flattenRange _ _ _ | noFeatureAxis _ | concatAxis _ _ =>
    change (_ ++ _ : String) = _ at h
    have hchars := congrArg String.toList h
    simp at hchars

theorem finding_message_ne (finding : Finding) : finding.message ≠ "Cycle detected" := by
  intro h
  cases finding with
  | numFeatures kind expected received =>
    change (_ ++ " expected num_features=" ++ _ ++ _ ++ _ : String) = _ at h
    have hequals := congrArg (fun s => '=' ∈ s.toList) h
    simp at hequals
  | inFeatures _ _ | inChannels _ _ | inputSize _ _ _ | unequalInput _ | concatRank _ _ _
  | concatSize _ _ | blockChannels _ _ =>
    change (_ ++ _ : String) = _ at h
    have hchars := congrArg String.toList h
    simp at hchars
  | blockShortcut => exact absurd h (by decide +kernel)

theorem message_eq_cycle_iff (remark : Remark) :
    remark.message = "Cycle detected" ↔ remark = .cycle := by
  constructor
  · intro h
    cases remark with
    | cycle => rfl
    | found finding => exact absurd h (finding_message_ne finding)
    | notSized fault =>
      cases fault with
      | shape why => exact absurd h (shapeFault_message_ne why)
      | unknownKey _ | notANumeral _ | numeralTooLong _ | integerTooLong | notANumber | infinity
      | notNumeric _ | notIterable _ | unhashable _ | notAnObject _ | nestedTooDeep | failed _ =>
        change ("Shape inference failed: " ++ _ : String) = _ at h
        have hchars := congrArg String.toList h
        simp at hchars
    | waiting | noShape => exact absurd h (by decide +kernel)
    | unknownKind _ | tooFewInputs _ | tooManyInputs _ | notChecked _ =>
      change (_ ++ _ : String) = _ at h
      have hchars := congrArg String.toList h
      simp at hchars
  · intro heq
    subst heq
    rfl

end Remark

namespace Node

variable {catalogue : Catalogue} {spec : InputSpec} {node : Node}
  {feeds : List (Option NodeResult)} {result : NodeResult}

theorem mem_complete_iff {shape : Option Shape} {remarks : List Remark} {remark : Remark} :
    remark ∈ complete shape remarks ↔ remark ∈ remarks ∨
      shape = none ∧ Remark.status remarks ≠ .error ∧ remark = .noShape := by
  unfold complete
  cases shape with
  | some shape => simp
  | none =>
    by_cases herror : Remark.status remarks = .error
    · simp [herror]
    · simp [herror]

theorem not_mem_complete {remark : Remark} {shape : Option Shape} {remarks : List Remark}
    (hne : remark ≠ .noShape) (h : remark ∉ remarks) : remark ∉ complete shape remarks := by
  rw [mem_complete_iff]
  simp [hne, h]

theorem mem_complete {remark : Remark} {shape : Option Shape} {remarks : List Remark}
    (h : remark ∈ remarks) : remark ∈ complete shape remarks :=
  mem_complete_iff.2 (.inl h)

theorem complete_status (remarks : List Remark) :
    Remark.status (complete none remarks) = .error := by
  unfold complete
  split
  · exact (Remark.status_eq_error_iff _).2 ⟨.noShape, by simp, rfl⟩
  · simp_all

theorem evaluateAs_eq_ok {layer : Layer} :
    evaluateAs layer spec node feeds = .ok result ↔
      ∃ type, node.outputType spec (layer.resolve node.params) feeds = .ok type ∧
        result = node.result
          (node.inputShape spec (sized layer (inputShapes feeds) (layer.resolve node.params)).1) type
          (complete
            (node.inputShape spec (sized layer (inputShapes feeds) (layer.resolve node.params)).1)
            (arity layer feeds.length (inputShapes feeds).length
              ++ (sized layer (inputShapes feeds) (layer.resolve node.params)).2
              ++ checked layer (inputShapes feeds) (layer.resolve node.params))) := by
  simp only [evaluateAs, bind_eq_ok, pure, Except.pure, Except.ok.injEq, eq_comm (b := result)]

theorem cycle_not_mem_arity (layer : Layer) (edges shapes : Nat) :
    Remark.cycle ∉ arity layer edges shapes := by
  cases hmost : layer.maxInputs with
  | none => simp [arity, hmost]
  | some most => simp [arity, hmost]

theorem cycle_not_mem_sized (layer : Layer) (inputs : List Shape) (params : Fields) :
    Remark.cycle ∉ (sized layer inputs params).2 := by
  unfold sized
  split <;> simp

theorem cycle_not_mem_checked (layer : Layer) (inputs : List Shape) (params : Fields) :
    Remark.cycle ∉ checked layer inputs params := by
  unfold checked
  split
  · simp
  · split <;> simp

theorem evaluate_messages (h : node.evaluate catalogue spec feeds = .ok result) :
    "Cycle detected" ∉ result.messages := by
  have hremarks : ∃ remarks : List Remark, .cycle ∉ remarks ∧
      result.messages = remarks.map (·.message) := by
    unfold evaluate at h
    split at h
    · cases h
      exact ⟨[.unknownKind node.kind], by simp, rfl⟩
    · obtain ⟨type, -, rfl⟩ := evaluateAs_eq_ok.1 h
      refine ⟨_, not_mem_complete (by simp) ?_, rfl⟩
      simp only [List.mem_append, not_or]
      exact ⟨⟨cycle_not_mem_arity _ _ _, cycle_not_mem_sized _ _ _⟩, cycle_not_mem_checked _ _ _⟩
  obtain ⟨remarks, hnone, hmessages⟩ := hremarks
  rw [hmessages]
  intro hmem
  obtain ⟨remark, hremark, hmessage⟩ := List.mem_map.1 hmem
  rw [(Remark.message_eq_cycle_iff remark).1 hmessage] at hremark
  exact hnone hremark

/-- What a node without error was given: its kind is known, the inputs with a shape are as many as
it takes, and its rule gave the shape that it has. -/
structure Sound (catalogue : Catalogue) (spec : InputSpec) (node : Node) (inputs : List Shape)
    (shape : Option Shape) (layer : Layer) : Prop where
  known : catalogue.find? node.kind = some layer
  least : layer.minInputs ≤ inputs.length
  most : ∀ most, layer.maxInputs = some most → inputs.length ≤ most
  sized : ∃ size, layer.shape inputs (layer.resolve node.params) = .ok size ∧
    shape = node.inputShape spec size
  shaped : shape.isSome

theorem evaluate_sound (h : node.evaluate catalogue spec feeds = .ok result)
    (hclean : result.status ≠ .error) :
    ∃ layer, Sound catalogue spec node (inputShapes feeds) result.shape layer := by
  unfold evaluate at h
  split at h
  · cases h
    exact absurd rfl hclean
  · rename_i layer hfind
    obtain ⟨type, -, rfl⟩ := evaluateAs_eq_ok.1 h
    have hnone : ∀ remark ∈ arity layer feeds.length (inputShapes feeds).length
        ++ (Node.sized layer (inputShapes feeds) (layer.resolve node.params)).2
        ++ checked layer (inputShapes feeds) (layer.resolve node.params),
        remark.severity ≠ .error := fun remark hremark herror =>
      hclean ((Remark.status_eq_error_iff _).2 ⟨remark, mem_complete hremark, herror⟩)
    refine ⟨layer, hfind, ?_, ?_, ?_, ?_⟩
    · by_contra hfew
      exact hnone (.tooFewInputs layer.minInputs) (by simp [arity]; omega) rfl
    · intro most hmost
      by_contra hmany
      exact hnone (.tooManyInputs most) (by simp [arity, hmost]; omega) rfl
    · cases hrule : layer.shape (inputShapes feeds) (layer.resolve node.params) with
      | ok size => exact ⟨size, rfl, by simp [result, Node.sized, hrule]⟩
      | error fault => exact absurd rfl (hnone (.notSized fault) (by simp [Node.sized, hrule]))
    · cases hshape : node.inputShape spec
          (Node.sized layer (inputShapes feeds) (layer.resolve node.params)).1 with
      | some shape => simp [result]
      | none => exact absurd (by simp [result, hshape, complete_status]) hclean

end Node

namespace Graph

variable {catalogue : Catalogue} {graph : Graph} {context : Context}

/-- The result of a cycle is given to the ids that the order of evaluation leaves out, and to no
others. -/
theorem get?_eq_cycleResult_iff (h : graph.infer catalogue = .ok context) {id : String} :
    context.results.get? id = some (Node.cycleResult id) ↔ id ∈ graph.cyclic := by
  refine ⟨fun hresult => ?_, fun hid => get?_of_cyclic h hid⟩
  obtain ⟨progress, hrun, rfl⟩ := infer_eq_ok.1 h
  have hentries : ∀ entry ∈ progress.results, "Cycle detected" ∈ entry.2.messages →
      entry.1 ∈ graph.cyclic := by
    refine foldlM_invariant (fun _ progress : _ => ∀ entry ∈ progress.results,
      "Cycle detected" ∈ entry.2.messages → entry.1 ∈ graph.cyclic) hrun ?_ ?_
    · intro entry hentry _
      obtain ⟨id, hid, rfl⟩ := mem_cycleResults hentry
      exact hid
    · intro before node after progress next _ hold hnext entry hentry hmessage
      obtain ⟨result, lines, hresult, -, rfl⟩ := advance_eq_ok.1 hnext
      rcases Table.mem_put hentry with rfl | hin
      · exact absurd hmessage (Node.evaluate_messages hresult)
      · exact hold entry hin hmessage
  exact hentries (id, Node.cycleResult id) (Table.mem_of_get? hresult)
    (List.mem_singleton.2 rfl)

theorem hasErrors_eq_false_iff (h : graph.infer catalogue = .ok context) :
    context.hasErrors = false ↔ ∀ entry ∈ context.results, entry.2.status ≠ .error := by
  obtain ⟨progress, -, rfl⟩ := infer_eq_ok.1 h
  simp

theorem hasErrors_of_cyclic (h : graph.infer catalogue = .ok context) {id : String}
    (hid : id ∈ graph.cyclic) : context.hasErrors = true := by
  by_contra hnone
  rw [Bool.not_eq_true, hasErrors_eq_false_iff h] at hnone
  exact hnone _ (Table.mem_of_get? (get?_of_cyclic h hid)) rfl

end Graph

end LayerGraph
