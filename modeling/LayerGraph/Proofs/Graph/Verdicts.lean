import LayerGraph.Proofs.Graph.Faults
import LayerGraph.Proofs.Layer.Parameters
set_option autoImplicit false

/-!
Which checks find something wrong is said here without the walk of inference: with an id that the
order of evaluation leaves out, that it is left out; with any other one, what the kind of its node,
the number of its inputs and the rules of its layer have against the shapes that come before it. The
status of a result is that of the worst check that fires, whichever way the walk takes through them.
-/

namespace LayerGraph

namespace Layer

def Takes (layer : Layer) (count : Nat) : Prop :=
  layer.minInputs ≤ count ∧ ∀ most, layer.maxInputs = some most → count ≤ most

/-- What a layer has against its inputs: their number, a fault of one of its rules, or an error that
its check finds. -/
def Refuses (layer : Layer) (inputs : List Shape) (params : Fields) : Prop :=
  ¬layer.Takes inputs.length ∨
  (∃ fault, layer.shape inputs params = .error fault) ∨
  ∃ check, layer.check = some check ∧
    ((∃ fault, check inputs params = .error fault) ∨
      ∃ findings, check inputs params = .ok findings ∧
        ∃ finding ∈ findings, finding.severity = .error)

inductive Fires (layer : Layer) (edges : Nat) (inputs : List Shape) (params : Fields) :
    Remark → Prop where
  | waiting (fewer : inputs.length < edges) : Fires layer edges inputs params .waiting
  | tooFew (few : inputs.length < layer.minInputs) :
      Fires layer edges inputs params (.tooFewInputs layer.minInputs)
  | tooMany {most : Nat} (bound : layer.maxInputs = some most) (many : most < inputs.length) :
      Fires layer edges inputs params (.tooManyInputs most)
  | notSized {fault : Fault} (raised : layer.shape inputs params = .error fault) :
      Fires layer edges inputs params (.notSized fault)
  | notChecked {check : CheckRule} {fault : Fault} (checks : layer.check = some check)
      (raised : check inputs params = .error fault) :
      Fires layer edges inputs params (.notChecked fault)
  | found {check : CheckRule} {findings : List Finding} {finding : Finding}
      (checks : layer.check = some check) (passed : check inputs params = .ok findings)
      (listed : finding ∈ findings) : Fires layer edges inputs params (.found finding)

end Layer

inductive Node.Fires (catalogue : Catalogue) (spec : InputSpec) (node : Node) (edges : Nat)
    (inputs : List Shape) : Remark → Prop where
  | unknown (absent : catalogue.find? node.kind = none) :
      Fires catalogue spec node edges inputs (.unknownKind node.kind)
  | layer {layer : Layer} {remark : Remark} (known : catalogue.find? node.kind = some layer)
      (fires : layer.Fires edges inputs (layer.resolve node.params) remark) :
      Fires catalogue spec node edges inputs remark
  | noShape (unshaped : node.outputShape catalogue spec inputs = none) :
      Fires catalogue spec node edges inputs .noShape

/-- A node fails on its inputs: its kind is not known, its layer refuses them, or no shape comes of
them. -/
def Node.Fails (catalogue : Catalogue) (spec : InputSpec) (node : Node) (inputs : List Shape) :
    Prop :=
  catalogue.find? node.kind = none ∨
  (∃ layer, catalogue.find? node.kind = some layer ∧
    layer.Refuses inputs (layer.resolve node.params)) ∨
  node.outputShape catalogue spec inputs = none

/-- The checks that fire on an id: that the order leaves it out, and those on each turn of its
node. -/
inductive Graph.Fires (catalogue : Catalogue) (graph : Graph) (id : String) : Remark → Prop where
  | cycle (out : id ∈ graph.cyclic) : Fires catalogue graph id .cycle
  | turn {before after : List Node} {node : Node} {remark : Remark}
      (split : graph.ordered = before ++ node :: after) (named : node.id = id)
      (fires : node.Fires catalogue graph.input (graph.sources node.id).length
        (graph.inputsAfter catalogue before node) remark) :
      Fires catalogue graph id remark

/-- An id is left out of the order, or its node fails on the shapes that come before it. -/
def Graph.Fails (catalogue : Catalogue) (graph : Graph) (id : String) : Prop :=
  id ∈ graph.cyclic ∨
  ∃ before node after, graph.ordered = before ++ node :: after ∧ node.id = id ∧
    node.Fails catalogue graph.input (graph.inputsAfter catalogue before node)

/-- A result reflects the checks that fire: its status is the worst of theirs, and tells whether there
are messages and a shape. -/
structure NodeResult.Reflects (result : NodeResult) (fires : Remark → Prop) : Prop where
  decided : result.status ≠ .pending
  error : result.status = .error ↔ ∃ remark, fires remark ∧ remark.severity = .error
  valid : result.status = .valid ↔ result.messages = []
  warning : result.status = .warning ↔ result.status ≠ .error ∧ result.messages ≠ []
  explained : result.status = .error → result.messages ≠ []
  shaped : result.status ≠ .error → result.shape ≠ none
  bound : ∀ remark, fires remark → remark.severity.status.rank ≤ result.status.rank
  attained : result.status = .valid ∨
    ∃ remark, fires remark ∧ remark.severity.status = result.status
  said : ∀ message ∈ result.messages, ∃ remark, fires remark ∧ remark.message = message

namespace NodeResult

variable {result : NodeResult} {fires all : Remark → Prop}

/-- A result made of remarks reflects the checks that made them, and others that fire too if it is in
error anyway. -/
theorem reflects_of_remarks (remarks : List Remark)
    (hstatus : result.status = Remark.status remarks)
    (hmessages : result.messages = remarks.map (·.message))
    (hshape : result.shape = none → result.status = .error)
    (hfires : ∀ remark ∈ remarks, fires remark)
    (hrest : ∀ remark, fires remark → remark ∈ remarks ∨ result.status = .error) :
    result.Reflects fires := by
  have hvalid : result.status = .valid ↔ result.messages = [] := by
    rw [hstatus, hmessages, Remark.status_eq_valid_iff, List.map_eq_nil_iff]
  have hdecided : result.status ≠ .pending := hstatus ▸ Remark.status_ne_pending remarks
  refine ⟨hdecided, ⟨fun herror => ?_, ?_⟩, hvalid, ?_, fun herror hnone => ?_,
    fun hclean hnone => hclean (hshape hnone), fun remark hremark => ?_, ?_, fun message hin => ?_⟩
  · rw [hstatus, Remark.status_eq_error_iff] at herror
    obtain ⟨remark, hremark, hsevere⟩ := herror
    exact ⟨remark, hfires remark hremark, hsevere⟩
  · rintro ⟨remark, hremark, hsevere⟩
    rcases hrest remark hremark with hin | herror
    · rw [hstatus, Remark.status_eq_error_iff]
      exact ⟨remark, hin, hsevere⟩
    · exact herror
  · rw [Ne, Ne, ← hvalid]
    cases hcase : result.status with
    | pending => exact absurd hcase hdecided
    | valid | warning | error => decide
  · rw [← hvalid, herror] at hnone
    cases hnone
  · rcases hrest remark hremark with hin | herror
    · rw [hstatus]
      exact ((Remark.rank_status_le_iff remarks _).1 (Nat.le_refl _)).2 remark hin
    · rw [herror]
      exact remark.rank_severity_le
  · rw [hstatus]
    refine (Remark.exists_worst remarks).imp_right ?_
    rintro ⟨remark, hremark, hworst⟩
    exact ⟨remark, hfires remark hremark, hworst⟩
  · rw [hmessages] at hin
    obtain ⟨remark, hremark, rfl⟩ := List.mem_map.1 hin
    exact ⟨remark, hfires remark hremark, rfl⟩

/-- A result that reflects some checks, and others apart from them, reflects them all. -/
theorem Reflects.together (h : result.Reflects fires) (hpart : ∀ remark, fires remark → all remark)
    (hall : ∀ remark, all remark → ∃ part : Remark → Prop, result.Reflects part ∧ part remark) :
    result.Reflects all := by
  refine ⟨h.decided, ⟨fun herror => ?_, ?_⟩, h.valid, h.warning, h.explained, h.shaped,
    fun remark hremark => ?_, h.attained.imp_right ?_, fun message hin => ?_⟩
  · obtain ⟨remark, hremark, hsevere⟩ := h.error.1 herror
    exact ⟨remark, hpart remark hremark, hsevere⟩
  · rintro ⟨remark, hremark, hsevere⟩
    obtain ⟨part, hreflects, hin⟩ := hall remark hremark
    exact hreflects.error.2 ⟨remark, hin, hsevere⟩
  · obtain ⟨part, hreflects, hin⟩ := hall remark hremark
    exact hreflects.bound remark hin
  · rintro ⟨remark, hremark, hworst⟩
    exact ⟨remark, hpart remark hremark, hworst⟩
  · obtain ⟨remark, hremark, hmessage⟩ := h.said message hin
    exact ⟨remark, hpart remark hremark, hmessage⟩

end NodeResult

namespace Layer

variable {layer : Layer} {edges : Nat} {inputs : List Shape} {params : Fields} {remark : Remark}

theorem mem_arity_iff :
    remark ∈ Node.arity layer edges inputs.length ↔
      (inputs.length < edges ∧ remark = .waiting) ∨
      (inputs.length < layer.minInputs ∧ remark = .tooFewInputs layer.minInputs) ∨
      ∃ most, layer.maxInputs = some most ∧ most < inputs.length ∧ remark = .tooManyInputs most := by
  unfold Node.arity
  rw [List.mem_append, List.mem_append, or_assoc, List.mem_ite_nil_right, List.mem_singleton,
    List.mem_ite_nil_right, List.mem_singleton]
  refine or_congr_right (or_congr_right ?_)
  cases layer.maxInputs with
  | none => simp
  | some most => simp

theorem mem_sized_iff :
    remark ∈ (Node.sized layer inputs params).2 ↔
      ∃ fault, layer.shape inputs params = .error fault ∧ remark = .notSized fault := by
  unfold Node.sized
  cases layer.shape inputs params with
  | ok shape => simp
  | error fault => simp

theorem mem_checked_iff :
    remark ∈ Node.checked layer inputs params ↔
      ∃ check, layer.check = some check ∧
        ((∃ fault, check inputs params = .error fault ∧ remark = .notChecked fault) ∨
          ∃ findings, check inputs params = .ok findings ∧
            ∃ finding ∈ findings, remark = .found finding) := by
  unfold Node.checked
  cases layer.check with
  | none => simp
  | some check =>
    cases hcheck : check inputs params with
    | ok findings => simp [hcheck, eq_comm (a := remark)]
    | error fault => simp [hcheck]

/-- What is said of a node of a known kind, but for a missing shape, is what fires on its layer. -/
theorem fires_iff :
    layer.Fires edges inputs params remark ↔
      remark ∈ Node.arity layer edges inputs.length ++ (Node.sized layer inputs params).2 ++
        Node.checked layer inputs params := by
  rw [List.mem_append, List.mem_append, mem_arity_iff, mem_sized_iff, mem_checked_iff]
  constructor
  · intro h
    cases h with
    | waiting fewer => exact .inl (.inl (.inl ⟨fewer, rfl⟩))
    | tooFew few => exact .inl (.inl (.inr (.inl ⟨few, rfl⟩)))
    | tooMany bound many => exact .inl (.inl (.inr (.inr ⟨_, bound, many, rfl⟩)))
    | notSized raised => exact .inl (.inr ⟨_, raised, rfl⟩)
    | notChecked checks raised => exact .inr ⟨_, checks, .inl ⟨_, raised, rfl⟩⟩
    | found checks passed listed => exact .inr ⟨_, checks, .inr ⟨_, passed, _, listed, rfl⟩⟩
  · rintro (((⟨fewer, rfl⟩ | ⟨few, rfl⟩ | ⟨most, bound, many, rfl⟩) | ⟨fault, raised, rfl⟩) |
      ⟨check, checks, ⟨fault, raised, rfl⟩ | ⟨findings, passed, finding, listed, rfl⟩⟩)
    · exact .waiting fewer
    · exact .tooFew few
    · exact .tooMany bound many
    · exact .notSized raised
    · exact .notChecked checks raised
    · exact .found checks passed listed

theorem refuses_iff :
    layer.Refuses inputs params ↔
      ∃ remark, layer.Fires edges inputs params remark ∧ remark.severity = .error := by
  constructor
  · rintro (harity | ⟨fault, raised⟩ | ⟨check, checks, hcheck⟩)
    · by_cases hfew : inputs.length < layer.minInputs
      · exact ⟨_, .tooFew hfew, rfl⟩
      · have hmany : ∃ most, layer.maxInputs = some most ∧ most < inputs.length := by
          by_contra hnone
          exact harity ⟨Nat.le_of_not_lt hfew, fun most bound =>
            Nat.le_of_not_lt fun many => hnone ⟨most, bound, many⟩⟩
        obtain ⟨most, bound, many⟩ := hmany
        exact ⟨_, .tooMany bound many, rfl⟩
    · exact ⟨_, .notSized raised, rfl⟩
    · rcases hcheck with ⟨fault, raised⟩ | ⟨findings, passed, finding, listed, hsevere⟩
      · exact ⟨_, .notChecked checks raised, rfl⟩
      · exact ⟨_, .found checks passed listed, hsevere⟩
  · rintro ⟨remark, hfires, hsevere⟩
    cases hfires with
    | waiting fewer => cases hsevere
    | tooFew few => exact .inl fun htakes => Nat.not_le_of_lt few htakes.1
    | tooMany bound many => exact .inl fun htakes => Nat.not_le_of_lt many (htakes.2 _ bound)
    | notSized raised => exact .inr (.inl ⟨_, raised⟩)
    | notChecked checks raised => exact .inr (.inr ⟨_, checks, .inl ⟨_, raised⟩⟩)
    | found checks passed listed =>
      exact .inr (.inr ⟨_, checks, .inr ⟨_, passed, _, listed, hsevere⟩⟩)

end Layer

namespace Node

variable {catalogue : Catalogue} {spec : InputSpec} {node : Node} {edges : Nat}
  {inputs : List Shape}

theorem fails_iff :
    node.Fails catalogue spec inputs ↔
      ∃ remark, node.Fires catalogue spec edges inputs remark ∧ remark.severity = .error := by
  constructor
  · rintro (unknown | ⟨layer, known, hrefuses⟩ | unshaped)
    · exact ⟨_, .unknown unknown, rfl⟩
    · obtain ⟨remark, hfires, hsevere⟩ := Layer.refuses_iff.1 hrefuses
      exact ⟨remark, .layer known hfires, hsevere⟩
    · exact ⟨_, .noShape unshaped, rfl⟩
  · rintro ⟨remark, hfires, hsevere⟩
    cases hfires with
    | unknown unknown => exact .inl unknown
    | layer known fires => exact .inr (.inl ⟨_, known, Layer.refuses_iff.2 ⟨remark, fires, hsevere⟩⟩)
    | noShape unshaped => exact .inr (.inr unshaped)

theorem reflects_of_evaluate {feeds : List (Option NodeResult)} {result : NodeResult}
    (h : node.evaluate catalogue spec feeds = .ok result) :
    result.Reflects (node.Fires catalogue spec feeds.length (inputShapes feeds)) := by
  have hshape := Graph.evaluate_shape h
  unfold evaluate at h
  split at h
  · rename_i unknown
    cases h
    -- The missing shape fires as well, but the kind has put the node in error before.
    refine NodeResult.reflects_of_remarks [.unknownKind node.kind] rfl rfl (fun _ => rfl) ?_
      fun _ _ => .inr rfl
    rintro remark hremark
    obtain rfl := List.mem_singleton.1 hremark
    exact .unknown unknown
  · rename_i layer known
    obtain ⟨type, -, heq⟩ := evaluateAs_eq_ok.1 h
    have hsized : result.shape = node.inputShape spec
        (sized layer (inputShapes feeds) (layer.resolve node.params)).1 := by
      rw [heq]
      rfl
    rw [← hsized] at heq
    have hstatus := congrArg NodeResult.status heq
    have herror : result.shape = none → result.status = .error := by
      intro hnone
      rw [hstatus, hnone]
      exact complete_status _
    refine NodeResult.reflects_of_remarks _ hstatus (congrArg NodeResult.messages heq) herror
      (fun remark hremark => ?_) fun remark hfires => ?_
    · rcases mem_complete_iff.1 hremark with hin | ⟨hnone, -, rfl⟩
      · exact .layer known (Layer.fires_iff.2 hin)
      · exact .noShape (hshape.symm.trans hnone)
    · cases hfires with
      | unknown unknown => rw [known] at unknown; cases unknown
      | layer found fires =>
        obtain rfl := Option.some.inj (known.symm.trans found)
        exact .inl (mem_complete (Layer.fires_iff.1 fires))
      | noShape unshaped => exact .inr (herror (hshape.trans unshaped))

end Node

namespace Graph

variable {catalogue : Catalogue} {graph : Graph} {context : Context} {before after : List Node}
  {node : Node} {id : String}

theorem fails_iff :
    graph.Fails catalogue id ↔
      ∃ remark, graph.Fires catalogue id remark ∧ remark.severity = .error := by
  constructor
  · rintro (out | ⟨before, node, after, split, named, hfails⟩)
    · exact ⟨_, .cycle out, rfl⟩
    · obtain ⟨remark, hfires, hsevere⟩ := Node.fails_iff.1 hfails
      exact ⟨remark, .turn split named hfires, hsevere⟩
  · rintro ⟨remark, hfires, hsevere⟩
    cases hfires with
    | cycle out => exact .inl out
    | turn split named fires =>
      exact .inr ⟨_, _, _, split, named, Node.fails_iff.2 ⟨remark, fires, hsevere⟩⟩

/-- What stands at the end for a node reflects the checks that fire on each of its turns. -/
theorem reflects_of_turn (hinfer : graph.infer catalogue = .ok context)
    (hsplit : graph.ordered = before ++ node :: after) :
    ∃ result, context.results.get? node.id = some result ∧
      result.Reflects (node.Fires catalogue graph.input (graph.sources node.id).length
        (graph.inputsAfter catalogue before node)) := by
  obtain ⟨progress, result, hturn⟩ := exists_turn hinfer hsplit
  have hreflects := Node.reflects_of_evaluate hturn.evaluated
  rw [inputs_of_reached hturn.reached, List.length_map] at hreflects
  exact ⟨result, hturn.kept, hreflects⟩

theorem reflects_of_cyclic (hid : id ∈ graph.cyclic) :
    (Node.cycleResult id).Reflects (graph.Fires catalogue id) := by
  refine NodeResult.reflects_of_remarks [.cycle] rfl rfl (fun _ => rfl) ?_ fun _ _ => .inr rfl
  rintro remark hremark
  obtain rfl := List.mem_singleton.1 hremark
  exact .cycle hid

theorem reflects_of_get? (hinfer : graph.infer catalogue = .ok context) (hid : id ∈ graph.ids)
    {result : NodeResult} (hresult : context.results.get? id = some result) :
    result.Reflects (graph.Fires catalogue id) := by
  rcases mem_cyclic_or_ordered hid with hcyclic | ⟨node, hnode, rfl⟩
  · obtain rfl : Node.cycleResult id = result :=
      Option.some.inj ((get?_of_cyclic hinfer hcyclic).symm.trans hresult)
    exact reflects_of_cyclic hcyclic
  · -- A repeated id has several turns, and the one result that stands reflects each of them.
    obtain ⟨before, after, hsplit⟩ := List.append_of_mem hnode
    have hturn : ∀ {before after : List Node} {other : Node},
        graph.ordered = before ++ other :: after → other.id = node.id →
        result.Reflects (other.Fires catalogue graph.input (graph.sources other.id).length
          (graph.inputsAfter catalogue before other)) := by
      intro before after other hcut hother
      obtain ⟨kept, hkept, hreflects⟩ := reflects_of_turn hinfer hcut
      obtain rfl : kept = result := Option.some.inj (hkept.symm.trans (hother ▸ hresult))
      exact hreflects
    refine (hturn hsplit rfl).together (fun remark hremark => .turn hsplit rfl hremark)
      fun remark hremark => ?_
    cases hremark with
    | cycle out => exact absurd out (not_mem_cyclic_of_ordered hnode)
    | turn split named fires => exact ⟨_, hturn split named, fires⟩

theorem results_nodup (hinfer : graph.infer catalogue = .ok context) :
    (context.results.map (·.1)).Nodup := by
  obtain ⟨final, hrun, rfl⟩ := infer_eq_ok.1 hinfer
  refine foldlM_invariant (fun _ progress : _ => (progress.results.map (·.1)).Nodup) hrun ?_ ?_
  · change (graph.cycleResults.map (·.1)).Nodup
    rw [cycleResults]
    refine List.foldlRecOn (motive := fun table : Table NodeResult => (table.map (·.1)).Nodup)
      graph.cyclic _ ?_ fun table hkeys id _ => Table.nodup_put hkeys id _
    exact List.nodup_nil
  · intro before node after progress next _ hkeys hnext
    obtain ⟨result, lines, -, -, rfl⟩ := advance_eq_ok.1 hnext
    exact Table.nodup_put hkeys _ _

theorem mem_results_iff (hinfer : graph.infer catalogue = .ok context) :
    id ∈ context.results.map (·.1) ↔ id ∈ graph.ids := by
  obtain ⟨final, hrun, rfl⟩ := infer_eq_ok.1 hinfer
  rw [mem_keys_of_reached hrun]
  refine ⟨?_, fun hid => (mem_cyclic_or_ordered hid).imp_right List.mem_map.2⟩
  rintro (hcyclic | hordered)
  · exact (mem_cyclic.1 hcyclic).1
  · obtain ⟨node, hnode, rfl⟩ := List.mem_map.1 hordered
    exact mem_ids_of_ordered hnode

/-- Every declared id, and no other one, has a result. It is in error exactly if its node is left out
or fails, its status is that of the worst of all checks that fire on it, and the graph has errors
exactly if some result is one. -/
theorem infer_verdicts (hinfer : graph.infer catalogue = .ok context) :
    (∀ id, id ∈ graph.ids ↔ ∃ result, (id, result) ∈ context.results) ∧
    (∀ id result, (id, result) ∈ context.results →
      result.Reflects (graph.Fires catalogue id) ∧
      (result.status = .error ↔ graph.Fails catalogue id)) ∧
    (context.hasErrors = true ↔ ∃ id result, (id, result) ∈ context.results ∧
      result.status = .error) := by
  refine ⟨fun id => ?_, fun id result hentry => ?_, ?_⟩
  · rw [← mem_results_iff hinfer, List.mem_map]
    simp
  · have hid := (mem_results_iff hinfer).1 (List.mem_map_of_mem hentry)
    have hreflects := reflects_of_get? hinfer hid (Table.get?_of_mem (results_nodup hinfer) hentry)
    exact ⟨hreflects, hreflects.error.trans fails_iff.symm⟩
  · rw [← Bool.not_eq_false, hasErrors_eq_false_iff hinfer]
    simp

/-- A graph with a result of every status: a repeated input, a node that also reads an id that is not
declared, one that reads itself, one of no known kind, one whose check finds an error, and one without
inputs. -/
def mixed : Graph where
  nodes := [⟨"in", "Input", "", []⟩, ⟨"in", "Input", "", []⟩, ⟨"half", "ReLU", "", []⟩,
    ⟨"loop", "ReLU", "", []⟩, ⟨"odd", "Attention", "", []⟩, ⟨"narrow", "Linear", "", []⟩,
    ⟨"bare", "ReLU", "", []⟩]
  edges := [⟨"1", "in", "half", none⟩, ⟨"2", "ghost", "half", none⟩, ⟨"3", "loop", "loop", none⟩,
    ⟨"4", "in", "odd", none⟩, ⟨"5", "in", "narrow", none⟩]

theorem mixed_verdicts :
    ∃ context, mixed.infer Catalogue.standard = .ok context ∧
      context.results.map (fun entry => (entry.1, entry.2.status)) =
        [("loop", .error), ("in", .valid), ("bare", .error), ("half", .warning),
          ("odd", .error), ("narrow", .error)] ∧
      (∀ id result, (id, result) ∈ context.results →
        result.Reflects (mixed.Fires Catalogue.standard id) ∧
        (result.status = .error ↔ mixed.Fails Catalogue.standard id)) ∧
      context.hasErrors = true := by
  have hrun : ((mixed.infer Catalogue.standard).toOption.map fun context =>
      context.results.map fun entry => (entry.1, entry.2.status)) = some
        [("loop", .error), ("in", .valid), ("bare", .error), ("half", .warning),
          ("odd", .error), ("narrow", .error)] := by
    decide +kernel
  obtain ⟨context, hsome, hstatuses⟩ := Option.map_eq_some_iff.1 hrun
  have hinfer := eq_ok_of_toOption hsome
  obtain ⟨-, hreflects, herrors⟩ := infer_verdicts hinfer
  refine ⟨context, hinfer, hstatuses, hreflects, herrors.2 ?_⟩
  have hloop : ("loop", Status.error) ∈
      context.results.map fun entry => (entry.1, entry.2.status) := by
    rw [hstatuses]
    exact List.mem_cons_self
  obtain ⟨⟨id, result⟩, hentry, heq⟩ := List.mem_map.1 hloop
  exact ⟨id, result, hentry, congrArg (·.2) heq⟩

end Graph

end LayerGraph
