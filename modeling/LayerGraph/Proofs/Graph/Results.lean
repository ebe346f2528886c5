import LayerGraph.Proofs.Graph.Remarks
set_option autoImplicit false

namespace LayerGraph

namespace Status

theorem rank_escalate (current new : Status) :
    (current.escalate new).rank = max current.rank new.rank := by
  cases current <;> cases new <;> decide

theorem eq_valid_iff (status : Status) : status = .valid ↔ 1 ≤ status.rank ∧ status.rank ≤ 1 := by
  cases status <;> decide

theorem name_injective {s t : Status} (h : s.name = t.name) : s = t := by
  revert h
  cases s <;> cases t <;> decide

theorem rank_injective {s t : Status} (h : s.rank = t.rank) : s = t := by
  revert h
  cases s <;> cases t <;> decide

end Status

namespace Remark

theorem rank_status_le_iff (remarks : List Remark) (n : Nat) :
    (status remarks).rank ≤ n ↔ 1 ≤ n ∧ ∀ remark ∈ remarks, remark.severity.status.rank ≤ n := by
  have hfrom : ∀ current : Status,
      (remarks.foldl (fun status remark => status.escalate remark.severity.status) current).rank ≤ n ↔
        current.rank ≤ n ∧ ∀ remark ∈ remarks, remark.severity.status.rank ≤ n := by
    induction remarks with
    | nil => simp
    | cons remark remarks ih =>
      intro current
      rw [List.foldl_cons, ih, Status.rank_escalate, List.forall_mem_cons, Nat.max_le, and_assoc]
  exact hfrom .valid

theorem rank_status_mono {remarks others : List Remark} (h : ∀ remark ∈ remarks, remark ∈ others) :
    (status remarks).rank ≤ (status others).rank := by
  obtain ⟨hvalid, hothers⟩ := (rank_status_le_iff others _).1 (Nat.le_refl _)
  exact (rank_status_le_iff remarks _).2 ⟨hvalid, fun remark hremark => hothers _ (h remark hremark)⟩

theorem one_le_rank_status (remarks : List Remark) : 1 ≤ (status remarks).rank :=
  ((rank_status_le_iff remarks _).1 (Nat.le_refl _)).1

theorem status_eq_valid_iff (remarks : List Remark) : status remarks = .valid ↔ remarks = [] := by
  rw [Status.eq_valid_iff]
  refine ⟨fun h => ?_, fun h => ?_⟩
  · refine List.eq_nil_iff_forall_not_mem.2 fun remark hremark => ?_
    have hbad := ((rank_status_le_iff remarks 1).1 h.2).2 remark hremark
    revert hbad
    cases remark.severity <;> decide
  · subst h
    decide

theorem rank_severity_le (remark : Remark) : remark.severity.status.rank ≤ Status.error.rank := by
  cases remark.severity <;> decide

theorem status_ne_pending (remarks : List Remark) : status remarks ≠ .pending := by
  intro h
  have hrank := one_le_rank_status remarks
  rw [h] at hrank
  exact absurd hrank (by decide)

theorem exists_worst (remarks : List Remark) :
    status remarks = .valid ∨ ∃ remark ∈ remarks, remark.severity.status = status remarks := by
  cases hstatus : status remarks with
  | pending => exact absurd hstatus (status_ne_pending remarks)
  | valid => exact .inl rfl
  | warning =>
    have hsome : remarks ≠ [] := by
      intro hnil
      rw [(status_eq_valid_iff remarks).2 hnil] at hstatus
      cases hstatus
    obtain ⟨remark, hremark⟩ := List.exists_mem_of_ne_nil remarks hsome
    have hrank := ((rank_status_le_iff remarks _).1 (Nat.le_refl _)).2 remark hremark
    rw [hstatus] at hrank
    refine .inr ⟨remark, hremark, ?_⟩
    revert hrank
    cases remark.severity <;> decide
  | error =>
    obtain ⟨remark, hremark, herror⟩ := (status_eq_error_iff remarks).1 hstatus
    exact .inr ⟨remark, hremark, by rw [herror]; rfl⟩

end Remark

/-- What a result says of itself, under the id that it stands under. -/
structure NodeResult.Accounts (result : NodeResult) (id : String) : Prop where
  node : result.node = id
  decided : result.status ≠ .pending
  valid : result.status = .valid ↔ result.messages = []
  shown : ∀ shape, result.shape = some shape → shape.all isWritable = true

namespace Node

variable {catalogue : Catalogue} {spec : InputSpec} {node : Node}
  {feeds : List (Option NodeResult)} {result : NodeResult}

theorem evaluate_remarks (h : node.evaluate catalogue spec feeds = .ok result) :
    ∃ remarks shape type, result = node.result shape type remarks ∧
      (catalogue.find? node.kind = none → shape = none) := by
  unfold evaluate at h
  split at h
  · cases h
    exact ⟨_, _, _, rfl, fun _ => rfl⟩
  · rename_i layer hfind
    obtain ⟨type, -, rfl⟩ := evaluateAs_eq_ok.1 h
    exact ⟨_, _, _, rfl, fun hnone => by simp [hnone] at hfind⟩

end Node

namespace Graph

variable {catalogue : Catalogue} {graph : Graph} {context : Context} {node : Node}

theorem label_eq_ok_iff (shape : Option Shape) :
    (∃ text, Shape.label shape = .ok text) ↔ ∀ s, shape = some s → s.all isWritable = true := by
  cases shape with
  | none => simp [Shape.label]
  | some shape =>
    rw [Shape.label]
    split
    · rename_i h
      simpa using h
    · rename_i h
      simp only [reduceCtorEq, exists_false, Option.some.injEq, forall_eq', h]

theorem traceLines_eq_ok_iff (shape : Option Shape) :
    (∃ lines, graph.traceLines catalogue node shape = .ok lines) ↔
      ((catalogue.find? node.kind).isSome → ∀ s, shape = some s → s.all isWritable = true) := by
  by_cases hknown : (catalogue.find? node.kind).isSome = true
  · simp only [hknown, true_implies, ← label_eq_ok_iff, traceLines, if_pos, traceLine]
    cases Shape.label shape with
    | error fault => simp [bind, Except.bind, Except.map]
    | ok text =>
      simp only [bind, Except.bind, Except.ok.injEq, exists_eq', iff_true]
      split <;> exact ⟨_, rfl⟩
  · simp [traceLines, hknown]

/-- What holds of the results of cycles and of every evaluation holds of all results. -/
theorem forall_results (P : String → NodeResult → Prop)
    (hcycle : ∀ id ∈ graph.cyclic, P id (Node.cycleResult id))
    (hnode : ∀ node feeds result lines, node.evaluate catalogue graph.input feeds = .ok result →
      graph.traceLines catalogue node result.shape = .ok lines → P node.id result)
    (hinfer : graph.infer catalogue = .ok context) :
    ∀ entry ∈ context.results, P entry.1 entry.2 := by
  obtain ⟨progress, hrun, rfl⟩ := infer_eq_ok.1 hinfer
  refine foldlM_invariant (fun _ progress : _ => ∀ entry ∈ progress.results, P entry.1 entry.2)
    hrun ?_ ?_
  · intro entry hentry
    obtain ⟨id, hid, rfl⟩ := mem_cycleResults hentry
    exact hcycle id hid
  · intro before node after progress next _ hold hnext entry hentry
    obtain ⟨result, lines, hresult, hlines, rfl⟩ := advance_eq_ok.1 hnext
    rcases Table.mem_put hentry with rfl | hin
    · exact hnode _ _ _ _ hresult hlines
    · exact hold entry hin

theorem results_account (hinfer : graph.infer catalogue = .ok context) :
    ∀ entry ∈ context.results, entry.2.Accounts entry.1 := by
  refine forall_results (fun id result => result.Accounts id) (fun id _ => ?_)
    (fun node feeds result lines hresult hlines => ?_) hinfer
  · exact ⟨rfl, by simp [Node.cycleResult], by simp [Node.cycleResult], by simp [Node.cycleResult]⟩
  · obtain ⟨remarks, shape, type, rfl, hunknown⟩ := Node.evaluate_remarks hresult
    refine ⟨rfl, Remark.status_ne_pending remarks, ?_, fun s hs => ?_⟩
    · change Remark.status remarks = .valid ↔ remarks.map _ = []
      rw [Remark.status_eq_valid_iff, List.map_eq_nil_iff]
    · change shape = some s at hs
      cases hfind : catalogue.find? node.kind with
      | none => simp [hunknown hfind] at hs
      | some layer => exact (traceLines_eq_ok_iff shape).1 ⟨lines, hlines⟩ (by simp [hfind]) s hs

end Graph

end LayerGraph
