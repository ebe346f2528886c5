import LayerGraph.Document.Graph
set_option autoImplicit false

namespace LayerGraph

namespace Document

variable {α : Type}

theorem Checked.collect_valid (as : List α) : Checked.collect (as.map .valid) = .valid as := by
  induction as with
  | nil => rfl
  | cons a as ih =>
    rw [List.map_cons, Checked.collect, ih]
    rfl

namespace Decoder

theorem list_write {decode : Decoder α} (write : α → Value) (h : ∀ a, decode (write a) = .valid a)
    (as : List α) : Decoder.list decode (.list (as.map write)) = .valid as := by
  have hitems : (as.map write).mapIdx (fun position item => (decode item).under (.index position)) =
      as.map .valid := by
    refine List.ext_getElem (by simp) fun position _ _ => ?_
    simp [h, Checked.under]
  rw [Decoder.list, hitems, Checked.collect_valid]

theorem optional_write {decode : Decoder α} (write : α → Value)
    (h : ∀ a, decode (write a) = .valid a) (hnull : ∀ a, write a ≠ .null) (a? : Option α) :
    Decoder.optional decode (.ofOption write a?) = .valid a? := by
  cases a? with
  | none => rfl
  | some a =>
    rw [Value.ofOption, Decoder.optional, h]
    · rfl
    · exact hnull a

theorem among_name {values : List α} {name : α → String} (hnames : (values.map name).Nodup) {a : α}
    (ha : a ∈ values) : Decoder.among values name (.str (name a)) = .valid a := by
  have hfind : values.find? (name · == name a) = some a := by
    induction values with
    | nil => cases ha
    | cons first values ih =>
      rw [List.map_cons, List.nodup_cons] at hnames
      rcases List.mem_cons.1 ha with rfl | hrest
      · simp
      · have hne : name first ≠ name a := fun heq =>
          hnames.1 (heq ▸ List.mem_map_of_mem hrest)
        rw [List.find?_cons_of_neg (by simpa using hne), ih hnames.2 hrest]
  simp only [Decoder.among, hfind]

end Decoder

theorem field_of_get? {fields : Fields} (name : String) {decode : Decoder α} {v : Value} {a : α}
    (hget : fields.get? name = some v) (hread : decode v = .valid a) (default : Option α)
    (aliases : List String) : field fields name decode default aliases = .valid a := by
  have hhas : fields.has name = true := by
    rw [Table.has_iff]
    exact List.mem_map_of_mem (Table.mem_of_get? hget)
  unfold field
  rw [List.find?_cons_of_pos hhas]
  simp only [Fields.get, hget, Option.getD_some, hread]
  rfl

theorem defaulted_of_get? {fields : Fields} (name : String) {decode : Decoder α} {v : Value} {a : α}
    (hget : fields.get? name = some v) (hread : decode v = .valid a) (default : α)
    (aliases : List String) : defaulted fields name decode default aliases = .valid a :=
  field_of_get? name hget hread (some default) aliases

theorem required_of_get? {fields : Fields} (name : String) {decode : Decoder α} {v : Value} {a : α}
    (hget : fields.get? name = some v) (hread : decode v = .valid a) (aliases : List String) :
    required fields name decode aliases = .valid a :=
  field_of_get? name hget hread none aliases

end Document

open Document

theorem ElementType.decode_name (type : ElementType) :
    ElementType.decode (.str type.name) = .valid type :=
  Decoder.among_name (by decide) (by cases type <;> decide)

theorem InputSpec.decode_toValue (spec : InputSpec) :
    InputSpec.decode spec.toValue = .valid spec := by
  have hshape : Decoder.list .integer (.list (spec.shape.map .int)) = .valid spec.shape :=
    Decoder.list_write .int (fun _ => rfl) spec.shape
  have htype := ElementType.decode_name spec.type
  rw [InputSpec.toValue, InputSpec.decode, Decoder.model, InputSpec.decodeFields,
    defaulted_of_get? "shape" rfl hshape, defaulted_of_get? "dtype" rfl htype]
  rfl

theorem Training.decode_toValue (t : Training) : Training.decode t.toValue = .valid t := by
  have htask : Decoder.among Task.all Task.name (.str t.task.name) = .valid t.task :=
    Decoder.among_name (by decide) (by cases t.task <;> decide)
  have hclasses : Decoder.optional .integer (.ofOption .int t.classes) = .valid t.classes :=
    Decoder.optional_write .int (fun _ => rfl) (fun _ => Value.noConfusion) t.classes
  have hloss : Decoder.among Loss.all Loss.name (.str t.loss.name) = .valid t.loss :=
    Decoder.among_name (by decide) (by cases t.loss <;> decide)
  have hoptimizer :
      Decoder.among Optimizer.all Optimizer.name (.str t.optimizer.name) = .valid t.optimizer :=
    Decoder.among_name (by decide) (by cases t.optimizer <;> decide)
  have hdevice : Decoder.among Device.all Device.name (.str t.device.name) = .valid t.device :=
    Decoder.among_name (by decide) (by cases t.device <;> decide)
  have hrate : Decoder.float (.float t.learningRate) = .valid t.learningRate := rfl
  have hbatch : Decoder.integer (.int t.batchSize) = .valid t.batchSize := rfl
  have hepochs : Decoder.integer (.int t.epochs) = .valid t.epochs := rfl
  have hmixed : Decoder.flag (.bool t.mixedPrecision) = .valid t.mixedPrecision := rfl
  rw [Training.toValue, Training.decode, Decoder.model, Training.decodeFields,
    defaulted_of_get? "task" rfl htask, defaulted_of_get? "num_classes" rfl hclasses,
    defaulted_of_get? "loss" rfl hloss, defaulted_of_get? "optimizer" rfl hoptimizer,
    defaulted_of_get? "learning_rate" rfl hrate, defaulted_of_get? "batch_size" rfl hbatch,
    defaulted_of_get? "epochs" rfl hepochs, defaulted_of_get? "mixed_precision" rfl hmixed,
    defaulted_of_get? "device_pref" rfl hdevice]
  rfl

theorem Node.decode_toValue (node : Node) : Node.decode node.toValue = .valid node := by
  have hid : Decoder.text (.str node.id) = .valid node.id := rfl
  have hkind : Decoder.text (.str node.kind) = .valid node.kind := rfl
  have hlabel : Decoder.text (.str node.label) = .valid node.label := rfl
  have hparams : Decoder.fields (.object node.params) = .valid node.params := rfl
  rw [Node.toValue, Node.decode, Decoder.model, required_of_get? "id" rfl hid,
    required_of_get? "kind" rfl hkind, defaulted_of_get? "label" rfl hlabel,
    defaulted_of_get? "params" rfl hparams]
  rfl

theorem Edge.decode_toValue (edge : Edge) : Edge.decode edge.toValue = .valid edge := by
  have hid : Decoder.text (.str edge.id) = .valid edge.id := rfl
  have hsource : Decoder.text (.str edge.source) = .valid edge.source := rfl
  have htarget : Decoder.text (.str edge.target) = .valid edge.target := rfl
  have hslot : Decoder.optional .text (.ofOption .str edge.slot) = .valid edge.slot :=
    Decoder.optional_write .str (fun _ => rfl) (fun _ => Value.noConfusion) edge.slot
  rw [Edge.toValue, Edge.decode, Decoder.model, required_of_get? "id" rfl hid,
    required_of_get? "source" rfl hsource, required_of_get? "target" rfl htarget,
    defaulted_of_get? "port" rfl hslot]
  rfl

/-- A graph is decoded from its own document. -/
theorem Graph.decode_toValue (graph : Graph) : Graph.decode graph.toValue = .valid graph := by
  have hnodes : Decoder.list Node.decode (.list (graph.nodes.map (·.toValue))) =
      .valid graph.nodes := Decoder.list_write _ Node.decode_toValue graph.nodes
  have hedges : Decoder.list Edge.decode (.list (graph.edges.map (·.toValue))) =
      .valid graph.edges := Decoder.list_write _ Edge.decode_toValue graph.edges
  have htraining := Training.decode_toValue graph.training
  have hinput := InputSpec.decode_toValue graph.input
  rw [Graph.toValue, Graph.decode, Decoder.model, defaulted_of_get? "nodes" rfl hnodes,
    defaulted_of_get? "edges" rfl hedges, defaulted_of_get? "training" rfl htraining,
    defaulted_of_get? "input_spec" rfl hinput]
  rfl

end LayerGraph
