import LayerGraph.Proofs.Normal.Troubles
set_option autoImplicit false

namespace LayerGraph

/-- A value of the type of a parameter: a flag, a number or a list of numbers, a list of whole
numbers, and for a selection one of its options or none of them. -/
inductive Param.Holds (p : Param) : Value → Prop where
  | flag (type : p.type = .boolean) (b : Bool) : Holds p (.bool b)
  | whole (type : p.type = .number) (n : Int) : Holds p (.int n)
  | fraction (type : p.type = .number) (x : Binary64) : Holds p (.float x)
  | several (type : p.type = .number) {items : List Value}
      (numbers : ∀ item ∈ items, item.isNumber = true) : Holds p (.list items)
  | sizes (type : p.type = .numbers) (ns : List Int) : Holds p (.list (ns.map .int))
  | unselected (type : p.type = .select) : Holds p .null
  | selected (type : p.type = .select) {option : String} (listed : option ∈ p.options.getD []) :
      Holds p (.str option)

/-- What coercion can rely on: a selection has options, and the default is of the type. -/
structure Param.Regular (p : Param) : Prop where
  typed : p.type ≠ .text
  options : p.type = .select → p.options.getD [] ≠ []
  default : p.accepts p.default = true ∨ p.type = .select ∧ p.default = .null

instance (p : Param) : Decidable p.Regular :=
  decidable_of_iff (p.type ≠ .text ∧ (p.type = .select → p.options.getD [] ≠ []) ∧
      (p.accepts p.default = true ∨ p.type = .select ∧ p.default = .null))
    ⟨fun h => ⟨h.1, h.2.1, h.2.2⟩, fun h => ⟨h.typed, h.options, h.default⟩⟩

theorem Catalogue.standard_regular : ∀ layer ∈ standard, ∀ entry ∈ layer.schema,
    entry.2.Regular := by
  decide +kernel

namespace Param

variable {p : Param} {v : Value}

theorem Regular.holds_of_accepts (hp : p.Regular) (h : p.accepts v = true) : p.Holds v := by
  unfold accepts at h
  cases htype : p.type with
  | number =>
    cases v with
    | int n => exact .whole htype n
    | float x => exact .fraction htype x
    | list items =>
      simp only [htype, List.all_eq_true] at h
      exact .several htype h
    | _ => simp [htype, Value.isNumber] at h
  | boolean =>
    cases v with
    | bool b => exact .flag htype b
    | _ => simp [htype, Value.form] at h
  | numbers =>
    cases v with
    | list items =>
      simp only [htype] at h
      obtain ⟨ns, rfl⟩ := (Normal.all_integers_iff items).1 h
      exact .sizes htype ns
    | _ => simp [htype] at h
  | select =>
    have hchosen : ∃ option ∈ p.options.getD [], v = .str option := by
      cases v with
      | str option => simpa [htype, hp.options htype] using h
      | _ => simp [htype, hp.options htype] at h
    obtain ⟨option, hlisted, rfl⟩ := hchosen
    exact .selected htype hlisted
  | text => exact absurd htype hp.typed

theorem Regular.holds_default (hp : p.Regular) : p.Holds p.default := by
  rcases hp.default with haccepts | ⟨htype, hnull⟩
  · exact hp.holds_of_accepts haccepts
  · rw [hnull]
    exact .unselected htype

theorem Holds.exists_sizes (h : p.Holds v) (htype : p.type = .numbers) :
    ∃ ns : List Int, v = .list (ns.map .int) := by
  cases h with
  | sizes _ ns => exact ⟨ns, rfl⟩
  | flag type _ | whole type _ | fraction type _ | several type _ | unselected type
  | selected type _ => exact absurd (type.symm.trans htype) (by decide)

end Param

namespace Layer

/-- A shape of whole numbers is read as it stands; the empty one declares none. -/
theorem Sizing.input_of_sizes {params : Fields} {ns : List Int}
    (h : params.get "shape" = .list (ns.map .int)) (inputs : List Shape) :
    Sizing.input inputs params = .ok (if ns.isEmpty then none else some ns) := by
  rw [Sizing.input, h]
  cases ns with
  | nil => rfl
  | cons n ns =>
    have hread : (Value.int n :: ns.map .int).mapM Value.toInt = .ok (n :: ns) :=
      mapM_eq_ok_iff.2 (.cons rfl (List.forall₂_map_left_iff.2 (List.forall₂_same.2 fun _ _ => rfl)))
    simp only [List.map_cons, hread]
    rfl

end Layer

namespace Normal

variable {word : String} {layer : Layer} {raw fields : Fields}

theorem holds_of_given {entry : String × Param} (hmem : layer ∈ Catalogue.standard)
    (hentry : entry ∈ layer.schema) {v : Value}
    (h : given raw entry.1 entry.2 = .ok v) : entry.2.Holds v := by
  have hregular := Catalogue.standard_regular layer hmem entry hentry
  rcases accepts_of_given (Catalogue.standard_sound layer hmem entry hentry) h with
    haccepts | rfl
  · exact hregular.holds_of_accepts haccepts
  · exact hregular.holds_default

theorem exists_sizes_of_input
    (h : Normal.params Catalogue.standard Graph.inputKind raw = .ok fields) :
    ∃ ns : List Int, fields.get? "shape" = some (.list (ns.map .int)) := by
  have hfind : Catalogue.standard.find? Graph.inputKind = some Layer.input := rfl
  have hparam : ∃ p, Table.get? Layer.input.schema "shape" = some p ∧ p.type = .numbers :=
    ⟨_, rfl, rfl⟩
  obtain ⟨p, hp, htype⟩ := hparam
  obtain ⟨next, -, hfields⟩ := (params_of_find? hfind).1 h
  obtain ⟨v, hget, hvalue⟩ := get?_ofSchema hfields hp
  have hholds := holds_of_given (Catalogue.find?_spec hfind).1 (Table.mem_of_get? hp) hvalue
  obtain ⟨ns, rfl⟩ := hholds.exists_sizes htype
  exact ⟨ns, hget⟩

/-- The parameters of a kind are exactly those of its schema, in their order, each with a value of
its type. Those of a graph input declare a shape that is always read, be it as they stand or laid
over the defaults. -/
theorem params_hold (hfind : Catalogue.standard.find? word = some layer)
    (h : Normal.params Catalogue.standard word raw = .ok fields) :
    fields.map (·.1) = layer.schema.map (·.1) ∧
    List.Forall₂ (fun entry field => entry.2.Holds field.2) layer.schema fields ∧
    (word = Graph.inputKind → ∃ ns : List Int, fields.get? "shape" = some (.list (ns.map .int)) ∧
      ∀ inputs, layer.shape inputs fields = .ok (if ns.isEmpty then none else some ns) ∧
        layer.shape inputs (layer.resolve fields) = .ok (if ns.isEmpty then none else some ns)) := by
  obtain ⟨next, -, hfields⟩ := (params_of_find? hfind).1 h
  have hmem := (Catalogue.find?_spec hfind).1
  have hgiven := ofSchema_eq_ok.1 hfields
  refine ⟨?_, ?_, fun hinput => ?_⟩
  · rw [eq_comm, ← List.forall₂_eq_eq_eq]
    exact List.rel_map (fun _ _ hfield => hfield.1.symm) hgiven
  · have hentries : ∀ entry ∈ layer.schema, entry ∈ layer.schema := fun _ hentry => hentry
    refine ((List.forall₂_and_left _ _).2 ⟨hentries, hgiven⟩).imp ?_
    rintro entry field ⟨hentry, -, hvalue⟩
    exact holds_of_given hmem hentry hvalue
  · subst hinput
    obtain rfl : Layer.input = layer := Option.some.inj hfind
    obtain ⟨ns, hget⟩ := exists_sizes_of_input h
    have hresolved : Fields.get (Layer.input.resolve fields) "shape" = .list (ns.map .int) :=
      (Schema.get_resolve Layer.input.schema fields rfl).trans (by rw [hget, Option.getD_some])
    refine ⟨ns, hget, fun inputs => ⟨?_, Layer.Sizing.input_of_sizes hresolved inputs⟩⟩
    exact Layer.Sizing.input_of_sizes (by rw [Fields.get, hget, Option.getD_some]) inputs

def untidyInput : Fields :=
  [("dtype", .str "float8"), ("shape", .str "-1, x, 3"), ("rank", .int 3)]

def untidyConvolution : Fields :=
  [("padding", .str " Same"), ("in_channels", .bool true), ("stride", .list [.str "2", .null]),
    ("kernel_size", .list [.str "5"]), ("out_channels", .str "x"), ("bias", .float (.ofInt 0))]

theorem untidy_hold :
    (∃ fields, Normal.params Catalogue.standard "Input" untidyInput = .ok fields ∧
      fields = [("shape", .list [.int (-1), .int (-1), .int 3]), ("dtype", .null)] ∧
      List.Forall₂ (fun entry field => entry.2.Holds field.2) Layer.input.schema fields ∧
      ∀ inputs, ∃ shape, Layer.input.shape inputs fields = .ok shape) ∧
    ∃ fields, Normal.params Catalogue.standard "Conv2d" untidyConvolution = .ok fields ∧
      fields = [("in_channels", .int 1), ("out_channels", .int 64), ("kernel_size", .list [.int 5]),
        ("stride", .list [.int 2, .int 1]), ("padding", .int 2), ("dilation", .int 1),
        ("bias", .bool false)] ∧
      List.Forall₂ (fun entry field => entry.2.Holds field.2) Layer.convolution.schema fields := by
  have hinput : Normal.params Catalogue.standard "Input" untidyInput =
      .ok [("shape", .list [.int (-1), .int (-1), .int 3]), ("dtype", .null)] :=
    eq_ok_of_toOption (by decide +kernel)
  have hconvolution : Normal.params Catalogue.standard "Conv2d" untidyConvolution =
      .ok [("in_channels", .int 1), ("out_channels", .int 64), ("kernel_size", .list [.int 5]),
        ("stride", .list [.int 2, .int 1]), ("padding", .int 2), ("dilation", .int 1),
        ("bias", .bool false)] :=
    eq_ok_of_toOption (by decide +kernel)
  have hfind : Catalogue.standard.find? "Input" = some Layer.input := rfl
  obtain ⟨-, hheld, hshape⟩ := params_hold hfind hinput
  obtain ⟨ns, -, hread⟩ := hshape rfl
  obtain ⟨-, hheld', -⟩ := params_hold find?_convolution hconvolution
  exact ⟨⟨_, hinput, rfl, hheld, fun inputs => ⟨_, (hread inputs).1⟩⟩, _, hconvolution, rfl, hheld'⟩

end Normal

end LayerGraph
