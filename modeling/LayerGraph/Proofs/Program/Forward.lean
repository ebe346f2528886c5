import LayerGraph.Program.Text
import LayerGraph.Proofs.Program.Translation
set_option autoImplicit false

namespace LayerGraph.Program

open LayerGraph.Graph Draft

def Statement.assigned (s : Statement) : List String :=
  s.target :: if s.unpack then ["_"] else []

theorem Statement.text_eq (s : Statement) :
    s.text = ", ".intercalate s.assigned ++ " = " ++ s.expression := by
  cases h : s.unpack with
  | true =>
    rw [text, if_pos h, assigned, if_pos h, ← String.toList_inj]
    simp
  | false =>
    rw [text, if_neg (by simp [h]), assigned, if_neg (by simp [h]), String.intercalate_singleton]

def Model.parameters (model : Model) : List String :=
  if model.multiInput then model.inputs else ["x"]

theorem Model.parameters_text (model : Model) :
    if model.multiInput then
      model.signature = "def forward(self, *inputs):" ∧
        model.inputTexts = model.parameters.mapIdx fun position name =>
          name ++ " = inputs[" ++ Text.decimal position ++ "]"
    else
      model.signature = "def forward(self, " ++ ", ".intercalate model.parameters ++ "):" ∧
        model.inputTexts = [] := by
  unfold signature inputTexts parameters
  cases model.multiInput with
  | true => exact ⟨rfl, rfl⟩
  | false =>
    have hlone : "def forward(self, x):" =
        "def forward(self, " ++ ", ".intercalate ["x"] ++ "):" := by decide +kernel
    exact ⟨hlone, rfl⟩

inductive Held where
  | argument
  | tensor (id : String)
  | state
  deriving DecidableEq, Repr

abbrev Binding := String × Held

def entry (graph : Graph) (model : Model) : List Binding :=
  match graph.ordered.filter (·.isInput) with
  | [] => [("x", .argument)]
  | nodes => (nodes.zip model.parameters).map fun (node, name) => (name, .tensor node.id)

def bindingsOf (node : Node) (statement : Statement) : List Binding :=
  (statement.target, .tensor node.id) :: if statement.unpack then [("_", .state)] else []

theorem bindingsOf_names (node : Node) (statement : Statement) :
    (bindingsOf node statement).map (·.1) = statement.assigned := by
  rw [bindingsOf, Statement.assigned, List.map_cons]
  split <;> rfl

def bindings (graph : Graph) (model : Model) (nodes : List Node) : List Binding :=
  entry graph model ++ ((nodes.filter (·.isLayer)).zip model.statements).flatMap
    fun (node, statement) => bindingsOf node statement

/-- The variables after some bindings, of which the last one of a name counts. -/
def store (bindings : List Binding) (name : String) : Option Held :=
  bindings.reverse.lookup name

/-- No name that holds the tensor of a node is bound again. -/
def Unrebound (bindings : List Binding) : Prop :=
  bindings.Pairwise fun earlier later => ∀ id, earlier.2 = .tensor id → later.1 ≠ earlier.1

/-- A text carries the tensor of a node: a variable that holds it, or for an output the group of
texts that carry the tensors of its sources. -/
inductive Carries (graph : Graph) (holds : String → Option Held) : String → String → Prop where
  | single {name id : String} (h : holds name = some (.tensor id)) : Carries graph holds name id
  | group {node : Node} {operands : List String} (hnode : node ∈ graph.nodes)
    (hout : node.isOutput = true) (hlength : operands.length = (graph.feeders node.id).length)
    (h : ∀ pair ∈ operands.zip (graph.feeders node.id), Carries graph holds pair.1 pair.2) :
    Carries graph holds (grouped operands) node.id

theorem store_append_of_not_mem {first rest : List Binding} {name : String}
    (h : ∀ binding ∈ rest, binding.1 ≠ name) : store (first ++ rest) name = store first name := by
  induction rest using List.reverseRecOn with
  | nil => rw [List.append_nil]
  | append_singleton rest last ih =>
    obtain ⟨other, held⟩ := last
    have hne : other ≠ name := h (other, held) (by simp)
    have hrest := ih fun binding hbinding => h binding (List.mem_append_left _ hbinding)
    rw [← hrest, ← List.append_assoc, store, List.reverse_append, List.reverse_singleton,
      List.singleton_append, List.lookup_cons, beq_eq_false_iff_ne.2 (Ne.symm hne)]
    rfl

theorem store_eq_of_last {first rest : List Binding} {name : String} {held : Held}
    (h : ∀ binding ∈ rest, binding.1 ≠ name) :
    store (first ++ (name, held) :: rest) name = some held := by
  have hsplit : first ++ (name, held) :: rest = (first ++ [(name, held)]) ++ rest := by simp
  rw [hsplit, store_append_of_not_mem h, store, List.reverse_append, List.reverse_singleton,
    List.singleton_append, List.lookup_cons, beq_self_eq_true]

theorem mem_of_store {bs : List Binding} {name : String} {held : Held}
    (h : store bs name = some held) : (name, held) ∈ bs :=
  List.mem_reverse.1 (Table.mem_of_get? h)

theorem Unrebound.store_append {first rest : List Binding} (h : Unrebound (first ++ rest))
    {name id : String} (hname : store first name = some (.tensor id)) :
    store (first ++ rest) name = some (.tensor id) := by
  rw [store_append_of_not_mem, hname]
  intro binding hbinding
  exact (List.pairwise_append.1 h).2.2 _ (mem_of_store hname) binding hbinding id rfl

theorem unrebound_of_nodup {bs : List Binding} (h : (bs.map (·.1)).Nodup) : Unrebound bs :=
  (List.pairwise_map.1 h).imp fun hne _ _ => Ne.symm hne

theorem Carries.mono {graph : Graph} {holds later : String → Option Held} {text id : String}
    (h : Carries graph holds text id)
    (hkept : ∀ name id, holds name = some (.tensor id) → later name = some (.tensor id)) :
    Carries graph later text id := by
  induction h with
  | single h => exact .single (hkept _ _ h)
  | group hnode hout hlength _ ih => exact .group hnode hout hlength ih

theorem unrebound_append_iff {first : List Binding} {node : Node} {statement : Statement}
    (hfresh : ∀ name id, (name, Held.tensor id) ∈ first → name ≠ statement.target) :
    Unrebound (first ++ bindingsOf node statement) ↔
      Unrebound first ∧ (statement.unpack = true →
        statement.target ≠ "_" ∧ ∀ name id, (name, Held.tensor id) ∈ first → name ≠ "_") := by
  have hcross : (∀ earlier ∈ first, ∀ later ∈ bindingsOf node statement, ∀ id,
      earlier.2 = .tensor id → later.1 ≠ earlier.1) ↔
        (statement.unpack = true → ∀ name id, (name, Held.tensor id) ∈ first → name ≠ "_") := by
    constructor
    · intro h hunpack name id hmem heq
      refine h _ hmem ("_", .state) ?_ id rfl heq.symm
      simp [bindingsOf, hunpack]
    · intro h earlier hmem later hlater id hheld
      rw [bindingsOf, List.mem_cons] at hlater
      rcases hlater with rfl | hstate
      · exact (hfresh earlier.1 id (hheld ▸ hmem)).symm
      · split at hstate
        · rename_i hunpack
          obtain rfl := List.mem_singleton.1 hstate
          exact (h hunpack earlier.1 id (hheld ▸ hmem)).symm
        · cases hstate
  have hown : (bindingsOf node statement).Pairwise
      (fun earlier later => ∀ id, earlier.2 = .tensor id → later.1 ≠ earlier.1) ↔
        (statement.unpack = true → statement.target ≠ "_") := by
    cases hunpack : statement.unpack with
    | false => simp [bindingsOf, hunpack]
    | true =>
      simp [bindingsOf, hunpack]
      exact eq_comm.not
  rw [Unrebound, List.pairwise_append, hcross, hown, Unrebound]
  refine and_congr_right fun _ => ?_
  exact ⟨fun h hunpack => ⟨h.1 hunpack, h.2 hunpack⟩,
    fun h => ⟨fun hunpack => (h hunpack).1, fun hunpack => (h hunpack).2⟩⟩

section

variable {catalogue : Catalogue} {graph : Graph} {className : String} {draft next : Draft}
  {before after : List Node} {node : Node}

theorem inputs_length (h : Drafted graph before draft) :
    draft.model.inputs.length = (graph.ordered.filter (·.isInput)).length := by
  rw [h.inputs, List.length_map, List.length_range]

theorem parameters_eq (h : Drafted graph before draft)
    (hne : graph.ordered.filter (·.isInput) ≠ []) : draft.model.parameters = draft.model.inputs := by
  rw [Model.parameters]
  split
  · rfl
  · rename_i hfew
    have hpos := List.length_pos_of_ne_nil hne
    have hlen := inputs_length h
    have hone : (graph.ordered.filter (·.isInput)).length = 1 := by
      simp only [Model.multiInput, decide_eq_true_eq] at hfew
      omega
    rw [h.inputs, hone]
    rfl

theorem entry_eq (h : Drafted graph before draft)
    (hne : graph.ordered.filter (·.isInput) ≠ []) :
    entry graph draft.model =
      ((graph.ordered.filter (·.isInput)).zip draft.model.inputs).map
        fun (node, name) => (name, .tensor node.id) := by
  rw [entry, parameters_eq h hne]
  split
  · rename_i hnil
    exact absurd hnil hne
  · rfl

theorem mem_entry (h : Drafted graph before draft) {name id : String}
    (hmem : (name, Held.tensor id) ∈ entry graph draft.model) :
    ∃ position, name = inputName position := by
  by_cases hne : graph.ordered.filter (·.isInput) = []
  · simp [entry, hne] at hmem
  · rw [entry_eq h hne] at hmem
    obtain ⟨⟨input, name'⟩, hpair, heq⟩ := List.mem_map.1 hmem
    cases heq
    have hinput := (List.of_mem_zip hpair).2
    rw [h.inputs] at hinput
    obtain ⟨position, -, rfl⟩ := List.mem_map.1 hinput
    exact ⟨position, rfl⟩

theorem entry_names (h : Drafted graph before draft) :
    (entry graph draft.model).map (·.1) = draft.model.parameters := by
  have hlen := inputs_length h
  by_cases hne : graph.ordered.filter (·.isInput) = []
  · have hfew : draft.model.multiInput = false := by
      rw [Model.multiInput, hlen, hne]
      rfl
    simp [entry, hne, Model.parameters, hfew]
  · rw [entry_eq h hne, parameters_eq h hne, List.map_map]
    exact List.map_snd_zip (Nat.le_of_eq hlen)

theorem entry_names_nodup (h : Drafted graph before draft) :
    ((entry graph draft.model).map (·.1)).Nodup := by
  rw [entry_names h, Model.parameters]
  split
  · rw [h.inputs]
    exact List.Nodup.map (fun _ _ => inputName_injective) List.nodup_range
  · exact List.nodup_singleton _

theorem zip_of_map_eq {α β : Type} {f : α → Option β} {xs : List α} {ys : List β}
    (h : xs.map f = ys.map some) {x : α} {y : β} (hx : x ∈ xs) (hy : f x = some y) :
    (x, y) ∈ xs.zip ys := by
  induction xs generalizing ys with
  | nil => cases hx
  | cons first xs ih =>
    cases ys with
    | nil => cases h
    | cons second ys =>
      simp only [List.map_cons, List.cons.injEq] at h
      rcases List.mem_cons.1 hx with rfl | hrest
      · obtain rfl : y = second := Option.some.inj (hy.symm.trans h.1)
        exact List.mem_cons_self
      · exact List.mem_cons_of_mem _ (ih h.2 hrest)

theorem layers_length (h : Drafted graph before draft) :
    (before.filter (·.isLayer)).length = draft.model.statements.length := by
  have hlen := congrArg List.length h.stated
  simpa [Model.targets] using hlen

theorem bindings_append (h : Drafted graph before draft) {model : Model}
    (hinputs : model.inputs = draft.model.inputs) {more : List Statement}
    (hmore : model.statements = draft.model.statements ++ more) (rest : List Node) :
    bindings graph model (before ++ rest) = bindings graph draft.model before ++
      ((rest.filter (·.isLayer)).zip more).flatMap
        fun (node, statement) => bindingsOf node statement := by
  have hparameters : model.parameters = draft.model.parameters := by
    rw [Model.parameters, Model.parameters, Model.multiInput, Model.multiInput, hinputs]
  rw [bindings, bindings, entry, entry, hparameters, hmore, List.filter_append,
    List.zip_append (layers_length h), List.flatMap_append, List.append_assoc]

theorem bindings_of_not_isLayer (hkind : node.isLayer = false) (model : Model) :
    bindings graph model (before ++ [node]) = bindings graph model before := by
  simp [bindings, List.filter_append, hkind]

theorem bindings_of_isLayer (h : Drafted graph before draft) (hkind : node.isLayer = true)
    {model : Model} {statement : Statement} (hinputs : model.inputs = draft.model.inputs)
    (hstatements : model.statements = draft.model.statements ++ [statement]) :
    bindings graph model (before ++ [node]) =
      bindings graph draft.model before ++ bindingsOf node statement := by
  rw [bindings_append h hinputs hstatements, List.filter_cons_of_pos hkind]
  simp

theorem mem_bindings (h : Drafted graph before draft) {name id : String}
    (hmem : (name, Held.tensor id) ∈ bindings graph draft.model before) :
    (∃ position, name = inputName position) ∨ name ∈ draft.model.targets := by
  rcases List.mem_append.1 hmem with hentry | hstatement
  · exact .inl (mem_entry h hentry)
  · obtain ⟨⟨layer, statement⟩, hpair, hin⟩ := List.mem_flatMap.1 hstatement
    refine .inr (List.mem_map.2 ⟨statement, (List.of_mem_zip hpair).2, ?_⟩)
    rcases List.mem_cons.1 hin with heq | hstate
    · exact (congrArg Prod.fst heq).symm
    · split at hstate
      · simp at hstate
      · cases hstate

theorem exists_mem_bindings (h : Drafted graph before draft) {target : String}
    (htarget : target ∈ draft.model.targets) :
    ∃ id, (target, Held.tensor id) ∈ bindings graph draft.model before := by
  obtain ⟨statement, hstatement, rfl⟩ := List.mem_map.1 htarget
  rw [← List.map_snd_zip (Nat.le_of_eq (layers_length h).symm)] at hstatement
  obtain ⟨⟨layer, found⟩, hpair, rfl⟩ := List.mem_map.1 hstatement
  exact ⟨layer.id, List.mem_append_right _
    (List.mem_flatMap.2 ⟨(layer, found), hpair, List.mem_cons_self⟩)⟩

theorem underscore_mem_targets_iff (hids : graph.ids.Nodup) (hsplit : graph.ordered = before ++ after)
    (hrun : draftAfter catalogue graph className before = .ok draft) :
    "_" ∈ draft.model.targets ↔
      ∃ node ∈ before, node.isLayer = true ∧ identifier node.id = "_" := by
  induction before using List.reverseRecOn generalizing after draft with
  | nil =>
    have h := Drafted.run hids hsplit hrun
    have hnone : draft.model.targets = [] := by simpa using h.stated
    simp [hnone]
  | append_singleton before node ih =>
    rw [List.append_assoc, List.singleton_append] at hsplit
    obtain ⟨earlier, hbefore, hadd⟩ := foldlM_snoc_eq_ok.1 hrun
    have hold := ih hsplit hbefore
    have hsnoc : (∃ other ∈ before ++ [node], other.isLayer = true ∧ identifier other.id = "_") ↔
        (∃ other ∈ before, other.isLayer = true ∧ identifier other.id = "_") ∨
          node.isLayer = true ∧ identifier node.id = "_" := by
      simp only [List.mem_append, List.mem_singleton, or_and_right, exists_or, exists_eq_left]
    rw [hsnoc, ← hold]
    obtain ⟨layer, -, ⟨hin, rfl⟩ | ⟨hout, rfl⟩ | ⟨hlayer, hstep⟩⟩ := add_eq_ok hadd
    · simp [(Node.not_of_isInput hin).2]
    · simp [(Node.not_of_isOutput hout).2, addOutput_eq, Model.targets]
    · obtain ⟨statement, hsaid, -, hstatements, -, -, -⟩ := addLayer_eq_ok hstep
      have hnamed := (nameFor_named earlier.owners node.id).underscore
      have hfree : earlier.owners.has "_" = false ↔ "_" ∉ earlier.model.targets := by
        rw [← (Drafted.run hids hsplit hbefore).owners, ← Table.has_iff, Bool.not_eq_true]
      rw [← hsaid.target, hfree] at hnamed
      have htargets : draft.model.targets = earlier.model.targets ++ [statement.target] := by
        simp [Model.targets, hstatements]
      rw [htargets, List.mem_append, List.mem_singleton, eq_comm, hnamed]
      constructor
      · intro hcase
        rcases hcase with hin | ⟨hname, -⟩
        · exact .inl hin
        · exact .inr ⟨hlayer, hname⟩
      · intro hcase
        rcases hcase with hin | ⟨-, hname⟩
        · exact .inl hin
        · by_cases hin : "_" ∈ earlier.model.targets
          · exact .inl hin
          · exact .inr ⟨hname, hin⟩

def Stateful (catalogue : Catalogue) (node : Node) : Prop :=
  ∃ layer, catalogue.find? node.kind = some layer ∧ layer.stateful = true

def UsesUnderscore (node : Node) : Prop := node.isLayer = true ∧ identifier node.id = "_"

/-- A recurrent layer comes with or after a layer that uses the underscore. -/
def LosesUnderscore (catalogue : Catalogue) (nodes : List Node) : Prop :=
  ∃ before node after, nodes = before ++ node :: after ∧ node.isLayer = true ∧
    Stateful catalogue node ∧ ∃ earlier ∈ before ++ [node], UsesUnderscore earlier

theorem losesUnderscore_append_iff (nodes : List Node) (node : Node) :
    LosesUnderscore catalogue (nodes ++ [node]) ↔ LosesUnderscore catalogue nodes ∨
      node.isLayer = true ∧ Stateful catalogue node ∧
        ∃ earlier ∈ nodes ++ [node], UsesUnderscore earlier := by
  constructor
  · intro hgiven
    obtain ⟨first, other, rest, hsplit, hother⟩ := hgiven
    rcases List.eq_nil_or_concat rest with rfl | ⟨rest, last, rfl⟩
    · obtain ⟨rfl, hlast⟩ := List.append_inj' hsplit rfl
      obtain rfl := List.singleton_inj.1 hlast
      exact .inr hother
    · rw [List.concat_eq_append, ← List.cons_append, ← List.append_assoc] at hsplit
      obtain ⟨rfl, -⟩ := List.append_inj' hsplit rfl
      exact .inl ⟨first, other, rest, rfl, hother⟩
  · intro hcase
    rcases hcase with ⟨first, other, rest, rfl, hother⟩ | hlast
    · exact ⟨first, other, rest ++ [node], by simp, hother⟩
    · exact ⟨nodes, node, [], rfl, hlast⟩

/-- A statement that drops a state binds no name of a tensor again unless it is the underscore. -/
theorem underscore_free_iff (hids : graph.ids.Nodup)
    (hsplit : graph.ordered = before ++ node :: after)
    (hbefore : draftAfter catalogue graph className before = .ok draft)
    (hrun : draftAfter catalogue graph className (before ++ [node]) = .ok next)
    {statement : Statement}
    (hstatements : next.model.statements = draft.model.statements ++ [statement]) :
    (statement.target ≠ "_" ∧ ∀ name id,
      (name, Held.tensor id) ∈ bindings graph draft.model before → name ≠ "_") ↔
        ¬∃ earlier ∈ before ++ [node], UsesUnderscore earlier := by
  have h := Drafted.run hids hsplit hbefore
  have htargets : next.model.targets = draft.model.targets ++ [statement.target] := by
    simp [Model.targets, hstatements]
  have hiff := underscore_mem_targets_iff hids (by simpa using hsplit) hrun
  rw [show (∃ earlier ∈ before ++ [node], UsesUnderscore earlier) ↔ "_" ∈ next.model.targets from
    hiff.symm, htargets, List.mem_append, List.mem_singleton, not_or]
  constructor
  · intro hgiven
    obtain ⟨htarget, hnames⟩ := hgiven
    refine ⟨fun hin => ?_, Ne.symm htarget⟩
    obtain ⟨id, hid⟩ := exists_mem_bindings h hin
    exact hnames "_" id hid rfl
  · intro hgiven
    obtain ⟨hout, htarget⟩ := hgiven
    refine ⟨Ne.symm htarget, ?_⟩
    intro name id hmem heq
    subst heq
    rcases mem_bindings h hmem with ⟨position, hposition⟩ | hin
    · exact inputName_ne_append [] position (congrArg String.toList hposition).symm
    · exact hout hin

theorem unrebound_iff (hids : graph.ids.Nodup) (hsplit : graph.ordered = before ++ after)
    (hrun : draftAfter catalogue graph className before = .ok draft) :
    Unrebound (bindings graph draft.model before) ↔ ¬LosesUnderscore catalogue before := by
  induction before using List.reverseRecOn generalizing after draft with
  | nil =>
    have h := Drafted.run hids hsplit hrun
    refine iff_of_true ?_ ?_
    · have hentry := unrebound_of_nodup (entry_names_nodup h)
      simpa [bindings] using hentry
    · intro hgiven
      obtain ⟨first, other, rest, hnil, -⟩ := hgiven
      simp at hnil
  | append_singleton before node ih =>
    rw [List.append_assoc, List.singleton_append] at hsplit
    obtain ⟨earlier, hbefore, hadd⟩ := foldlM_snoc_eq_ok.1 hrun
    have h := Drafted.run hids hsplit hbefore
    rw [losesUnderscore_append_iff, not_or, ← ih hsplit hbefore]
    obtain ⟨layer, hfind, ⟨hin, rfl⟩ | ⟨hout, rfl⟩ | ⟨hlayer, hstep⟩⟩ := add_eq_ok hadd
    · simp [bindings_of_not_isLayer (Node.not_of_isInput hin).2,
        (Node.not_of_isInput hin).2]
    · rw [bindings_of_not_isLayer (Node.not_of_isOutput hout).2, addOutput_eq]
      simp only [(Node.not_of_isOutput hout).2, Bool.false_eq_true, false_and, not_false_eq_true,
        and_true]
      exact Iff.rfl
    · obtain ⟨statement, hsaid, hinputs, hstatements, -, -, -⟩ := addLayer_eq_ok hstep
      have hnamed := nameFor_named earlier.owners node.id
      rw [← hsaid.target] at hnamed
      have hfresh : ∀ name id, (name, Held.tensor id) ∈ bindings graph earlier.model before →
          name ≠ statement.target := by
        intro name id hmem heq
        subst heq
        rcases mem_bindings h hmem with ⟨position, hposition⟩ | hin
        · exact hnamed.ne_inputName position hposition
        · rw [← h.owners, ← Table.has_iff, hnamed.free] at hin
          cases hin
      have hstateful : statement.unpack = true ↔ Stateful catalogue node := by
        rw [hsaid.unpack]
        constructor
        · exact fun hstate => ⟨layer, hfind, hstate⟩
        · intro hgiven
          obtain ⟨found, hfound, hstate⟩ := hgiven
          rwa [← Option.some.inj (hfound.symm.trans hfind)]
      rw [bindings_of_isLayer h hlayer hinputs hstatements, unrebound_append_iff hfresh,
        hstateful, underscore_free_iff hids hsplit hbefore hrun hstatements]
      simp only [hlayer, true_and, not_and]

theorem store_of_nodup {bs : List Binding} (h : (bs.map (·.1)).Nodup) {name : String} {held : Held}
    (hmem : (name, held) ∈ bs) : store bs name = some held := by
  obtain ⟨first, rest, rfl⟩ := List.append_of_mem hmem
  refine store_eq_of_last fun binding hbinding heq => ?_
  rw [List.map_append, List.map_cons, List.nodup_append, List.nodup_cons] at h
  exact h.2.1.1 (List.mem_map.2 ⟨binding, hbinding, heq⟩)

theorem carries_entry (h : Drafted graph [] draft) {id tensor : String}
    (htensor : draft.tensors.get? id = some tensor) :
    Carries graph (store (bindings graph draft.model [])) tensor id := by
  obtain ⟨input, hmem, rfl, hin | hnil⟩ := h.keys id (by simp [htensor])
  · have hinput : input ∈ graph.ordered.filter (·.isInput) := List.mem_filter.2 ⟨hmem, hin⟩
    have hpair := zip_of_map_eq h.fed hinput htensor
    have hbound : (tensor, Held.tensor input.id) ∈ entry graph draft.model := by
      rw [entry_eq h (List.ne_nil_of_mem hinput)]
      exact List.mem_map.2 ⟨(input, tensor), hpair, rfl⟩
    refine .single ?_
    have hstore := store_of_nodup (entry_names_nodup h) hbound
    simpa [bindings] using hstore
  · cases hnil

theorem zip_agrees {α β : Type} {f : β → Option α} {xs : List α} {ys : List β}
    (h : xs.map some = ys.map f) : ∀ pair ∈ xs.zip ys, f pair.2 = some pair.1 := by
  induction xs generalizing ys with
  | nil => simp
  | cons x xs ih =>
    cases ys with
    | nil => simp
    | cons y ys =>
      simp only [List.map_cons, List.cons.injEq] at h
      intro pair hpair
      rcases List.mem_cons.1 hpair with rfl | hrest
      · exact h.1.symm
      · exact ih h.2 pair hrest

theorem forall₂_of_map_eq {α β : Type} {R : α → β → Prop} {f : β → Option α} {xs : List α}
    {ys : List β} (h : xs.map some = ys.map f) (hR : ∀ x y, f y = some x → R x y) :
    List.Forall₂ R xs ys := by
  have hlength := congrArg List.length h
  simp only [List.length_map] at hlength
  exact List.forall₂_iff_zip.2 ⟨hlength, fun hpair => hR _ _ (zip_agrees h _ hpair)⟩

/-- As long as no name of a tensor is bound again, every tensor is carried by its text. -/
theorem carries_run (hids : graph.ids.Nodup) (hsplit : graph.ordered = before ++ after)
    (hrun : draftAfter catalogue graph className before = .ok draft)
    (hclear : Unrebound (bindings graph draft.model before)) {id tensor : String}
    (htensor : draft.tensors.get? id = some tensor) :
    Carries graph (store (bindings graph draft.model before)) tensor id := by
  induction before using List.reverseRecOn generalizing after draft id tensor with
  | nil => exact carries_entry (Drafted.run hids hsplit hrun) htensor
  | append_singleton before node ih =>
    rw [List.append_assoc, List.singleton_append] at hsplit
    obtain ⟨earlier, hbefore, hadd⟩ := foldlM_snoc_eq_ok.1 hrun
    have h := Drafted.run hids hsplit hbefore
    obtain ⟨layer, -, ⟨hin, rfl⟩ | ⟨hout, rfl⟩ | ⟨hlayer, hstep⟩⟩ := add_eq_ok hadd
    · rw [bindings_of_not_isLayer (Node.not_of_isInput hin).2] at hclear ⊢
      exact ih hsplit hbefore hclear htensor
    · rw [bindings_of_not_isLayer (Node.not_of_isOutput hout).2, addOutput_eq] at hclear ⊢
      have hold : ∀ {id tensor : String}, earlier.tensors.get? id = some tensor →
          Carries graph (store (bindings graph earlier.model before)) tensor id :=
        fun h => ih hsplit hbefore hclear h
      rw [addOutput_eq] at htensor
      by_cases heq : id = node.id
      · rw [heq, Table.get?_put_self, Option.some.injEq] at htensor
        rw [heq, ← htensor]
        have hagree := h.operands_eq hids hsplit
        have hlength := congrArg List.length hagree
        simp only [List.length_map] at hlength
        refine .group (mem_nodes_of_ordered (by simp [hsplit])) hout hlength fun pair hpair => ?_
        exact hold (zip_agrees hagree pair hpair)
      · rw [Table.get?_put_of_ne _ heq] at htensor
        exact hold htensor
    · obtain ⟨statement, hsaid, hinputs, hstatements, -, htensors, -⟩ := addLayer_eq_ok hstep
      rw [bindings_of_isLayer h hlayer hinputs hstatements] at hclear ⊢
      rw [htensors] at htensor
      by_cases heq : id = node.id
      · rw [heq, Table.get?_put_self, Option.some.injEq] at htensor
        rw [heq, ← htensor]
        refine .single (store_eq_of_last fun binding hbinding => ?_)
        have hown := (List.pairwise_append.1 hclear).2.1
        exact (List.pairwise_cons.1 hown).1 binding hbinding node.id rfl
      · rw [Table.get?_put_of_ne _ heq] at htensor
        have hbound := (List.pairwise_append.1 hclear).1
        exact (ih hsplit hbefore hbound htensor).mono fun name id hname =>
          hclear.store_append hname

theorem stateful_standard_iff : Stateful Catalogue.standard node ↔
    node.kind = "LSTM" ∨ node.kind = "GRU" := by
  constructor
  · intro hgiven
    obtain ⟨layer, hfind, hstate⟩ := hgiven
    obtain ⟨hmem, hkind⟩ := Catalogue.find?_spec hfind
    have hall : ∀ layer ∈ Catalogue.standard, layer.stateful = true →
        layer.kind = "LSTM" ∨ layer.kind = "GRU" := by decide +kernel
    rw [← hkind]
    exact hall layer hmem hstate
  · intro hcase
    rcases hcase with hkind | hkind
    · exact ⟨Layer.lstm, by rw [hkind]; rfl, rfl⟩
    · exact ⟨Layer.gru, by rw [hkind]; rfl, rfl⟩

theorem losesUnderscore_standard_iff {nodes : List Node} :
    LosesUnderscore Catalogue.standard nodes ↔
      ∃ before node after, nodes = before ++ node :: after ∧
        (node.kind = "LSTM" ∨ node.kind = "GRU") ∧ ∃ earlier ∈ before ++ [node],
          earlier.isLayer = true ∧ ∃ c, earlier.id = String.singleton c ∧ c.isAlphanum = false := by
  have hlayer : ∀ node : Node, node.kind = "LSTM" ∨ node.kind = "GRU" → node.isLayer = true := by
    intro node hcase
    rcases hcase with hkind | hkind <;> rw [Node.isLayer_iff, hkind] <;> decide
  simp only [LosesUnderscore, UsesUnderscore, stateful_standard_iff, identifier_eq_underscore_iff]
  constructor
  · intro hgiven
    obtain ⟨before, node, after, hsplit, -, hkind, hearlier⟩ := hgiven
    exact ⟨before, node, after, hsplit, hkind, hearlier⟩
  · intro hgiven
    obtain ⟨before, node, after, hsplit, hkind, hearlier⟩ := hgiven
    exact ⟨before, node, after, hsplit, hlayer node hkind, hkind, hearlier⟩

/-- The signature, or the first lines of the method, bind the names of the inputs. No name of a
tensor is bound again unless a recurrent layer comes with or after a layer whose id is a single
character other than a letter or a digit. Otherwise all that statements read, and all
that is returned, carries the tensors of the nodes that it stands for. -/
theorem forward_carries (hids : graph.ids.Nodup)
    (hdraft : ofGraph Catalogue.standard graph className = .ok draft) :
    (entry graph draft.model).map (·.1) = draft.model.parameters ∧
    (if draft.model.multiInput then
      draft.model.signature = "def forward(self, *inputs):" ∧
        draft.model.inputTexts = draft.model.parameters.mapIdx fun position name =>
          name ++ " = inputs[" ++ Text.decimal position ++ "]"
    else
      draft.model.signature =
          "def forward(self, " ++ ", ".intercalate draft.model.parameters ++ "):" ∧
        draft.model.inputTexts = []) ∧
    (Unrebound (bindings graph draft.model graph.ordered) ↔
      ¬∃ before node after, graph.ordered = before ++ node :: after ∧
        (node.kind = "LSTM" ∨ node.kind = "GRU") ∧ ∃ earlier ∈ before ++ [node],
          earlier.isLayer = true ∧ ∃ c, earlier.id = String.singleton c ∧ c.isAlphanum = false) ∧
    (Unrebound (bindings graph draft.model graph.ordered) →
      (∀ before node after, graph.ordered = before ++ node :: after → node.isLayer = true →
        ∃ layer operands statement,
          draft.model.statements[(before.filter (·.isLayer)).length]? = some statement ∧
          statement.text = ", ".intercalate ((bindingsOf node statement).map (·.1)) ++ " = " ++
            statement.expression ∧
          Says layer node statement.target operands statement ∧
          List.Forall₂ (Carries graph (store (bindings graph draft.model before))) operands
            (graph.feeders node.id)) ∧
      List.Forall₂ (Carries graph (store (bindings graph draft.model graph.ordered)))
        draft.model.result ((graph.ordered.filter (·.isOutput)).map (·.id))) := by
  have hfull : graph.ordered = graph.ordered ++ [] := (List.append_nil _).symm
  have h := Drafted.run hids hfull hdraft
  refine ⟨entry_names h, draft.model.parameters_text, ?_,
    fun hclear => ⟨fun before node after hsplit hlayer => ?_, ?_⟩⟩
  · rw [unrebound_iff hids hfull hdraft, losesUnderscore_standard_iff]
  · obtain ⟨earlier, next, hbefore, hadd, hafter⟩ := exists_drafted hdraft hsplit
    have hearlier := Drafted.run hids hsplit hbefore
    have hrest : (node :: after).foldlM (add Catalogue.standard graph) earlier = .ok draft := by
      rw [List.foldlM_cons, bind_eq_ok]
      exact ⟨next, hadd, hafter⟩
    obtain ⟨layer, hfind, -⟩ := add_eq_ok hadd
    obtain ⟨statement, hstatements, -, hsaid⟩ := add_stated hadd hfind hlayer
    obtain ⟨hinputs, more, hmore⟩ := statements_grow hrest
    have hsame := bindings_append hearlier hinputs hmore.symm []
    have hbound := bindings_append hearlier hinputs hmore.symm (node :: after)
    rw [← hsplit] at hbound
    refine ⟨layer, earlier.operands graph node.id, statement, ?_, ?_, hsaid, ?_⟩
    · obtain ⟨last, hlast⟩ := (statements_grow hafter).2
      rw [← hlast, hstatements, layers_length hearlier]
      simp
    · rw [bindingsOf_names, statement.text_eq]
    · rw [List.append_nil, List.filter_nil, List.zip_nil_left, List.flatMap_nil,
        List.append_nil] at hsame
      rw [hsame]
      rw [hbound] at hclear
      refine forall₂_of_map_eq (hearlier.operands_eq hids hsplit) fun operand source hsource => ?_
      exact carries_run hids hsplit hbefore (List.pairwise_append.1 hclear).1 hsource
  · have hreturned : draft.model.result.map some =
        ((graph.ordered.filter (·.isOutput)).map (·.id)).map draft.tensors.get? := by
      rw [List.map_map]
      exact h.returned.symm
    exact forall₂_of_map_eq hreturned fun value id hvalue =>
      carries_run hids hfull hdraft hclear hvalue

end

/-- A recurrent layer whose output goes to a layer with an underscore for its id. -/
def underscoreLast : Graph where
  nodes := [⟨"in", "Input", "", [("shape", .list [.int 1, .int 4, .int 128])]⟩,
    ⟨"l", "LSTM", "", []⟩, ⟨"_", "ReLU", "", []⟩, ⟨"out", "Output", "", []⟩]
  edges := [⟨"1", "in", "l", none⟩, ⟨"2", "l", "_", none⟩, ⟨"3", "_", "out", none⟩]

theorem underscoreLast_carries :
    underscoreLast.ids.Nodup ∧ ∃ draft,
      ofGraph Catalogue.standard underscoreLast "Net" = .ok draft ∧
      Unrebound (bindings underscoreLast draft.model underscoreLast.ordered) ∧
      List.Forall₂
        (Carries underscoreLast (store (bindings underscoreLast draft.model underscoreLast.ordered)))
        draft.model.result ((underscoreLast.ordered.filter (·.isOutput)).map (·.id)) := by
  have hids : underscoreLast.ids.Nodup := by decide
  have hmodel : ((ofGraph Catalogue.standard underscoreLast "Net").map fun draft =>
      bindings underscoreLast draft.model underscoreLast.ordered).toOption =
      some [("x", .tensor "in"), ("l", .tensor "l"), ("_", .state), ("_", .tensor "_")] := by
    decide +kernel
  cases hdraft : ofGraph Catalogue.standard underscoreLast "Net" with
  | error _ => simp [hdraft, Except.map, Except.toOption] at hmodel
  | ok draft =>
    have hbindings : bindings underscoreLast draft.model underscoreLast.ordered =
        [("x", .tensor "in"), ("l", .tensor "l"), ("_", .state), ("_", .tensor "_")] := by
      simpa [hdraft, Except.map, Except.toOption] using hmodel
    have hclear : Unrebound (bindings underscoreLast draft.model underscoreLast.ordered) := by
      rw [hbindings]
      simp [Unrebound]
    exact ⟨hids, draft, rfl, hclear, ((forward_carries hids hdraft).2.2.2 hclear).2⟩

/-- The other way round the state takes the place of the tensor that is returned. -/
def underscoreFirst : Graph where
  nodes := [⟨"in", "Input", "", [("shape", .list [.int 1, .int 4, .int 128])]⟩,
    ⟨"_", "ReLU", "", []⟩, ⟨"l", "LSTM", "", []⟩, ⟨"out", "Output", "", []⟩]
  edges := [⟨"1", "in", "_", none⟩, ⟨"2", "_", "l", none⟩, ⟨"3", "_", "out", none⟩]

theorem underscoreFirst_rebound :
    underscoreFirst.ids.Nodup ∧
    (∃ context, underscoreFirst.infer Catalogue.standard = .ok context ∧
      context.hasErrors = false) ∧
    ∃ draft, ofGraph Catalogue.standard underscoreFirst "Net" = .ok draft ∧
      ¬Unrebound (bindings underscoreFirst draft.model underscoreFirst.ordered) ∧
      draft.model.result = ["_"] ∧
      store (bindings underscoreFirst draft.model underscoreFirst.ordered) "_" = some .state := by
  refine ⟨by decide, ?_, ?_⟩
  · have hinfer : ((underscoreFirst.infer Catalogue.standard).map (·.hasErrors)).toOption =
        some false := by decide +kernel
    cases hcontext : underscoreFirst.infer Catalogue.standard with
    | error _ => simp [hcontext, Except.map, Except.toOption] at hinfer
    | ok context =>
      exact ⟨context, rfl, by simpa [hcontext, Except.map, Except.toOption] using hinfer⟩
  · have hmodel : ((ofGraph Catalogue.standard underscoreFirst "Net").map fun draft =>
        (bindings underscoreFirst draft.model underscoreFirst.ordered,
          draft.model.result)).toOption =
        some ([("x", .tensor "in"), ("_", .tensor "_"), ("l", .tensor "l"), ("_", .state)],
          ["_"]) := by
      decide +kernel
    cases hdraft : ofGraph Catalogue.standard underscoreFirst "Net" with
    | error _ => simp [hdraft, Except.map, Except.toOption] at hmodel
    | ok draft =>
      obtain ⟨hbindings, hresult⟩ :
          bindings underscoreFirst draft.model underscoreFirst.ordered =
            [("x", .tensor "in"), ("_", .tensor "_"), ("l", .tensor "l"), ("_", .state)] ∧
          draft.model.result = ["_"] := by
        simpa [hdraft, Except.map, Except.toOption] using hmodel
      refine ⟨draft, rfl, ?_, hresult, ?_⟩
      · rw [hbindings]
        simp [Unrebound]
      · rw [hbindings]
        rfl

end LayerGraph.Program
