import LayerGraph.Graph.Count
import LayerGraph.Proofs.Fold
import LayerGraph.Proofs.Layer.Tensors
set_option autoImplicit false

namespace LayerGraph

namespace Value

def isNumeric : Value → Bool
  | .bool _ | .int _ => true
  | .float x => x.isFinite
  | .str s => (Numeral.integer s).toOption.isSome
  | .null | .list _ | .object _ => false

def isInfinite : Value → Bool
  | .float (.infinite _) => true
  | _ => false

def overflow (sizes : List Value) : Bool := (sizes.find? fun v => !v.isNumeric).any isInfinite

theorem integer_ne_infinity (s : String) : Numeral.integer s ≠ .error .infinity := by
  intro h
  unfold Numeral.integer at h
  dsimp only at h
  split at h
  · cases h
  · split at h
    · cases h
    · split at h <;> cases h

theorem isNumeric_of_toInt {v : Value} {n : Int} (h : v.toInt = .ok n) : v.isNumeric = true := by
  cases v with
  | bool _ | int _ => rfl
  | float x =>
    cases x with
    | finite negative rank => rfl
    | infinite negative | nan => cases h
  | str s =>
    rw [toInt] at h
    rw [isNumeric, h]
    rfl
  | null | list _ | object _ => cases h

theorem toInt_error {v : Value} {fault : Fault} (h : v.toInt = .error fault) :
    v.isNumeric = false ∧ (fault = .infinity ↔ v.isInfinite = true) := by
  cases v with
  | bool _ | int _ => cases h
  | float x =>
    cases x with
    | finite negative rank => cases h
    | infinite negative | nan =>
      cases h
      exact ⟨rfl, by simp [isInfinite]⟩
  | str s =>
    rw [toInt] at h
    refine ⟨by rw [isNumeric, h]; rfl, fun hfault => ?_, fun hinfinite => by cases hinfinite⟩
    exact absurd (hfault ▸ h) (integer_ne_infinity s)
  | null | list _ | object _ =>
    cases h
    exact ⟨rfl, by simp [isInfinite]⟩

/-- Sizes are converted up to the first one that is no number. -/
theorem mapM_toInt_error {sizes : List Value} {fault : Fault}
    (h : sizes.mapM toInt = .error fault) : fault = .infinity ↔ overflow sizes = true := by
  induction sizes with
  | nil => cases h
  | cons v sizes ih =>
    rw [List.mapM_cons, bind_eq_error] at h
    rcases h with hfirst | ⟨n, hn, hrest⟩
    · obtain ⟨hnumeric, hinfinity⟩ := toInt_error hfirst
      rw [hinfinity, overflow, List.find?_cons_of_pos (by rw [hnumeric]; rfl), Option.any_some]
    · rcases bind_eq_error.1 hrest with hsizes | ⟨ns, -, hnone⟩
      · rw [ih hsizes, overflow, overflow,
          List.find?_cons_of_neg (by rw [isNumeric_of_toInt hn]; decide)]
      · cases hnone

theorem not_overflow_of_mapM {sizes : List Value} {ns : List Int}
    (h : sizes.mapM toInt = .ok ns) : overflow sizes = false := by
  have hall : sizes.find? (fun v => !v.isNumeric) = none := by
    refine List.find?_eq_none.2 fun v hv => ?_
    obtain ⟨n, -, hn⟩ := exists_of_forall₂ (mapM_eq_ok_iff.1 h).flip hv
    rw [isNumeric_of_toInt hn]
    decide
  rw [overflow, hall, Option.any_none]

end Value

/-- How the parameters of a kind are counted: the values that are read as sizes, in the order of
their conversion, and the tensors of a module with these sizes. -/
structure Formula where
  sizes : Fields → List Value
  tensors : Fields → List Int → List Shape

namespace Formula

open Tensors

def linear : Formula where
  sizes params := [params.get "out_features", params.get "in_features"]
  tensors params
    | [outputs, inputs] => [outputs, inputs] :: biases (params.get "bias").truthy outputs
    | _ => []

def axes (fallback : Int) : Value → Value × Value
  | .null | .list [] => (.int fallback, .int fallback)
  | .list [a] => (a, a)
  | .list (a :: b :: _) => (a, b)
  | v => (v, v)

def convolution : Formula where
  sizes params :=
    let (height, width) := axes 3 (params.get "kernel_size")
    [height, width, params.get "out_channels", params.get "in_channels"]
  tensors params
    | [height, width, outputs, inputs] =>
      [outputs, inputs, height, width] :: biases (params.get "bias").truthy outputs
    | _ => []

def batchNorm : Formula where
  sizes params := [params.get "num_features"]
  tensors _
    | [features] => [[features], [features]]
    | _ => []

def embedding : Formula where
  sizes params := [params.get "num_embeddings", params.get "embedding_dim"]
  tensors _
    | [entries, width] => [[entries, width]]
    | _ => []

def recurrent (gates : Int) : Formula where
  sizes params := [params.get "hidden_size", params.get "input_size", params.get "num_layers"]
  tensors params
    | [hidden, inputs, layers] =>
      stacked gates hidden (if (params.get "bidirectional").truthy then 2 else 1) layers.toNat
        inputs
    | _ => []

def residual : Formula where
  sizes params := [params.get "in_channels", params.get "out_channels"]
  tensors params
    | [inputs, outputs] =>
      [[outputs, inputs, 3, 3], [outputs], [outputs], [outputs, outputs, 3, 3], [outputs],
        [outputs]]
      ++ if (params.get "use_projection").truthy then
          [[outputs, inputs, 1, 1], [outputs], [outputs]]
        else []
    | _ => []

def formulas : Table Formula := [
  ("Linear", linear),
  ("BatchNorm1d", batchNorm),
  ("BatchNorm2d", batchNorm),
  ("Conv2d", convolution),
  ("ResidualBlock", residual),
  ("Embeddings", embedding),
  ("LSTM", recurrent 4),
  ("GRU", recurrent 3)]

def value (formula : Formula) (params : Fields) : Except Fault Int :=
  ((formula.sizes params).mapM Value.toInt).map fun ns => elements (formula.tensors params ns)

section

variable {formula : Formula} {params : Fields}

theorem not_overflow_of_value {n : Int} (h : formula.value params = .ok n) :
    Value.overflow (formula.sizes params) = false := by
  obtain ⟨ns, hns, -⟩ := map_eq_ok.1 h
  exact Value.not_overflow_of_mapM hns

theorem value_error {fault : Fault} (h : formula.value params = .error fault) :
    fault = .infinity ↔ Value.overflow (formula.sizes params) = true :=
  Value.mapM_toInt_error (map_eq_error.1 h)

end

variable (params : Fields)

theorem linear_value : Layer.Counting.linear params = linear.value params := by
  simp only [Layer.Counting.linear, value, linear, List.mapM_cons, List.mapM_nil]
  cases (params.get "out_features").toInt with
  | error fault => rfl
  | ok outputs =>
    cases (params.get "in_features").toInt with
    | error fault => rfl
    | ok inputs =>
      simp [bind, Except.bind, pure, Except.pure, Except.map, elements_cons, elements_biases,
        Layer.Counting.biases, Int.mul_comm]

theorem toPair_eq (v : Value) (fallback : Int) :
    v.toPair fallback = (do
      let n ← (axes fallback v).1.toInt
      let m ← (axes fallback v).2.toInt
      return (n, m)) := by
  cases v with
  | null => rfl
  | bool _ | int _ => rfl
  | float x => cases h : (Value.float x).toInt <;> simp only [Value.toPair, axes, h] <;> rfl
  | str s => cases h : (Value.str s).toInt <;> simp only [Value.toPair, axes, h] <;> rfl
  | object _ => rfl
  | list items =>
    cases items with
    | nil => rfl
    | cons a items =>
      cases items with
      | nil => cases h : a.toInt <;> simp only [Value.toPair, axes, h] <;> rfl
      | cons b items => rfl

theorem convolution_value : Layer.Counting.convolution params = convolution.value params := by
  simp only [Layer.Counting.convolution, toPair_eq, value, convolution, List.mapM_cons,
    List.mapM_nil]
  cases (axes 3 (params.get "kernel_size")).1.toInt with
  | error fault => rfl
  | ok height =>
    cases (axes 3 (params.get "kernel_size")).2.toInt with
    | error fault => rfl
    | ok width =>
      cases (params.get "out_channels").toInt with
      | error fault => rfl
      | ok outputs =>
        cases (params.get "in_channels").toInt with
        | error fault => rfl
        | ok inputs =>
          simp [bind, Except.bind, pure, Except.pure, Except.map, elements_cons, elements_biases,
            Layer.Counting.biases, Int.mul_assoc]

theorem batchNorm_value : Layer.Counting.batchNorm params = batchNorm.value params := by
  simp only [Layer.Counting.batchNorm, value, batchNorm, List.mapM_cons, List.mapM_nil]
  cases (params.get "num_features").toInt with
  | error fault => rfl
  | ok features =>
    simp [bind, Except.bind, pure, Except.pure, Except.map, elements, Int.two_mul]

theorem embedding_value : Layer.Counting.embedding params = embedding.value params := by
  simp only [Layer.Counting.embedding, value, embedding, List.mapM_cons, List.mapM_nil]
  cases (params.get "num_embeddings").toInt with
  | error fault => rfl
  | ok entries =>
    cases (params.get "embedding_dim").toInt with
    | error fault => rfl
    | ok width => simp [bind, Except.bind, pure, Except.pure, Except.map, elements]

theorem recurrent_value (gates : Int) :
    Layer.Counting.recurrent gates params = (recurrent gates).value params := by
  simp only [Layer.Counting.recurrent, value, recurrent, List.mapM_cons, List.mapM_nil]
  cases (params.get "hidden_size").toInt with
  | error fault => rfl
  | ok hidden =>
    cases (params.get "input_size").toInt with
    | error fault => rfl
    | ok inputs =>
      cases (params.get "num_layers").toInt with
      | error fault => rfl
      | ok layers =>
        simp only [bind, Except.bind, pure, Except.pure, Except.map, addLayers_eq_elements]

theorem residual_value : Layer.Counting.residual params = residual.value params := by
  simp only [Layer.Counting.residual, value, residual, List.mapM_cons, List.mapM_nil]
  cases (params.get "in_channels").toInt with
  | error fault => rfl
  | ok inputs =>
    cases (params.get "out_channels").toInt with
    | error fault => rfl
    | ok outputs =>
      simp only [bind, Except.bind, pure, Except.pure, Except.map, elements_append]
      refine congrArg Except.ok ?_
      split
      · simp [elements]
        ring
      · simp [elements]
        ring

theorem formulas_none {kind : String} (h : Catalogue.standard.find? kind = none) :
    formulas.get? kind = none := by
  have hkinds : ∀ key ∈ formulas.map (·.1), (Catalogue.standard.find? key).isSome := by
    decide +kernel
  refine (Table.get?_eq_none_iff formulas kind).2 fun hmem => ?_
  have hsome := hkinds kind hmem
  rw [h] at hsome
  cases hsome

/-- The standard layers are counted by the formulas of their kinds, or not at all. -/
theorem standard_value {layer : Layer} (hmem : layer ∈ Catalogue.standard) :
    match formulas.get? layer.kind with
    | some formula =>
      ∃ count, layer.count = some count ∧ ∀ params, count params = formula.value params
    | none => layer.count = none := by
  simp only [Catalogue.standard, List.mem_cons, List.not_mem_nil, or_false] at hmem
  rcases hmem with rfl | rfl | rfl | rfl | rfl | rfl | rfl | rfl | rfl | rfl | rfl | rfl | rfl | rfl
    | rfl | rfl | rfl | rfl | rfl | rfl | rfl
  · rfl
  · rfl
  · exact ⟨_, rfl, linear_value⟩
  · rfl
  · rfl
  · rfl
  · rfl
  · exact ⟨_, rfl, batchNorm_value⟩
  · exact ⟨_, rfl, batchNorm_value⟩
  · rfl
  · rfl
  · exact ⟨_, rfl, convolution_value⟩
  · rfl
  · rfl
  · rfl
  · rfl
  · rfl
  · exact ⟨_, rfl, residual_value⟩
  · exact ⟨_, rfl, embedding_value⟩
  · exact ⟨_, rfl, fun params => recurrent_value params 4⟩
  · exact ⟨_, rfl, fun params => recurrent_value params 3⟩

end Formula

namespace Node

def resolved (node : Node) : Fields :=
  match Catalogue.standard.find? node.kind with
  | some layer => layer.resolve node.params
  | none => node.params

/-- What the formula of the node's kind gives for its sizes; nothing without a formula or with a
size that is no number. -/
def estimate (node : Node) : Int :=
  match Formula.formulas.get? node.kind with
  | some formula => ((formula.value node.resolved).toOption).getD 0
  | none => 0

/-- The first size of the node that is no number is an infinite one. -/
def overflows (node : Node) : Bool :=
  (Formula.formulas.get? node.kind).any fun formula =>
    Value.overflow (formula.sizes node.resolved)

theorem count_eq_estimate (node : Node) :
    node.count Catalogue.standard =
      if node.overflows then .error .infinity else .ok node.estimate := by
  rw [count, overflows, estimate, resolved]
  cases hfind : Catalogue.standard.find? node.kind with
  | none => rw [Formula.formulas_none hfind]; rfl
  | some layer =>
    obtain ⟨hmem, hkind⟩ := Catalogue.find?_spec hfind
    have hvalue := Formula.standard_value hmem
    rw [hkind] at hvalue
    cases hformula : Formula.formulas.get? node.kind with
    | none =>
      rw [hformula] at hvalue
      simp only [hvalue, Option.any_none]
      rfl
    | some formula =>
      rw [hformula] at hvalue
      obtain ⟨count, hcount, hagree⟩ := hvalue
      simp only [hcount, hagree, Option.any_some]
      cases hresult : formula.value (layer.resolve node.params) with
      | ok n =>
        rw [Formula.not_overflow_of_value hresult]
        rfl
      | error fault =>
        have hinfinity := Formula.value_error hresult
        cases hoverflow : Value.overflow (formula.sizes (layer.resolve node.params)) with
        | true =>
          rw [hinfinity.2 hoverflow]
          rfl
        | false =>
          rw [hoverflow] at hinfinity
          cases fault with
          | infinity => exact absurd (hinfinity.1 rfl) Bool.false_ne_true
          | _ => rfl

end Node

/-- If all nodes of a graph are counted, their counts are added up. -/
theorem Graph.countParameters_eq {catalogue : Catalogue} {graph : Graph} {value : Node → Int}
    (h : ∀ node ∈ graph.nodes, node.count catalogue = .ok (value node)) :
    graph.countParameters catalogue = .ok (graph.nodes.map value).sum := by
  have hfrom : ∀ (nodes : List Node) (total : Int),
      (∀ node ∈ nodes, node.count catalogue = .ok (value node)) →
      nodes.foldlM (fun total node => return total + (← node.count catalogue)) total =
        Except.ok (ε := Fault) (total + (nodes.map value).sum) := by
    intro nodes
    induction nodes with
    | nil => simp [pure, Except.pure]
    | cons node nodes ih =>
      intro total hall
      rw [List.foldlM_cons, hall node List.mem_cons_self]
      exact (ih _ fun other hother => hall other (List.mem_cons_of_mem _ hother)).trans
        (by simp [Int.add_assoc])
  rw [countParameters, hfrom graph.nodes 0 h, Int.zero_add]

/-- The estimate of a graph is the sum of what its nodes add, whatever else their params hold,
unless a node overflows. -/
theorem Graph.countParameters_total (graph : Graph) :
    graph.countParameters Catalogue.standard =
      if graph.nodes.any (·.overflows) then .error .infinity
      else .ok (graph.nodes.map (·.estimate)).sum := by
  split
  · rename_i hany
    obtain ⟨node, hnode, hoverflow⟩ := List.any_eq_true.1 hany
    cases hrun : graph.countParameters Catalogue.standard with
    | ok total =>
      -- the run would have passed the node that overflows
      obtain ⟨before, after, hsplit⟩ := List.append_of_mem hnode
      rw [countParameters, hsplit] at hrun
      obtain ⟨middle, next, -, hstep, -⟩ := foldlM_split_eq_ok.1 hrun
      rw [Node.count_eq_estimate, if_pos hoverflow] at hstep
      cases hstep
    | error fault =>
      obtain ⟨before, other, after, middle, -, -, hstep⟩ := foldlM_eq_error hrun
      rw [Node.count_eq_estimate] at hstep
      split at hstep
      · exact hstep.symm
      · cases hstep
  · rename_i hnone
    refine countParameters_eq fun node hnode => ?_
    rw [Node.count_eq_estimate, if_neg]
    exact fun hoverflow => hnone (List.any_eq_true.2 ⟨node, hnode, hoverflow⟩)

def endless : Graph where
  nodes := [
    { id := "a", kind := "Linear", params := [("out_features", .float (.infinite false))] },
    { id := "b", kind := "Linear", params := [] }]

theorem endless_not_counted :
    endless.countParameters Catalogue.standard = .error .infinity ∧
      endless.nodes.map Node.estimate = [0, 8256] := by
  decide +kernel

end LayerGraph
