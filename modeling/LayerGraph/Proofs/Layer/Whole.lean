import LayerGraph.Layer.Standard
import LayerGraph.Program.Model
import LayerGraph.Proofs.Layer.Parameters
set_option autoImplicit false

namespace LayerGraph

namespace Value

theorem toInt_whole (v : Value) : v.whole.toInt = v.toInt := by
  cases v with
  | null | bool _ | int _ | str _ | object _ | list _ => simp only [whole, toInt, form]
  | float x =>
    unfold whole
    split
    · rename_i n hn
      cases x with
      | nan | infinite _ => cases hn
      | finite negative rank =>
        have htruncate := Binary64.truncate?_of_whole? hn
        simp only [toInt, htruncate, Option.getD_some]
    · rfl

theorem toPair_whole (v : Value) (fallback : Int) :
    v.whole.toPair fallback = v.toPair fallback := by
  cases v with
  | null | bool _ | int _ | str _ | object _ => simp only [whole]
  | float x =>
    have hread := toInt_whole (.float x)
    unfold whole at hread ⊢
    split
    · rename_i n hn
      rw [hn] at hread
      simp only [toPair, ← hread]
    · rfl
  | list items =>
    rcases items with _ | ⟨a, _ | ⟨b, rest⟩⟩
    · simp only [whole, wholeItems]
    · simp only [whole, wholeItems, toPair, toInt_whole]
    · simp only [whole, wholeItems, toPair, toInt_whole]

end Value

namespace Schema

def Renders (schema : Schema) (params params' : Fields) : Prop :=
  ∀ key p, schema.get? key = some p →
    params'.get key = Program.argumentValue p (params.get key)

namespace Renders

variable {schema : Schema} {params params' : Fields} {p : Param}

theorem get_eq (h : schema.Renders params params') (key : String) (hp : schema.get? key = some p)
    {flag : Bool} (hdefault : p.default = .bool flag) : params'.get key = params.get key := by
  rw [h key p hp, Program.argumentValue, hdefault]

theorem toInt (h : schema.Renders params params') (key : String) (hp : schema.get? key = some p) :
    (params'.get key).toInt = (params.get key).toInt := by
  rw [h key p hp, Program.argumentValue]
  split
  · exact Value.toInt_whole _
  · rfl

theorem toPair (h : schema.Renders params params') (key : String) (hp : schema.get? key = some p)
    (fallback : Int) : (params'.get key).toPair fallback = (params.get key).toPair fallback := by
  rw [h key p hp, Program.argumentValue]
  split
  · exact Value.toPair_whole _ _
  · rfl

end Renders

end Schema

namespace Layer

namespace Sizing

/-- A rule that sizes inputs alike on params and on the arguments that show them. -/
def Exact (schema : Schema) (rule : ShapeRule) : Prop :=
  ∀ inputs params params', schema.Renders params params' → rule inputs params' = rule inputs params

theorem onFirst_exact {schema : Schema} {rule : Shape → Fields → Except Fault Shape}
    (h : ∀ shape params params', schema.Renders params params' →
      rule shape params' = rule shape params) : Exact schema (onFirst rule) := by
  intro inputs params params' hrenders
  cases inputs with
  | nil => rfl
  | cons shape more => exact congrArg (Except.map some) (h shape params params' hrenders)

theorem onImages_exact {kind : String} {schema : Schema}
    {rule : Int → Int → Int → Int → Fields → Except Fault Shape}
    (h : ∀ batch channels height width params params', schema.Renders params params' →
      rule batch channels height width params' = rule batch channels height width params) :
    Exact schema (onImages kind rule) := by
  refine onFirst_exact fun shape params params' hrenders => ?_
  split
  · exact h _ _ _ _ params params' hrenders
  · rfl

theorem identity_exact (schema : Schema) : Exact schema identity :=
  onFirst_exact fun _ _ _ _ => rfl

theorem linear_exact : Exact Layer.linear.schema linear := by
  refine onFirst_exact fun shape params params' h => ?_
  rw [h.toInt "out_features" rfl]

theorem flatten_exact : Exact Layer.flatten.schema flatten := by
  refine onFirst_exact fun shape params params' h => ?_
  rw [h.toInt "start_dim" rfl, h.toInt "end_dim" rfl]

theorem convolution_exact : Exact Layer.convolution.schema convolution := by
  refine onImages_exact fun batch channels height width params params' h => ?_
  rw [h.toPair "kernel_size" rfl, h.toPair "stride" rfl, h.toPair "padding" rfl,
    h.toPair "dilation" rfl, h.toInt "out_channels" rfl]

theorem poolStride_whole (v : Value) (kernel : Int × Int) :
    poolStride v.whole kernel = poolStride v kernel := by
  have hpair := v.toPair_whole kernel.1
  cases v with
  | null | bool _ | int _ | str _ | object _ => simp only [Value.whole]
  | float x =>
    unfold Value.whole at hpair ⊢
    split
    · rename_i n hn
      rw [hn] at hpair
      exact hpair
    · rfl
  | list items => exact hpair

theorem pool_exact (kind description : String) :
    Exact (Layer.pool kind description).schema (pool kind) := by
  refine onImages_exact fun batch channels height width params params' h => ?_
  have hstride : ∀ kernel, poolStride (params'.get "stride") kernel =
      poolStride (params.get "stride") kernel := fun kernel => by
    rw [h "stride" _ rfl]
    exact poolStride_whole _ _
  rw [h.toPair "kernel_size" rfl, h.toPair "padding" rfl]
  simp only [hstride]

theorem adaptivePool_exact : Exact Layer.adaptivePool.schema adaptivePool := by
  refine onImages_exact fun batch channels height width params params' h => ?_
  rw [h.toPair "output_size" rfl]

theorem batchNorm_exact (schema : Schema) (kind : String) (ranks : List Nat) :
    Exact schema (batchNorm kind ranks) := onFirst_exact fun _ _ _ _ => rfl

theorem residual_exact : Exact Layer.residual.schema residual := by
  refine onImages_exact fun batch channels height width params params' h => ?_
  rw [h.toInt "stride" rfl, h.toInt "out_channels" rfl]

theorem embedding_exact : Exact Layer.embedding.schema embedding := by
  refine onFirst_exact fun shape params params' h => ?_
  rw [h.toInt "embedding_dim" rfl]

theorem recurrent_exact (kind : String) (gates : Int) :
    Exact (Layer.recurrent kind gates).schema (recurrent kind) := by
  refine onFirst_exact fun shape params params' h => ?_
  rw [h.get_eq "batch_first" rfl rfl, h.get_eq "bidirectional" rfl rfl, h.toInt "hidden_size" rfl]

end Sizing

namespace Checking

def Exact (schema : Schema) (check : CheckRule) : Prop :=
  ∀ inputs params params', schema.Renders params params' →
    check inputs params' = check inputs params

theorem onFeatures_exact {schema : Schema} {key : String} {p : Param}
    (hp : schema.get? key = some p) (finding : Int → Int → Finding) :
    Exact schema (onFeatures key finding) := by
  intro inputs params params' h
  cases inputs with
  | nil => rfl
  | cons shape more => simp only [onFeatures, h.toInt key hp]

theorem convolution_exact : Exact Layer.convolution.schema convolution := by
  intro inputs params params' h
  unfold convolution
  split
  · rw [h.toInt "in_channels" rfl]
  · rfl

theorem batchNorm_exact (kind description : String) (ranks : List Nat) :
    Exact (Layer.batchNorm kind description ranks).schema (batchNorm kind) := by
  intro inputs params params' h
  unfold batchNorm
  split
  · rw [h.toInt "num_features" rfl]
  · rfl

theorem residual_exact : Exact Layer.residual.schema residual := by
  intro inputs params params' h
  unfold residual blockChanges
  split
  · rw [h.toInt "in_channels" rfl, h.toInt "stride" rfl, h.toInt "out_channels" rfl,
      h.get_eq "use_projection" rfl rfl]
  · rfl

end Checking

end Layer

/-- The rules of a layer, where it has them, do the same on the arguments of its call. -/
structure Layer.Exact (layer : Layer) : Prop where
  shape : Layer.Sizing.Exact layer.schema layer.shape
  check : ∀ check, layer.check = some check → Layer.Checking.Exact layer.schema check

theorem Catalogue.standard_exact {layer : Layer} (hmem : layer ∈ Catalogue.standard)
    (hmodule : layer.module ≠ none) : layer.Exact := by
  have hnone : ∀ {layer : Layer}, Layer.Sizing.Exact layer.schema layer.shape →
      layer.check = none → layer.Exact := fun hshape hcheck => ⟨hshape, by simp [hcheck]⟩
  have hsome : ∀ {layer : Layer} {check : CheckRule},
      Layer.Sizing.Exact layer.schema layer.shape → layer.check = some check →
      Layer.Checking.Exact layer.schema check → layer.Exact :=
    fun hshape hcheck hexact => ⟨hshape, by simpa [hcheck] using hexact⟩
  simp only [standard, List.mem_cons, List.not_mem_nil, or_false] at hmem
  rcases hmem with rfl | rfl | rfl | rfl | rfl | rfl | rfl | rfl | rfl | rfl | rfl | rfl | rfl | rfl
    | rfl | rfl | rfl | rfl | rfl | rfl | rfl
  · exact absurd rfl hmodule
  · exact absurd rfl hmodule
  · exact hsome Layer.Sizing.linear_exact rfl (Layer.Checking.onFeatures_exact rfl _)
  · exact hnone (Layer.Sizing.identity_exact _) rfl
  · exact hnone (Layer.Sizing.identity_exact _) rfl
  · exact hnone (Layer.Sizing.identity_exact _) rfl
  · exact hnone (Layer.Sizing.identity_exact _) rfl
  · exact hsome (Layer.Sizing.batchNorm_exact _ _ _) rfl (Layer.Checking.batchNorm_exact _ _ _)
  · exact hsome (Layer.Sizing.batchNorm_exact _ _ _) rfl (Layer.Checking.batchNorm_exact _ _ _)
  · exact hnone (Layer.Sizing.identity_exact _) rfl
  · exact hnone Layer.Sizing.flatten_exact rfl
  · exact hsome Layer.Sizing.convolution_exact rfl Layer.Checking.convolution_exact
  · exact hnone (Layer.Sizing.pool_exact _ _) rfl
  · exact hnone (Layer.Sizing.pool_exact _ _) rfl
  · exact hnone Layer.Sizing.adaptivePool_exact rfl
  · exact absurd rfl hmodule
  · exact absurd rfl hmodule
  · exact hsome Layer.Sizing.residual_exact rfl Layer.Checking.residual_exact
  · exact hnone Layer.Sizing.embedding_exact rfl
  · exact hsome (Layer.Sizing.recurrent_exact _ _) rfl (Layer.Checking.onFeatures_exact rfl _)
  · exact hsome (Layer.Sizing.recurrent_exact _ _) rfl (Layer.Checking.onFeatures_exact rfl _)

end LayerGraph
