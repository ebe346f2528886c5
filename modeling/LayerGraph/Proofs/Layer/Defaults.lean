import LayerGraph.Layer.Standard
import LayerGraph.Proofs.Fold
import LayerGraph.Proofs.Layer.Parameters
set_option autoImplicit false

namespace LayerGraph

def Param.fill (p : Param) (v : Value) : Value := if v = .null then p.default else v

/-- Parameters in which those of the keys of a schema that were null have their defaults. -/
def Schema.Fills (schema : Schema) (params params' : Fields) : Prop :=
  ∀ key p, schema.get? key = some p → params'.get key = p.fill (params.get key)

namespace Schema.Fills

variable {schema : Schema} {params params' : Fields} {p : Param}

theorem toInt (h : schema.Fills params params') (key : String) (hp : schema.get? key = some p)
    {n : Int} (hn : (params.get key).toInt = .ok n) : (params'.get key).toInt = .ok n := by
  rw [h key p hp, Param.fill]
  split
  · rename_i hnull
    rw [hnull] at hn
    cases hn
  · exact hn

theorem toPair (h : schema.Fills params params') (key : String) (hp : schema.get? key = some p)
    {fallback : Int} (hdefault : p.default = .int fallback) :
    (params'.get key).toPair fallback = (params.get key).toPair fallback := by
  rw [h key p hp, Param.fill]
  split
  · rename_i hnull
    rw [hnull, hdefault]
    rfl
  · rfl

theorem truthy (h : schema.Fills params params') (key : String) (hp : schema.get? key = some p)
    (hdefault : p.default.truthy = false) :
    (params'.get key).truthy = (params.get key).truthy := by
  rw [h key p hp, Param.fill]
  split
  · rename_i hnull
    rw [hnull, hdefault]
    rfl
  · rfl

/-- A parameter stays if its default is null. -/
theorem get_eq (h : schema.Fills params params') (key : String) (hp : schema.get? key = some p)
    (hdefault : p.default = .null) : params'.get key = params.get key := by
  rw [h key p hp, Param.fill]
  split
  · rename_i hnull
    rw [hnull, hdefault]
  · rfl

end Schema.Fills

/-- The parameters of a schema, each with its given value or else its default. -/
def Schema.fill (schema : Schema) (params : Fields) : Fields :=
  schema.map fun entry => (entry.1, entry.2.fill ((params.get? entry.1).getD entry.2.default))

theorem Schema.get?_fill {schema : Schema} (params : Fields) {key : String} {p : Param}
    (hp : schema.get? key = some p) :
    Table.get? (schema.fill params) key = some (p.fill ((params.get? key).getD p.default)) := by
  have hmap := Table.get?_map (fun key (p : Param) => p.fill ((params.get? key).getD p.default))
    schema key
  rw [hp] at hmap
  exact hmap

theorem Schema.fills_fill (schema : Schema) (params : Fields) :
    schema.Fills (schema.resolve params) (schema.resolve (schema.fill params)) := by
  intro key p hp
  rw [get_resolve _ _ hp, get_resolve _ _ hp, get?_fill params hp]
  rfl

namespace Layer

namespace Sizing

/-- A rule that sizes inputs as before when parameters get the defaults of a schema. -/
def Steady (schema : Schema) (rule : ShapeRule) : Prop :=
  ∀ inputs params params' size, schema.Fills params params' →
    rule inputs params = .ok size → rule inputs params' = .ok size

theorem onFirst_steady {schema : Schema} {rule : Shape → Fields → Except Fault Shape}
    (h : ∀ shape params params' out, schema.Fills params params' → rule shape params = .ok out →
      rule shape params' = .ok out) : Steady schema (onFirst rule) := by
  intro inputs params params' size hfills hsize
  cases inputs with
  | nil => exact hsize
  | cons shape more =>
    obtain ⟨out, hout, rfl⟩ := map_eq_ok.1 hsize
    exact map_eq_ok.2 ⟨out, h shape params params' out hfills hout, rfl⟩

theorem onImages_steady {kind : String} {schema : Schema}
    {rule : Int → Int → Int → Int → Fields → Except Fault Shape}
    (h : ∀ batch channels height width params params' out, schema.Fills params params' →
      rule batch channels height width params = .ok out →
      rule batch channels height width params' = .ok out) :
    Steady schema (onImages kind rule) := by
  refine onFirst_steady fun shape params params' out hfills hout => ?_
  split at hout
  · exact h _ _ _ _ params params' out hfills hout
  · cases hout

theorem input_steady : Steady Layer.input.schema input := by
  intro inputs params params' size hfills hsize
  unfold input at hsize ⊢
  by_cases hnull : params.get "shape" = .null
  · rw [hnull] at hsize
    rw [hfills "shape" _ rfl, Param.fill, if_pos hnull]
    exact hsize
  · rw [hfills "shape" _ rfl, Param.fill, if_neg hnull]
    exact hsize

theorem identity_steady (schema : Schema) : Steady schema identity :=
  onFirst_steady fun _ _ _ _ _ hout => hout

theorem linear_steady : Steady Layer.linear.schema linear := by
  refine onFirst_steady fun shape params params' out hfills hout => ?_
  split at hout
  · cases hout
  · rename_i hrank
    simp only [bind_eq_ok] at hout
    obtain ⟨n, hn, hout⟩ := hout
    rw [if_neg hrank, hfills.toInt _ rfl hn]
    exact hout

theorem flatten_steady : Steady Layer.flatten.schema flatten := by
  refine onFirst_steady fun shape params params' out hfills hout => ?_
  simp only [bind_eq_ok] at hout ⊢
  obtain ⟨start, hstart, stop, hstop, hout⟩ := hout
  exact ⟨start, hfills.toInt _ rfl hstart, stop, hfills.toInt _ rfl hstop, hout⟩

theorem convolution_steady : Steady Layer.convolution.schema convolution := by
  refine onImages_steady fun batch channels height width params params' out hfills hout => ?_
  simp only [bind_eq_ok] at hout ⊢
  rw [hfills.toPair "kernel_size" rfl rfl, hfills.toPair "stride" rfl rfl,
    hfills.toPair "padding" rfl rfl, hfills.toPair "dilation" rfl rfl]
  obtain ⟨kernel, hkernel, stride, hstride, padding, hpadding, dilation, hdilation, sizes, hsizes,
    filters, hfilters, hout⟩ := hout
  exact ⟨kernel, hkernel, stride, hstride, padding, hpadding, dilation, hdilation, sizes, hsizes,
    filters, hfills.toInt _ rfl hfilters, hout⟩

theorem pool_congr {kind : String} {params params' : Fields}
    (hkernel : (params'.get "kernel_size").toPair 2 = (params.get "kernel_size").toPair 2)
    (hstride : ∀ kernel, (params.get "kernel_size").toPair 2 = .ok kernel →
      poolStride (params'.get "stride") kernel = poolStride (params.get "stride") kernel)
    (hpadding : (params'.get "padding").toPair 0 = (params.get "padding").toPair 0)
    (inputs : List Shape) : pool kind inputs params' = pool kind inputs params := by
  cases inputs with
  | nil => rfl
  | cons shape more =>
    simp only [pool, onImages, onFirst, hkernel, hpadding]
    cases hpair : (params.get "kernel_size").toPair 2 with
    | error fault => rfl
    | ok kernel => simp only [bind, Except.bind, hstride kernel hpair]

theorem pool_fill (kind description : String) {params : Fields}
    (h : params.get? "stride" ≠ some .null) (inputs : List Shape) :
    pool kind inputs ((Layer.pool kind description).resolve
        ((Layer.pool kind description).schema.fill params)) =
      pool kind inputs ((Layer.pool kind description).resolve params) := by
  have hfills := (Layer.pool kind description).schema.fills_fill params
  simp only [Layer.resolve]
  refine pool_congr (hfills.toPair "kernel_size" rfl rfl) (fun kernel _ => ?_)
    (hfills.toPair "padding" rfl rfl) inputs
  rw [hfills "stride" _ rfl, Param.fill, if_neg]
  rw [Schema.get_resolve _ _ rfl]
  cases hget : params.get? "stride" with
  | none => exact Value.noConfusion
  | some v =>
    intro hnull
    rw [Option.getD_some] at hnull
    exact h (by rw [hget, hnull])

theorem pool_fill_unset (kind description : String) {params : Fields}
    (h : params.get? "stride" = some .null) (inputs : List Shape) :
    pool kind inputs ((Layer.pool kind description).resolve
        ((Layer.pool kind description).schema.fill params)) =
      pool kind inputs ((Layer.pool kind description).resolve (params.put "stride" (.int 2))) := by
  have hput : (Layer.pool kind description).schema.fill (params.put "stride" (.int 2)) =
      (Layer.pool kind description).schema.fill params := by
    simp [Schema.fill, Layer.pool, Layer.sizeParam, Param.fill, h, Table.get?_put_of_ne]
  rw [← hput]
  exact pool_fill kind description (by simp) inputs

/-- A window of two by two slides by two where its stride is null. -/
theorem pool_put_of_two (kind description : String) {params : Fields}
    (hstride : params.get? "stride" = some .null)
    (hkernel : ((params.get? "kernel_size").getD (.int 2)).toPair 2 = .ok (2, 2))
    (inputs : List Shape) :
    pool kind inputs ((Layer.pool kind description).resolve (params.put "stride" (.int 2))) =
      pool kind inputs ((Layer.pool kind description).resolve params) := by
  refine pool_congr ?_ (fun kernel hpair => ?_) ?_ inputs
  · rw [Layer.resolve, Layer.resolve, Schema.get_resolve _ _ rfl, Schema.get_resolve _ _ rfl,
      Table.get?_put_of_ne _ (by decide)]
  · rw [Layer.resolve, Schema.get_resolve _ _ rfl] at hpair
    obtain rfl : (2, 2) = kernel := Except.ok.inj (hkernel.symm.trans hpair)
    rw [Layer.resolve, Layer.resolve, Schema.get_resolve _ _ rfl, Schema.get_resolve _ _ rfl,
      Table.get?_put_self, hstride]
    rfl
  · rw [Layer.resolve, Layer.resolve, Schema.get_resolve _ _ rfl, Schema.get_resolve _ _ rfl,
      Table.get?_put_of_ne _ (by decide)]

theorem adaptivePool_steady : Steady Layer.adaptivePool.schema adaptivePool := by
  refine onImages_steady fun batch channels height width params params' out hfills hout => ?_
  rw [hfills.toPair "output_size" rfl rfl]
  exact hout

theorem batchNorm_steady (schema : Schema) (kind : String) (ranks : List Nat) :
    Steady schema (batchNorm kind ranks) :=
  onFirst_steady fun _ _ _ _ _ hout => hout

theorem concat_steady : Steady Layer.concat.schema concat := by
  intro inputs params params' size hfills hsize
  cases inputs with
  | nil => exact hsize
  | cons first more =>
    simp only [concat, bind_eq_ok] at hsize ⊢
    obtain ⟨dim, hdim, hsize⟩ := hsize
    exact ⟨dim, hfills.toInt _ rfl hdim, hsize⟩

theorem residual_steady : Steady Layer.residual.schema residual := by
  refine onImages_steady fun batch channels height width params params' out hfills hout => ?_
  simp only [bind_eq_ok] at hout ⊢
  obtain ⟨stride, hstride, sizes, hsizes, filters, hfilters, hout⟩ := hout
  exact ⟨stride, hfills.toInt _ rfl hstride, sizes, hsizes, filters, hfills.toInt _ rfl hfilters,
    hout⟩

theorem embedding_steady : Steady Layer.embedding.schema embedding := by
  refine onFirst_steady fun shape params params' out hfills hout => ?_
  simp only [bind_eq_ok] at hout ⊢
  obtain ⟨n, hn, hout⟩ := hout
  exact ⟨n, hfills.toInt _ rfl hn, hout⟩

theorem recurrent_steady (kind : String) (gates : Int) :
    Steady (Layer.recurrent kind gates).schema (recurrent kind) := by
  refine onFirst_steady fun shape params params' out hfills hout => ?_
  simp only [bind_eq_ok, Shape.requireRank] at hout ⊢
  obtain ⟨passed, hpassed, hidden, hhidden, hout⟩ := hout
  rw [hfills.truthy "bidirectional" rfl rfl]
  refine ⟨passed, ?_, hidden, hfills.toInt _ rfl hhidden, hout⟩
  -- The order of the axes is named only in the text of the fault.
  split at hpassed
  · rename_i hrank
    rw [if_pos hrank]
  · cases hpassed

end Sizing

namespace Checking

def Steady (schema : Schema) (check : CheckRule) : Prop :=
  ∀ inputs params params' findings, schema.Fills params params' →
    check inputs params = .ok findings → check inputs params' = .ok findings

theorem onFeatures_steady {schema : Schema} {key : String} {p : Param}
    (hp : schema.get? key = some p) (finding : Int → Int → Finding) :
    Steady schema (onFeatures key finding) := by
  intro inputs params params' findings hfills hfindings
  cases inputs with
  | nil => exact hfindings
  | cons shape more =>
    simp only [onFeatures] at hfindings ⊢
    split at hfindings
    · exact hfindings
    · simp only [bind_eq_ok] at hfindings ⊢
      obtain ⟨expected, hexpected, hfindings⟩ := hfindings
      exact ⟨expected, hfills.toInt _ hp hexpected, hfindings⟩

theorem convolution_steady : Steady Layer.convolution.schema convolution := by
  intro inputs params params' findings hfills hfindings
  unfold convolution at hfindings ⊢
  split at hfindings
  · simp only [bind_eq_ok] at hfindings ⊢
    obtain ⟨expected, hexpected, hfindings⟩ := hfindings
    exact ⟨expected, hfills.toInt _ rfl hexpected, hfindings⟩
  · exact hfindings

theorem batchNorm_steady (kind description : String) (ranks : List Nat) :
    Steady (Layer.batchNorm kind description ranks).schema (batchNorm kind) := by
  intro inputs params params' findings hfills hfindings
  unfold batchNorm at hfindings ⊢
  split at hfindings
  · simp only [bind_eq_ok] at hfindings ⊢
    obtain ⟨expected, hexpected, hfindings⟩ := hfindings
    exact ⟨expected, hfills.toInt _ rfl hexpected, hfindings⟩
  · exact hfindings

theorem add_steady (schema : Schema) : Steady schema add := by
  intro inputs params params' findings _ hfindings
  cases inputs <;> exact hfindings

theorem concat_steady : Steady Layer.concat.schema concat := by
  intro inputs params params' findings hfills hfindings
  unfold concat at hfindings ⊢
  split at hfindings
  · simp only [bind_eq_ok] at hfindings ⊢
    obtain ⟨dim, hdim, hfindings⟩ := hfindings
    exact ⟨dim, hfills.toInt _ rfl hdim, hfindings⟩
  · exact hfindings

theorem blockChanges_fills {params params' : Fields}
    (h : Layer.residual.schema.Fills params params') {channels : Int} {changes : Bool}
    (hchanges : blockChanges params channels = .ok changes) :
    blockChanges params' channels = .ok changes := by
  simp only [blockChanges, bind_eq_ok] at hchanges ⊢
  obtain ⟨stride, hstride, hchanges⟩ := hchanges
  refine ⟨stride, h.toInt _ rfl hstride, ?_⟩
  split at hchanges
  · rename_i hchanged
    rw [if_pos hchanged]
    exact hchanges
  · rename_i hkept
    rw [if_neg hkept]
    simp only [bind_eq_ok] at hchanges ⊢
    obtain ⟨filters, hfilters, hchanges⟩ := hchanges
    exact ⟨filters, h.toInt _ rfl hfilters, hchanges⟩

theorem residual_steady : Steady Layer.residual.schema residual := by
  intro inputs params params' findings hfills hfindings
  unfold residual at hfindings ⊢
  split at hfindings
  · simp only [bind_eq_ok] at hfindings ⊢
    obtain ⟨expected, hexpected, found, hfound, changes, hchanges, hfindings⟩ := hfindings
    rw [hfills.truthy "use_projection" rfl rfl]
    exact ⟨expected, hfills.toInt _ rfl hexpected, found, hfound, changes,
      blockChanges_fills hfills hchanges, hfindings⟩
  · exact hfindings

end Checking

end Layer

/-- The rules of a layer, where it has them, do as before when parameters get their defaults. -/
structure Layer.Steady (layer : Layer) : Prop where
  shape : Layer.Sizing.Steady layer.schema layer.shape
  check : ∀ check, layer.check = some check → Layer.Checking.Steady layer.schema check

theorem Catalogue.standard_steady {layer : Layer} (hmem : layer ∈ Catalogue.standard)
    (hmax : layer ≠ Layer.maxPool) (havg : layer ≠ Layer.avgPool) : layer.Steady := by
  have hnone : ∀ {layer : Layer}, Layer.Sizing.Steady layer.schema layer.shape →
      layer.check = none → layer.Steady := fun hshape hcheck => ⟨hshape, by simp [hcheck]⟩
  have hsome : ∀ {layer : Layer} {check : CheckRule},
      Layer.Sizing.Steady layer.schema layer.shape → layer.check = some check →
      Layer.Checking.Steady layer.schema check → layer.Steady :=
    fun hshape hcheck hsteady => ⟨hshape, by simpa [hcheck] using hsteady⟩
  simp only [standard, List.mem_cons, List.not_mem_nil, or_false] at hmem
  rcases hmem with rfl | rfl | rfl | rfl | rfl | rfl | rfl | rfl | rfl | rfl | rfl | rfl | rfl | rfl
    | rfl | rfl | rfl | rfl | rfl | rfl | rfl
  · exact hnone Layer.Sizing.input_steady rfl
  · exact hnone (Layer.Sizing.identity_steady _) rfl
  · exact hsome Layer.Sizing.linear_steady rfl (Layer.Checking.onFeatures_steady rfl _)
  · exact hnone (Layer.Sizing.identity_steady _) rfl
  · exact hnone (Layer.Sizing.identity_steady _) rfl
  · exact hnone (Layer.Sizing.identity_steady _) rfl
  · exact hnone (Layer.Sizing.identity_steady _) rfl
  · exact hsome (Layer.Sizing.batchNorm_steady _ _ _) rfl (Layer.Checking.batchNorm_steady _ _ _)
  · exact hsome (Layer.Sizing.batchNorm_steady _ _ _) rfl (Layer.Checking.batchNorm_steady _ _ _)
  · exact hnone (Layer.Sizing.identity_steady _) rfl
  · exact hnone Layer.Sizing.flatten_steady rfl
  · exact hsome Layer.Sizing.convolution_steady rfl Layer.Checking.convolution_steady
  · exact absurd rfl hmax
  · exact absurd rfl havg
  · exact hnone Layer.Sizing.adaptivePool_steady rfl
  · exact hsome (Layer.Sizing.identity_steady _) rfl (Layer.Checking.add_steady _)
  · exact hsome Layer.Sizing.concat_steady rfl Layer.Checking.concat_steady
  · exact hsome Layer.Sizing.residual_steady rfl Layer.Checking.residual_steady
  · exact hnone Layer.Sizing.embedding_steady rfl
  · exact hsome (Layer.Sizing.recurrent_steady _ _) rfl (Layer.Checking.onFeatures_steady rfl _)
  · exact hsome (Layer.Sizing.recurrent_steady _ _) rfl (Layer.Checking.onFeatures_steady rfl _)

end LayerGraph
