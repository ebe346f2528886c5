import LayerGraph.Proofs.Layer.Convolution
import LayerGraph.Proofs.Layer.Tensors
import LayerGraph.Proofs.Normal.Troubles
set_option autoImplicit false

namespace LayerGraph

namespace Normal

theorem given_of_accepts {params : Fields} {key : String} {p : Param}
    (h : p.accepts ((params.get? key).getD p.default) = true) :
    given params key p = .ok ((params.get? key).getD p.default) := by
  rw [given]
  cases hget : params.get? key with
  | none => rfl
  | some v =>
    rw [hget] at h
    exact value_of_accepts h

theorem get_resolve_ofSchema {schema : Schema} {params fields : Fields}
    (h : ofSchema schema params = .ok fields) {key : String} {p : Param}
    (hp : schema.get? key = some p) {v : Value}
    (hv : Fields.get (schema.resolve params) key = v) (haccepts : p.accepts v = true) :
    Fields.get (schema.resolve fields) key = v := by
  rw [Schema.get_resolve schema params hp] at hv
  subst hv
  obtain ⟨v, hget, hgiven⟩ := get?_ofSchema h hp
  rw [Schema.get_resolve schema fields hp, hget, Option.getD_some]
  exact Except.ok.inj (hgiven.symm.trans (given_of_accepts haccepts))

/-- Params of a convolution that asks in words for padding that keeps the size. Its kernel has odd
sizes, and takes steps of one. -/
structure AsksSame (raw : Fields) (kernel : Int × Int) (dilation : Int) : Prop where
  word : ∃ word, raw.get? "padding" = some (.str word) ∧ Text.lower (Text.trim word) = "same"
  sizes : (Fields.get (Layer.convolution.resolve raw) "kernel_size").sizes? = some kernel
  odd : kernel.1 % 2 = 1 ∧ kernel.2 % 2 = 1
  step : Fields.get (Layer.convolution.resolve raw) "stride" = .int 1
  gap : (Fields.get (Layer.convolution.resolve raw) "dilation").size? = some dilation

/-- The window of such a convolution in its normal form. -/
def halfPadded (kernel : Int × Int) (dilation : Int) : Shape.Window where
  kernel := kernel
  stride := (1, 1)
  padding := (kernel.1 / 2, kernel.1 / 2)
  dilation := (dilation, dilation)

/-- Half of the first size, once on each side, makes up for the other points of the kernel along the
height, as far as they are next to each other, and for as many along the width. -/
theorem sizes_halfPadded {kernel : Int × Int} (hodd : kernel.1 % 2 = 1)
    (dilation height width : Int) :
    (halfPadded kernel dilation).sizes height width =
      (height - (dilation - 1) * (kernel.1 - 1),
        width + (kernel.1 - 1) - dilation * (kernel.2 - 1)) := by
  have hhalf : 2 * (kernel.1 / 2) = kernel.1 - 1 := by omega
  simp only [Shape.Window.sizes, halfPadded, hhalf, Int.ediv_one, Prod.mk.injEq]
  constructor
  · ring
  · ring

theorem sizes_halfPadded_eq_iff {kernel : Int × Int} {dilation : Int} (hodd : kernel.1 % 2 = 1)
    (hdilation : 1 ≤ dilation) (height width : Int) :
    (halfPadded kernel dilation).sizes height width = (height, width) ↔
      kernel.1 = kernel.2 ∧ (kernel.1 = 1 ∨ dilation = 1) := by
  rw [sizes_halfPadded hodd, Prod.mk.injEq]
  have hheight : height - (dilation - 1) * (kernel.1 - 1) = height ↔
      kernel.1 = 1 ∨ dilation = 1 := by
    rw [sub_eq_self, mul_eq_zero, sub_eq_zero, sub_eq_zero, or_comm]
  rw [hheight, and_comm, and_congr_left_iff]
  rintro (hpoint | rfl)
  · have hwidth : width + (kernel.1 - 1) - dilation * (kernel.2 - 1) = width ↔
        dilation * (kernel.2 - 1) = 0 := by
      rw [hpoint]
      omega
    rw [hwidth, mul_eq_zero, or_iff_right (by omega), sub_eq_zero, hpoint, eq_comm]
  · omega

namespace AsksSame

variable {raw : Fields} {kernel : Int × Int} {dilation : Int}

theorem pos (h : AsksSame raw kernel dilation) : 1 ≤ kernel.1 ∧ 1 ≤ kernel.2 :=
  Value.le_of_sizes? h.sizes

theorem size_kernel (h : AsksSame raw kernel dilation) :
    size 3 (raw.get "kernel_size") = .ok kernel.1 := by
  have hparam : Layer.convolution.schema.get? "kernel_size" =
      some (Layer.spatialSize "Kernel Size" 3) := rfl
  have hkernel := Value.sizes?_eq_some h.sizes
  rw [Layer.resolve, Schema.get_resolve _ raw hparam] at hkernel
  rw [Fields.get]
  cases hget : raw.get? "kernel_size" with
  | none =>
    rw [hget, Option.getD_none] at hkernel
    rcases hkernel with ⟨hthree, -⟩ | hlist
    · rw [← Value.int.inj hthree]
      rfl
    · cases hlist
  | some v =>
    rw [hget, Option.getD_some] at hkernel
    rcases hkernel with ⟨rfl, -⟩ | rfl
    · rfl
    · rfl

theorem samePadding_eq (h : AsksSame raw kernel dilation) :
    samePadding raw = .ok (raw.put "padding" (.int (kernel.1 / 2))) := by
  obtain ⟨word, hget, hword⟩ := h.word
  have hpos := h.pos.1
  simp only [samePadding, hget, Option.getD_some, Value.display, bind, Except.bind, hword, if_true,
    h.size_kernel, pure, Except.pure]
  rw [if_pos (by omega)]

theorem gives (h : AsksSame raw kernel dilation) {fields : Fields}
    (hfields : Normal.params Catalogue.standard "Conv2d" raw = .ok fields) :
    Layer.Sizing.Gives (Layer.convolution.resolve fields) (halfPadded kernel dilation) := by
  obtain ⟨next, hnext, hschema⟩ := (params_of_find? find?_convolution).1 hfields
  rw [if_pos rfl, h.samePadding_eq] at hnext
  obtain rfl := Except.ok.inj hnext
  -- All keys but that of the padding are read as they were given.
  have hother : ∀ key p, Layer.convolution.schema.get? key = some p → key ≠ "padding" →
      ∀ v, Fields.get (Layer.convolution.resolve raw) key = v → p.accepts v = true →
        Fields.get (Layer.convolution.resolve fields) key = v := by
    intro key p hp hkey v hv haccepts
    refine get_resolve_ofSchema hschema hp ?_ haccepts
    rw [← hv, Layer.resolve, Schema.get_resolve _ _ hp, Schema.get_resolve _ _ hp,
      Table.get?_put_of_ne _ hkey]
  refine ⟨?_, ?_, ?_, ?_⟩
  · rcases Value.sizes?_eq_some h.sizes with ⟨hint, hsquare⟩ | hlist
    · rw [hother _ _ rfl (by decide) _ hint rfl]
      exact congrArg Except.ok (Prod.ext rfl hsquare)
    · rw [hother _ _ rfl (by decide) _ hlist rfl]
      rfl
  · rw [hother _ _ rfl (by decide) _ h.step rfl]
    rfl
  · have hpadding : Fields.get (Layer.convolution.resolve fields) "padding" =
        .int (kernel.1 / 2) := by
      refine get_resolve_ofSchema hschema (p := Layer.sizeParam "Padding" 0 0) rfl ?_ rfl
      rw [Schema.get_resolve _ _ rfl, Table.get?_put_self, Option.getD_some]
    rw [hpadding]
    rfl
  · rw [hother _ _ rfl (by decide) _ (Value.size?_eq_some h.gap) rfl]
    rfl

theorem exists_params (h : AsksSame raw kernel dilation) :
    ∃ fields, Normal.params Catalogue.standard "Conv2d" raw = .ok fields := by
  cases params_attempt "Conv2d" raw with
  | made _ fields hfields => exact ⟨fields, hfields⟩
  | stopped fault trouble _ =>
    obtain ⟨word, hget, -⟩ := h.word
    cases trouble with
    | padding _ long =>
      rw [paddingGiven, hget] at long
      exact absurd long.1 (by simp [Value.writable])
    | kernel _ _ _ size =>
      cases size_attempt 3 (raw.get "kernel_size") with
      | made none _ _ => exact absurd size (none fault)
      | stopped _ _ heq => cases h.size_kernel.symm.trans heq
    | shape input _ _ _ => exact absurd input (by decide)

end AsksSame

/-- A convolution that asks for padding that keeps the size always has a normal form, and the shape
that is inferred with it depends on the kernel and the dilation as follows. It keeps height and
width exactly if the kernel is square, and without gaps unless it is a single point. -/
theorem same_keeps_iff {raw : Fields} {kernel : Int × Int} {dilation : Int}
    (h : AsksSame raw kernel dilation) :
    ∃ fields, Normal.params Catalogue.standard "Conv2d" raw = .ok fields ∧
      ∀ batch channels height width : Int, 1 ≤ height → 1 ≤ width →
        (∀ shape, Layer.convolution.shape [[batch, channels, height, width]]
            (Layer.convolution.resolve fields) = .ok (some shape) →
          ∃ outputs, (Fields.get (Layer.convolution.resolve fields) "out_channels").toInt =
              .ok outputs ∧
            shape = [batch, outputs, height - (dilation - 1) * (kernel.1 - 1),
              width + (kernel.1 - 1) - dilation * (kernel.2 - 1)]) ∧
        ∀ outputs, (Fields.get (Layer.convolution.resolve fields) "out_channels").toInt =
            .ok outputs →
          (Layer.convolution.shape [[batch, channels, height, width]]
              (Layer.convolution.resolve fields) = .ok (some [batch, outputs, height, width]) ↔
            kernel.1 = kernel.2 ∧ (kernel.1 = 1 ∨ dilation = 1)) := by
  obtain ⟨fields, hfields⟩ := h.exists_params
  refine ⟨fields, hfields, fun batch channels height width hheight hwidth => ?_⟩
  have hsized : ∀ shape, Layer.convolution.shape [[batch, channels, height, width]]
      (Layer.convolution.resolve fields) = .ok (some shape) ↔ _ :=
    fun shape => Layer.Sizing.convolution_eq_ok (h.gives hfields)
      ⟨Int.le_refl 1, Int.le_refl 1⟩ batch channels (by omega) (by omega)
  refine ⟨fun shape hshape => ?_, fun outputs houtputs => ?_⟩
  · obtain ⟨-, hread⟩ := (hsized shape).1 hshape
    rwa [sizes_halfPadded h.odd.1] at hread
  · rw [hsized, ← sizes_halfPadded_eq_iff h.odd.1 (Value.le_of_size? h.gap) height width]
    constructor
    · rintro ⟨-, other, -, hshape⟩
      simp only [List.cons.injEq, and_true] at hshape
      exact Prod.ext hshape.2.2.1.symm hshape.2.2.2.symm
    · intro hkept
      rw [hkept]
      exact ⟨⟨hheight, hwidth⟩, outputs, houtputs, rfl⟩

def wrapped : Fields :=
  [("padding", .str " SAME\t"), ("kernel_size", .list [.int 5, .int 5]), ("out_channels", .str "8")]

theorem wrapped_keeps :
    AsksSame wrapped (5, 5) 1 ∧
    ∃ fields, Normal.params Catalogue.standard "Conv2d" wrapped = .ok fields ∧
      Layer.convolution.shape [[-1, 3, 7, 2]] (Layer.convolution.resolve fields) =
        .ok (some [-1, 8, 7, 2]) := by
  have hasks : AsksSame wrapped (5, 5) 1 :=
    ⟨⟨" SAME\t", rfl, by decide +kernel⟩, rfl, by decide, rfl, rfl⟩
  obtain ⟨fields, hfields, hkeeps⟩ := same_keeps_iff hasks
  refine ⟨hasks, fields, hfields, ?_⟩
  have houtputs : ((Normal.params Catalogue.standard "Conv2d" wrapped).map fun fields =>
      ((Fields.get (Layer.convolution.resolve fields) "out_channels").toInt).toOption).toOption =
      some (some 8) := by
    decide +kernel
  rw [hfields] at houtputs
  have hread := eq_ok_of_toOption (Option.some.inj houtputs)
  exact ((hkeeps (-1) 3 7 2 (by decide) (by decide)).2 8 hread).2 (by decide)

def gapped : Fields :=
  [("padding", .str "same"), ("kernel_size", .int 3), ("dilation", .int 2)]

theorem gapped_shrinks :
    AsksSame gapped (3, 3) 2 ∧
    ∃ fields, Normal.params Catalogue.standard "Conv2d" gapped = .ok fields ∧
      Layer.convolution.shape [[1, 3, 8, 8]] (Layer.convolution.resolve fields) =
        .ok (some [1, 64, 6, 6]) ∧
      ¬∃ outputs, Layer.convolution.shape [[1, 3, 8, 8]] (Layer.convolution.resolve fields) =
        .ok (some [1, outputs, 8, 8]) := by
  refine ⟨⟨⟨"same", rfl, by decide +kernel⟩, rfl, by decide, rfl, rfl⟩, ?_⟩
  have hshape : ((Normal.params Catalogue.standard "Conv2d" gapped).map fun fields =>
      (Layer.convolution.shape [[1, 3, 8, 8]]
        (Layer.convolution.resolve fields)).toOption).toOption =
      some (some (some [1, 64, 6, 6])) := by
    decide +kernel
  cases hfields : Normal.params Catalogue.standard "Conv2d" gapped with
  | error fault =>
    rw [hfields] at hshape
    cases hshape
  | ok fields =>
    rw [hfields] at hshape
    have hshrunk := eq_ok_of_toOption (Option.some.inj hshape)
    refine ⟨fields, rfl, hshrunk, ?_⟩
    rintro ⟨outputs, hkept⟩
    rw [hshrunk] at hkept
    cases hkept

end Normal

end LayerGraph
