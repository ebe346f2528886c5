import LayerGraph.Proofs.Layer.Symbolic
import LayerGraph.Proofs.Layer.Windows
set_option autoImplicit false

namespace LayerGraph

namespace Shape.Window

def sizes (w : Window) (height width : Int) : Int × Int :=
  ((height + 2 * w.padding.1 - w.dilation.1 * (w.kernel.1 - 1) - 1) / w.stride.1 + 1,
    (width + 2 * w.padding.2 - w.dilation.2 * (w.kernel.2 - 1) - 1) / w.stride.2 + 1)

theorem slide_of_known {w : Window} (hstride : 1 ≤ w.stride.1 ∧ 1 ≤ w.stride.2) {kind : String}
    {height width n m : Int} (hheight : 0 ≤ height) (hwidth : 0 ≤ width) :
    w.slide kind height width = .ok (n, m) ↔ (n, m) = w.sizes height width ∧ 1 ≤ n ∧ 1 ≤ m := by
  rw [slide_eq_ok, window_of_known _ _ _ hheight hstride.1, window_of_known _ _ _ hwidth hstride.2,
    Except.ok.injEq, Except.ok.injEq, sizes, Prod.mk.injEq, and_assoc]
  constructor
  · rintro ⟨rfl, rfl, hleft⟩
    exact ⟨rfl, rfl, by omega, by omega⟩
  · rintro ⟨rfl, rfl, hn, hm⟩
    exact ⟨rfl, rfl, by omega⟩

end Shape.Window

namespace Layer.Sizing

structure Gives (params : Fields) (w : Shape.Window) : Prop where
  kernel : (params.get "kernel_size").toPair 3 = .ok w.kernel
  stride : (params.get "stride").toPair 1 = .ok w.stride
  padding : (params.get "padding").toPair 0 = .ok w.padding
  dilation : (params.get "dilation").toPair 1 = .ok w.dilation

variable {params : Fields} {w : Shape.Window}

theorem convolution_eq_ok (h : Gives params w) (hstride : 1 ≤ w.stride.1 ∧ 1 ≤ w.stride.2)
    (batch channels : Int) {height width : Int} (hheight : 0 ≤ height) (hwidth : 0 ≤ width)
    {shape : Shape} :
    convolution [[batch, channels, height, width]] params = .ok (some shape) ↔
      (1 ≤ (w.sizes height width).1 ∧ 1 ≤ (w.sizes height width).2) ∧
      ∃ outputs, (params.get "out_channels").toInt = .ok outputs ∧
        shape = [batch, outputs, (w.sizes height width).1, (w.sizes height width).2] := by
  simp only [convolution, onImages, onFirst, map_eq_ok, Option.some.injEq, exists_eq_right,
    h.kernel, h.stride, h.padding, h.dilation, bind_eq_ok, Except.ok.injEq, exists_eq_left', pure,
    Except.pure, Prod.exists, Shape.Window.slide_of_known hstride hheight hwidth]
  constructor
  · rintro ⟨n, m, ⟨hsizes, hn, hm⟩, outputs, houtputs, rfl⟩
    rw [← hsizes]
    exact ⟨⟨hn, hm⟩, outputs, houtputs, rfl⟩
  · rintro ⟨⟨hn, hm⟩, outputs, houtputs, rfl⟩
    exact ⟨_, _, ⟨rfl, hn, hm⟩, outputs, houtputs, rfl⟩

end Layer.Sizing

end LayerGraph
