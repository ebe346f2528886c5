import LayerGraph.Proofs.Writable
import LayerGraph.Shape
import Mathlib.Data.Set.Card
set_option autoImplicit false

/-!
The sizes that convolutions and pools give to their outputs count the positions of a window: along
an axis of known size, the offsets at which the window lies on the axis and its padding. There is a
fault exactly if no position is left on such an axis. An axis of symbolic size stays symbolic, and
is no reason for a fault.
-/

namespace LayerGraph

namespace Shape

/-- The numbers of steps after which a window still ends on the padded axis. -/
def offsets (size kernel stride padding dilation : Int) : Set Nat :=
  {i | i * stride + dilation * (kernel - 1) + 1 ≤ size + 2 * padding}

/-- A window that is longer than an axis of known size with its padding. -/
def Exceeds (size kernel padding dilation : Int) : Prop :=
  0 ≤ size ∧ size + 2 * padding < dilation * (kernel - 1) + 1

instance (size kernel padding dilation : Int) : Decidable (Exceeds size kernel padding dilation) :=
  inferInstanceAs (Decidable (_ ∧ _))

noncomputable def positions (size kernel stride padding dilation : Int) : Int :=
  if size < 0 then -1 else (offsets size kernel stride padding dilation).ncard

variable (size kernel : Int) {stride : Int} (padding dilation : Int)

theorem mem_offsets_iff (hstride : 1 ≤ stride) (i : Nat) :
    i ∈ offsets size kernel stride padding dilation ↔
      (i : Int) < (size + 2 * padding - dilation * (kernel - 1) - 1) / stride + 1 := by
  rw [Int.lt_add_one_iff, Int.le_ediv_iff_mul_le (by omega), offsets, Set.mem_ofPred_eq]
  omega

theorem ncard_offsets (hstride : 1 ≤ stride) :
    (offsets size kernel stride padding dilation).ncard =
      ((size + 2 * padding - dilation * (kernel - 1) - 1) / stride + 1).toNat := by
  have hrange : offsets size kernel stride padding dilation = Finset.range
      ((size + 2 * padding - dilation * (kernel - 1) - 1) / stride + 1).toNat := by
    ext i
    rw [mem_offsets_iff size kernel padding dilation hstride, Finset.mem_coe, Finset.mem_range,
      Int.lt_toNat]
  rw [hrange, Set.ncard_coe_finset, Finset.card_range]

theorem quotient_nonpos_iff (hstride : 1 ≤ stride) :
    (size + 2 * padding - dilation * (kernel - 1) - 1) / stride + 1 ≤ 0 ↔
      size + 2 * padding < dilation * (kernel - 1) + 1 := by
  have hfirst := mem_offsets_iff size kernel padding dilation hstride 0
  rw [offsets, Set.mem_ofPred_eq] at hfirst
  omega

variable {size}

theorem window_of_known (hsize : 0 ≤ size) (hstride : 1 ≤ stride) :
    window size kernel stride padding dilation =
      .ok ((size + 2 * padding - dilation * (kernel - 1) - 1) / stride + 1) := by
  rw [window, if_neg (by omega), if_neg (by omega)]

theorem window_of_symbolic (hsize : size < 0) :
    window size kernel stride padding dilation = .ok (-1) := by
  rw [window, if_pos hsize]

variable (size)

/-- The size along one axis: a number that is positive, or symbolic, unless the window exceeds the
axis, and then is the number of positions. -/
theorem window_counts (hstride : 1 ≤ stride) :
    ∃ n, window size kernel stride padding dilation = .ok n ∧
      ((0 ≤ size ∧ n ≤ 0) ↔ Exceeds size kernel padding dilation) ∧
      (¬Exceeds size kernel padding dilation →
        n = positions size kernel stride padding dilation) := by
  rw [positions]
  by_cases hsize : size < 0
  · refine ⟨-1, window_of_symbolic kernel padding dilation hsize, ?_, fun _ => (if_pos hsize).symm⟩
    rw [Exceeds]
    omega
  · refine ⟨_, window_of_known kernel padding dilation (by omega) hstride, and_congr_right fun _ =>
      quotient_nonpos_iff size kernel padding dilation hstride, fun hfits => ?_⟩
    have hpos := mt (quotient_nonpos_iff size kernel padding dilation hstride).1
      fun hlong => hfits ⟨by omega, hlong⟩
    rw [if_neg hsize, ncard_offsets size kernel padding dilation hstride]
    omega

namespace Window

noncomputable def counts (w : Window) (height width : Int) : Int × Int :=
  (positions height w.kernel.1 w.stride.1 w.padding.1 w.dilation.1,
    positions width w.kernel.2 w.stride.2 w.padding.2 w.dilation.2)

def Misfits (w : Window) (height width : Int) : Prop :=
  Exceeds height w.kernel.1 w.padding.1 w.dilation.1 ∨
    Exceeds width w.kernel.2 w.padding.2 w.dilation.2

instance (w : Window) (height width : Int) : Decidable (w.Misfits height width) :=
  inferInstanceAs (Decidable (_ ∨ _))

/-- A window gives its numbers of positions, unless it is too long for an axis of known size. Then the
fault shows the two sizes as they are calculated, if they can be written. -/
theorem slide_counts {w : Window} (hstride : 1 ≤ w.stride.1 ∧ 1 ≤ w.stride.2) (kind : String)
    (height width : Int) :
    ((∃ fault, w.slide kind height width = .error fault) ↔ w.Misfits height width) ∧
    (¬w.Misfits height width → w.slide kind height width = .ok (w.counts height width)) ∧
    ∀ fault, w.slide kind height width = .error fault → ∃ n m,
      window height w.kernel.1 w.stride.1 w.padding.1 w.dilation.1 = .ok n ∧
      window width w.kernel.2 w.stride.2 w.padding.2 w.dilation.2 = .ok m ∧
      fault = if isWritable n ∧ isWritable m then .shape (.noOutput kind n m)
        else .integerTooLong := by
  obtain ⟨n, hn, hleft, hcount⟩ :=
    window_counts height w.kernel.1 w.padding.1 w.dilation.1 hstride.1
  obtain ⟨m, hm, hright, hcount'⟩ :=
    window_counts width w.kernel.2 w.padding.2 w.dilation.2 hstride.2
  have hmisfits : (0 ≤ height ∧ n ≤ 0) ∨ (0 ≤ width ∧ m ≤ 0) ↔ w.Misfits height width :=
    or_congr hleft hright
  have hslide : w.slide kind height width =
      if w.Misfits height width then (ShapeFault.noOutput kind n m).raise else .ok (n, m) := by
    rw [slide, hn, hm]
    exact if_congr hmisfits rfl rfl
  have hraise : ((ShapeFault.noOutput kind n m).raise : Except Fault (Int × Int)) =
      .error (if isWritable n ∧ isWritable m then .shape (.noOutput kind n m)
        else .integerTooLong) := by
    simp [ShapeFault.raise, ShapeFault.shown]
  rw [hslide, hraise]
  by_cases h : w.Misfits height width
  · rw [if_pos h]
    refine ⟨⟨fun _ => h, fun _ => ⟨_, rfl⟩⟩, fun hfits => absurd h hfits, fun fault hfault => ?_⟩
    exact ⟨n, m, hn, hm, (Except.error.inj hfault).symm⟩
  · rw [if_neg h]
    have hfits := not_or.1 h
    refine ⟨⟨fun hfault => ?_, fun hmisfits => absurd hmisfits h⟩, fun _ => ?_, fun fault hfault => ?_⟩
    · obtain ⟨fault, hfault⟩ := hfault
      cases hfault
    · rw [counts, hcount hfits.1, hcount' hfits.2]
    · cases hfault

def sparse : Window where
  kernel := (3, 2)
  stride := (1, 3)
  padding := (1, 0)
  dilation := (2, 1)

/-- On a height of three the window fits once and on one of two nowhere; a width of eight leaves room
for a third step, and a symbolic width does not matter. -/
theorem sparse_counts :
    (1 ≤ sparse.stride.1 ∧ 1 ≤ sparse.stride.2) ∧
    sparse.slide "Conv2d" 3 8 = .ok (1, 3) ∧ sparse.slide "Conv2d" 3 (-1) = .ok (1, -1) ∧
    sparse.slide "Conv2d" 2 (-1) = .error (.shape (.noOutput "Conv2d" 0 (-1))) := by
  have hstride : 1 ≤ sparse.stride.1 ∧ 1 ≤ sparse.stride.2 := by decide
  have hheight : positions 3 3 1 1 2 = 1 := by
    rw [positions, ncard_offsets _ _ _ _ (by decide)]
    decide
  have hwidth : positions 8 2 3 0 1 = 3 := by
    rw [positions, ncard_offsets _ _ _ _ (by decide)]
    decide
  refine ⟨hstride, ?_, ?_, ?_⟩
  · obtain ⟨-, hfits, -⟩ := slide_counts hstride "Conv2d" 3 8
    rw [hfits (by decide)]
    exact congrArg Except.ok (Prod.ext hheight hwidth)
  · obtain ⟨-, hfits, -⟩ := slide_counts hstride "Conv2d" 3 (-1)
    rw [hfits (by decide)]
    exact congrArg Except.ok (Prod.ext hheight rfl)
  · obtain ⟨hfaults, -, hshown⟩ := slide_counts hstride "Conv2d" 2 (-1)
    obtain ⟨fault, hfault⟩ := hfaults.2 (by decide)
    obtain ⟨n, m, hn, hm, heq⟩ := hshown fault hfault
    obtain rfl : 0 = n := Except.ok.inj hn
    obtain rfl : -1 = m := Except.ok.inj hm
    have hwritable : isWritable 0 = true ∧ isWritable (-1) = true :=
      ⟨isWritable_of_natAbs_le_one (by decide), isWritable_of_natAbs_le_one (by decide)⟩
    rw [hfault, heq, if_pos hwritable]

def longest : Int := ((Nat.pow 10 digitLimit - 1 : Nat) : Int)

/-- A window that is too long for a width of one, and has more positions along a height than can be
written. -/
def tall : Window where
  kernel := (1, 2)
  stride := (1, 1)
  padding := (1, 0)

theorem tall_not_shown :
    (∀ n ∈ [tall.kernel.1, tall.kernel.2, tall.stride.1, tall.stride.2, tall.dilation.1,
      tall.dilation.2], 1 ≤ n) ∧
    (∀ n ∈ [longest, 1, tall.padding.1, tall.padding.2], 0 ≤ n) ∧
    tall.Misfits longest 1 ∧
    tall.slide "MaxPool2d" longest 1 = .error .integerTooLong ∧
    ¬((∃ why, tall.slide "MaxPool2d" longest 1 = .error (.shape why)) ↔ tall.Misfits longest 1) := by
  have hmisfits : tall.Misfits longest 1 := .inr (by decide)
  have hslide : tall.slide "MaxPool2d" longest 1 = .error .integerTooLong := by
    decide +kernel
  have hsizes : ∀ n ∈ [longest, 1, tall.padding.1, tall.padding.2], 0 ≤ n :=
    List.forall_mem_cons.2 ⟨Int.natCast_nonneg _, by decide⟩
  refine ⟨by decide, hsizes, hmisfits, hslide, fun h => ?_⟩
  obtain ⟨why, hwhy⟩ := h.2 hmisfits
  rw [hslide] at hwhy
  cases hwhy

end Window

end Shape

end LayerGraph
