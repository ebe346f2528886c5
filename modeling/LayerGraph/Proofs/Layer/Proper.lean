import LayerGraph.Proofs.Layer.Parameters
import LayerGraph.Proofs.Layer.Symbolic
set_option autoImplicit false

namespace LayerGraph

def IsProper (n : Int) : Prop := n = -1 ∨ 1 ≤ n

instance (n : Int) : Decidable (IsProper n) := inferInstanceAs (Decidable (_ ∨ _))

theorem IsProper.of_pos {n : Int} (h : 1 ≤ n) : IsProper n := .inr h

def Shape.Proper (shape : Shape) : Prop := ∀ n ∈ shape, IsProper n

instance (shape : Shape) : Decidable shape.Proper :=
  inferInstanceAs (Decidable (∀ n ∈ shape, IsProper n))

namespace Shape

variable {shape other : Shape} {n : Int}

@[simp] theorem proper_nil : Proper [] := by simp [Proper]

@[simp] theorem proper_cons : Proper (n :: shape) ↔ IsProper n ∧ shape.Proper :=
  List.forall_mem_cons

@[simp] theorem proper_append : Proper (shape ++ other) ↔ shape.Proper ∧ other.Proper :=
  List.forall_mem_append

theorem Proper.subset (h : shape.Proper) (hsubset : other ⊆ shape) : other.Proper :=
  fun n hn => h n (hsubset hn)

theorem Proper.set (h : shape.Proper) (axis : Nat) (hn : IsProper n) :
    Proper (shape.set axis n) := by
  intro m hm
  rcases List.mem_or_eq_of_mem_set hm with hold | rfl
  · exact h m hold
  · exact hn

theorem Proper.pos_of_known (h : shape.Proper) (hknown : shape.any (· < 0) = false) :
    ∀ n ∈ shape, 1 ≤ n := by
  intro n hn
  have hpos : ¬n < 0 := by simpa using List.any_eq_false.1 hknown n hn
  rcases h n hn with rfl | hle
  · omega
  · exact hle

theorem Proper.combined (h : shape.Proper) {combine : Shape → Int}
    (hpos : (∀ n ∈ shape, 1 ≤ n) → 1 ≤ combine shape) :
    IsProper (if shape.any (· < 0) then -1 else combine shape) := by
  cases hknown : shape.any (· < 0) with
  | true => exact .inl rfl
  | false => exact .of_pos (hpos (h.pos_of_known hknown))

theorem product_pos (h : ∀ n ∈ shape, 1 ≤ n) : 1 ≤ shape.foldr (· * ·) 1 := by
  induction shape with
  | nil => exact Int.le_refl 1
  | cons n shape ih =>
    obtain ⟨hn, hshape⟩ := List.forall_mem_cons.1 h
    exact Int.mul_pos hn (ih hshape)

theorem Proper.extent (h : shape.Proper) : IsProper shape.extent := h.combined product_pos

theorem sum_nonneg (h : ∀ n ∈ shape, 1 ≤ n) : 0 ≤ shape.foldr (· + ·) 0 := by
  induction shape with
  | nil => exact Int.le_refl 0
  | cons n shape ih =>
    obtain ⟨hn, hshape⟩ := List.forall_mem_cons.1 h
    have hrest := ih hshape
    rw [List.foldr_cons]
    omega

theorem sum_pos (hne : shape ≠ []) (h : ∀ n ∈ shape, 1 ≤ n) : 1 ≤ shape.foldr (· + ·) 0 := by
  cases shape with
  | nil => exact absurd rfl hne
  | cons n shape =>
    obtain ⟨hn, hshape⟩ := List.forall_mem_cons.1 h
    have hrest := sum_nonneg hshape
    rw [List.foldr_cons]
    omega

theorem Proper.flatten (h : shape.Proper) {start stop : Int} {out : Shape}
    (hout : shape.flatten start stop = .ok out) : out.Proper := by
  simp only [Shape.flatten] at hout
  split at hout
  · cases hout
    exact proper_nil
  · split at hout
    · cases hout
      rw [proper_append, proper_cons]
      exact ⟨h.subset (List.take_subset _ _),
        ((h.subset (List.take_subset _ _)).subset (List.drop_subset _ _)).extent,
        h.subset (List.drop_subset _ _)⟩
    · cases hout

/-- A window makes a symbolic size of a symbolic one, and a fault of a known one that it leaves no
position on. -/
theorem window_proper {size kernel stride padding dilation : Int} (hsize : IsProper size)
    (h : window size kernel stride padding dilation = .ok n) (hleft : ¬(0 ≤ size ∧ n ≤ 0)) :
    IsProper n := by
  rcases hsize with rfl | hpos
  · cases h
    exact .inl rfl
  · exact .of_pos (by omega)

theorem Window.slide_proper {kind : String} {height width m : Int} {w : Window}
    (hheight : IsProper height) (hwidth : IsProper width)
    (h : w.slide kind height width = .ok (n, m)) : IsProper n ∧ IsProper m := by
  obtain ⟨hn, hm, hleft⟩ := slide_eq_ok.1 h
  exact ⟨window_proper hheight hn fun hnone => hleft (.inl hnone),
    window_proper hwidth hm fun hnone => hleft (.inr hnone)⟩

end Shape

namespace Layer

namespace Sizing

/-- A rule that, with these params, makes proper shapes of proper shapes. -/
def KeepsProper (rule : ShapeRule) (params : Fields) : Prop :=
  ∀ inputs shape, (∀ input ∈ inputs, Shape.Proper input) →
    rule inputs params = .ok (some shape) → shape.Proper

def Positive (params : Fields) (key : String) : Prop :=
  ∀ n, (params.get key).toInt = .ok n → 1 ≤ n

variable {params : Fields}

theorem onFirst_keepsProper {rule : Shape → Fields → Except Fault Shape}
    (h : ∀ shape out, Shape.Proper shape → rule shape params = .ok out → out.Proper) :
    KeepsProper (onFirst rule) params := by
  intro inputs out hinputs hout
  cases inputs with
  | nil => cases hout
  | cons shape more =>
    obtain ⟨out', hrule, heq⟩ := map_eq_ok.1 hout
    cases heq
    exact h shape out (hinputs shape List.mem_cons_self) hrule

theorem onImages_keepsProper {kind : String}
    {rule : Int → Int → Int → Int → Fields → Except Fault Shape}
    (h : ∀ batch channels height width out, IsProper batch → IsProper channels →
      IsProper height → IsProper width → rule batch channels height width params = .ok out →
      out.Proper) : KeepsProper (onImages kind rule) params := by
  refine onFirst_keepsProper fun shape out hshape hout => ?_
  split at hout
  · simp only [Shape.proper_cons, Shape.proper_nil, and_true] at hshape
    obtain ⟨hb, hc, hh, hw⟩ := hshape
    exact h _ _ _ _ _ hb hc hh hw hout
  · cases hout

theorem input_keepsProper (h : ∀ items, params.get "shape" = .list items →
    ∀ item ∈ items, ∀ n, item.toInt = .ok n → IsProper n) : KeepsProper input params := by
  intro inputs shape _ hshape
  unfold input at hshape
  split at hshape
  · rename_i size sizes hlist
    obtain ⟨shape', hsizes, heq⟩ := map_eq_ok.1 hshape
    cases heq
    intro n hn
    obtain ⟨item, hitem, hread⟩ := exists_of_forall₂ (mapM_eq_ok_iff.1 hsizes) hn
    exact h _ hlist item hitem n hread
  · cases hshape

theorem identity_keepsProper : KeepsProper identity params :=
  onFirst_keepsProper fun _ _ hshape hout => by
    cases hout
    exact hshape

theorem linear_keepsProper (h : Positive params "out_features") : KeepsProper linear params := by
  refine onFirst_keepsProper fun shape out hshape hout => ?_
  split at hout
  · cases hout
  · simp only [bind_eq_ok, pure, Except.pure, Except.ok.injEq] at hout
    obtain ⟨n, hn, rfl⟩ := hout
    simp [hshape.subset (List.dropLast_subset _), IsProper.of_pos (h n hn)]

theorem flatten_keepsProper : KeepsProper flatten params := by
  refine onFirst_keepsProper fun shape out hshape hout => ?_
  simp only [bind_eq_ok] at hout
  obtain ⟨start, -, stop, -, hout⟩ := hout
  exact hshape.flatten hout

theorem batchNorm_keepsProper (kind : String) (ranks : List Nat) :
    KeepsProper (batchNorm kind ranks) params := by
  refine onFirst_keepsProper fun shape out hshape hout => ?_
  simp only [bind_eq_ok, pure, Except.pure, Except.ok.injEq] at hout
  obtain ⟨_, -, rfl⟩ := hout
  exact hshape

theorem embedding_keepsProper (h : Positive params "embedding_dim") :
    KeepsProper embedding params := by
  refine onFirst_keepsProper fun shape out hshape hout => ?_
  simp only [bind_eq_ok, pure, Except.pure, Except.ok.injEq] at hout
  obtain ⟨n, hn, rfl⟩ := hout
  simp [hshape, IsProper.of_pos (h n hn)]

theorem recurrent_keepsProper (kind : String) (h : Positive params "hidden_size") :
    KeepsProper (recurrent kind) params := by
  refine onFirst_keepsProper fun shape out hshape hout => ?_
  simp only [bind_eq_ok, pure, Except.pure, Except.ok.injEq] at hout
  obtain ⟨_, -, hidden, hhidden, rfl⟩ := hout
  have hpos := h hidden hhidden
  have hlast : IsProper (hidden * if (params.get "bidirectional").truthy then 2 else 1) := by
    refine .of_pos ?_
    split <;> omega
  rw [Shape.proper_append, Shape.proper_cons]
  exact ⟨hshape.subset (List.dropLast_subset _), hlast, Shape.proper_nil⟩

theorem convolution_keepsProper (h : Positive params "out_channels") :
    KeepsProper convolution params := by
  refine onImages_keepsProper fun batch _ height width out hb _ hh hw hout => ?_
  simp only [bind_eq_ok, pure, Except.pure, Except.ok.injEq] at hout
  obtain ⟨_, -, _, -, _, -, _, -, ⟨n, m⟩, hslide, channels, hchannels, rfl⟩ := hout
  obtain ⟨hn, hm⟩ := Shape.Window.slide_proper hh hw hslide
  simp [hb, hn, hm, IsProper.of_pos (h channels hchannels)]

theorem pool_keepsProper (kind : String) : KeepsProper (pool kind) params := by
  refine onImages_keepsProper fun batch channels height width out hb hc hh hw hout => ?_
  simp only [bind_eq_ok, pure, Except.pure, Except.ok.injEq] at hout
  obtain ⟨_, -, _, -, _, -, ⟨n, m⟩, hslide, rfl⟩ := hout
  obtain ⟨hn, hm⟩ := Shape.Window.slide_proper hh hw hslide
  simp [hb, hc, hn, hm]

theorem adaptivePool_keepsProper
    (h : ∀ n m, (params.get "output_size").toPair 1 = .ok (n, m) → 1 ≤ n ∧ 1 ≤ m) :
    KeepsProper adaptivePool params := by
  refine onImages_keepsProper fun batch channels _ _ out hb hc _ _ hout => ?_
  simp only [bind_eq_ok, pure, Except.pure, Except.ok.injEq] at hout
  obtain ⟨⟨n, m⟩, hsize, rfl⟩ := hout
  obtain ⟨hn, hm⟩ := h n m hsize
  simp [hb, hc, IsProper.of_pos hn, IsProper.of_pos hm]

theorem residual_keepsProper (h : Positive params "out_channels") :
    KeepsProper residual params := by
  refine onImages_keepsProper fun batch _ height width out hb _ hh hw hout => ?_
  simp only [bind_eq_ok, pure, Except.pure, Except.ok.injEq] at hout
  obtain ⟨_, -, ⟨n, m⟩, hslide, channels, hchannels, rfl⟩ := hout
  obtain ⟨hn, hm⟩ := Shape.Window.slide_proper hh hw hslide
  simp [hb, hn, hm, IsProper.of_pos (h channels hchannels)]

theorem concat_keepsProper : KeepsProper concat params := by
  intro inputs shape hinputs hshape
  cases inputs with
  | nil => cases hshape
  | cons first more =>
    simp only [concat, bind_eq_ok] at hshape
    obtain ⟨dim, -, hshape⟩ := hshape
    generalize Shape.wrapAxis dim first.length = axis at hshape
    split at hshape
    · rename_i hrange
      cases hshape
      have hsizes : Shape.Proper
          ((first :: more).filterMap fun (shape : Shape) => shape[axis.toNat]?) := by
        intro n hn
        obtain ⟨shape, hin, hsize⟩ := List.mem_filterMap.1 hn
        exact hinputs shape hin n (List.mem_of_getElem? hsize)
      have hfirst : first[axis.toNat]? = some first[axis.toNat] :=
        List.getElem?_eq_getElem (by omega)
      refine (hinputs first List.mem_cons_self).set _
        (hsizes.combined (Shape.sum_pos ?_))
      simp [hfirst]
    · cases hshape

end Sizing

end Layer

end LayerGraph
