import LayerGraph.Layer.Standard
import LayerGraph.Proofs.Fold
set_option autoImplicit false

/-!
What the rules of a layer say about a shape holds of every shape with fewer sizes known: if some
sizes of its inputs are forgotten, a layer is sized as before, up to sizes that are forgotten in
turn, and a check finds nothing new. This holds of all standard layers but `Add`, which compares
shapes as they are.
-/

namespace LayerGraph

/-- A size that is kept or made symbolic. -/
def Forgets (n n' : Int) : Prop := n' = n ∨ n' = -1

namespace Forgets

@[refl] theorem refl (n : Int) : Forgets n n := .inl rfl

theorem eq_of_nonneg {n n' : Int} (h : Forgets n n') (hn : 0 ≤ n') : n' = n := by
  rcases h with heq | hsymbolic
  · exact heq
  · omega

end Forgets

abbrev Shape.Forgets : Shape → Shape → Prop := List.Forall₂ LayerGraph.Forgets

namespace Shape

theorem forgets_refl (shape : Shape) : Shape.Forgets shape shape :=
  List.forall₂_same.2 fun n _ => .refl n

theorem Forgets.eq_of_known {shape shape' : Shape} (h : Shape.Forgets shape shape')
    (hknown : shape'.any (· < 0) = false) : shape' = shape := by
  induction h with
  | nil => rfl
  | @cons n n' shape shape' hn _ ih =>
    simp only [List.any_cons, Bool.or_eq_false_iff, decide_eq_false_iff_not] at hknown
    rw [hn.eq_of_nonneg (by omega), ih hknown.2]

theorem Forgets.writable {shape shape' : Shape} (h : Shape.Forgets shape shape')
    (hshape : shape.all isWritable = true) : shape'.all isWritable = true := by
  induction h with
  | nil => rfl
  | @cons n n' shape shape' hn _ ih =>
    rw [List.all_cons, Bool.and_eq_true] at hshape ⊢
    refine ⟨?_, ih hshape.2⟩
    rcases hn with rfl | rfl
    · exact hshape.1
    · decide +kernel

theorem Forgets.dropLast {shape shape' : Shape} (h : Shape.Forgets shape shape') :
    Shape.Forgets shape.dropLast shape'.dropLast := by
  rw [List.dropLast_eq_take, List.dropLast_eq_take, h.length_eq]
  exact List.forall₂_take _ h

theorem Forgets.snoc {shape shape' : Shape} (h : Shape.Forgets shape shape') (n : Int) :
    Shape.Forgets (shape ++ [n]) (shape' ++ [n]) :=
  List.rel_append h (forgets_refl [n])

theorem combined_forgets {sizes sizes' : Shape} (h : Shape.Forgets sizes sizes')
    (combine : Shape → Int) :
    LayerGraph.Forgets (if sizes.any (· < 0) then -1 else combine sizes)
      (if sizes'.any (· < 0) then -1 else combine sizes') := by
  cases hknown : sizes'.any (· < 0) with
  | true => exact .inr rfl
  | false =>
    obtain rfl := h.eq_of_known hknown
    rw [hknown]

theorem Forgets.getElem? {shape shape' : Shape} (h : Shape.Forgets shape shape') (axis : Nat) :
    Option.Rel LayerGraph.Forgets shape[axis]? shape'[axis]? := by
  induction h generalizing axis with
  | nil => exact .none
  | cons hn _ ih =>
    cases axis with
    | zero => exact .some hn
    | succ axis => simpa using ih axis

theorem Forgets.getElem?_of_nonneg {shape shape' : Shape} (h : Shape.Forgets shape shape')
    {axis : Nat} {n : Int} (hn : shape'[axis]? = some n) (hpos : 0 ≤ n) : shape[axis]? = some n := by
  have hrel := h.getElem? axis
  rw [hn] at hrel
  generalize shape[axis]? = size? at hrel
  cases hrel with
  | some hsize => rw [hsize.eq_of_nonneg hpos]

theorem Forgets.getLast? {shape shape' : Shape} (h : Shape.Forgets shape shape') :
    Option.Rel LayerGraph.Forgets shape.getLast? shape'.getLast? := by
  rw [List.getLast?_eq_getElem?, List.getLast?_eq_getElem?, ← h.length_eq]
  exact h.getElem? _

theorem Forgets.set {shape shape' : Shape} (h : Shape.Forgets shape shape') (axis : Nat) {n n' : Int}
    (hn : LayerGraph.Forgets n n') : Shape.Forgets (shape.set axis n) (shape'.set axis n') := by
  induction h generalizing axis with
  | nil => exact .nil
  | cons hsize hrest ih =>
    cases axis with
    | zero => exact .cons hn hrest
    | succ axis => exact .cons hsize (ih axis)

theorem flatten_forgets {shape shape' out : Shape} (h : Shape.Forgets shape shape')
    {start stop : Int} (hout : shape.flatten start stop = .ok out) :
    ∃ out', shape'.flatten start stop = .ok out' ∧ Shape.Forgets out out' := by
  have hempty : shape'.isEmpty = shape.isEmpty := by cases h <;> rfl
  simp only [flatten] at hout ⊢
  rw [hempty, ← h.length_eq]
  split at hout
  · cases hout
    rename_i hnone
    rw [if_pos hnone]
    exact ⟨[], rfl, .nil⟩
  · rename_i hsome
    rw [if_neg hsome]
    split at hout
    · cases hout
      rename_i hrange
      rw [if_pos hrange]
      refine ⟨_, rfl, List.rel_append (List.forall₂_take _ h) (.cons ?_ (List.forall₂_drop _ h))⟩
      exact combined_forgets (List.forall₂_drop _ (List.forall₂_take _ h)) (·.foldr (· * ·) 1)
    · cases hout

theorem window_forgets {size size' kernel stride padding dilation n : Int}
    (h : LayerGraph.Forgets size size') (hn : window size kernel stride padding dilation = .ok n) :
    ∃ n', window size' kernel stride padding dilation = .ok n' ∧ LayerGraph.Forgets n n' ∧
      (0 ≤ size' → size' = size ∧ n' = n) := by
  rcases h with rfl | rfl
  · exact ⟨n, hn, .refl n, fun _ => ⟨rfl, rfl⟩⟩
  · exact ⟨-1, by simp [window], .inr rfl, by omega⟩

namespace Window

theorem slide_eq_ok {kind : String} {height width n m : Int} {w : Window} :
    w.slide kind height width = .ok (n, m) ↔
      window height w.kernel.1 w.stride.1 w.padding.1 w.dilation.1 = .ok n ∧
      window width w.kernel.2 w.stride.2 w.padding.2 w.dilation.2 = .ok m ∧
      ¬((0 ≤ height ∧ n ≤ 0) ∨ (0 ≤ width ∧ m ≤ 0)) := by
  simp only [slide, bind_eq_ok]
  constructor
  · rintro ⟨a, ha, b, hb, hab⟩
    split at hab
    · cases hab
    · cases hab
      exact ⟨ha, hb, by assumption⟩
  · rintro ⟨ha, hb, hab⟩
    exact ⟨n, ha, m, hb, by rw [if_neg hab]; rfl⟩

theorem slide_forgets {kind : String} {height height' width width' n m : Int} {w : Window}
    (hheight : LayerGraph.Forgets height height') (hwidth : LayerGraph.Forgets width width')
    (h : w.slide kind height width = .ok (n, m)) :
    ∃ n' m', w.slide kind height' width' = .ok (n', m') ∧ LayerGraph.Forgets n n' ∧
      LayerGraph.Forgets m m' := by
  obtain ⟨hn, hm, hleft⟩ := slide_eq_ok.1 h
  obtain ⟨n', hn', hnn', hknown⟩ := window_forgets hheight hn
  obtain ⟨m', hm', hmm', hknown'⟩ := window_forgets hwidth hm
  refine ⟨n', m', slide_eq_ok.2 ⟨hn', hm', ?_⟩, hnn', hmm'⟩
  rintro (⟨hpos, hle⟩ | ⟨hpos, hle⟩)
  · obtain ⟨rfl, rfl⟩ := hknown hpos
    exact hleft (.inl ⟨hpos, hle⟩)
  · obtain ⟨rfl, rfl⟩ := hknown' hpos
    exact hleft (.inr ⟨hpos, hle⟩)

end Window

theorem mismatch_forgets {size size' expected expected' : Int} (h : LayerGraph.Forgets size size')
    (hexpected : LayerGraph.Forgets expected expected') (hmis : mismatch size' expected' = true) :
    size' = size ∧ expected' = expected := by
  simp only [mismatch, Bool.and_eq_true, decide_eq_true_eq] at hmis
  exact ⟨h.eq_of_nonneg hmis.1.2, hexpected.eq_of_nonneg hmis.2⟩

end Shape

namespace Layer

namespace Sizing

/-- A rule that sizes inputs with forgotten sizes as it sizes the inputs themselves. -/
def Tolerates (rule : ShapeRule) : Prop :=
  ∀ inputs inputs' params size, List.Forall₂ Shape.Forgets inputs inputs' →
    rule inputs params = .ok size →
      ∃ size', rule inputs' params = .ok size' ∧ Option.Rel Shape.Forgets size size'

theorem onFirst_tolerates {rule : Shape → Fields → Except Fault Shape}
    (h : ∀ shape shape' params out, Shape.Forgets shape shape' → rule shape params = .ok out →
      ∃ out', rule shape' params = .ok out' ∧ Shape.Forgets out out') :
    Tolerates (onFirst rule) := by
  intro inputs inputs' params size hinputs hsize
  cases hinputs with
  | nil =>
    cases hsize
    exact ⟨none, rfl, .none⟩
  | @cons shape shape' more more' hshape _ =>
    obtain ⟨out, hout, rfl⟩ := map_eq_ok.1 hsize
    obtain ⟨out', hout', hforgets⟩ := h shape shape' params out hshape hout
    exact ⟨some out', map_eq_ok.2 ⟨out', hout', rfl⟩, .some hforgets⟩

theorem onImages_tolerates {kind : String}
    {rule : Int → Int → Int → Int → Fields → Except Fault Shape}
    (h : ∀ batch batch' channels channels' height height' width width' params out,
      Forgets batch batch' → Forgets channels channels' → Forgets height height' →
      Forgets width width' → rule batch channels height width params = .ok out →
      ∃ out', rule batch' channels' height' width' params = .ok out' ∧ Shape.Forgets out out') :
    Tolerates (onImages kind rule) := by
  refine onFirst_tolerates fun shape shape' params out hshape hout => ?_
  split at hout
  · rename_i batch channels height width
    match shape', hshape with
    | _, .cons hb (.cons hc (.cons hh (.cons hw .nil))) =>
      exact h _ _ _ _ _ _ _ _ _ _ hb hc hh hw hout
  · cases hout

theorem identity_tolerates : Tolerates identity :=
  onFirst_tolerates fun _ shape' _ _ hshape hout => by
    cases hout
    exact ⟨shape', rfl, hshape⟩

theorem linear_tolerates : Tolerates linear := by
  refine onFirst_tolerates fun shape shape' params out hshape hout => ?_
  rw [← hshape.length_eq]
  split at hout
  · cases hout
  · rename_i hrank
    simp only [bind_eq_ok, pure, Except.pure, Except.ok.injEq] at hout
    obtain ⟨n, hn, rfl⟩ := hout
    rw [if_neg hrank, hn]
    exact ⟨_, rfl, hshape.dropLast.snoc n⟩

theorem flatten_tolerates : Tolerates flatten := by
  refine onFirst_tolerates fun shape shape' params out hshape hout => ?_
  simp only [bind_eq_ok] at hout ⊢
  obtain ⟨start, hstart, stop, hstop, hout⟩ := hout
  obtain ⟨out', hout', hforgets⟩ := Shape.flatten_forgets hshape hout
  exact ⟨out', ⟨start, hstart, stop, hstop, hout'⟩, hforgets⟩

theorem batchNorm_tolerates (kind : String) (ranks : List Nat) : Tolerates (batchNorm kind ranks) := by
  refine onFirst_tolerates fun shape shape' params out hshape hout => ?_
  rw [Shape.requireRank] at hout ⊢
  rw [← hshape.length_eq]
  split at hout
  · rename_i hrank
    cases hout
    rw [if_pos hrank]
    exact ⟨shape', rfl, hshape⟩
  · cases hout

theorem embedding_tolerates : Tolerates embedding := by
  refine onFirst_tolerates fun shape shape' params out hshape hout => ?_
  simp only [bind_eq_ok, pure, Except.pure, Except.ok.injEq] at hout ⊢
  obtain ⟨n, hn, rfl⟩ := hout
  exact ⟨_, ⟨n, hn, rfl⟩, hshape.snoc n⟩

theorem recurrent_tolerates (kind : String) : Tolerates (recurrent kind) := by
  refine onFirst_tolerates fun shape shape' params out hshape hout => ?_
  simp only [Shape.requireRank, ← hshape.length_eq] at hout ⊢
  split at hout
  · rename_i hrank
    rw [if_pos hrank]
    simp only [bind_eq_ok, pure, Except.pure, Except.ok.injEq] at hout ⊢
    obtain ⟨passed, -, n, hn, rfl⟩ := hout
    exact ⟨_, ⟨passed, trivial, n, hn, rfl⟩, hshape.dropLast.snoc _⟩
  · cases hout

theorem convolution_tolerates : Tolerates convolution := by
  refine onImages_tolerates fun b b' _ _ h h' w w' params out hb _ hh hw hout => ?_
  simp only [bind_eq_ok, pure, Except.pure, Except.ok.injEq] at hout ⊢
  obtain ⟨kernel, hkernel, stride, hstride, padding, hpadding, dilation, hdilation, ⟨n, m⟩, hslide,
    channels, hchannels, rfl⟩ := hout
  obtain ⟨n', m', hslide', hn, hm⟩ := Shape.Window.slide_forgets hh hw hslide
  exact ⟨_, ⟨kernel, hkernel, stride, hstride, padding, hpadding, dilation, hdilation, (n', m'),
    hslide', channels, hchannels, rfl⟩, .cons hb (.cons (.refl _) (.cons hn (.cons hm .nil)))⟩

theorem pool_tolerates (kind : String) : Tolerates (pool kind) := by
  refine onImages_tolerates fun b b' c c' h h' w w' params out hb hc hh hw hout => ?_
  simp only [bind_eq_ok, pure, Except.pure, Except.ok.injEq] at hout ⊢
  obtain ⟨kernel, hkernel, stride, hstride, padding, hpadding, ⟨n, m⟩, hslide, rfl⟩ := hout
  obtain ⟨n', m', hslide', hn, hm⟩ := Shape.Window.slide_forgets hh hw hslide
  exact ⟨_, ⟨kernel, hkernel, stride, hstride, padding, hpadding, (n', m'), hslide', rfl⟩,
    .cons hb (.cons hc (.cons hn (.cons hm .nil)))⟩

theorem adaptivePool_tolerates : Tolerates adaptivePool := by
  refine onImages_tolerates fun b b' c c' _ _ _ _ params out hb hc _ _ hout => ?_
  simp only [bind_eq_ok, pure, Except.pure, Except.ok.injEq] at hout ⊢
  obtain ⟨⟨n, m⟩, hsize, rfl⟩ := hout
  exact ⟨_, ⟨(n, m), hsize, rfl⟩, .cons hb (.cons hc (Shape.forgets_refl _))⟩

theorem residual_tolerates : Tolerates residual := by
  refine onImages_tolerates fun b b' _ _ h h' w w' params out hb _ hh hw hout => ?_
  simp only [bind_eq_ok, pure, Except.pure, Except.ok.injEq] at hout ⊢
  obtain ⟨stride, hstride, ⟨n, m⟩, hslide, channels, hchannels, rfl⟩ := hout
  obtain ⟨n', m', hslide', hn, hm⟩ := Shape.Window.slide_forgets hh hw hslide
  exact ⟨_, ⟨stride, hstride, (n', m'), hslide', channels, hchannels, rfl⟩,
    .cons hb (.cons (.refl _) (.cons hn (.cons hm .nil)))⟩

theorem concat_tolerates : Tolerates concat := by
  intro inputs inputs' params size hinputs hsize
  cases hinputs with
  | nil =>
    cases hsize
    exact ⟨none, rfl, .none⟩
  | @cons first first' more more' hfirst hmore =>
    simp only [concat, bind_eq_ok] at hsize ⊢
    obtain ⟨dim, hdim, hsize⟩ := hsize
    rw [← hfirst.length_eq]
    split at hsize
    · rename_i hrange
      simp only [pure, Except.pure, Except.ok.injEq] at hsize
      subst hsize
      refine ⟨_, ⟨dim, hdim, if_pos hrange⟩,
        .some (hfirst.set _ (Shape.combined_forgets ?_ (·.foldr (· + ·) 0)))⟩
      exact List.rel_filterMap (fun _ _ hshape => hshape.getElem? _) (.cons hfirst hmore)
    · cases hsize

end Sizing

namespace Checking

def Tolerates (check : CheckRule) : Prop :=
  ∀ inputs inputs' params findings, List.Forall₂ Shape.Forgets inputs inputs' →
    check inputs params = .ok findings →
      ∃ findings', check inputs' params = .ok findings' ∧ findings' ⊆ findings

theorem exists_subset {found : Except Fault (List Finding)} {findings : List Finding}
    (h : found = .ok findings) : ∃ findings', found = .ok findings' ∧ findings' ⊆ findings :=
  ⟨findings, h, List.Subset.refl _⟩

theorem agree_forgets {finding : Int → Int → Finding} {expected received received' : Int}
    {findings : List Finding} (h : Forgets received received')
    (hfindings : agree finding expected received = .ok findings) :
    ∃ findings', agree finding expected received' = .ok findings' ∧ findings' ⊆ findings := by
  by_cases hmis : Shape.mismatch received' expected = true
  · obtain ⟨rfl, -⟩ := Shape.mismatch_forgets h (.refl expected) hmis
    exact exists_subset hfindings
  · exact ⟨[], by rw [agree, if_neg hmis], List.nil_subset _⟩

theorem onFeatures_tolerates (key : String) (finding : Int → Int → Finding) :
    Tolerates (onFeatures key finding) := by
  intro inputs inputs' params findings hinputs hfindings
  cases hinputs with
  | nil => exact exists_subset hfindings
  | @cons shape shape' more more' hshape _ =>
    simp only [onFeatures] at hfindings ⊢
    have hlast := hshape.getLast?
    generalize shape.getLast? = last, shape'.getLast? = last' at hlast hfindings ⊢
    cases hlast with
    | none => exact exists_subset hfindings
    | some hn =>
      simp only [bind_eq_ok] at hfindings ⊢
      obtain ⟨expected, hexpected, hfindings⟩ := hfindings
      obtain ⟨findings', hfindings', hsubset⟩ := agree_forgets hn hfindings
      exact ⟨findings', ⟨expected, hexpected, hfindings'⟩, hsubset⟩

theorem convolution_tolerates : Tolerates convolution := by
  intro inputs inputs' params findings hinputs hfindings
  rcases hinputs with _ | ⟨_ | ⟨_, _ | ⟨hchannels, _ | ⟨_, _ | ⟨_, _ | _⟩⟩⟩⟩, _⟩
  case cons.cons.cons.cons.cons.nil =>
    simp only [convolution, bind_eq_ok] at hfindings ⊢
    obtain ⟨expected, hexpected, hfindings⟩ := hfindings
    obtain ⟨findings', hfindings', hsubset⟩ := agree_forgets hchannels hfindings
    exact ⟨findings', ⟨expected, hexpected, hfindings'⟩, hsubset⟩
  all_goals exact exists_subset hfindings

theorem batchNorm_tolerates (kind : String) : Tolerates (batchNorm kind) := by
  intro inputs inputs' params findings hinputs hfindings
  rcases hinputs with _ | ⟨_ | ⟨_, _ | ⟨hfeatures, _⟩⟩, _⟩
  case cons.cons.cons =>
    simp only [batchNorm, bind_eq_ok] at hfindings ⊢
    obtain ⟨expected, hexpected, hfindings⟩ := hfindings
    obtain ⟨findings', hfindings', hsubset⟩ := agree_forgets hfeatures hfindings
    exact ⟨findings', ⟨expected, hexpected, hfindings'⟩, hsubset⟩
  all_goals exact exists_subset hfindings

theorem residual_tolerates : Tolerates residual := by
  intro inputs inputs' params findings hinputs hfindings
  rcases hinputs with _ | ⟨_ | ⟨_, _ | ⟨hchannels, _⟩⟩, _⟩
  case cons.cons.cons =>
    simp only [residual, bind_eq_ok, pure, Except.pure, Except.ok.injEq] at hfindings ⊢
    obtain ⟨expected, hexpected, some, hsome, changes, hchanges, rfl⟩ := hfindings
    obtain ⟨some', hsome', hsubset⟩ := agree_forgets hchannels hsome
    exact ⟨_, ⟨expected, hexpected, some', hsome', changes, hchanges, rfl⟩,
      List.append_subset.2 ⟨List.subset_append_of_subset_left _ hsubset, List.subset_append_right _ _⟩⟩
  all_goals exact exists_subset hfindings

theorem concatSizes_subset {n axis : Nat} {skip : Int} {shape shape' reference reference' : Shape}
    (hshape : Shape.Forgets shape shape') (hreference : Shape.Forgets reference reference') :
    concatSizes n skip axis shape' reference' ⊆ concatSizes n skip axis shape reference := by
  induction hshape generalizing axis reference reference' with
  | nil => exact List.Subset.refl _
  | @cons size size' shape shape' hsize _ ih =>
    cases hreference with
    | nil => exact List.Subset.refl _
    | cons hexpected hrest =>
      simp only [concatSizes]
      refine List.append_subset.2 ⟨?_, List.subset_append_of_subset_right _ (ih hrest)⟩
      split
      · rename_i hfound
        obtain ⟨rfl, rfl⟩ := Shape.mismatch_forgets hsize hexpected hfound.2
        rw [if_pos hfound]
        exact List.subset_append_left _ _
      · exact List.nil_subset _

theorem concatInputs_subset {reference reference' : Shape} {n : Nat} {skip : Int}
    {more more' : List Shape} (hreference : Shape.Forgets reference reference')
    (hmore : List.Forall₂ Shape.Forgets more more') :
    concatInputs reference' skip n more' ⊆ concatInputs reference skip n more := by
  induction hmore generalizing n with
  | nil => exact List.Subset.refl _
  | cons hshape _ ih =>
    simp only [concatInputs, ← hshape.length_eq, ← hreference.length_eq]
    refine List.append_subset.2 ⟨List.append_subset.2 ⟨?_, ?_⟩, ?_⟩
    · exact List.subset_append_of_subset_left _ (List.subset_append_left _ _)
    · exact List.subset_append_of_subset_left _
        (List.subset_append_of_subset_right _ (concatSizes_subset hshape hreference))
    · exact List.subset_append_of_subset_right _ ih

theorem concat_tolerates : Tolerates concat := by
  intro inputs inputs' params findings hinputs hfindings
  rcases hinputs with _ | ⟨_ | ⟨hsize, hsizes⟩, hmore⟩
  case cons.cons =>
    simp only [concat, bind_eq_ok, pure, Except.pure, Except.ok.injEq, List.length_cons,
      ← hsizes.length_eq] at hfindings ⊢
    obtain ⟨dim, hdim, rfl⟩ := hfindings
    exact ⟨_, ⟨dim, hdim, rfl⟩, concatInputs_subset (.cons hsize hsizes) hmore⟩
  all_goals exact exists_subset hfindings

end Checking

end Layer

/-- The rules of a layer, where it has them, hold of symbolic sizes. -/
structure Layer.Tolerates (layer : Layer) : Prop where
  shape : Layer.Sizing.Tolerates layer.shape
  check : ∀ check, layer.check = some check → Layer.Checking.Tolerates check

theorem Catalogue.standard_tolerates {layer : Layer} (hmem : layer ∈ Catalogue.standard)
    (hadd : layer.kind ≠ "Add") (hinput : layer.kind ≠ "Input") : layer.Tolerates := by
  have hnone : ∀ {layer : Layer}, Layer.Sizing.Tolerates layer.shape → layer.check = none →
      layer.Tolerates := fun hshape hcheck => ⟨hshape, by simp [hcheck]⟩
  have hsome : ∀ {layer : Layer} {check : CheckRule}, Layer.Sizing.Tolerates layer.shape →
      layer.check = some check → Layer.Checking.Tolerates check → layer.Tolerates :=
    fun hshape hcheck htolerates => ⟨hshape, by simpa [hcheck] using htolerates⟩
  simp only [standard, List.mem_cons, List.not_mem_nil, or_false] at hmem
  rcases hmem with rfl | rfl | rfl | rfl | rfl | rfl | rfl | rfl | rfl | rfl | rfl | rfl | rfl | rfl
    | rfl | rfl | rfl | rfl | rfl | rfl | rfl
  · exact absurd rfl hinput
  · exact hnone Layer.Sizing.identity_tolerates rfl
  · exact hsome Layer.Sizing.linear_tolerates rfl (Layer.Checking.onFeatures_tolerates _ _)
  · exact hnone Layer.Sizing.identity_tolerates rfl
  · exact hnone Layer.Sizing.identity_tolerates rfl
  · exact hnone Layer.Sizing.identity_tolerates rfl
  · exact hnone Layer.Sizing.identity_tolerates rfl
  · exact hsome (Layer.Sizing.batchNorm_tolerates _ _) rfl (Layer.Checking.batchNorm_tolerates _)
  · exact hsome (Layer.Sizing.batchNorm_tolerates _ _) rfl (Layer.Checking.batchNorm_tolerates _)
  · exact hnone Layer.Sizing.identity_tolerates rfl
  · exact hnone Layer.Sizing.flatten_tolerates rfl
  · exact hsome Layer.Sizing.convolution_tolerates rfl Layer.Checking.convolution_tolerates
  · exact hnone (Layer.Sizing.pool_tolerates _) rfl
  · exact hnone (Layer.Sizing.pool_tolerates _) rfl
  · exact hnone Layer.Sizing.adaptivePool_tolerates rfl
  · exact absurd rfl hadd
  · exact hsome Layer.Sizing.concat_tolerates rfl Layer.Checking.concat_tolerates
  · exact hsome Layer.Sizing.residual_tolerates rfl Layer.Checking.residual_tolerates
  · exact hnone Layer.Sizing.embedding_tolerates rfl
  · exact hsome (Layer.Sizing.recurrent_tolerates _) rfl (Layer.Checking.onFeatures_tolerates _ _)
  · exact hsome (Layer.Sizing.recurrent_tolerates _) rfl (Layer.Checking.onFeatures_tolerates _ _)

end LayerGraph
