import LayerGraph.Layer.Checking
import LayerGraph.Proofs.Fold
set_option autoImplicit false

namespace LayerGraph

namespace Shape

/-- Equal sizes, or sizes of which one is symbolic. -/
def Compatible (n m : Int) : Prop := n = m ∨ n < 0 ∨ m < 0

instance (n m : Int) : Decidable (Compatible n m) := inferInstanceAs (Decidable (_ ∨ _))

theorem mismatch_eq_true_iff (n m : Int) : mismatch n m = true ↔ ¬Compatible n m := by
  simp only [mismatch, Compatible, Bool.and_eq_true, bne_iff_ne, decide_eq_true_eq]
  omega

theorem Compatible.trans_known {n known m : Int} (hknown : 0 ≤ known) (hn : Compatible n known)
    (hm : Compatible m known) : Compatible n m := by
  unfold Compatible at *
  omega

/-- The sizes of two shapes are compatible on all their axes but one. -/
def CompatibleOff (skip : Int) (shape other : Shape) : Prop :=
  ∀ axis : Nat, (axis : Int) ≠ skip →
    ∀ n ∈ shape[axis]?, ∀ m ∈ other[axis]?, Compatible n m

def KnownOff (skip : Int) (shape : Shape) : Prop :=
  ∀ axis : Nat, (axis : Int) ≠ skip → ∀ n ∈ shape[axis]?, 0 ≤ n

/-- Any two of the inputs have one rank, and compatible sizes on all axes but one. -/
structure Agree (skip : Int) (inputs : List Shape) : Prop where
  rank : ∀ shape ∈ inputs, ∀ other ∈ inputs, shape.length = other.length
  sizes : ∀ shape ∈ inputs, ∀ other ∈ inputs, CompatibleOff skip shape other

end Shape

namespace Layer.Checking

open Shape

theorem noted_eq_nil_iff {p : Prop} [Decidable p] (finding : Finding) :
    (if p then [finding] else []) = [] ↔ ¬p := by
  by_cases h : p <;> simp [h]

theorem concatSizes_eq_nil_iff (n : Nat) (skip : Int) (start : Nat) (shape reference : Shape) :
    concatSizes n skip start shape reference = [] ↔
      ∀ offset : Nat, ((start + offset : Nat) : Int) ≠ skip →
        ∀ size ∈ shape[offset]?, ∀ expected ∈ reference[offset]?, Compatible size expected := by
  induction shape generalizing start reference with
  | nil => simp [concatSizes]
  | cons size shape ih =>
    cases reference with
    | nil => simp [concatSizes]
    | cons expected reference =>
      rw [concatSizes, List.append_eq_nil_iff, ih, noted_eq_nil_iff, mismatch_eq_true_iff,
        not_and_not_right]
      constructor
      · rintro ⟨hhead, htail⟩ offset hskip
        cases offset with
        | zero => simpa using hhead hskip
        | succ offset => exact htail offset (by omega)
      · intro h
        refine ⟨fun hskip => h 0 hskip size rfl expected rfl, fun offset hskip => ?_⟩
        exact h (offset + 1) (by omega)

theorem concatInputs_eq_nil_iff (reference : Shape) (skip : Int) (n : Nat) (more : List Shape) :
    concatInputs reference skip n more = [] ↔
      ∀ shape ∈ more, shape.length = reference.length ∧ CompatibleOff skip shape reference := by
  induction more generalizing n with
  | nil => simp [concatInputs]
  | cons shape more ih =>
    have hsizes : concatSizes n skip 0 shape reference = [] ↔
        CompatibleOff skip shape reference := by
      simp only [concatSizes_eq_nil_iff, CompatibleOff, Nat.zero_add]
    rw [concatInputs, List.append_eq_nil_iff, List.append_eq_nil_iff, noted_eq_nil_iff, not_not,
      hsizes, ih, List.forall_mem_cons]

variable {first : Shape} {params : Fields} {dim : Int}

theorem concat_eq_nil_iff (hfirst : first ≠ []) (hdim : (params.get "dim").toInt = .ok dim)
    (more : List Shape) :
    concat (first :: more) params = .ok [] ↔ ∀ shape ∈ more,
      shape.length = first.length ∧ CompatibleOff (wrapAxis dim first.length) shape first := by
  obtain ⟨size, sizes, rfl⟩ := List.exists_cons_of_ne_nil hfirst
  simp only [concat, hdim, bind, Except.bind, pure, Except.pure, Except.ok.injEq,
    concatInputs_eq_nil_iff]

theorem compatibleOff_refl (skip : Int) (shape : Shape) : CompatibleOff skip shape shape := by
  intro axis _ n hn m hm
  exact .inl (Option.some.inj (hn.symm.trans hm))

theorem compatibleOff_set {shape : Shape} {axis : Nat} {n : Int} (hn : n ∈ shape[axis]?)
    (hneg : n < 0) (skip size : Int) : CompatibleOff skip (shape.set axis size) shape := by
  intro other hskip m hm k hk
  by_cases haxis : axis = other
  · subst haxis
    obtain rfl : n = k := Option.some.inj (hn.symm.trans hk)
    exact .inr (.inr hneg)
  · rw [List.getElem?_set_ne haxis] at hm
    exact .inl (Option.some.inj (hm.symm.trans hk))

theorem exists_size {shape other : Shape} (hrank : shape.length = other.length) {axis : Nat}
    {n : Int} (hn : n ∈ shape[axis]?) : ∃ m, m ∈ other[axis]? := by
  have haxis : axis < shape.length := (List.getElem?_eq_some_iff.1 hn).1
  exact ⟨other[axis], List.getElem?_eq_getElem (hrank ▸ haxis)⟩

/-- Without a finding all inputs have one rank, and two of them have different known sizes on an
axis only if the size of the first input is symbolic there. -/
theorem agree_of_concat (hfirst : first ≠ []) (hdim : (params.get "dim").toInt = .ok dim)
    {more : List Shape} (h : concat (first :: more) params = .ok []) :
    (∀ shape ∈ first :: more, shape.length = first.length) ∧
    ∀ shape ∈ first :: more, ∀ other ∈ first :: more, ∀ axis : Nat,
      (axis : Int) ≠ wrapAxis dim first.length → ∀ n ∈ shape[axis]?, ∀ m ∈ other[axis]?,
        Compatible n m ∨ ∃ known ∈ first[axis]?, known < 0 := by
  have hmore := (concat_eq_nil_iff hfirst hdim more).1 h
  have hall : ∀ shape ∈ first :: more, shape.length = first.length ∧
      CompatibleOff (wrapAxis dim first.length) shape first :=
    List.forall_mem_cons.2 ⟨⟨rfl, compatibleOff_refl _ _⟩, hmore⟩
  refine ⟨fun shape hshape => (hall shape hshape).1, ?_⟩
  intro shape hshape other hother axis hskip n hn m hm
  obtain ⟨hrank, hsizes⟩ := hall shape hshape
  obtain ⟨known, hknown⟩ := exists_size hrank hn
  by_cases hneg : known < 0
  · exact .inr ⟨known, hknown, hneg⟩
  · have hn' := hsizes axis hskip n hn known hknown
    have hm' := (hall other hother).2 axis hskip m hm known hknown
    exact .inl (hn'.trans_known (Int.not_lt.1 hneg) hm')

/-- The check of inputs finds all ranks that differ, and sizes that differ unless that of the first
input is symbolic. So it decides whether inputs agree, whatever the further inputs are, exactly if
the first one has known sizes on all axes but that of concatenation. -/
theorem concat_decides_iff (hfirst : first ≠ []) (hdim : (params.get "dim").toInt = .ok dim) :
    (∀ more, concat (first :: more) params = .ok [] →
      (∀ shape ∈ first :: more, shape.length = first.length) ∧
      ∀ shape ∈ first :: more, ∀ other ∈ first :: more, ∀ axis : Nat,
        (axis : Int) ≠ wrapAxis dim first.length → ∀ n ∈ shape[axis]?, ∀ m ∈ other[axis]?,
          Compatible n m ∨ ∃ known ∈ first[axis]?, known < 0) ∧
    ((∀ more, concat (first :: more) params = .ok [] ↔
        Agree (wrapAxis dim first.length) (first :: more)) ↔
      KnownOff (wrapAxis dim first.length) first) := by
  refine ⟨fun more => agree_of_concat hfirst hdim, fun hdecides => ?_, fun hknown more => ?_⟩
  · -- Two inputs that differ where the first one is symbolic are not found.
    intro axis hskip n hn
    by_contra hneg
    have hset := compatibleOff_set hn (Int.not_le.1 hneg) (wrapAxis dim first.length)
    have hagree := (hdecides [first.set axis 0, first.set axis 1]).1
      ((concat_eq_nil_iff hfirst hdim _).2 (by simp [hset]))
    have haxis : axis < first.length := (List.getElem?_eq_some_iff.1 hn).1
    have hsizes := hagree.sizes (first.set axis 0) (by simp) (first.set axis 1) (by simp) axis hskip
      0 (List.getElem?_set_self haxis) 1 (List.getElem?_set_self haxis)
    exact absurd hsizes (by decide)
  · constructor
    · intro h
      obtain ⟨hrank, hsizes⟩ := agree_of_concat hfirst hdim h
      refine ⟨fun shape hshape other hother => ?_, fun shape hshape other hother => ?_⟩
      · rw [hrank shape hshape, hrank other hother]
      · intro axis hskip n hn m hm
        refine (hsizes shape hshape other hother axis hskip n hn m hm).resolve_right ?_
        rintro ⟨known, hin, hneg⟩
        exact absurd (hknown axis hskip known hin) (Int.not_le.2 hneg)
    · intro h
      refine (concat_eq_nil_iff hfirst hdim more).2 fun shape hshape => ?_
      have hin := List.mem_cons_of_mem first hshape
      exact ⟨h.rank shape hin first List.mem_cons_self, h.sizes shape hin first List.mem_cons_self⟩

def strips : List Shape := [[-1, 4, 7], [2, 1, 7], [-1, 1, -1]]

theorem strips_agree :
    ([2, 3, 7] : Shape) ≠ [] ∧ (Fields.get [("dim", .int (-2))] "dim").toInt = .ok (-2) ∧
    concat ([2, 3, 7] :: strips) [("dim", .int (-2))] = .ok [] ∧
    Agree 1 ([2, 3, 7] :: strips) ∧ ¬Agree 1 [[2, 3, 7], [2, 3, 8]] := by
  have hfirst : ([2, 3, 7] : Shape) ≠ [] := by decide
  have hdim : (Fields.get [("dim", .int (-2))] "dim").toInt = .ok (-2) := rfl
  have hknown : KnownOff 1 [2, 3, 7] := by
    intro axis _ n hn
    have hall : ∀ n ∈ ([2, 3, 7] : Shape), 0 ≤ n := by decide
    exact hall n (List.mem_of_getElem? hn)
  have hdecides := (concat_decides_iff hfirst hdim).2.2 hknown
  refine ⟨hfirst, hdim, rfl, (hdecides strips).1 rfl, fun hagree => ?_⟩
  have hnone := (hdecides [[2, 3, 8]]).2 hagree
  cases hnone

/-- The first input is symbolic where the other two differ. -/
theorem symbolicFirst_not_found :
    concat [[-1, 3], [2, 3], [5, 3]] [("dim", .int 1)] = .ok [] ∧
    (0 ≤ wrapAxis 1 2 ∧ wrapAxis 1 2 < 2) ∧ ¬Agree (wrapAxis 1 2) [[-1, 3], [2, 3], [5, 3]] := by
  refine ⟨rfl, by decide, fun hagree => ?_⟩
  have hsizes := hagree.sizes [2, 3] (by decide) [5, 3] (by decide) 0 (by decide) 2 rfl 5 rfl
  exact absurd hsizes (by decide)

end Layer.Checking

end LayerGraph
