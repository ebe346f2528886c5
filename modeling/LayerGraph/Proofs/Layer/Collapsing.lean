import LayerGraph.Proofs.Writable
import LayerGraph.Shape
import Mathlib.Algebra.Order.BigOperators.GroupWithZero.List
import Mathlib.Algebra.Order.Ring.Int
set_option autoImplicit false

namespace LayerGraph

namespace Shape

/-- The axes from `start` to `stop` are axes of a shape of some rank, in this order. -/
def InRange (rank : Nat) (start stop : Int) : Prop :=
  0 ≤ wrapAxis start rank ∧ wrapAxis start rank ≤ wrapAxis stop rank ∧ wrapAxis stop rank < rank

instance (rank : Nat) (start stop : Int) : Decidable (InRange rank start stop) :=
  inferInstanceAs (Decidable (_ ∧ _))

/-- The axes from `first` to `last` of a shape are one in another, which differs in nothing else. -/
structure Collapsed (shape : Shape) (first last : Nat) (flat : Shape) : Prop where
  rank : flat.length = shape.length - (last - first)
  before : ∀ axis < first, flat[axis]? = shape[axis]?
  after : ∀ axis > last, flat[axis - (last - first)]? = shape[axis]?
  symbolic : (∃ n ∈ flat[first]?, n < 0) ↔
    ∃ axis, first ≤ axis ∧ axis ≤ last ∧ ∃ n ∈ shape[axis]?, n < 0
  elements : (∀ n ∈ shape, 0 ≤ n) → flat.prod = shape.prod

theorem extent_of_known {sizes : Shape} (h : ∀ n ∈ sizes, 0 ≤ n) : sizes.extent = sizes.prod := by
  have hnone : ¬sizes.any (· < 0) = true := by simpa using h
  rw [extent, if_neg hnone, List.prod_eq_foldr]

theorem extent_neg_iff (sizes : Shape) : sizes.extent < 0 ↔ ∃ n ∈ sizes, n < 0 := by
  by_cases hany : ∃ n ∈ sizes, n < 0
  · have hsymbolic : sizes.any (· < 0) = true := by simpa using hany
    rw [extent, if_pos hsymbolic]
    exact iff_of_true (by decide) hany
  · have hknown : ∀ n ∈ sizes, 0 ≤ n := by simpa using hany
    rw [extent_of_known hknown]
    exact iff_of_false (Int.not_lt.2 (List.prod_nonneg hknown)) hany

variable {shape : Shape}

theorem collapsed_append (before after : Shape) {middle : Shape} (hmiddle : middle ≠ []) :
    Collapsed (before ++ middle ++ after) before.length (before.length + middle.length - 1)
      (before ++ middle.extent :: after) := by
  have hlength : 1 ≤ middle.length := List.length_pos_iff.2 hmiddle
  refine ⟨?_, fun axis haxis => ?_, fun axis haxis => ?_, ?_, fun hknown => ?_⟩
  · simp only [List.length_append, List.length_cons]
    omega
  · rw [List.getElem?_append_left haxis, List.append_assoc, List.getElem?_append_left haxis]
  · obtain ⟨past, rfl⟩ : ∃ past, axis = before.length + middle.length + past :=
      Nat.exists_eq_add_of_le (by omega)
    have hflat : before.length + middle.length + past
        - (before.length + middle.length - 1 - before.length) = before.length + (past + 1) := by
      omega
    rw [hflat, List.getElem?_append_right (by omega), Nat.add_sub_cancel_left,
      List.getElem?_cons_succ, ← List.length_append, List.getElem?_append_right (by omega),
      Nat.add_sub_cancel_left]
  · have hhere : (before ++ middle.extent :: after)[before.length]? = some middle.extent := by simp
    have hthere : ∀ offset < middle.length,
        (before ++ middle ++ after)[before.length + offset]? = middle[offset]? := by
      intro offset hoffset
      rw [List.append_assoc, List.getElem?_append_right (by omega), Nat.add_sub_cancel_left,
        List.getElem?_append_left hoffset]
    rw [hhere]
    simp only [Option.mem_some, exists_eq_left', extent_neg_iff]
    constructor
    · rintro ⟨n, hn, hneg⟩
      obtain ⟨offset, hoffset, rfl⟩ := List.mem_iff_getElem.1 hn
      refine ⟨before.length + offset, by omega, by omega, _, ?_, hneg⟩
      rw [hthere offset hoffset]
      exact List.getElem?_eq_getElem hoffset
    · rintro ⟨axis, hfirst, hlast, n, hn, hneg⟩
      obtain ⟨offset, rfl⟩ := Nat.exists_eq_add_of_le hfirst
      rw [hthere offset (by omega)] at hn
      exact ⟨n, List.mem_of_getElem? hn, hneg⟩
  · have hmid : ∀ n ∈ middle, 0 ≤ n := fun n hn => hknown n (by simp [hn])
    simp only [List.prod_append, List.prod_cons, extent_of_known hmid, Int.mul_assoc]

def collapse (shape : Shape) (first last : Nat) : Shape :=
  shape.take first ++ extent ((shape.take (last + 1)).drop first) :: shape.drop (last + 1)

theorem collapsed_collapse {first last : Nat} (hle : first ≤ last) (hlast : last < shape.length) :
    Collapsed shape first last (shape.collapse first last) := by
  have hfirst : (shape.take first).length = first := by
    rw [List.length_take]
    omega
  have hmiddle : ((shape.take (last + 1)).drop first).length = last + 1 - first := by
    rw [List.length_drop, List.length_take]
    omega
  have hparts : shape.take first ++ (shape.take (last + 1)).drop first ++ shape.drop (last + 1)
      = shape := by
    have hbefore : shape.take first = (shape.take (last + 1)).take first := by
      rw [List.take_take, Nat.min_eq_left (by omega)]
    rw [hbefore, List.take_append_drop, List.take_append_drop]
  have hcollapsed := collapsed_append (shape.take first) (shape.drop (last + 1))
    (List.ne_nil_of_length_pos (l := (shape.take (last + 1)).drop first) (by omega))
  rwa [hparts, hfirst, hmiddle, show first + (last + 1 - first) - 1 = last by omega] at hcollapsed

theorem flatten_eq (hshape : shape ≠ []) (start stop : Int) :
    shape.flatten start stop =
      if InRange shape.length start stop then
        .ok (shape.collapse (wrapAxis start shape.length).toNat (wrapAxis stop shape.length).toNat)
      else (ShapeFault.flattenRange start stop shape.length).raise := by
  have hempty : ¬shape.isEmpty = true := by simpa using hshape
  simp only [flatten, if_neg hempty]
  rfl

theorem flatten_of_inRange (hshape : shape ≠ []) {start stop : Int}
    (h : InRange shape.length start stop) :
    ∃ flat, shape.flatten start stop = .ok flat ∧
      Collapsed shape (wrapAxis start shape.length).toNat (wrapAxis stop shape.length).toNat
        flat := by
  obtain ⟨hstart, hle, hstop⟩ := id h
  refine ⟨_, (flatten_eq hshape start stop).trans (if_pos h), collapsed_collapse ?_ ?_⟩
  · omega
  · omega

theorem flatten_of_not_inRange (hshape : shape ≠ []) {start stop : Int}
    (h : ¬InRange shape.length start stop) :
    shape.flatten start stop =
      .error (if isWritable start ∧ isWritable stop then
        .shape (.flattenRange start stop shape.length) else .integerTooLong) := by
  rw [flatten_eq hshape, if_neg h]
  simp [ShapeFault.raise, ShapeFault.shown]

def HasAxis (rank : Nat) (axis : Int) : Prop := 0 ≤ wrapAxis axis rank ∧ wrapAxis axis rank < rank

instance (rank : Nat) (axis : Int) : Decidable (HasAxis rank axis) :=
  inferInstanceAs (Decidable (_ ∧ _))

def otherEnd (axis : Int) (rank : Nat) : Int := if axis < 0 then axis + rank else axis - rank

/-- The same integer, or the same axis counted from the other end. -/
def Recounts (rank : Nat) (axis axis' : Int) : Prop :=
  axis' = axis ∨ HasAxis rank axis ∧ axis' = otherEnd axis rank

instance (rank : Nat) (axis axis' : Int) : Decidable (Recounts rank axis axis') :=
  inferInstanceAs (Decidable (_ ∨ _))

variable {rank : Nat} {axis axis' : Int}

theorem Recounts.wrapAxis_eq (h : Recounts rank axis axis') :
    wrapAxis axis' rank = wrapAxis axis rank := by
  rcases h with rfl | ⟨⟨hfirst, hlast⟩, rfl⟩
  · rfl
  · unfold wrapAxis otherEnd at *
    split at hfirst <;> split <;> omega

theorem Recounts.isWritable_eq (h : Recounts rank axis axis') (hrank : isWritable rank = true) :
    isWritable axis' = isWritable axis := by
  rcases h with rfl | ⟨⟨hfirst, hlast⟩, rfl⟩
  · rfl
  · have haxis : axis.natAbs ≤ (rank : Int).natAbs := by
      unfold wrapAxis at hfirst hlast
      split at hfirst <;> split at hlast <;> omega
    have hother : (otherEnd axis rank).natAbs ≤ (rank : Int).natAbs := by
      unfold wrapAxis at hfirst hlast
      unfold otherEnd
      split at hfirst <;> split at hlast <;> split <;> omega
    rw [isWritable_of_natAbs_le hrank haxis, isWritable_of_natAbs_le hrank hother]

theorem inRange_recounts {start start' stop stop' : Int} (hstart : Recounts rank start start')
    (hstop : Recounts rank stop stop') : InRange rank start' stop' ↔ InRange rank start stop := by
  rw [InRange, hstart.wrapAxis_eq, hstop.wrapAxis_eq, ← InRange]

end Shape

def Fault.isShape : Fault → Bool
  | .shape _ => true
  | _ => false

theorem ShapeFault.toOption_raise {α : Type} (why : ShapeFault) :
    (why.raise : Except Fault α).toOption = none := by
  rw [raise, Except.toOption]

theorem ShapeFault.sort_raise {α : Type} (why : ShapeFault) :
    (why.raise : Except Fault α).mapError Fault.isShape = .error (why.shown.all isWritable) := by
  rw [raise]
  cases why.shown.all isWritable with
  | true => rfl
  | false => rfl

namespace Shape

variable {shape : Shape} {start start' stop stop' : Int}

theorem flatten_recounts (hshape : shape ≠ []) (hstart : Recounts shape.length start start')
    (hstop : Recounts shape.length stop stop') :
    (shape.flatten start' stop').toOption = (shape.flatten start stop).toOption := by
  rw [flatten_eq hshape, flatten_eq hshape, hstart.wrapAxis_eq, hstop.wrapAxis_eq]
  by_cases h : InRange shape.length start stop
  · rw [if_pos h, if_pos ((inRange_recounts hstart hstop).2 h)]
  · rw [if_neg h, if_neg (mt (inRange_recounts hstart hstop).1 h), ShapeFault.toOption_raise,
      ShapeFault.toOption_raise]

theorem flatten_sort (hshape : shape ≠ []) (hstart : Recounts shape.length start start')
    (hstop : Recounts shape.length stop stop') (hrank : isWritable shape.length = true) :
    (shape.flatten start' stop').mapError Fault.isShape =
      (shape.flatten start stop).mapError Fault.isShape := by
  rw [flatten_eq hshape, flatten_eq hshape, hstart.wrapAxis_eq, hstop.wrapAxis_eq]
  by_cases h : InRange shape.length start stop
  · rw [if_pos h, if_pos ((inRange_recounts hstart hstop).2 h)]
  · rw [if_neg h, if_neg (mt (inRange_recounts hstart hstop).1 h), ShapeFault.sort_raise,
      ShapeFault.sort_raise]
    simp only [ShapeFault.shown, List.all_cons, hstart.isWritable_eq hrank,
      hstop.isWritable_eq hrank]

/-- A range of axes is collapsed if it is one, and otherwise there is a fault, which shows the range
if it can be written. However the axes of the range are counted, the outcome is the same except for
what the fault shows. -/
theorem flatten_collapses (hshape : shape ≠ []) (start stop : Int) :
    (InRange shape.length start stop → ∃ flat, shape.flatten start stop = .ok flat ∧
      Collapsed shape (wrapAxis start shape.length).toNat (wrapAxis stop shape.length).toNat flat) ∧
    (¬InRange shape.length start stop → shape.flatten start stop =
      .error (if isWritable start ∧ isWritable stop then
        .shape (.flattenRange start stop shape.length) else .integerTooLong)) ∧
    ∀ start' stop', Recounts shape.length start start' → Recounts shape.length stop stop' →
      (shape.flatten start' stop').toOption = (shape.flatten start stop).toOption ∧
      (isWritable shape.length = true → (shape.flatten start' stop').mapError Fault.isShape =
        (shape.flatten start stop).mapError Fault.isShape) :=
  ⟨flatten_of_inRange hshape, flatten_of_not_inRange hshape, fun _ _ hstart hstop =>
    ⟨flatten_recounts hshape hstart hstop, flatten_sort hshape hstart hstop⟩⟩

def inner : Shape := [2, 3, -1, 5]

theorem inner_collapses :
    inner ≠ [] ∧
    (∃ flat, inner.flatten (-3) 2 = .ok flat ∧ Collapsed inner 1 2 flat) ∧
    (inner.flatten 1 (-2)).toOption = some [2, -1, 5] ∧
    inner.flatten 2 1 = .error (.shape (.flattenRange 2 1 4)) := by
  have hinner : inner ≠ [] := by decide
  obtain ⟨hcollapsed, -, hrecounts⟩ := flatten_collapses hinner (-3) 2
  obtain ⟨-, hfault, -⟩ := flatten_collapses hinner 2 1
  refine ⟨hinner, hcollapsed (by decide), ?_, ?_⟩
  · rw [(hrecounts 1 (-2) (by decide) (by decide)).1]
    rfl
  · have hwritable : isWritable 2 = true ∧ isWritable 1 = true := by
      constructor
      · exact isWritable_of_lt_two_pow (k := 2) (by decide) (by decide)
      · exact isWritable_of_natAbs_le_one (by decide)
    rw [hfault (by decide), if_pos hwritable]
    rfl

def farAxis : Int := ((Nat.pow 10 digitLimit : Nat) : Int)

theorem farAxis_not_shown :
    ([1] : Shape) ≠ [] ∧ ¬InRange 1 farAxis (-1) ∧
    Shape.flatten [1] farAxis (-1) = .error .integerTooLong ∧
    ¬((∃ why, Shape.flatten [1] farAxis (-1) = .error (.shape why)) ↔ ¬InRange 1 farAxis (-1)) := by
  have hrange : ¬InRange 1 farAxis (-1) := by decide +kernel
  have hflatten : Shape.flatten [1] farAxis (-1) = .error .integerTooLong := by decide +kernel
  refine ⟨by decide, hrange, hflatten, fun h => ?_⟩
  obtain ⟨why, hwhy⟩ := h.2 hrange
  rw [hflatten] at hwhy
  cases hwhy

end Shape

end LayerGraph
