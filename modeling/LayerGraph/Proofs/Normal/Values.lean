import LayerGraph.Graph.Normal
import LayerGraph.Proofs.Fold
import LayerGraph.Proofs.Writable
set_option autoImplicit false

namespace LayerGraph

def Value.isNumber : Value → Bool
  | .int _ | .float _ => true
  | _ => false

def Param.accepts (p : Param) (v : Value) : Bool :=
  match p.type, v with
  | _, .null => false
  | .number, .list items => items.all Value.isNumber
  | .number, v => v.isNumber
  | .boolean, v => v.form == .boolean
  | .numbers, .list items => items.all fun item => item.form == .integer
  | .numbers, _ => false
  | .select, v => (p.options.getD []).isEmpty || (p.options.getD []).any fun o => v == .str o
  | .text, _ => true

/-- Parameters with a default of their type, or none; numbers always have one. -/
def Param.sound (p : Param) : Bool :=
  (p.accepts p.default || p.default == .null) && (p.type != .number || p.default.isNumber)

theorem Catalogue.standard_sound : ∀ layer ∈ standard, ∀ entry ∈ layer.schema,
    entry.2.sound = true := by
  decide +kernel

theorem Catalogue.standard_keys : ∀ layer ∈ standard, (layer.schema.map (·.1)).Nodup := by
  decide +kernel

namespace Normal

theorem number_of_isNumber {default v : Value} (h : v.isNumber = true) : number default v = v := by
  cases v with
  | int n => rfl
  | float x => rfl
  | _ => cases h

theorem isNumber_number {default : Value} (h : default.isNumber = true) (v : Value) :
    (number default v).isNumber = true := by
  cases v with
  | bool b => rfl
  | int n => rfl
  | float x => rfl
  | str s =>
    rw [number]
    split
    · rfl
    · split
      · rfl
      · exact h
  | null | list _ | object _ => exact h

theorem value_null (p : Param) : value p .null = .ok p.default := by
  rw [value]

theorem sizes_of_integers (ns : List Int) : sizes (ns.map .int) = .ok (.list (ns.map .int)) := by
  have hsizes : (ns.map Value.int).mapM (size (-1)) = .ok ns :=
    mapM_eq_ok_iff.2 (List.forall₂_map_left_iff.2 (List.forall₂_same.2 fun _ _ => rfl))
  rw [sizes, hsizes]
  rfl

theorem all_integers_iff (items : List Value) :
    items.all (fun item => item.form == .integer) = true ↔ ∃ ns : List Int, items = ns.map .int := by
  constructor
  · intro h
    induction items with
    | nil => exact ⟨[], rfl⟩
    | cons item items ih =>
      rw [List.all_cons, Bool.and_eq_true] at h
      obtain ⟨ns, rfl⟩ := ih h.2
      cases item with
      | int n => exact ⟨n :: ns, rfl⟩
      | _ => cases h.1
  · rintro ⟨ns, rfl⟩
    simp [Value.form]

theorem value_of_accepts {p : Param} {v : Value} (h : p.accepts v = true) : value p v = .ok v := by
  unfold Param.accepts at h
  unfold value
  cases htype : p.type with
  | number =>
    cases v with
    | int n => rfl
    | float x => rfl
    | list items =>
      simp only [htype, List.all_eq_true] at h
      have hitems : items.map (number p.default) = items.map id :=
        List.map_congr_left fun item hitem => number_of_isNumber (h item hitem)
      simp only [hitems, List.map_id]
    | _ => simp [htype, Value.isNumber] at h
  | boolean =>
    cases v with
    | bool b => rfl
    | _ => simp [htype, Value.form] at h
  | numbers =>
    cases v with
    | list items =>
      simp only [htype] at h
      obtain ⟨ns, rfl⟩ := (all_integers_iff items).1 h
      exact sizes_of_integers ns
    | _ => simp [htype] at h
  | select =>
    cases v with
    | null => simp at h
    | _ =>
      simp only [htype] at h
      simp only [h, if_true]
  | text =>
    cases v with
    | null => simp at h
    | _ => rfl

theorem integers_of_sizes {items : List Value} {v : Value} (h : sizes items = .ok v) :
    ∃ ns : List Int, v = .list (ns.map .int) := by
  rw [sizes, map_eq_ok] at h
  obtain ⟨ns, -, rfl⟩ := h
  exact ⟨ns, rfl⟩

theorem accepts_number {p : Param} (htype : p.type = .number) {v : Value} (h : v.isNumber = true) :
    p.accepts v = true := by
  unfold Param.accepts
  rw [htype]
  cases v with
  | int n => rfl
  | float x => rfl
  | _ => cases h

theorem accepts_of_value {p : Param} (hsound : p.sound = true) {v v' : Value}
    (h : value p v = .ok v') : p.accepts v' = true ∨ v' = p.default := by
  cases htype : p.type with
  | number =>
    have hdefault : p.default.isNumber = true := by
      simpa [Param.sound, htype] using (Bool.and_eq_true_iff.1 hsound).2
    cases v with
    | null => exact .inr (Except.ok.inj ((value_null p).symm.trans h)).symm
    | list items =>
      simp only [value, htype, Except.ok.injEq] at h
      subst h
      simp [Param.accepts, htype, isNumber_number hdefault]
    | _ =>
      simp only [value, htype, Except.ok.injEq] at h
      subst h
      exact .inl (accepts_number htype (isNumber_number hdefault _))
  | boolean =>
    cases v with
    | null => exact .inr (Except.ok.inj ((value_null p).symm.trans h)).symm
    | _ =>
      simp only [value, htype, Except.ok.injEq] at h
      subst h
      simp [Param.accepts, htype, Value.form]
  | numbers =>
    have hitems : ∀ items, sizeItems? v = some items → sizes items = .ok v' → p.accepts v' = true := by
      intro items _ hsizes
      obtain ⟨ns, rfl⟩ := integers_of_sizes hsizes
      simp [Param.accepts, htype, Value.form]
    cases v with
    | list items =>
      simp only [value, htype, sizeItems?] at h
      exact .inl (hitems _ rfl h)
    | str s =>
      simp only [value, htype, sizeItems?] at h
      exact .inl (hitems _ rfl h)
    | null => exact .inr (Except.ok.inj ((value_null p).symm.trans h)).symm
    | _ =>
      simp only [value, htype, sizeItems?, Except.ok.injEq] at h
      exact .inr h.symm
  | select =>
    cases v with
    | null => exact .inr (Except.ok.inj ((value_null p).symm.trans h)).symm
    | _ =>
      simp only [value, htype] at h
      split at h
      · rename_i hoption
        obtain rfl := Except.ok.inj h
        left
        simpa only [Param.accepts, htype] using hoption
      · exact .inr (Except.ok.inj h).symm
  | text =>
    cases v with
    | null => exact .inr (Except.ok.inj ((value_null p).symm.trans h)).symm
    | _ =>
      simp only [value, htype, Except.ok.injEq] at h
      subst h
      simp [Param.accepts, htype]

theorem value_default {p : Param} (hsound : p.sound = true) : value p p.default = .ok p.default := by
  have hdefault := (Bool.and_eq_true_iff.1 hsound).1
  rcases Bool.or_eq_true_iff.1 hdefault with haccepts | hnull
  · exact value_of_accepts haccepts
  · rw [beq_iff_eq.1 hnull, value_null, beq_iff_eq.1 hnull]

/-- Coercion keeps what it makes. -/
theorem value_value {p : Param} (hsound : p.sound = true) {v v' : Value} (h : value p v = .ok v') :
    value p v' = .ok v' := by
  rcases accepts_of_value hsound h with haccepts | rfl
  · exact value_of_accepts haccepts
  · exact value_default hsound

theorem number_writable {default v : Value} (hdefault : default.writable = true)
    (hv : v.writable = true) : (number default v).writable = true := by
  cases v with
  | bool b => cases b <;> exact isWritable_of_natAbs_le_one (by decide)
  | int n => exact hv
  | float x => simp only [number, Value.writable]
  | str s =>
    rw [number]
    split
    · rename_i n hn
      simpa only [Value.writable] using Numeral.integer_writable hn
    · split
      · simp only [Value.writable]
      · exact hdefault
  | null | list _ | object _ => exact hdefault

theorem value_number_writable {p : Param} (htype : p.type = .number)
    (hdefault : p.default.writable = true) {v v' : Value} (hv : v.writable = true)
    (h : value p v = .ok v') : v'.writable = true := by
  cases v with
  | null =>
    obtain rfl := Except.ok.inj ((value_null p).symm.trans h)
    exact hdefault
  | list items =>
    simp only [value, htype, Except.ok.injEq] at h
    subst h
    rw [Value.writable_list] at hv ⊢
    intro item hitem
    obtain ⟨given, hgiven, rfl⟩ := List.mem_map.1 hitem
    exact number_writable hdefault (hv given hgiven)
  | _ =>
    simp only [value, htype, Except.ok.injEq] at h
    subst h
    exact number_writable hdefault hv

theorem size_writable {default n : Int} {v : Value} (hdefault : isWritable default = true)
    (hv : v.writable = true) (h : size default v = .ok n) : isWritable n = true := by
  fun_induction size default v with
  | case1 m =>
    cases h
    exact hv
  | case2 x => exact Value.toInt_writable hv h
  | case3 v items ih => exact ih (Value.writable_list.1 hv v List.mem_cons_self) h
  | case4 s m hm =>
    cases h
    exact Numeral.integer_writable hm
  | case5 | case6 =>
    cases h
    exact hdefault

end Normal

end LayerGraph
