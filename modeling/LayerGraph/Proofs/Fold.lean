import LayerGraph.Fault
import Mathlib.Data.List.Forall2
set_option autoImplicit false

namespace LayerGraph

variable {ε α β : Type}

theorem bind_eq_ok {x : Except ε α} {f : α → Except ε β} {b : β} :
    x >>= f = .ok b ↔ ∃ a, x = .ok a ∧ f a = .ok b := by
  cases x <;> simp [bind, Except.bind]

theorem map_eq_ok {x : Except ε α} {f : α → β} {b : β} :
    x.map f = .ok b ↔ ∃ a, x = .ok a ∧ f a = b := by
  cases x <;> simp [Except.map]

theorem bind_eq_error {x : Except ε α} {f : α → Except ε β} {e : ε} :
    x >>= f = .error e ↔ x = .error e ∨ ∃ a, x = .ok a ∧ f a = .error e := by
  cases x <;> simp [bind, Except.bind]

theorem map_eq_error {x : Except ε α} {f : α → β} {e : ε} : x.map f = .error e ↔ x = .error e := by
  cases x <;> simp [Except.map]

theorem mapError_eq_ok {ε' : Type} {x : Except ε α} {f : ε → ε'} {a : α} :
    x.mapError f = .ok a ↔ x = .ok a := by
  cases x <;> simp [Except.mapError]

theorem eq_ok_of_toOption {x : Except ε α} {a : α} (h : x.toOption = some a) : x = .ok a := by
  cases x with
  | error e => cases h
  | ok b => exact congrArg Except.ok (Option.some.inj h)

theorem mapM_eq_ok_iff {f : α → Except ε β} {xs : List α} {ys : List β} :
    xs.mapM f = .ok ys ↔ List.Forall₂ (fun x y => f x = .ok y) xs ys := by
  induction xs generalizing ys with
  | nil => simp [pure, Except.pure, eq_comm]
  | cons x xs ih =>
    simp only [List.mapM_cons, bind_eq_ok, ih, pure, Except.pure, Except.ok.injEq,
      List.forall₂_cons_left_iff]
    constructor
    · intro h
      obtain ⟨y, hy, rest, hrest, rfl⟩ := h
      exact ⟨y, rest, hy, hrest, rfl⟩
    · intro h
      obtain ⟨y, rest, hy, hrest, rfl⟩ := h
      exact ⟨y, hy, rest, hrest, rfl⟩

theorem exists_of_forall₂ {R : α → β → Prop} {xs : List α} {ys : List β} (h : List.Forall₂ R xs ys)
    {y : β} (hy : y ∈ ys) : ∃ x ∈ xs, R x y := by
  induction h with
  | nil => cases hy
  | cons hxy _ ih =>
    rcases List.mem_cons.1 hy with rfl | hrest
    · exact ⟨_, List.mem_cons_self, hxy⟩
    · obtain ⟨x, hx, hxy⟩ := ih hrest
      exact ⟨x, List.mem_cons_of_mem _ hx, hxy⟩

theorem forall₂_split {R : α → β → Prop} {before after : List α} {x : α} {ys : List β}
    (h : List.Forall₂ R (before ++ x :: after) ys) :
    ∃ before' y after', ys = before' ++ y :: after' ∧ List.Forall₂ R before before' ∧ R x y := by
  induction before generalizing ys with
  | nil =>
    obtain ⟨y, after', hxy, -, rfl⟩ := List.forall₂_cons_left_iff.1 h
    exact ⟨[], y, after', rfl, .nil, hxy⟩
  | cons first before ih =>
    obtain ⟨first', rest, hfirst, hrest, rfl⟩ := List.forall₂_cons_left_iff.1 h
    obtain ⟨before', y, after', rfl, hbefore, hxy⟩ := ih hrest
    exact ⟨first' :: before', y, after', rfl, .cons hfirst hbefore, hxy⟩

theorem exists_mapM_eq_ok {f : α → Except ε β} {xs : List α} (h : ∀ x ∈ xs, ∃ y, f x = .ok y) :
    ∃ ys, xs.mapM f = .ok ys := by
  induction xs with
  | nil => exact ⟨[], rfl⟩
  | cons x xs ih =>
    obtain ⟨y, hy⟩ := h x List.mem_cons_self
    obtain ⟨ys, hys⟩ := ih fun x' hx' => h x' (List.mem_cons_of_mem _ hx')
    exact ⟨y :: ys, mapM_eq_ok_iff.2 (.cons hy (mapM_eq_ok_iff.1 hys))⟩

variable {f : β → α → Except ε β} {start final : β} {xs : List α}

theorem foldlM_append_eq_ok {ys : List α} :
    (xs ++ ys).foldlM f start = .ok final ↔
      ∃ middle, xs.foldlM f start = .ok middle ∧ ys.foldlM f middle = .ok final := by
  rw [List.foldlM_append, bind_eq_ok]

theorem foldlM_split_eq_ok {x : α} {ys : List α} :
    (xs ++ x :: ys).foldlM f start = .ok final ↔
      ∃ middle next, xs.foldlM f start = .ok middle ∧ f middle x = .ok next ∧
        ys.foldlM f next = .ok final := by
  simp only [foldlM_append_eq_ok, List.foldlM_cons, bind_eq_ok, exists_and_left]

theorem foldlM_snoc_eq_ok {x : α} :
    (xs ++ [x]).foldlM f start = .ok final ↔
      ∃ middle, xs.foldlM f start = .ok middle ∧ f middle x = .ok final := by
  rw [foldlM_append_eq_ok]
  simp [bind_eq_ok, pure, Except.pure]

theorem foldlM_eq_error {e : ε} (h : xs.foldlM f start = .error e) :
    ∃ before x after middle, xs = before ++ x :: after ∧
      before.foldlM f start = .ok middle ∧ f middle x = .error e := by
  induction xs generalizing start with
  | nil => cases h
  | cons x xs ih =>
    rw [List.foldlM_cons, bind_eq_error] at h
    rcases h with hfirst | ⟨next, hnext, hrest⟩
    · exact ⟨[], x, xs, start, rfl, rfl, hfirst⟩
    · obtain ⟨before, y, after, middle, rfl, hbefore, hstop⟩ := ih hrest
      refine ⟨x :: before, y, after, middle, rfl, ?_, hstop⟩
      rw [List.foldlM_cons, hnext]
      exact hbefore

theorem map_foldlM_congr {γ α' β' : Type} {f' : β' → α' → Except ε β'} {view : β → γ}
    {view' : β' → γ} {g : α → α'}
    (hstep : ∀ b b' x, view b = view' b' → (f b x).map view = (f' b' (g x)).map view')
    {start' : β'} (hstart : view start = view' start') :
    (xs.foldlM f start).map view = ((xs.map g).foldlM f' start').map view' := by
  induction xs generalizing start start' with
  | nil => exact congrArg Except.ok hstart
  | cons x xs ih =>
    rw [List.map_cons, List.foldlM_cons, List.foldlM_cons]
    have hnext := hstep start start' x hstart
    cases hleft : f start x with
    | error fault =>
      cases hright : f' start' (g x) with
      | error fault' =>
        rw [hleft, hright] at hnext
        exact hnext
      | ok next' =>
        rw [hleft, hright] at hnext
        cases hnext
    | ok next =>
      cases hright : f' start' (g x) with
      | error fault' =>
        rw [hleft, hright] at hnext
        cases hnext
      | ok next' =>
        rw [hleft, hright] at hnext
        exact ih (Except.ok.inj hnext)

/-- What every step of a run keeps holds at its end. -/
theorem foldlM_invariant (P : List α → β → Prop) (hrun : xs.foldlM f start = .ok final)
    (hstart : P [] start)
    (hstep : ∀ before x after b c, xs = before ++ x :: after → P before b → f b x = .ok c →
      P (before ++ [x]) c) : P xs final := by
  have hfrom : ∀ rest before b, xs = before ++ rest → P before b → rest.foldlM f b = .ok final →
      P xs final := by
    intro rest
    induction rest with
    | nil =>
      intro before b hsplit hb hrest
      rw [List.foldlM_nil] at hrest
      cases hrest
      rwa [hsplit, List.append_nil]
    | cons x rest ih =>
      intro before b hsplit hb hrest
      rw [List.foldlM_cons, bind_eq_ok] at hrest
      obtain ⟨c, hc, hrest⟩ := hrest
      exact ih (before ++ [x]) c (by simpa using hsplit) (hstep before x rest b c hsplit hb hc) hrest
  exact hfrom xs [] start rfl hstart hrun

end LayerGraph
