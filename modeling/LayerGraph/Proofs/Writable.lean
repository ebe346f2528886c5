import LayerGraph.Value
import Mathlib.Algebra.Order.Monoid.Unbundled.Pow
import Mathlib.Tactic.Ring
set_option autoImplicit false

namespace LayerGraph

theorem isWritable_iff (n : Int) : isWritable n = true ↔ n.natAbs < 10 ^ digitLimit := by
  rw [isWritable, Nat.pow_eq, decide_eq_true_eq]

theorem isWritable_of_natAbs_le {m n : Int} (hn : isWritable n = true)
    (h : m.natAbs ≤ n.natAbs) : isWritable m = true := by
  rw [isWritable_iff] at hn ⊢
  exact Nat.lt_of_le_of_lt h hn

theorem isWritable_of_lt_two_pow {n : Int} {k : Nat} (h : n.natAbs < 2 ^ k) (hk : k ≤ digitLimit) :
    isWritable n = true := by
  rw [isWritable_iff]
  calc
    n.natAbs < 2 ^ k := h
    _ ≤ 10 ^ k := Nat.pow_le_pow_left (by omega) k
    _ ≤ 10 ^ digitLimit := Nat.pow_le_pow_right (by omega) hk

theorem isWritable_of_natAbs_le_one {n : Int} (h : n.natAbs ≤ 1) : isWritable n = true :=
  isWritable_of_lt_two_pow (k := 1) (by omega) (by decide)

namespace Binary64

theorem significand_lt (rank : Nat) : significand rank < 2 ^ 53 := by
  have hbinade : binade = 2 ^ 52 := rfl
  unfold significand
  split
  · omega
  · have hmod := Nat.mod_lt rank (show 0 < binade by omega)
    omega

theorem scale_le {rank : Nat} (h : rank < 2047 * binade) : scale rank ≤ 971 := by
  unfold scale
  split
  · omega
  · have hdiv : rank / binade < 2047 := by
      rw [Nat.div_lt_iff_lt_mul (by decide)]
      exact h
    omega

theorem ratio_lt (rank : Nat) :
    (ratio rank).1 / (ratio rank).2 < 2 ^ (53 + (scale rank).toNat) := by
  have hnum : (ratio rank).1 = significand rank * 2 ^ (scale rank).toNat := by
    rw [ratio, Nat.pow_eq]
  calc
    (ratio rank).1 / (ratio rank).2 ≤ (ratio rank).1 := Nat.div_le_self _ _
    _ = significand rank * 2 ^ (scale rank).toNat := hnum
    _ < 2 ^ 53 * 2 ^ (scale rank).toNat :=
      Nat.mul_lt_mul_of_pos_right (significand_lt rank) (Nat.pow_pos (by omega))
    _ = 2 ^ (53 + (scale rank).toNat) := (Nat.pow_add _ _ _).symm

theorem truncate?_writable {x : Binary64} {n : Int} (h : x.truncate? = some n) :
    isWritable n = true := by
  cases x with
  | nan => cases h
  | infinite negative => cases h
  | finite negative rank =>
    refine isWritable_of_lt_two_pow (k := 53 + (scale rank).toNat) ?_ ?_
    · have hlt := ratio_lt rank.val
      rw [truncate?, Option.some.injEq] at h
      rw [← h]
      cases negative <;>
        simpa only [Bool.false_eq_true, ↓reduceIte, Int.natAbs_neg, Int.natAbs_natCast] using hlt
    · have hle := scale_le rank.isLt
      rw [digitLimit]
      omega

theorem truncate?_of_whole? {x : Binary64} {n : Int} (h : x.whole? = some n) :
    x.truncate? = some n := by
  cases x with
  | nan => cases h
  | infinite negative => cases h
  | finite negative rank =>
    simp only [whole?, Option.ite_none_right_eq_some] at h
    exact h.2

end Binary64

namespace Numeral

theorem ofDigits_lt {ds : List Nat} (h : ∀ d ∈ ds, d < 10) : ofDigits ds < 10 ^ ds.length := by
  have hfrom : ∀ start : Nat,
      ds.foldl (fun n d => 10 * n + d) start < (start + 1) * 10 ^ ds.length := by
    induction ds with
    | nil => simp
    | cons d ds ih =>
      intro start
      have hd := h d List.mem_cons_self
      have hrest := ih (fun d' hd' => h d' (List.mem_cons_of_mem _ hd')) (10 * start + d)
      calc
        (d :: ds).foldl (fun n d => 10 * n + d) start
            < (10 * start + d + 1) * 10 ^ ds.length := hrest
        _ ≤ (10 * (start + 1)) * 10 ^ ds.length := Nat.mul_le_mul_right _ (by omega)
        _ = (start + 1) * 10 ^ (d :: ds).length := by
          rw [List.length_cons]
          ring
  simpa [ofDigits] using hfrom 0

theorem decimalDigit?_lt {c : Char} {d : Nat} (h : Text.decimalDigit? c = some d) : d < 10 := by
  obtain ⟨first, hfind, rfl⟩ := Option.map_eq_some_iff.1 h
  have hrange := List.find?_some hfind
  simp only [Bool.and_eq_true, decide_eq_true_eq] at hrange
  omega

theorem digits?_lt {cs : List Char} {ds : List Nat}
    (h : digits? Text.decimalDigit? cs = some ds) : ∀ d ∈ ds, d < 10 := by
  fun_induction digits? Text.decimalDigit? cs generalizing ds with
  | case1 => cases h
  | case2 c =>
    obtain ⟨d, hd, rfl⟩ := Option.map_eq_some_iff.1 h
    simpa using decimalDigit?_lt hd
  | case3 c rest ih | case4 c rest _ _ ih =>
    simp only [bind, Option.bind_eq_some_iff, Option.some.injEq] at h
    obtain ⟨d, hd, more, hmore, rfl⟩ := h
    intro d' hd'
    rcases List.mem_cons.1 hd' with rfl | hin
    · exact decimalDigit?_lt hd
    · exact ih hmore d' hin

theorem natAbs_signed (negative : Bool) (n : Nat) : (signed negative n).natAbs = n := by
  cases negative <;> simp [signed]

theorem integer_writable {s : String} {n : Int} (h : integer s = .ok n) : isWritable n = true := by
  unfold integer at h
  simp only at h
  split at h
  · cases h
  · rename_i ds hds
    split at h
    · cases h
    · rename_i hlength
      split at h
      · cases h
        rw [isWritable_iff, natAbs_signed]
        exact Nat.lt_of_lt_of_le (ofDigits_lt (digits?_lt hds))
          (Nat.pow_le_pow_right (by omega) (by omega))
      · cases h

end Numeral

namespace Value

theorem writableItems_iff {items : List Value} :
    writableItems items = true ↔ ∀ v ∈ items, v.writable = true := by
  induction items with
  | nil => simp [writableItems]
  | cons v items ih => simp [writableItems, ih]

theorem writableFields_iff {fields : List (String × Value)} :
    writableFields fields = true ↔ ∀ field ∈ fields, field.2.writable = true := by
  induction fields with
  | nil => simp [writableFields]
  | cons field fields ih => simp [writableFields, ih]

@[simp] theorem writable_list {items : List Value} :
    (Value.list items).writable = true ↔ ∀ v ∈ items, v.writable = true := writableItems_iff

@[simp] theorem writable_object {fields : List (String × Value)} :
    (Value.object fields).writable = true ↔ ∀ field ∈ fields, field.2.writable = true :=
  writableFields_iff

theorem writable_get {fields : Fields} (h : ∀ field ∈ fields, field.2.writable = true)
    (key : String) : (fields.get key).writable = true := by
  cases hget : fields.get? key with
  | none => simp [Fields.get, hget, writable]
  | some v => simpa [Fields.get, hget] using h _ (Table.mem_of_get? hget)

mutual
theorem writable_whole : ∀ v : Value, v.writable = true → v.whole.writable = true
  | .null | .bool _ | .int _ | .str _ | .object _ => by simp only [whole, imp_self]
  | .float x => by
    intro _
    unfold whole
    split
    · rename_i n hn
      simpa only [writable] using Binary64.truncate?_writable (Binary64.truncate?_of_whole? hn)
    · simp only [writable]
  | .list items => by
    simp only [whole, writable]
    exact writableItems_whole items
theorem writableItems_whole : ∀ items : List Value, writableItems items = true →
    writableItems (wholeItems items) = true
  | [] => by simp only [wholeItems, imp_self]
  | v :: items => by
    simp only [writableItems, wholeItems, Bool.and_eq_true]
    exact fun h => ⟨writable_whole v h.1, writableItems_whole items h.2⟩
end

theorem toInt_writable {v : Value} {n : Int} (hv : v.writable = true) (h : v.toInt = .ok n) :
    isWritable n = true := by
  cases v with
  | null | list _ | object _ => cases h
  | bool b =>
    cases h
    cases b <;> exact isWritable_of_natAbs_le_one (by decide)
  | int m =>
    cases h
    exact hv
  | float x =>
    cases x with
    | nan | infinite _ => cases h
    | finite negative rank =>
      cases h
      exact Binary64.truncate?_writable (x := .finite negative rank) rfl
  | str s => exact Numeral.integer_writable h

end Value

end LayerGraph
