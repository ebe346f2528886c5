import LayerGraph.Layer.Basic
import LayerGraph.Proofs.Writable
set_option autoImplicit false

namespace LayerGraph

namespace Table

variable {α β : Type}

theorem get?_append (table more : Table α) (key : String) :
    get? (table ++ more) key = (table.get? key).or (more.get? key) :=
  List.lookup_append

theorem get?_map (f : String → α → β) (table : Table α) (key : String) :
    get? (table.map fun entry => (entry.1, f entry.1 entry.2)) key = (table.get? key).map (f key) := by
  induction table with
  | nil => rfl
  | cons entry rest ih =>
    obtain ⟨k, v⟩ := entry
    rw [List.map_cons, get?_cons, get?_cons, ih]
    split
    · rename_i h
      rw [h]
      rfl
    · rfl

theorem get?_filter (p : String → Bool) (table : Table α) (key : String) :
    get? (table.filter fun entry => p entry.1) key = if p key then table.get? key else none := by
  induction table with
  | nil => simp
  | cons entry rest ih =>
    obtain ⟨k, v⟩ := entry
    rw [List.filter_cons, get?_cons]
    by_cases hk : key = k
    · subst hk
      by_cases hp : p key = true
      · simp [hp, get?_cons]
      · simp [hp, ih]
    · by_cases hp : p k = true
      · simp [hp, hk, ih, get?_cons]
      · simp [hp, hk, ih]

theorem get?_of_mem {table : Table α} (hkeys : (table.map (·.1)).Nodup) {key : String} {value : α}
    (h : (key, value) ∈ table) : table.get? key = some value := by
  induction table with
  | nil => cases h
  | cons entry rest ih =>
    obtain ⟨k, v⟩ := entry
    rw [List.map_cons, List.nodup_cons] at hkeys
    rw [get?_cons]
    rcases List.mem_cons.1 h with heq | hrest
    · cases heq
      rw [if_pos rfl]
    · rw [if_neg, ih hkeys.2 hrest]
      intro heq
      exact hkeys.1 (heq ▸ List.mem_map_of_mem (f := (·.1)) hrest)

theorem nodup_put {table : Table α} (hkeys : (table.map (·.1)).Nodup) (key : String) (value : α) :
    ((table.put key value).map (·.1)).Nodup := by
  rw [keys_put]
  split
  · exact hkeys
  · rename_i hnew
    rw [List.nodup_append]
    refine ⟨hkeys, by simp, fun other hother last hlast heq => hnew ?_⟩
    rw [← List.mem_singleton.1 hlast, ← heq]
    exact hother

end Table

namespace Schema

variable (schema : Schema) (params : Fields)

/-- A key of the schema has its given value, or else its default; other keys are kept. -/
theorem get?_resolve (key : String) :
    Table.get? (schema.resolve params) key =
      match schema.get? key with
      | some p => some ((params.get? key).getD p.default)
      | none => params.get? key := by
  have hmapped := Table.get?_map (fun key (p : Param) => (params.get? key).getD p.default) schema key
  have hkept := Table.get?_filter (fun key => !schema.has key) params key
  rw [resolve, Table.get?_append, hmapped, hkept]
  cases hget : schema.get? key with
  | some p => rfl
  | none =>
    have hhas : schema.has key = false := by
      rw [← Bool.not_eq_true, Table.has_iff, ← Table.get?_eq_none_iff]
      exact hget
    simp [hhas]

theorem get_resolve {key : String} {p : Param} (h : schema.get? key = some p) :
    Fields.get (schema.resolve params) key = (params.get? key).getD p.default := by
  rw [Fields.get, get?_resolve, h]
  rfl

/-- What holds of the default of a key and of its given value, if there is one, holds of the value
that stands under the key. -/
theorem get_resolve_of {key : String} {p : Param} (h : schema.get? key = some p) {P : Value → Prop}
    (hdefault : P p.default) (hgiven : ∀ v, params.get? key = some v → P v) :
    P (Fields.get (schema.resolve params) key) := by
  rw [get_resolve schema params h]
  cases hget : params.get? key with
  | none => exact hdefault
  | some v => exact hgiven v hget

theorem resolve_writable (hschema : ∀ entry ∈ schema, entry.2.default.writable = true)
    (hparams : ∀ field ∈ params, field.2.writable = true) :
    ∀ field ∈ schema.resolve params, field.2.writable = true := by
  intro field hfield
  rcases List.mem_append.1 hfield with hin | hin
  · obtain ⟨entry, hentry, rfl⟩ := List.mem_map.1 hin
    cases hget : params.get? entry.1 with
    | none => simpa [hget] using hschema entry hentry
    | some v => simpa [hget] using hparams _ (Table.mem_of_get? hget)
  · exact hparams field (List.mem_filter.1 hin).1

end Schema

end LayerGraph
