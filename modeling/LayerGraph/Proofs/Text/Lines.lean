import LayerGraph.Text.Lines
set_option autoImplicit false

namespace LayerGraph.Text

theorem splitChars_eq_splitOn (separator : Char) (cs : List Char) :
    splitChars separator cs = cs.splitOn separator := by
  induction cs with
  | nil => rfl
  | cons c cs ih =>
    rw [splitChars, ih, List.splitOn_cons_eq_if_modifyHead]
    cases hpieces : cs.splitOn separator with
    | nil => exact absurd hpieces (List.splitOn_ne_nil _ _)
    | cons piece pieces => simp

theorem length_splitChars (separator : Char) (cs : List Char) :
    (splitChars separator cs).length = cs.count separator + 1 := by
  rw [splitChars_eq_splitOn]
  induction cs with
  | nil => rfl
  | cons c cs ih =>
    rw [List.splitOn_cons_eq_if_modifyHead, List.count_cons]
    split
    · rw [List.length_cons, ih]
    · rw [List.length_modifyHead, ih, Nat.add_zero]

theorem mem_of_mem_splitChars {separator c : Char} {cs piece : List Char}
    (hpiece : piece ∈ splitChars separator cs) (hc : c ∈ piece) : c ∈ cs ∧ c ≠ separator := by
  rw [splitChars_eq_splitOn] at hpiece
  induction cs generalizing piece with
  | nil =>
    rw [List.splitOn_nil, List.mem_singleton] at hpiece
    simp [hpiece] at hc
  | cons d cs ih =>
    rw [List.splitOn_cons_eq_if_modifyHead] at hpiece
    cases hpieces : cs.splitOn separator with
    | nil => exact absurd hpieces (List.splitOn_ne_nil _ _)
    | cons first rest =>
      rw [hpieces] at hpiece ih
      split at hpiece
      · rcases List.mem_cons.1 hpiece with rfl | hmem
        · cases hc
        · exact (ih hmem hc).imp_left (List.mem_cons_of_mem _)
      · rename_i hother
        rw [List.modifyHead_cons] at hpiece
        rcases List.mem_cons.1 hpiece with rfl | hmem
        · rcases List.mem_cons.1 hc with rfl | hin
          · exact ⟨List.mem_cons_self, by simpa using hother⟩
          · exact (ih List.mem_cons_self hin).imp_left (List.mem_cons_of_mem _)
        · exact (ih (List.mem_cons_of_mem _ hmem) hc).imp_left (List.mem_cons_of_mem _)

theorem lines_eq (s : String) : lines s = (s.toList.splitOn '\n').map String.ofList := by
  rw [lines, splitOn, splitChars_eq_splitOn]

theorem lines_of_not_mem {s : String} (h : '\n' ∉ s.toList) : lines s = [s] := by
  rw [lines_eq, List.splitOn_eq_singleton h, List.map_singleton, String.ofList_toList]

theorem length_lines (s : String) : (lines s).length = s.toList.count '\n' + 1 := by
  rw [lines, splitOn, List.length_map, length_splitChars]

theorem mem_of_mem_lines {s line : String} {c : Char} (hline : line ∈ lines s)
    (hc : c ∈ line.toList) : c ∈ s.toList ∧ c ≠ '\n' := by
  obtain ⟨piece, hpiece, rfl⟩ := List.mem_map.1 hline
  rw [String.toList_ofList] at hc
  exact mem_of_mem_splitChars hpiece hc

theorem lines_unlines {ls : List String} (h : ls ≠ []) : lines (unlines ls) = ls.flatMap lines := by
  induction ls with
  | nil => exact absurd rfl h
  | cons first rest ih =>
    cases rest with
    | nil => simp [unlines]
    | cons second rest =>
      have hjoined : (unlines (first :: second :: rest)).toList =
          first.toList ++ '\n' :: (unlines (second :: rest)).toList := by
        rw [unlines, String.intercalate_cons_cons, String.toList_append, String.toList_append,
          List.append_assoc]
        rfl
      rw [lines_eq, hjoined, List.splitOn_append_cons_self, List.map_append, ← lines_eq, ← lines_eq,
        ih (by simp)]
      rfl

theorem unlines_lines (s : String) : unlines (lines s) = s := by
  rw [← String.toList_inj, unlines, String.toList_intercalate, lines_eq, List.map_map,
    show String.toList ∘ String.ofList = id from funext fun _ => String.toList_ofList, List.map_id]
  exact List.intercalate_splitOn '\n'

theorem flatMap_lines_of_not_mem {ls : List String} (h : ∀ line ∈ ls, '\n' ∉ line.toList) :
    ls.flatMap lines = ls := by
  induction ls with
  | nil => rfl
  | cons line ls ih =>
    rw [List.flatMap_cons, lines_of_not_mem (h line List.mem_cons_self),
      ih fun other hother => h other (List.mem_cons_of_mem _ hother), List.singleton_append]

theorem commentLine_toList (line : String) :
    ∃ rest, (commentLine line).toList = '#' :: rest ∧
      ∀ c ∈ rest, c = ' ' ∨ c ∈ line.toList := by
  rw [commentLine]
  split
  · exact ⟨[], rfl, by simp⟩
  · refine ⟨' ' :: line.toList, by rw [String.toList_append]; rfl, fun c hc => ?_⟩
    exact List.mem_cons.1 hc

end LayerGraph.Text
