import TimescalePrometheus.Sql.CatalogEdits

/-!
What stands where in a label array.
-/

namespace TimescalePrometheus.Sql.LabelArrays

open Sql.Tables Sql.Series Sql.CatalogEdits

theorem mem_arrayOf {rows : List (Nat × Nat)} {x : Nat} (h : x ∈ arrayOf rows) :
    x = 0 ∨ ∃ row ∈ rows, row.2 = x := by
  unfold arrayOf at h
  obtain ⟨g, -, hx⟩ := List.mem_flatMap.mp h
  unfold joined at hx
  split at hx
  · exact .inl (by simpa using hx)
  · rename_i row more hfilter
    obtain ⟨r, hr, rfl⟩ := List.mem_map.mp hx
    rw [← hfilter] at hr
    exact .inr ⟨r, (List.mem_filter.mp hr).1, rfl⟩

/-- The last index that the rows fill. -/
def lastIdx (rows : List (Nat × Nat)) : Nat := (rows.map (·.1)).max?.getD 0

/-- The value of the first row with the index, 0 if there is none. -/
def entry (rows : List (Nat × Nat)) (g : Nat) : Nat :=
  ((rows.find? fun row => row.1 = g).map (·.2)).getD 0

theorem le_lastIdx {rows : List (Nat × Nat)} {row : Nat × Nat} (h : row ∈ rows) :
    row.1 ≤ lastIdx rows :=
  List.le_max?_getD_of_mem (List.mem_map_of_mem h)

theorem exists_eq_lastIdx {rows : List (Nat × Nat)} (h : rows ≠ []) :
    ∃ row ∈ rows, row.1 = lastIdx rows := by
  cases hmax : (rows.map (·.1)).max? with
  | none => simp [List.max?_eq_none_iff, h] at hmax
  | some top =>
    obtain ⟨row, hrow, htop⟩ := List.mem_map.mp (List.max?_eq_some_iff.mp hmax).1
    exact ⟨row, hrow, by rw [lastIdx, hmax]; exact htop⟩

theorem entry_of_mem {rows : List (Nat × Nat)} (hnodup : (rows.map (·.1)).Nodup)
    {row : Nat × Nat} (h : row ∈ rows) : entry rows row.1 = row.2 := by
  unfold entry
  cases hfind : rows.find? fun r => r.1 = row.1 with
  | none => simpa using List.find?_eq_none.mp hfind row h
  | some found =>
    have hidx := List.find?_some hfind
    simp only [decide_eq_true_eq] at hidx
    rw [List.inj_on_of_nodup_map hnodup (List.mem_of_find?_eq_some hfind) h hidx]
    rfl

theorem entry_of_not_mem {rows : List (Nat × Nat)} {g : Nat}
    (h : ∀ row ∈ rows, row.1 ≠ g) : entry rows g = 0 := by
  have hfind : (rows.find? fun row => row.1 = g) = none := by
    simpa [List.find?_eq_none] using h
  rw [entry, hfind]
  rfl

theorem filter_eq_of_nodup {rows : List (Nat × Nat)} (hnodup : (rows.map (·.1)).Nodup)
    (g : Nat) : (rows.filter fun row => row.1 = g) = [] ∨
      ∃ row ∈ rows, row.1 = g ∧ (rows.filter fun row => row.1 = g) = [row] := by
  cases hfilter : rows.filter fun row => row.1 = g with
  | nil => exact .inl rfl
  | cons row more =>
    have hmem : ∀ r ∈ row :: more, r ∈ rows ∧ r.1 = g := by
      intro r hr
      rw [← hfilter] at hr
      simpa using List.mem_filter.mp hr
    have hsub : ((row :: more).map (·.1)).Nodup := by
      rw [← hfilter]
      exact (List.filter_sublist.map _).nodup hnodup
    have hmore : more = [] := by
      apply List.eq_nil_iff_forall_not_mem.mpr
      intro r hr
      have hsame : r.1 = row.1 :=
        (hmem r (List.mem_cons_of_mem _ hr)).2.trans (hmem row List.mem_cons_self).2.symm
      exact (List.nodup_cons.mp hsub).1 (List.mem_map.mpr ⟨r, hr, hsame⟩)
    obtain ⟨hrow, hidx⟩ := hmem row List.mem_cons_self
    exact .inr ⟨row, hrow, hidx, by rw [hmore]⟩

theorem joined_eq {rows : List (Nat × Nat)} (hnodup : (rows.map (·.1)).Nodup) (g : Nat) :
    joined rows g = [entry rows g] := by
  unfold joined
  rcases filter_eq_of_nodup hnodup g with hnil | ⟨row, hrow, rfl, hone⟩
  · have hnone : ∀ row ∈ rows, row.1 ≠ g := by simpa using hnil
    rw [hnil, entry_of_not_mem hnone]
  · rw [hone, entry_of_mem hnodup hrow]
    rfl

theorem arrayOf_eq_map {rows : List (Nat × Nat)} (hnodup : (rows.map (·.1)).Nodup) :
    arrayOf rows = (List.range' 1 (lastIdx rows)).map (entry rows) := by
  have hjoined : joined rows = fun g => [entry rows g] := funext (joined_eq hnodup)
  rw [arrayOf, hjoined, ← List.map_eq_flatMap]
  rfl

theorem length_arrayOf {rows : List (Nat × Nat)} (hnodup : (rows.map (·.1)).Nodup) :
    (arrayOf rows).length = lastIdx rows := by
  rw [arrayOf_eq_map hnodup, List.length_map, List.length_range']

theorem getElem?_arrayOf {rows : List (Nat × Nat)} (hnodup : (rows.map (·.1)).Nodup)
    {i : Nat} (h : i < lastIdx rows) : (arrayOf rows)[i]? = some (entry rows (i + 1)) := by
  rw [arrayOf_eq_map hnodup, List.getElem?_map, List.getElem?_range' h]
  simp [Nat.add_comm]

theorem Encodes.mem_array {c : Catalog} {metricName : String} {labels : LabelSet}
    {array : List Nat} (h : Encodes c metricName labels array) {x : Nat} (hx : x ∈ array) :
    x = 0 ∨ ∃ kv ∈ labels, c.labelId? kv.1 kv.2 = some x := by
  obtain ⟨rows, hrows, rfl⟩ := h
  obtain rfl | ⟨row, hrow, rfl⟩ := mem_arrayOf hx
  · exact .inl rfl
  · obtain ⟨i, hi, rfl⟩ := List.getElem_of_mem hrow
    have hlength := hrows.length_eq
    have hget := hrows.get (by omega) hi
    exact .inr ⟨_, List.get_mem .., hget.2⟩

end TimescalePrometheus.Sql.LabelArrays
