import Mathlib.Data.List.Nodup
import TimescalePrometheus.Sql.Invariant

/-!
The label array of a label set, position by position, and back from the array to
the label set.
-/

namespace TimescalePrometheus.Sql.Encodings

open Sql.Tables Sql.Series Sql.CatalogEdits Sql.LabelArrays Sql.Invariant

/-- What a label array is for: the id of each label of the set stands at the
position of the label's key, zeros stand elsewhere, and the array ends at the last
position that the set uses. -/
structure IsLabelArray (c : Catalog) (metricName : String) (labels : LabelSet)
    (array : List Nat) : Prop where
  atPosition : ∀ kv ∈ labels, ∃ pos id, c.position? metricName kv.1 = some pos ∧
    c.labelId? kv.1 kv.2 = some id ∧ 0 < pos ∧ array[pos - 1]? = some id
  elsewhere : ∀ i, i < array.length →
    (∀ kv ∈ labels, c.position? metricName kv.1 ≠ some (i + 1)) → array[i]? = some 0
  last : labels ≠ [] → ∃ kv ∈ labels, c.position? metricName kv.1 = some array.length

section

variable {c : Catalog} {metricName : String} {labels : LabelSet} {array : List Nat}

/-- Where the rows of `idx_val` come from. -/
abbrev Looked (c : Catalog) (metricName : String) : String × String → Nat × Nat → Prop :=
  fun kv row => c.position? metricName kv.1 = some row.1 ∧ c.labelId? kv.1 kv.2 = some row.2

theorem exists_row {rows : List (Nat × Nat)}
    (h : List.Forall₂ (Looked c metricName) labels rows) {kv : String × String}
    (hkv : kv ∈ labels) : ∃ row ∈ rows, Looked c metricName kv row := by
  induction h with
  | nil => simp at hkv
  | cons hhead _ ih =>
    rcases List.mem_cons.mp hkv with rfl | hkv
    · exact ⟨_, List.mem_cons_self, hhead⟩
    · obtain ⟨row, hrow, hlooked⟩ := ih hkv
      exact ⟨row, List.mem_cons_of_mem _ hrow, hlooked⟩

theorem exists_label {rows : List (Nat × Nat)}
    (h : List.Forall₂ (Looked c metricName) labels rows) {row : Nat × Nat}
    (hrow : row ∈ rows) : ∃ kv ∈ labels, Looked c metricName kv row := by
  induction h with
  | nil => simp at hrow
  | cons hhead _ ih =>
    rcases List.mem_cons.mp hrow with rfl | hrow
    · exact ⟨_, List.mem_cons_self, hhead⟩
    · obtain ⟨kv, hkv, hlooked⟩ := ih hrow
      exact ⟨kv, List.mem_cons_of_mem _ hkv, hlooked⟩

theorem nodup_idx (hpos : PositionsWellFormed c) (hkeys : (labels.map (·.1)).Nodup)
    {rows : List (Nat × Nat)} (h : List.Forall₂ (Looked c metricName) labels rows) :
    (rows.map (·.1)).Nodup := by
  induction h with
  | nil => exact List.nodup_nil
  | @cons kv row labels rows hhead htail ih =>
    simp only [List.map_cons, List.nodup_cons] at hkeys ⊢
    refine ⟨?_, ih hkeys.2⟩
    intro hmem
    obtain ⟨row', hrow', hidx⟩ := List.mem_map.mp hmem
    obtain ⟨kv', hkv', hlooked⟩ := exists_label htail hrow'
    have hkey : kv'.1 = kv.1 := position?_inj hpos (hidx ▸ hlooked.1) hhead.1
    exact hkeys.1 (List.mem_map.mpr ⟨kv', hkv', hkey⟩)

theorem isLabelArray_of_encodes (hpos : PositionsWellFormed c)
    (hkeys : (labels.map (·.1)).Nodup) (h : Encodes c metricName labels array) :
    IsLabelArray c metricName labels array := by
  obtain ⟨rows, hrows, rfl⟩ := h
  have hnodup := nodup_idx hpos hkeys hrows
  refine ⟨?_, ?_, ?_⟩
  · intro kv hkv
    obtain ⟨row, hrow, hp, hid⟩ := exists_row hrows hkv
    have hfirst := (position?_name hpos hp).1
    have hle := le_lastIdx hrow
    refine ⟨row.1, row.2, hp, hid, hfirst, ?_⟩
    rw [getElem?_arrayOf hnodup (by omega), Nat.sub_add_cancel hfirst, entry_of_mem hnodup hrow]
  · intro i hi hfree
    rw [length_arrayOf hnodup] at hi
    rw [getElem?_arrayOf hnodup hi, entry_of_not_mem]
    intro row hrow hidx
    obtain ⟨kv, hkv, hlooked⟩ := exists_label hrows hrow
    exact hfree kv hkv (hidx ▸ hlooked.1)
  · intro hne
    have hrowsne : rows ≠ [] := by
      rintro rfl
      exact hne (List.forall₂_nil_right_iff.mp hrows)
    obtain ⟨row, hrow, hlast⟩ := exists_eq_lastIdx hrowsne
    obtain ⟨kv, hkv, hlooked⟩ := exists_label hrows hrow
    exact ⟨kv, hkv, by rw [length_arrayOf hnodup, ← hlast]; exact hlooked.1⟩

theorem IsLabelArray.pos_le (h : IsLabelArray c metricName labels array)
    {kv : String × String} (hkv : kv ∈ labels) {pos : Nat}
    (hpos : c.position? metricName kv.1 = some pos) : pos ≤ array.length := by
  obtain ⟨pos', id, hpos', -, hfirst, hget⟩ := h.atPosition kv hkv
  obtain rfl : pos = pos' := by simpa [hpos] using hpos'
  have := (List.getElem?_eq_some_iff.mp hget).1
  omega

theorem IsLabelArray.unique {labels' : LabelSet} {array' : List Nat}
    (h : IsLabelArray c metricName labels array) (h' : IsLabelArray c metricName labels' array')
    (hsame : ∀ kv, kv ∈ labels ↔ kv ∈ labels') (hne : labels ≠ []) : array = array' := by
  have hne' : labels' ≠ [] := by
    obtain ⟨kv, hkv⟩ := List.exists_mem_of_ne_nil labels hne
    exact List.ne_nil_of_mem ((hsame kv).mp hkv)
  obtain ⟨last, hlast, hlen⟩ := h.last hne
  obtain ⟨last', hlast', hlen'⟩ := h'.last hne'
  have hlength : array.length = array'.length := Nat.le_antisymm
    (h'.pos_le ((hsame last).mp hlast) hlen) (h.pos_le ((hsame last').mpr hlast') hlen')
  apply List.ext_getElem?
  intro i
  by_cases hi : i < array.length
  · by_cases hfree : ∀ kv ∈ labels, c.position? metricName kv.1 ≠ some (i + 1)
    · rw [h.elsewhere i hi hfree, h'.elsewhere i (hlength ▸ hi)]
      exact fun kv hkv => hfree kv ((hsame kv).mpr hkv)
    · push Not at hfree
      obtain ⟨kv, hkv, hpos⟩ := hfree
      obtain ⟨pos, id, hp, hid, -, hget⟩ := h.atPosition kv hkv
      obtain ⟨pos', id', hp', hid', -, hget'⟩ := h'.atPosition kv ((hsame kv).mp hkv)
      obtain rfl : i + 1 = pos := by simpa [hpos] using hp
      obtain rfl : i + 1 = pos' := by simpa [hpos] using hp'
      obtain rfl : id = id' := by simpa [hid] using hid'
      exact hget.trans hget'.symm
  · rw [List.getElem?_eq_none (by omega), List.getElem?_eq_none (by omega)]

theorem IsLabelArray.exists_of_ne_zero (h : IsLabelArray c metricName labels array)
    {i id : Nat} (hget : array[i]? = some id) (hne : id ≠ 0) :
    ∃ kv ∈ labels, c.position? metricName kv.1 = some (i + 1) ∧
      c.labelId? kv.1 kv.2 = some id := by
  by_contra hnone
  push Not at hnone
  have hfree : ∀ kv ∈ labels, c.position? metricName kv.1 ≠ some (i + 1) := by
    intro kv hkv hpos
    obtain ⟨pos, id', hpos', hid', -, hget'⟩ := h.atPosition kv hkv
    obtain rfl : i + 1 = pos := by simpa [hpos] using hpos'
    obtain rfl : id = id' := by simpa [hget] using hget'
    exact hnone kv hkv hpos hid'
  have hzero := h.elsewhere i (List.getElem?_eq_some_iff.mp hget).1 hfree
  rw [hget] at hzero
  exact hne (Option.some.inj hzero)

theorem labelId?_inj (hlabels : LabelsWellFormed c) {kv kv' : String × String} {id : Nat}
    (h : c.labelId? kv.1 kv.2 = some id) (h' : c.labelId? kv'.1 kv'.2 = some id) :
    kv = kv' := by
  obtain ⟨l, hl, hkey, hvalue, hid⟩ := Catalog.exists_of_labelId? h
  obtain ⟨l', hl', hkey', hvalue', hid'⟩ := Catalog.exists_of_labelId? h'
  obtain rfl := hlabels.idInj l hl l' hl' (hid.trans hid'.symm)
  exact Prod.ext (hkey.symm.trans hkey') (hvalue.symm.trans hvalue')

theorem labelId?_ne_zero (hlabels : LabelsWellFormed c) {key value : String} {id : Nat}
    (h : c.labelId? key value = some id) : id ≠ 0 := by
  obtain ⟨l, hl, -, -, rfl⟩ := Catalog.exists_of_labelId? h
  exact Nat.ne_of_gt (hlabels.bound l hl).1

theorem IsLabelArray.mem_iff (h : IsLabelArray c metricName labels array)
    (hlabels : LabelsWellFormed c) {kv : String × String} :
    kv ∈ labels ↔ ∃ id ∈ array, c.labelId? kv.1 kv.2 = some id := by
  constructor
  · intro hkv
    obtain ⟨pos, id, -, hid, -, hget⟩ := h.atPosition kv hkv
    exact ⟨id, List.mem_of_getElem? hget, hid⟩
  · rintro ⟨id, hmem, hid⟩
    obtain ⟨i, hget⟩ := List.getElem?_of_mem hmem
    obtain ⟨kv', hkv', -, hid'⟩ := h.exists_of_ne_zero hget (labelId?_ne_zero hlabels hid)
    exact labelId?_inj hlabels hid hid' ▸ hkv'

theorem mem_labelsInfo_pair (hlabels : LabelsWellFormed c) {kv : String × String} :
    kv ∈ (labelsInfo c array).map (fun l => (l.key, l.value)) ↔
      ∃ id ∈ array, c.labelId? kv.1 kv.2 = some id := by
  simp only [labelsInfo, List.mem_map, List.mem_filterMap]
  constructor
  · rintro ⟨l, ⟨id, hid, hl⟩, rfl⟩
    obtain ⟨hmem, rfl⟩ := mem_of_labelById? hl
    exact ⟨l.id, hid, labelId?_of_mem hlabels hmem⟩
  · rintro ⟨id, hid, hl⟩
    obtain ⟨l, hmem, hkey, hvalue, rfl⟩ := Catalog.exists_of_labelId? hl
    exact ⟨l, ⟨l.id, hid, labelById?_of_mem hlabels hmem⟩, Prod.ext hkey hvalue⟩

/-- A label of the array stands at the position of its key. -/
def InPlace (c : Catalog) (metricName : String) (array : List Nat) : Prop :=
  ∀ i id, array[i]? = some id → ∀ l ∈ c.label, l.id = id →
    c.position? metricName l.key = some (i + 1)

theorem IsLabelArray.inPlace (h : IsLabelArray c metricName labels array)
    (hlabels : LabelsWellFormed c) : InPlace c metricName array := by
  rintro i _ hget l hl rfl
  have hid := labelId?_of_mem hlabels hl
  obtain ⟨kv, -, hpos, hkv⟩ := h.exists_of_ne_zero hget (labelId?_ne_zero hlabels hid)
  obtain rfl : kv = (l.key, l.value) := labelId?_inj hlabels hkv hid
  exact hpos

theorem InPlace.nodup_labelsInfo (h : InPlace c metricName array) :
    ((labelsInfo c array).map fun l => (l.key, l.value)).Nodup := by
  rw [List.Nodup, List.pairwise_map, labelsInfo, List.pairwise_filterMap,
    List.pairwise_iff_getElem]
  intro i j hi hj hij l hl l' hl' heq
  -- the two elements are the same label, so they stand at the position of one key
  obtain ⟨hmem, hid⟩ := mem_of_labelById? hl
  obtain ⟨hmem', hid'⟩ := mem_of_labelById? hl'
  have hpos := h i _ (List.getElem?_eq_getElem hi) l hmem hid
  have hpos' := h j _ (List.getElem?_eq_getElem hj) l' hmem' hid'
  rw [(Prod.mk.inj heq).1, hpos'] at hpos
  simp only [Option.some.injEq] at hpos
  omega

theorem IsLabelArray.labelsInfo_perm (h : IsLabelArray c metricName labels array)
    (hlabels : LabelsWellFormed c) (hkeys : (labels.map (·.1)).Nodup) :
    ((labelsInfo c array).map fun l => (l.key, l.value)).Perm labels := by
  rw [List.perm_ext_iff_of_nodup (h.inPlace hlabels).nodup_labelsInfo (List.Nodup.of_map _ hkeys)]
  intro kv
  rw [mem_labelsInfo_pair hlabels, h.mem_iff hlabels]

theorem keyValueArray_zip (c : Catalog) (array : List Nat) :
    (keyValueArray c array).1.zip (keyValueArray c array).2 =
      (labelsInfo c array).map fun l => (l.key, l.value) := by
  simp [keyValueArray, List.zip_map']

theorem IsLabelArray.jsonb_eq_some_iff (h : IsLabelArray c metricName labels array)
    (hlabels : LabelsWellFormed c) (hkeys : (labels.map (·.1)).Nodup) (key value : String) :
    jsonb c array key = some value ↔ (key, value) ∈ labels := by
  have hperm := h.labelsInfo_perm hlabels hkeys
  rw [← keyValueArray_zip] at hperm
  have hzip : ∀ kv, kv ∈ ((keyValueArray c array).1.zip (keyValueArray c array).2).reverse ↔
      kv ∈ labels := fun kv => List.mem_reverse.trans hperm.mem_iff
  change (List.find? _ ((keyValueArray c array).1.zip (keyValueArray c array).2).reverse).map
    _ = some value ↔ _
  constructor
  · intro hfind
    obtain ⟨kv, hkv, rfl⟩ := Option.map_eq_some_iff.mp hfind
    have hkey := List.find?_some hkv
    simp only [decide_eq_true_eq] at hkey
    subst hkey
    exact (hzip kv).mp (List.mem_of_find?_eq_some hkv)
  · intro hmem
    cases hfind : List.find? (fun kv => decide (kv.1 = key))
        ((keyValueArray c array).1.zip (keyValueArray c array).2).reverse with
    | none => simpa using List.find?_eq_none.mp hfind _ ((hzip _).mpr hmem)
    | some kv =>
      have hkey := List.find?_some hfind
      simp only [decide_eq_true_eq] at hkey
      have hkv := (hzip kv).mp (List.mem_of_find?_eq_some hfind)
      rw [List.inj_on_of_nodup_map hkeys hkv hmem hkey]
      rfl

end

end TimescalePrometheus.Sql.Encodings
