import TimescalePrometheus.Sql.CatalogRuns
import TimescalePrometheus.Sql.Encodings

/-!
Labels under retention. A drop looks only at the series of its own metric before it deletes labels
from the table that all metrics share.
-/

namespace TimescalePrometheus.Sql.LabelRetention

open Lib.Runs Sql.Tables Sql.Series Sql.Retention Sql.CatalogEdits Sql.FunctionEdits Sql.LabelArrays
open Sql.Invariant Sql.Encodings Sql.Drops Sql.CatalogRuns

variable {A : String → LabelSet → Prop} {c c' : Catalog}

/-- Every id in an array has its row. -/
def LabelsStored (c : Catalog) : Prop :=
  ∀ t p, c.dataSeries t = some p → ∀ s ∈ p.rows, ∀ l ∈ s.labels, l ≠ 0 →
    ∃ row ∈ c.label, row.id = l

/-- Every label id of a series is the id of a label, and so `labels_info` finds
all labels of the series. -/
def LabelIntegrity (c : Catalog) : Prop :=
  LabelsStored c ∧ ∀ t p, c.dataSeries t = some p → ∀ s ∈ p.rows,
    (labelsInfo c s.labels).map (·.id) = s.labels.filter (· ≠ 0)

theorem labelsInfo_ids (hlabels : LabelsWellFormed c) {array : List Nat}
    (h : ∀ l ∈ array, l ≠ 0 → ∃ row ∈ c.label, row.id = l) :
    (labelsInfo c array).map (·.id) = array.filter (· ≠ 0) := by
  unfold labelsInfo
  induction array with
  | nil => rfl
  | cons l array ih =>
    have hrest := ih fun l' hl' => h l' (List.mem_cons_of_mem _ hl')
    by_cases hzero : l = 0
    · have hnone : c.labelById? 0 = none := by
        apply List.find?_eq_none.mpr
        intro row hrow
        have := (hlabels.bound row hrow).1
        simp only [decide_eq_true_eq]
        omega
      simp [hzero, hnone, hrest]
    · obtain ⟨row, hrow, hid⟩ := h l List.mem_cons_self hzero
      have hfound := labelById?_of_mem hlabels hrow
      rw [hid] at hfound
      simp [hzero, hfound, hrest, hid]

theorem labelIntegrity_iff (hlabels : LabelsWellFormed c) :
    LabelIntegrity c ↔ LabelsStored c :=
  ⟨fun h => h.1, fun h => ⟨h, fun t p hp s hs => labelsInfo_ids hlabels (h t p hp s hs)⟩⟩

theorem LabelsStored.edit (h : LabelsStored c) (hedit : Edit A c c') : LabelsStored c' := by
  intro t p' hp' s hs l hl hne
  have hstored : ∃ row ∈ c.label, row.id = l := by
    obtain ⟨p, hp, hs⟩ | ⟨m, -, labels, -, -, hencodes⟩ := hedit.row_cases hp' hs
    · exact h t p hp s hs l hl hne
    · obtain rfl | ⟨kv, -, hid⟩ := Encodes.mem_array hencodes hl
      · exact absurd rfl hne
      · obtain ⟨row, hrow, -, -, rfl⟩ := Catalog.exists_of_labelId? hid
        exact ⟨row, hrow, rfl⟩
  obtain ⟨row, hrow, rfl⟩ := hstored
  exact ⟨row, hedit.label_mem hrow, rfl⟩

theorem LabelsStored.edits (h : LabelsStored c) (hedits : Edits A c c') : LabelsStored c' := by
  induction hedits with
  | refl => exact h
  | tail _ hedit ih => exact ih.edit hedit

/-- No label that the drop is about to delete is used by another metric. -/
def LabelsUnshared : Catalog → Action → Prop :=
  DropMeets fun c m table p olderThan => ∀ l, l ≠ 0 → Doomed table p olderThan l →
    ∀ t' p', t' ≠ m.tableName → c.dataSeries t' = some p' → ∀ s ∈ p'.rows, l ∉ s.labels

theorem labelsStored_dropBefore_iff {m : MetricRow} {table : DataTable} {p : SeriesPartition}
    {olderThan cut : Int} (h : LabelsStored c) (hp : c.dataSeries m.tableName = some p)
    (hcut : IsCut table olderThan cut) :
    LabelsStored (dropBefore c m.tableName table p cut (olderThan + hour)) ↔
      ∀ l, l ≠ 0 → Doomed table p olderThan l → ∀ t' p', t' ≠ m.tableName →
        c.dataSeries t' = some p' → ∀ s ∈ p'.rows, l ∉ s.labels := by
  obtain ⟨p₁, hp₁, -, -, hrows₁⟩ :=
    dataSeries_dropBefore_self (c := c) (t := m.tableName) (p := p) hcut
  constructor
  · intro hafter l hne hdoomed t' p' ht' hp' s hs hl
    rw [← dataSeries_dropBefore_of_ne ht'] at hp'
    obtain ⟨row, hrow, rfl⟩ := hafter t' p' hp' s hs l hl hne
    exact ((mem_label_dropBefore hcut).mp hrow).2 hdoomed
  · intro hunshared t' p' hp' s hs l hl hne
    by_cases ht' : t' = m.tableName
    · subst ht'
      obtain rfl : p₁ = p' := by simpa [hp₁] using hp'
      obtain ⟨hs, halive⟩ := (hrows₁ s).mp hs
      obtain ⟨row, hrow, rfl⟩ := h m.tableName p hp s hs l hl hne
      refine ⟨row, (mem_label_dropBefore hcut).mpr ⟨hrow, ?_⟩, rfl⟩
      exact fun hdoomed => hdoomed.2 s hs halive hl
    · rw [dataSeries_dropBefore_of_ne ht'] at hp'
      obtain ⟨row, hrow, rfl⟩ := h t' p' hp' s hs l hl hne
      refine ⟨row, (mem_label_dropBefore hcut).mpr ⟨hrow, ?_⟩, rfl⟩
      exact fun hdoomed => hunshared row.id hne hdoomed t' p' ht' hp' s hs hl

theorem labelsStored_step_iff (hwf : WellFormed c) (h : LabelsStored c) (a : Action) :
    LabelsStored (step c a) ↔ LabelsUnshared c a := by
  refine step_iff_dropMeets hwf (fun c' hedits => h.edits hedits) ?_ ?_ a
  · intro m table p olderThan hnocut l _ hdoomed
    exact absurd hdoomed (not_doomed_of_no_cut hnocut p l)
  · exact fun m table p olderThan cut hp hcut => labelsStored_dropBefore_iff h hp hcut

/-- Along a run every series keeps all its labels exactly if no drop of the run
deletes a label that another metric uses. -/
theorem labelIntegrity_iff_labelsUnshared (actions : List Action) :
    Always step LabelIntegrity Catalog.empty actions ↔
      Throughout step LabelsUnshared Catalog.empty actions := by
  apply always_iff_throughout WellFormed
  · exact fun c a h => wellFormed_step h a
  · intro c a hwf h
    rw [labelIntegrity_iff (wellFormed_step hwf a).labels]
    exact labelsStored_step_iff hwf h.1 a
  · exact wellFormed_empty
  · rw [labelIntegrity_iff wellFormed_empty.labels]
    simp [LabelsStored, Catalog.empty]

/-- Two metrics share the label `job="node"`; all data of the first one is dropped. -/
def sharedLabelRun : List Action :=
  [.seriesIdForKvArray "cpu" [("__name__", "cpu"), ("job", "node")],
   .seriesIdForKvArray "mem" [("__name__", "mem"), ("job", "node")],
   .insertData (fun _ => ⟨0, 28800000000⟩) "cpu" [⟨1000000, 0, 1⟩],
   .dropMetricChunks "cpu" 28800000000]

theorem not_labelIntegrity_sharedLabelRun :
    ¬ Always step LabelIntegrity Catalog.empty sharedLabelRun := by
  intro h
  have hseries : (run step Catalog.empty sharedLabelRun).dataSeries "mem" =
      some ⟨3, 2, [⟨2, 2, [3, 2]⟩]⟩ := by decide +kernel
  have hlabel : (run step Catalog.empty sharedLabelRun).label = [⟨3, "__name__", "mem"⟩] := by
    decide +kernel
  obtain ⟨row, hrow, hid⟩ := h.last.1 "mem" _ hseries ⟨2, 2, [3, 2]⟩ (by simp) 2 (by simp)
    (by decide)
  rw [hlabel, List.mem_singleton] at hrow
  subst hrow
  exact absurd hid (by decide)

/-- The label of each metric name is there. -/
def NameLabelKept (c : Catalog) : Prop :=
  ∀ m ∈ c.metric, ∃ p, c.dataSeries m.tableName = some p ∧
    c.labelId? metricNameLabelName m.metricName = some p.checkLabel

/-- The arrays built for an existing metric pass the CHECKs of its partition. -/
def ArraysPassCheck (c : Catalog) : Prop :=
  ∀ m ∈ c.metric, ∀ labels : LabelSet, (labels.map (·.1)).Nodup →
    (metricNameLabelName, m.metricName) ∈ labels → ∀ array c',
      getOrCreateLabelArray m.metricName labels c = .ok array c' →
        ∃ p, c'.dataSeries m.tableName = some p ∧ SeriesPartition.check p m.id array = true

/-- New series can be stored. -/
def Writable (c : Catalog) : Prop := NameLabelKept c ∧ ArraysPassCheck c

theorem NameLabelKept.edit (h : NameLabelKept c) (hedit : Edit A c c') :
    NameLabelKept c' := by
  intro m' hm'
  obtain ⟨m, hm, hname, htable⟩ | hnew := hedit.metric_cases hm'
  · obtain ⟨p, hp, hlabel⟩ := h m hm
    obtain ⟨p', hp', hcheck, -, -⟩ := hedit.partition_eq hp
    refine ⟨p', htable ▸ hp', ?_⟩
    rw [hname, hcheck]
    exact hedit.labelId?_eq hlabel
  · exact hnew

theorem NameLabelKept.edits (h : NameLabelKept c) (hedits : Edits A c c') :
    NameLabelKept c' := by
  induction hedits with
  | refl => exact h
  | tail _ hedit ih => exact ih.edit hedit

theorem NameLabelKept.arraysPassCheck (h : NameLabelKept c) (hwf : WellFormed c) :
    ArraysPassCheck c := by
  intro m hm labels hkeys hname array c' harray
  obtain ⟨hedits, hencodes⟩ := getOrCreateLabelArray_edits (A := fun _ _ => True) harray
  have hwf' := hwf.edits hedits
  obtain ⟨m', hm', hmname, hmtable, hmid⟩ := Edits.metric_mem hedits hm
  obtain ⟨p, hp, hlabel⟩ := h.edits hedits m' hm'
  obtain ⟨p₁, hp₁, hcheck₁⟩ := hwf'.metrics.partition m' hm'
  obtain rfl : p = p₁ := by simpa [hp] using hp₁
  have harray' := isLabelArray_of_encodes hwf'.positions hkeys hencodes
  obtain ⟨pos, id, hpos, hid, -, hget⟩ := harray'.atPosition _ hname
  obtain rfl : pos = 1 := (position?_name hwf'.positions hpos).2.mpr rfl
  rw [hmname, hid] at hlabel
  refine ⟨p, hmtable ▸ hp, ?_⟩
  simp only [SeriesPartition.check, decide_eq_true_eq]
  refine ⟨?_, hmid ▸ hcheck₁.symm⟩
  rw [List.head?_eq_getElem?, ← hlabel]
  exact hget

theorem writable_iff (hwf : WellFormed c) : Writable c ↔ NameLabelKept c :=
  ⟨fun h => h.1, fun h => ⟨h, h.arraysPassCheck hwf⟩⟩

/-- If the drop deletes a series with the name label of a metric, a series with that
label is left. For the metric itself: the drop does not delete its last series. -/
def NamesSurvive : Catalog → Action → Prop :=
  DropMeets fun c _ table p olderThan => ∀ m' ∈ c.metric, ∀ p',
    c.dataSeries m'.tableName = some p' → ¬ Doomed table p olderThan p'.checkLabel

theorem nameLabelKept_dropBefore_iff {m : MetricRow} {table : DataTable}
    {p : SeriesPartition} {olderThan cut : Int} (hwf : WellFormed c) (h : NameLabelKept c)
    (hp : c.dataSeries m.tableName = some p) (hcut : IsCut table olderThan cut) :
    NameLabelKept (dropBefore c m.tableName table p cut (olderThan + hour)) ↔
      ∀ m' ∈ c.metric, ∀ p', c.dataSeries m'.tableName = some p' →
        ¬ Doomed table p olderThan p'.checkLabel := by
  have hshrunk := dropBefore_shrunk hp hcut
  have hwf' := WellFormed.shrunk hwf hshrunk
  constructor
  · intro hafter m' hm' p' hp' hdoomed
    obtain ⟨p₁, hp₁, hlabel⟩ := hafter m' hm'
    obtain ⟨p₀, hp₀, hcheck, -, -⟩ := hshrunk.partition m'.tableName p₁ hp₁
    obtain rfl : p' = p₀ := by simpa [hp'] using hp₀
    obtain ⟨row, hrow, -, -, hid⟩ := Catalog.exists_of_labelId? hlabel
    apply ((mem_label_dropBefore hcut).mp hrow).2
    rw [hid, hcheck]
    exact hdoomed
  · intro hsurvive m' hm'
    obtain ⟨p', hp', hlabel⟩ := h m' hm'
    obtain ⟨p₁, hp₁, -⟩ := hshrunk.kept m'.tableName p' hp'
    obtain ⟨p₀, hp₀, hcheck, -, -⟩ := hshrunk.partition m'.tableName p₁ hp₁
    obtain rfl : p' = p₀ := by simpa [hp'] using hp₀
    obtain ⟨row, hrow, hkey, hvalue, hid⟩ := Catalog.exists_of_labelId? hlabel
    have hrow' := (mem_label_dropBefore (c := c) (t := m.tableName) hcut).mpr
      ⟨hrow, hid ▸ hsurvive m' hm' p' hp'⟩
    refine ⟨p₁, hp₁, ?_⟩
    rw [hcheck, ← hkey, ← hvalue, ← hid]
    exact labelId?_of_mem hwf'.labels hrow'

theorem nameLabelKept_step_iff (hwf : WellFormed c) (h : NameLabelKept c) (a : Action) :
    NameLabelKept (step c a) ↔ NamesSurvive c a := by
  refine step_iff_dropMeets hwf (fun c' hedits => h.edits hedits) ?_ ?_ a
  · exact fun m table p olderThan hnocut m' _ p' _ => not_doomed_of_no_cut hnocut p p'.checkLabel
  · exact fun m table p olderThan cut hp hcut => nameLabelKept_dropBefore_iff hwf h hp hcut

/-- Along a run every metric stays writable exactly if no drop of the run deletes the
last series, among those it looks at, that carries the name of a metric. -/
theorem writable_iff_namesSurvive (actions : List Action) :
    Always step Writable Catalog.empty actions ↔
      Throughout step NamesSurvive Catalog.empty actions := by
  apply always_iff_throughout WellFormed
  · exact fun c a h => wellFormed_step h a
  · intro c a hwf h
    rw [writable_iff (wellFormed_step hwf a)]
    exact nameLabelKept_step_iff hwf h.1 a
  · exact wellFormed_empty
  · rw [writable_iff wellFormed_empty]
    simp [NameLabelKept, Catalog.empty]

/-- The only series of a metric goes quiet and is dropped. -/
def quietMetricRun : List Action :=
  [.seriesIdForKvArray "cpu" [("__name__", "cpu"), ("job", "node")],
   .insertData (fun _ => ⟨0, 28800000000⟩) "cpu" [⟨1000000, 0, 1⟩],
   .dropMetricChunks "cpu" 28800000000]

/-- The label row of the metric's name is gone, and when the series comes back the
CHECK of the partition rejects it. -/
theorem not_writable_quietMetricRun :
    ¬ Always step Writable Catalog.empty quietMetricRun ∧
      (transaction (getOrCreateSeriesIdForKvArray "cpu" [("__name__", "cpu"), ("job", "node")])
        (run step Catalog.empty quietMetricRun)).1 = none := by
  refine ⟨?_, by decide +kernel⟩
  intro h
  have hmetric : (run step Catalog.empty quietMetricRun).metric = [⟨1, "cpu", "cpu", false⟩] := by
    decide +kernel
  have hlabel : (run step Catalog.empty quietMetricRun).labelId? "__name__" "cpu" = none := by
    decide +kernel
  obtain ⟨p, -, hkept⟩ := h.last.1 ⟨1, "cpu", "cpu", false⟩ (by rw [hmetric]; simp)
  rw [metricNameLabelName, hlabel] at hkept
  simp at hkept

end TimescalePrometheus.Sql.LabelRetention
