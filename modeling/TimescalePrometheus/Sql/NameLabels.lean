import TimescalePrometheus.Sql.CatalogRuns
import TimescalePrometheus.Sql.Encodings

/-!
The name labels of stored series: as long as series are stored only for label sets
that name their metric, a series never comes to carry the name of another metric.
-/

namespace TimescalePrometheus.Sql.NameLabels

open Lib.Runs Sql.Tables Sql.Series Sql.CatalogEdits Sql.LabelArrays Sql.Invariant Sql.Encodings
open Sql.Drops Sql.CatalogRuns

/-- The label set has one value for each key and names its metric. -/
def NamedSet (metricName : String) (labels : LabelSet) : Prop :=
  (labels.map (·.1)).Nodup ∧ (metricNameLabelName, metricName) ∈ labels

theorem NamedSet.metricName_eq {metricName metricName' : String} {labels labels' : LabelSet}
    (h : NamedSet metricName labels) (h' : NamedSet metricName' labels')
    (hsame : ∀ kv, kv ∈ labels ↔ kv ∈ labels') : metricName = metricName' := by
  have heq := List.inj_on_of_nodup_map h.1 h.2 ((hsame _).mpr h'.2) rfl
  exact congrArg Prod.snd heq

/-- The name labels among the labels of a series are those of its metric. -/
def NamesOwn (c : Catalog) : Prop :=
  ∀ m ∈ c.metric, ∀ p, c.dataSeries m.tableName = some p → ∀ s ∈ p.rows, ∀ row ∈ c.label,
    row.id ∈ s.labels → row.key = metricNameLabelName → row.value = m.metricName

variable {c c' : Catalog}

theorem label_mem_of_edit {A : String → LabelSet → Prop} (hwf : WellFormed c)
    (hedit : Edit A c c') {row : LabelRow} (hrow : row ∈ c'.label) {t : String}
    {p : SeriesPartition} (hp : c.dataSeries t = some p) {s : SeriesRow} (hs : s ∈ p.rows)
    (hid : row.id ∈ s.labels) : row ∈ c.label := by
  cases hedit with
  | unobserved hu => exact hu.label ▸ hrow
  | addLabel key value =>
    simp only [withLabel, List.mem_append, List.mem_singleton] at hrow
    rcases hrow with hrow | rfl
    · exact hrow
    · have hbound := hwf.series.labelBound t p hp s hs _ hid
      simp only at hbound
      omega
  | addPosition | addMetric | completeMetric | addSeries => exact hrow

theorem metric_mem_of_edit {A : String → LabelSet → Prop} (hwf' : WellFormed c')
    (hedit : Edit A c c') {m : MetricRow} (hm : m ∈ c.metric) {m' : MetricRow}
    (hm' : m' ∈ c'.metric) (htable : m'.tableName = m.tableName) :
    m'.metricName = m.metricName := by
  obtain ⟨m₁, hm₁, hname₁, htable₁, -⟩ := hedit.metric_mem hm
  rw [hwf'.metrics.tableInj m' hm' m₁ hm₁ (htable.trans htable₁.symm), hname₁]

theorem NamesOwn.edit (h : NamesOwn c) (hwf : WellFormed c) (hedit : Edit NamedSet c c') :
    NamesOwn c' := by
  intro m' hm' p' hp' s hs row hrow hid hkey
  obtain ⟨p, hp, hsold⟩ | ⟨m, hm, labels, htable, hset, hencodes⟩ := hedit.row_cases hp' hs
  · obtain ⟨m, hm, htable⟩ := hwf.metrics.ofPartition _ p hp
    have hold := label_mem_of_edit hwf hedit hrow hp hsold hid
    rw [metric_mem_of_edit (hwf.edit hedit) hedit hm hm' htable.symm]
    exact h m hm p (htable ▸ hp) s hsold row hold hid hkey
  · rw [metric_mem_of_edit (hwf.edit hedit) hedit hm hm' htable.symm]
    have hne : row.id ≠ 0 := Nat.ne_of_gt ((hwf.labels.edit hedit).bound row hrow).1
    obtain hzero | ⟨kv, hkv, hlabel⟩ := Encodes.mem_array hencodes hid
    · exact absurd hzero hne
    · -- the label is one of the set, and the set has one label with this key
      have hself := labelId?_of_mem (hwf.labels.edit hedit) hrow
      obtain rfl : kv = (row.key, row.value) :=
        labelId?_inj (hwf.labels.edit hedit) (hedit.labelId?_eq hlabel) hself
      have heq := List.inj_on_of_nodup_map hset.1 hkv hset.2 hkey
      exact congrArg Prod.snd heq

theorem NamesOwn.edits (h : NamesOwn c) (hwf : WellFormed c) (hedits : Edits NamedSet c c') :
    NamesOwn c' := by
  induction hedits with
  | refl => exact h
  | tail hpre hedit ih => exact ih.edit (hwf.edits hpre) hedit

theorem NamesOwn.shrunk (h : NamesOwn c) (hs : Shrunk c c') : NamesOwn c' := by
  intro m hm p' hp' s hsr row hrow hid hkey
  obtain ⟨p, hp, -, -, hrows⟩ := hs.partition m.tableName p' hp'
  exact h m (hs.metric ▸ hm) p hp s (hrows s hsr) row (hs.label row hrow) hid hkey

theorem namesOwn_step (h : NamesOwn c) (hwf : WellFormed c) {a : Action}
    (hstores : a.Stores NamedSet) : NamesOwn (step c a) := by
  by_cases hdrop : a.isDrop = false
  · exact h.edits hwf (step_edits a hstores hdrop)
  · cases a with
    | dropMetricChunks metricName olderThan =>
      obtain ⟨hedits, -⟩ | ⟨m, table, p, cut, -, -, hseries, hcut, heq⟩ :=
        step_drop (A := NamedSet) hwf metricName olderThan
      · exact h.edits hwf hedits
      · rw [heq]
        exact h.shrunk (dropBefore_shrunk hseries hcut)
    | _ => simp [Action.isDrop] at hdrop

theorem namesOwn_empty : NamesOwn Catalog.empty := by
  simp [NamesOwn, Catalog.empty]

end TimescalePrometheus.Sql.NameLabels
