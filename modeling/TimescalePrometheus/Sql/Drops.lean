import Mathlib.Data.List.Dedup
import TimescalePrometheus.Sql.Invariant
import TimescalePrometheus.Sql.Sequences

/-!
What `drop_metric_chunks` takes away, in terms of the state before it.
-/

namespace TimescalePrometheus.Sql.Drops

open Lib.Transactions Sql.Tables Sql.Metrics Sql.Series Sql.Retention Sql.CatalogEdits
open Sql.FunctionEdits Sql.Invariant

/-- The cut of a drop: the last end of a chunk that is not after `olderThan`. -/
def IsCut (table : DataTable) (olderThan cut : Int) : Prop :=
  (∃ chunk ∈ table.chunks, chunk.rangeEnd = cut) ∧ cut ≤ olderThan ∧
    ∀ chunk ∈ table.chunks, chunk.rangeEnd ≤ olderThan → chunk.rangeEnd ≤ cut

/-- The series has data, and all of it is before the cut. -/
def Dead (table : DataTable) (olderThan : Int) (id : Nat) : Prop :=
  ∃ cut, IsCut table olderThan cut ∧ (∃ r ∈ table.rows, r.seriesId = id) ∧
    ∀ r ∈ table.rows, r.seriesId = id → r.time < cut

theorem tightOlderThan_eq_some_iff {table : DataTable} {olderThan cut : Int} :
    tightOlderThan table olderThan = some cut ↔ IsCut table olderThan cut := by
  simp only [tightOlderThan, List.max?_eq_some_iff, List.mem_filter, List.mem_map,
    decide_eq_true_eq, and_assoc, IsCut]
  refine and_congr_right fun _ => and_congr_right fun _ => ?_
  constructor
  · exact fun h chunk hchunk hle => h _ ⟨⟨chunk, hchunk, rfl⟩, hle⟩
  · rintro h _ ⟨⟨chunk, hchunk, rfl⟩, hle⟩
    exact h chunk hchunk hle

theorem IsCut.unique {table : DataTable} {olderThan cut cut' : Int}
    (h : IsCut table olderThan cut) (h' : IsCut table olderThan cut') : cut = cut' := by
  rw [← tightOlderThan_eq_some_iff] at h h'
  exact Option.some.inj (h.symm.trans h')

theorem mem_confirmedDropSeries {table : DataTable} {olderThan checkTime : Int} {id : Nat}
    (hcheck : olderThan ≤ checkTime) :
    id ∈ confirmedDropSeries table olderThan checkTime ↔
      (∃ r ∈ table.rows, r.seriesId = id) ∧
        ∀ r ∈ table.rows, r.seriesId = id → r.time < olderThan := by
  simp only [confirmedDropSeries, List.mem_filter, List.mem_map, decide_eq_true_eq,
    List.any_eq_true, not_exists, not_and]
  constructor
  · rintro ⟨⟨⟨r, ⟨hr, -⟩, hid⟩, hhour⟩, hlater⟩
    refine ⟨⟨r, hr, hid⟩, ?_⟩
    intro r' hr' hid'
    by_contra hnot
    have hafter := hlater r' hr' hid'
    exact hhour r' ⟨hr', by omega, by omega⟩ hid'
  · rintro ⟨⟨r, hr, hid⟩, hall⟩
    refine ⟨⟨⟨r, ⟨hr, hall r hr hid⟩, hid⟩, ?_⟩, ?_⟩
    · rintro r' ⟨hr', hle, -⟩ hid'
      have := hall r' hr' hid'
      omega
    · intro r' hr' hid'
      have := hall r' hr' hid'
      omega

theorem mem_confirmedDropSeries_iff_dead {table : DataTable} {olderThan cut : Int} {id : Nat}
    (hcut : IsCut table olderThan cut) :
    id ∈ confirmedDropSeries table cut (olderThan + hour) ↔ Dead table olderThan id := by
  have hle : cut ≤ olderThan + hour := by
    have := hcut.2.1
    simp only [hour]
    omega
  rw [mem_confirmedDropSeries hle]
  constructor
  · exact fun h => ⟨cut, hcut, h⟩
  · rintro ⟨cut', hcut', h⟩
    exact hcut.unique hcut' ▸ h

/-- The label is carried by a series that goes, and by no series of the same
metric that stays. -/
def Doomed (table : DataTable) (p : SeriesPartition) (olderThan : Int) (labelId : Nat) : Prop :=
  (∃ s ∈ p.rows, Dead table olderThan s.id ∧ labelId ∈ s.labels) ∧
    ∀ s ∈ p.rows, ¬ Dead table olderThan s.id → labelId ∉ s.labels

theorem not_doomed_of_no_cut {table : DataTable} {olderThan : Int}
    (h : ∀ cut, ¬ IsCut table olderThan cut) (p : SeriesPartition) (labelId : Nat) :
    ¬ Doomed table p olderThan labelId := by
  rintro ⟨⟨s, -, ⟨cut, hcut, -⟩, -⟩, -⟩
  exact h cut hcut

section DropBefore

variable {c : Catalog} {t : String} {table : DataTable} {p : SeriesPartition}
variable {olderThan cut : Int}

theorem mem_label_dropBefore (hcut : IsCut table olderThan cut) {l : LabelRow} :
    l ∈ (dropBefore c t table p cut (olderThan + hour)).label ↔
      l ∈ c.label ∧ ¬ Doomed table p olderThan l.id := by
  simp only [dropBefore, List.mem_filter, decide_eq_true_eq, List.mem_dedup, List.mem_flatMap,
    List.any_eq_true, mem_confirmedDropSeries_iff_dead hcut, Doomed, and_assoc]
  refine and_congr_right fun _ => not_congr (and_congr_right fun _ => ?_)
  simp only [not_exists, not_and]

theorem dataSeries_dropBefore_self (hcut : IsCut table olderThan cut) :
    ∃ p', (dropBefore c t table p cut (olderThan + hour)).dataSeries t = some p' ∧
      p'.checkLabel = p.checkLabel ∧ p'.checkMetric = p.checkMetric ∧
      ∀ s, s ∈ p'.rows ↔ s ∈ p.rows ∧ ¬ Dead table olderThan s.id := by
  refine ⟨_, Function.update_self .., rfl, rfl, ?_⟩
  intro s
  simp [mem_confirmedDropSeries_iff_dead hcut]

theorem dataSeries_dropBefore_of_ne {t' : String} (ht : t' ≠ t) (checkTime : Int) :
    (dropBefore c t table p cut checkTime).dataSeries t' = c.dataSeries t' :=
  Function.update_of_ne ht ..

end DropBefore

/-- The catalog lost labels and series, and nothing else that an invariant is about. -/
structure Shrunk (c c' : Catalog) : Prop where
  label : ∀ l ∈ c'.label, l ∈ c.label
  position : c'.labelKeyPosition = c.labelKeyPosition
  metric : c'.metric = c.metric
  kept : ∀ t p, c.dataSeries t = some p → ∃ p', c'.dataSeries t = some p' ∧
    p'.checkMetric = p.checkMetric
  partition : ∀ t p', c'.dataSeries t = some p' → ∃ p, c.dataSeries t = some p ∧
    p'.checkLabel = p.checkLabel ∧ p'.checkMetric = p.checkMetric ∧ ∀ s ∈ p'.rows, s ∈ p.rows
  data : ∀ t, (c.data t).isSome → (c'.data t).isSome
  lastValue : c'.lastValue = c.lastValue

theorem dropBefore_shrunk {c : Catalog} {t : String} {table : DataTable}
    {p : SeriesPartition} {olderThan cut : Int} (hp : c.dataSeries t = some p)
    (hcut : IsCut table olderThan cut) :
    Shrunk c (dropBefore c t table p cut (olderThan + hour)) := by
  obtain ⟨p₁, hp₁, hlabel₁, hmetric₁, hrows₁⟩ :=
    dataSeries_dropBefore_self (c := c) (t := t) (p := p) hcut
  refine ⟨fun l hl => ((mem_label_dropBefore hcut).mp hl).1, rfl, rfl, ?_, ?_, ?_, rfl⟩
  · intro t' p' hp'
    by_cases ht : t' = t
    · subst ht
      obtain rfl : p = p' := by simpa [hp] using hp'
      exact ⟨p₁, hp₁, hmetric₁⟩
    · exact ⟨p', (dataSeries_dropBefore_of_ne ht _).trans hp', rfl⟩
  · intro t' p' hp'
    by_cases ht : t' = t
    · subst ht
      obtain rfl : p₁ = p' := by simpa [hp₁] using hp'
      exact ⟨p, hp, hlabel₁, hmetric₁, fun s hs => ((hrows₁ s).mp hs).1⟩
    · rw [dataSeries_dropBefore_of_ne ht] at hp'
      exact ⟨p', hp', rfl, rfl, fun s hs => hs⟩
  · intro t' hdata
    by_cases ht : t' = t
    · subst ht
      simp [dropBefore]
    · simpa [dropBefore, ht] using hdata

theorem WellFormed.shrunk {c c' : Catalog} (h : WellFormed c) (hs : Shrunk c c') :
    WellFormed c' where
  labels := by
    refine ⟨?_, ?_, ?_⟩
    · exact fun l hl => hs.lastValue ▸ h.labels.bound l (hs.label l hl)
    · exact fun l hl l' hl' => h.labels.idInj l (hs.label l hl) l' (hs.label l' hl')
    · exact fun l hl l' hl' => h.labels.pairInj l (hs.label l hl) l' (hs.label l' hl')
  positions := by
    refine ⟨?_, ?_, ?_⟩ <;> rw [hs.position]
    exacts [h.positions.keyInj, h.positions.posInj, h.positions.first]
  metrics := by
    refine ⟨?_, ?_, ?_, ?_, ?_, ?_, ?_⟩ <;> rw [hs.metric]
    · exact fun m hm => hs.lastValue ▸ h.metrics.bound m hm
    · exact h.metrics.idInj
    · exact h.metrics.nameInj
    · exact h.metrics.tableInj
    · intro m hm
      obtain ⟨p, hp, hcheck⟩ := h.metrics.partition m hm
      obtain ⟨p', hp', hcheck'⟩ := hs.kept m.tableName p hp
      exact ⟨p', hp', hcheck'.trans hcheck⟩
    · exact fun m hm => hs.data m.tableName (h.metrics.data m hm)
    · intro t p' hp'
      obtain ⟨p, hp, -⟩ := hs.partition t p' hp'
      exact h.metrics.ofPartition t p hp
  series := by
    refine ⟨?_, ?_, ?_, ?_, ?_, ?_, ?_⟩
    · intro t p' hp' s hsr
      obtain ⟨p, hp, hlabel, hmetric, hrows⟩ := hs.partition t p' hp'
      unfold SeriesPartition.check
      rw [hlabel, hmetric]
      exact h.series.check t p hp s (hrows s hsr)
    · intro t p' hp' s hsr
      obtain ⟨p, hp, -, -, hrows⟩ := hs.partition t p' hp'
      exact hs.lastValue ▸ h.series.bound t p hp s (hrows s hsr)
    · intro t p' hp' t₂ p₂' hp₂' s hsr s₂ hsr₂
      obtain ⟨p, hp, -, -, hrows⟩ := hs.partition t p' hp'
      obtain ⟨p₂, hp₂, -, -, hrows₂⟩ := hs.partition t₂ p₂' hp₂'
      exact h.series.idInj t p hp t₂ p₂ hp₂ s (hrows s hsr) s₂ (hrows₂ s₂ hsr₂)
    · intro t p' hp' s hsr s₂ hsr₂
      obtain ⟨p, hp, -, -, hrows⟩ := hs.partition t p' hp'
      exact h.series.labelsInj t p hp s (hrows s hsr) s₂ (hrows s₂ hsr₂)
    · intro t p' hp' s hsr
      obtain ⟨p, hp, -, -, hrows⟩ := hs.partition t p' hp'
      exact hs.lastValue ▸ h.series.labelBound t p hp s (hrows s hsr)
    · intro t p' hp'
      obtain ⟨p, hp, hlabel, -, -⟩ := hs.partition t p' hp'
      rw [hlabel, hs.lastValue]
      exact h.series.checkBound t p hp
    · intro m hm p' hp' l hl heq
      rw [hs.metric] at hm
      obtain ⟨p, hp, hlabel, -, -⟩ := hs.partition m.tableName p' hp'
      exact h.series.checkRow m hm p hp l (hs.label l hl) (heq.trans hlabel)

theorem dropMetricChunks_of_metric {c : Catalog} {metricName : String}
    {m : MetricRow} {table : DataTable} {p : SeriesPartition}
    (hmetric : c.metric? metricName = some m) (hdata : c.data m.tableName = some table)
    (hseries : c.dataSeries m.tableName = some p) (olderThan : Int) :
    dropMetricChunks metricName olderThan c = match tightOlderThan table olderThan with
      | none => .ok false c
      | some cut => .ok true (dropBefore c m.tableName table p cut (olderThan + hour)) := by
  have hfound : getOrCreateMetricTableName metricName c = .ok (m, false) c := by
    simp [getOrCreateMetricTableName, hmetric]
  rw [dropMetricChunks, bind_of_ok hfound]
  dsimp only
  rw [get_bind]
  simp only [hdata, hseries]
  cases tightOlderThan table olderThan with
  | none => rfl
  | some cut => rfl

theorem dropMetricChunks_of_new {A : String → LabelSet → Prop} {c c' : Catalog}
    {metricName : String} {olderThan : Int} {dropped : Bool}
    (hnone : c.metric? metricName = none)
    (h : dropMetricChunks metricName olderThan c = .ok dropped c') : Edits A c c' := by
  simp only [dropMetricChunks, bind_eq_ok, get_eq_ok] at h
  obtain ⟨⟨m, new⟩, c₁, hmetric, _, _, ⟨rfl, rfl⟩, h⟩ := h
  obtain ⟨hm, -⟩ | ⟨-, hcreate⟩ := getOrCreateMetricTableName_eq_ok hmetric
  · simp [hnone] at hm
  · obtain ⟨hedits, -, -, hempty⟩ := createMetricTable_edits (A := A) hnone hcreate
    cases hseries : c₁.dataSeries m.tableName with
    | none => simp [hempty, hseries] at h
    | some p =>
      simp only [hempty, hseries, tightOlderThan, List.map_nil, List.filter_nil,
        List.max?_nil, pure_eq_ok] at h
      exact h.2 ▸ hedits

end TimescalePrometheus.Sql.Drops
