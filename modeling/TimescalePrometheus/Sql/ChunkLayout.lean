import Mathlib.Data.List.Pairwise
import TimescalePrometheus.Sql.Drops

/-!
The chunks of a hypertable cut time into disjoint pieces that hold its rows, and
`drop_metric_chunks` deletes whole pieces: its effect in terms of the chunks that go.
-/

namespace TimescalePrometheus.Sql.ChunkLayout

open Sql.Tables Sql.Metrics Sql.Retention Sql.Drops

theorem contains_iff {chunk : Chunk} {time : Int} :
    Chunk.contains chunk time = true ↔ chunk.rangeStart ≤ time ∧ time < chunk.rangeEnd := by
  simp [Chunk.contains]

theorem disjoint_iff {first second : Chunk} :
    Chunk.disjoint first second = true ↔
      first.rangeEnd ≤ second.rangeStart ∨ second.rangeEnd ≤ first.rangeStart := by
  simp [Chunk.disjoint]

/-- The chunks do not overlap, and every row lies in one of them. -/
structure Laid (table : DataTable) : Prop where
  proper : ∀ chunk ∈ table.chunks, chunk.rangeStart ≤ chunk.rangeEnd
  disjoint : table.chunks.Pairwise fun first second => Chunk.disjoint first second
  inside : ∀ r ∈ table.rows, ∃ chunk ∈ table.chunks, Chunk.contains chunk r.time

theorem laid_empty : Laid ⟨[], []⟩ :=
  ⟨List.forall_mem_nil _, List.Pairwise.nil, List.forall_mem_nil _⟩

theorem Laid.insertDataRow {table : DataTable} (h : Laid table) (newChunk : Int → Chunk)
    (row : DataRow) : Laid (insertDataRow newChunk table row) := by
  unfold Retention.insertDataRow
  split_ifs with hsame hchunk hnew
  · exact h
  · refine ⟨h.proper, h.disjoint, List.forall_mem_append.2 ⟨h.inside, ?_⟩⟩
    simpa using hchunk
  · obtain ⟨hcontains, hdisjoint⟩ := hnew
    have hbounds := contains_iff.mp hcontains
    refine ⟨?_, ?_, ?_⟩
    · refine List.forall_mem_append.2 ⟨h.proper, ?_⟩
      simp only [List.mem_singleton, forall_eq]
      omega
    · refine List.pairwise_append.2 ⟨h.disjoint, List.pairwise_singleton _ _, ?_⟩
      simpa using hdisjoint
    · refine List.forall_mem_append.2 ⟨?_, ?_⟩
      · intro r hr
        obtain ⟨chunk, hchunk, hin⟩ := h.inside r hr
        exact ⟨chunk, List.mem_append_left _ hchunk, hin⟩
      · simpa using .inr hcontains
  · exact h

theorem Laid.insertDataRows {table : DataTable} (h : Laid table) (newChunk : Int → Chunk)
    (rows : List DataRow) : Laid (rows.foldl (Retention.insertDataRow newChunk) table) := by
  induction rows generalizing table with
  | nil => exact h
  | cons row rows ih => exact ih (h.insertDataRow newChunk row)

theorem Laid.disjoint_of_ne {table : DataTable} (h : Laid table) {first second : Chunk}
    (hfirst : first ∈ table.chunks) (hsecond : second ∈ table.chunks) (hne : first ≠ second) :
    first.rangeEnd ≤ second.rangeStart ∨ second.rangeEnd ≤ first.rangeStart := by
  have hsymm : Std.Symm fun a b : Chunk => Chunk.disjoint a b = true := by
    refine ⟨fun a b hab => ?_⟩
    rw [disjoint_iff] at hab ⊢
    exact hab.symm
  exact disjoint_iff.mp (h.disjoint.forall hfirst hsecond hne)

theorem Laid.dropChunks {table : DataTable} (h : Laid table) (olderThan : Int) :
    Laid (dropChunks table olderThan) := by
  refine ⟨?_, h.disjoint.sublist List.filter_sublist, ?_⟩
  · exact fun chunk hchunk => h.proper chunk (List.mem_of_mem_filter hchunk)
  · intro r hr
    simp only [Retention.dropChunks, List.mem_filter, decide_eq_true_eq, List.any_eq_true,
      not_exists, not_and] at hr ⊢
    obtain ⟨hr, hkept⟩ := hr
    obtain ⟨chunk, hchunk, hin⟩ := h.inside r hr
    exact ⟨chunk, ⟨hchunk, fun hold => hkept chunk ⟨hchunk, hold⟩ hin⟩, hin⟩

/-- The row lies in a chunk that ends at or before the time given. -/
def Removed (table : DataTable) (olderThan : Int) (r : DataRow) : Prop :=
  ∃ chunk ∈ table.chunks, chunk.rangeEnd ≤ olderThan ∧ Chunk.contains chunk r.time

section Cut

variable {table : DataTable} {olderThan cut : Int}

theorem exists_isCut_iff :
    (∃ cut, IsCut table olderThan cut) ↔ ∃ chunk ∈ table.chunks, chunk.rangeEnd ≤ olderThan := by
  constructor
  · rintro ⟨cut, ⟨chunk, hchunk, rfl⟩, hle, -⟩
    exact ⟨chunk, hchunk, hle⟩
  · rintro ⟨chunk, hchunk, hle⟩
    cases htight : tightOlderThan table olderThan with
    | some cut => exact ⟨cut, tightOlderThan_eq_some_iff.mp htight⟩
    | none =>
      simp only [tightOlderThan, List.max?_eq_none_iff, List.filter_eq_nil_iff, List.mem_map,
        decide_eq_true_eq] at htight
      exact absurd hle (htight _ ⟨chunk, hchunk, rfl⟩)

theorem rangeEnd_le_cut_iff (hcut : IsCut table olderThan cut) {chunk : Chunk}
    (hchunk : chunk ∈ table.chunks) : chunk.rangeEnd ≤ cut ↔ chunk.rangeEnd ≤ olderThan :=
  ⟨fun hle => hle.trans hcut.2.1, hcut.2.2 chunk hchunk⟩

theorem Laid.removed_iff (h : Laid table) (hcut : IsCut table olderThan cut) {r : DataRow}
    (hr : r ∈ table.rows) : Removed table olderThan r ↔ r.time < cut := by
  constructor
  · rintro ⟨chunk, hchunk, hle, hin⟩
    have hend := (rangeEnd_le_cut_iff hcut hchunk).mpr hle
    have hbounds := contains_iff.mp hin
    omega
  · intro hbefore
    obtain ⟨chunk, hchunk, hin⟩ := h.inside r hr
    refine ⟨chunk, hchunk, ?_, hin⟩
    rw [← rangeEnd_le_cut_iff hcut hchunk]
    obtain ⟨last, hlast, rfl⟩ := hcut.1
    by_cases hsame : chunk = last
    · rw [hsame]
    · have hdisjoint := h.disjoint_of_ne hchunk hlast hsame
      have hproper := h.proper last hlast
      rw [contains_iff] at hin
      omega

theorem Laid.dead_iff (h : Laid table) {id : Nat} :
    Dead table olderThan id ↔
      (∃ r ∈ table.rows, r.seriesId = id ∧ Removed table olderThan r) ∧
        ∀ r ∈ table.rows, r.seriesId = id → Removed table olderThan r := by
  constructor
  · rintro ⟨cut, hcut, ⟨r, hr, hid⟩, hall⟩
    have hremoved : ∀ r ∈ table.rows, r.seriesId = id → Removed table olderThan r :=
      fun r hr hid => (h.removed_iff hcut hr).mpr (hall r hr hid)
    exact ⟨⟨r, hr, hid, hremoved r hr hid⟩, hremoved⟩
  · rintro ⟨⟨r, hr, hid, chunk, hchunk, hle, -⟩, hall⟩
    obtain ⟨cut, hcut⟩ := exists_isCut_iff.mpr ⟨chunk, hchunk, hle⟩
    refine ⟨cut, hcut, ⟨r, hr, hid⟩, ?_⟩
    exact fun r' hr' hid' => (h.removed_iff hcut hr').mp (hall r' hr' hid')

theorem mem_rows_dropChunks (hcut : IsCut table olderThan cut) {r : DataRow} :
    r ∈ (dropChunks table cut).rows ↔ r ∈ table.rows ∧ ¬ Removed table olderThan r := by
  simp only [dropChunks, List.mem_filter, decide_eq_true_eq, List.any_eq_true, Removed,
    and_assoc]
  refine and_congr_right fun _ => not_congr (exists_congr fun chunk => ?_)
  refine and_congr_right fun hchunk => and_congr_left fun _ => ?_
  exact rangeEnd_le_cut_iff hcut hchunk

theorem chunks_dropChunks (hcut : IsCut table olderThan cut) :
    (dropChunks table cut).chunks =
      table.chunks.filter fun chunk => ¬ chunk.rangeEnd ≤ olderThan := by
  refine List.filter_congr fun chunk hchunk => ?_
  exact decide_eq_decide.2 (not_congr (rangeEnd_le_cut_iff hcut hchunk))

/-- What is left of a metric's tables when the chunks that end at or before `olderThan`
are dropped: a series row goes exactly if rows of the series went and none is left. -/
structure DropsDead (table : DataTable) (p : SeriesPartition) (olderThan : Int)
    (table' : DataTable) (p' : SeriesPartition) : Prop where
  laid : Laid table'
  chunks : table'.chunks = table.chunks.filter fun chunk => ¬ chunk.rangeEnd ≤ olderThan
  rows : table'.rows.Sublist table.rows
  removed : ∀ r ∈ table.rows, r ∉ table'.rows ↔ Removed table olderThan r
  series : p'.rows.Sublist p.rows
  deleted : ∀ s ∈ p.rows, s ∉ p'.rows ↔
    (∃ r ∈ table.rows, r ∉ table'.rows ∧ r.seriesId = s.id) ∧
      ∀ r ∈ table'.rows, r.seriesId ≠ s.id
  noOrphan : ∀ r ∈ table'.rows, ∀ s ∈ p.rows, s ∉ p'.rows → r.seriesId ≠ s.id

theorem dropsDead_self {p : SeriesPartition} (h : Laid table)
    (hnone : ¬ ∃ chunk ∈ table.chunks, chunk.rangeEnd ≤ olderThan) :
    DropsDead table p olderThan table p where
  laid := h
  chunks := by
    refine (List.filter_eq_self.2 fun chunk hchunk => ?_).symm
    exact decide_eq_true fun hle => hnone ⟨chunk, hchunk, hle⟩
  rows := .refl _
  removed := by
    intro r hr
    refine iff_of_false (fun hnot => hnot hr) ?_
    rintro ⟨chunk, hchunk, hle, -⟩
    exact hnone ⟨chunk, hchunk, hle⟩
  series := .refl _
  deleted := by
    intro s hs
    refine iff_of_false (fun hnot => hnot hs) ?_
    rintro ⟨⟨r, hr, hnot, -⟩, -⟩
    exact hnot hr
  noOrphan := fun r _ s hs hnot => absurd hs hnot

theorem dropsDead_dropChunks {p : SeriesPartition} (h : Laid table)
    (hcut : IsCut table olderThan cut) :
    DropsDead table p olderThan (dropChunks table cut)
      { p with rows := p.rows.filter fun s =>
          s.id ∉ confirmedDropSeries table cut (olderThan + hour) } := by
  have hrows : ∀ r ∈ table.rows, r ∉ (dropChunks table cut).rows ↔ Removed table olderThan r := by
    intro r hr
    simp [mem_rows_dropChunks hcut, hr]
  have hdeleted : ∀ s ∈ p.rows, s ∉ (p.rows.filter fun s =>
      s.id ∉ confirmedDropSeries table cut (olderThan + hour)) ↔
        (∃ r ∈ table.rows, r ∉ (dropChunks table cut).rows ∧ r.seriesId = s.id) ∧
          ∀ r ∈ (dropChunks table cut).rows, r.seriesId ≠ s.id := by
    intro s hs
    have hdead : s ∉ (p.rows.filter fun s =>
        s.id ∉ confirmedDropSeries table cut (olderThan + hour)) ↔ Dead table olderThan s.id := by
      simp [hs, mem_confirmedDropSeries_iff_dead hcut]
    rw [hdead, h.dead_iff]
    constructor
    · rintro ⟨⟨r, hr, hid, hremoved⟩, hall⟩
      refine ⟨⟨r, hr, (hrows r hr).mpr hremoved, hid⟩, ?_⟩
      intro r' hr' hid'
      obtain ⟨hr', hkept⟩ := (mem_rows_dropChunks hcut).mp hr'
      exact hkept (hall r' hr' hid')
    · rintro ⟨⟨r, hr, hnot, hid⟩, hleft⟩
      refine ⟨⟨r, hr, hid, (hrows r hr).mp hnot⟩, ?_⟩
      intro r' hr' hid'
      by_contra hkept
      exact hleft r' ((mem_rows_dropChunks hcut).mpr ⟨hr', hkept⟩) hid'
  exact
    { laid := h.dropChunks cut
      chunks := chunks_dropChunks hcut
      rows := List.filter_sublist
      removed := hrows
      series := List.filter_sublist
      deleted := hdeleted
      noOrphan := fun r hr s hs hnot => ((hdeleted s hs).mp hnot).2 r hr }

end Cut

/-- The tables of the metric lose exactly the chunks that end at or before `olderThan`
and the series that die with them; with no such chunk nothing changes. -/
theorem dropMetricChunks_exact {c : Catalog} {metricName : String} {m : MetricRow}
    {table : DataTable} {p : SeriesPartition} (hmetric : c.metric? metricName = some m)
    (hdata : c.data m.tableName = some table) (hseries : c.dataSeries m.tableName = some p)
    (hlaid : Laid table) (olderThan : Int) :
    ∃ dropped c' table' p', dropMetricChunks metricName olderThan c = .ok dropped c' ∧
      (dropped = true ↔ ∃ chunk ∈ table.chunks, chunk.rangeEnd ≤ olderThan) ∧
      (dropped = false → c' = c) ∧
      c'.data m.tableName = some table' ∧ c'.dataSeries m.tableName = some p' ∧
      (∀ t, t ≠ m.tableName → c'.data t = c.data t ∧ c'.dataSeries t = c.dataSeries t) ∧
      DropsDead table p olderThan table' p' := by
  have hdrop := dropMetricChunks_of_metric hmetric hdata hseries olderThan
  cases htight : tightOlderThan table olderThan with
  | none =>
    rw [htight] at hdrop
    have hnone : ¬ ∃ chunk ∈ table.chunks, chunk.rangeEnd ≤ olderThan := by
      rw [← exists_isCut_iff]
      rintro ⟨cut, hcut⟩
      rw [← tightOlderThan_eq_some_iff, htight] at hcut
      cases hcut
    refine ⟨false, c, table, p, hdrop, iff_of_false (by decide) hnone, fun _ => rfl, hdata,
      hseries, fun _ _ => ⟨rfl, rfl⟩, dropsDead_self hlaid hnone⟩
  | some cut =>
    rw [htight] at hdrop
    have hcut := tightOlderThan_eq_some_iff.mp htight
    refine ⟨true, _, _, _, hdrop, iff_of_true rfl (exists_isCut_iff.mp ⟨cut, hcut⟩),
      fun hfalse => absurd hfalse (by decide), Function.update_self ..,
      Function.update_self .., ?_, dropsDead_dropChunks hlaid hcut⟩
    exact fun t ht => ⟨Function.update_of_ne ht .., Function.update_of_ne ht ..⟩

/-- A series with data in the dropped chunk only, one with data on its boundary, and one
that comes back hours later. -/
def threeSeriesTable : DataTable :=
  [⟨hour - 1, 0, 1⟩, ⟨hour, 0, 2⟩, ⟨hour - 1, 0, 3⟩, ⟨6 * hour, 0, 3⟩].foldl
    (insertDataRow fun time => ⟨time / hour * hour, time / hour * hour + hour⟩) ⟨[], []⟩

def threeSeriesCatalog : Catalog :=
  { Catalog.empty with
    metric := [⟨1, "cpu", "cpu", true⟩]
    data := Function.update Catalog.empty.data "cpu" (some threeSeriesTable)
    dataSeries := Function.update Catalog.empty.dataSeries "cpu"
      (some ⟨1, 1, [⟨1, 1, [1, 2]⟩, ⟨2, 1, [1, 3]⟩, ⟨3, 1, [1, 4]⟩]⟩) }

theorem dropMetricChunks_threeSeries :
    ∃ dropped c' table' p',
      dropMetricChunks "cpu" (hour + 5) threeSeriesCatalog = .ok dropped c' ∧
        c'.dataSeries "cpu" = some p' ∧
        DropsDead threeSeriesTable ⟨1, 1, [⟨1, 1, [1, 2]⟩, ⟨2, 1, [1, 3]⟩, ⟨3, 1, [1, 4]⟩]⟩
          (hour + 5) table' p' := by
  have hmetric : threeSeriesCatalog.metric? "cpu" = some ⟨1, "cpu", "cpu", true⟩ := by decide
  have hlaid : Laid threeSeriesTable := laid_empty.insertDataRows _ _
  obtain ⟨dropped, c', table', p', hdrop, -, -, -, hp', -, hdead⟩ :=
    dropMetricChunks_exact hmetric rfl rfl hlaid (hour + 5)
  exact ⟨dropped, c', table', p', hdrop, hp', hdead⟩

end TimescalePrometheus.Sql.ChunkLayout
