import TimescalePrometheus.Query.CompleteReads
import TimescalePrometheus.Query.MatcherMeaning
import TimescalePrometheus.Query.ReadPaths
import TimescalePrometheus.Sql.NameLabels

/-!
Where the matchers name one metric, reading its table gives the rows that the general
path would give.
-/

namespace TimescalePrometheus.Query.ReadPathAgreement

open Lib.Runs
open Lib.Transactions (ok_bind)
open Sql.Tables Sql.Series Sql.CatalogEdits Sql.Invariant Sql.Drops Sql.CatalogRuns Sql.NameLabels
open Query.SubQueries Query.MatcherMeaning Query.ReadPaths

variable {r : Regex} {c : Catalog} {cache : MetricNameCache}

/-- A cached table name is the name in the catalog. -/
def CacheAgrees (c : Catalog) (cache : MetricNameCache) : Prop :=
  ∀ metric t, cache metric = some t → ∃ m ∈ c.metric, m.metricName = metric ∧ m.tableName = t

theorem getMetricTableName_fst (hwf : WellFormed c) (hcache : CacheAgrees c cache)
    (metric : String) :
    (getMetricTableName c cache metric).1 = (c.metric? metric).map (·.tableName) := by
  unfold getMetricTableName
  cases hentry : cache metric with
  | some t =>
    obtain ⟨m, hm, rfl, rfl⟩ := hcache metric t hentry
    simp [metric?_of_mem hwf hm]
  | none => cases c.metric? metric <;> rfl

theorem getMetricTableName_agrees (hcache : CacheAgrees c cache) (metric : String) :
    CacheAgrees c (getMetricTableName c cache metric).2 := by
  unfold getMetricTableName
  cases hentry : cache metric with
  | some t => exact hcache
  | none =>
    cases hmetric : c.metric? metric with
    | none => exact hcache
    | some m =>
      obtain ⟨hm, hname⟩ := Catalog.mem_of_metric? hmetric
      intro metric' t ht
      by_cases heq : metric' = metric
      · subst heq
        simp only [Function.update_self, Option.some.injEq] at ht
        exact ⟨m, hm, hname, ht⟩
      · simp only [Function.update_of_ne heq] at ht
        exact hcache metric' t ht

theorem queryMetrics_agrees (filter : MetricTimeRangeFilter)
    (groups : List (String × List Nat)) (hcache : CacheAgrees c cache) :
    CacheAgrees c (queryMetrics c filter groups cache).2 := by
  induction groups generalizing cache with
  | nil => exact hcache
  | cons group groups ih =>
    have hnext := getMetricTableName_agrees hcache group.1
    obtain ⟨metric, series⟩ := group
    unfold queryMetrics
    split
    · rename_i cache' hget
      rw [hget] at hnext
      exact ih hnext
    · rename_i t cache' hget
      rw [hget] at hnext
      split
      · exact hnext
      · exact ih hnext

theorem getResultRows_agrees (startTimestamp endTimestamp : Int) (matchers : List Matcher)
    (hcache : CacheAgrees c cache) :
    CacheAgrees c (getResultRows r c cache startTimestamp endTimestamp matchers).2 := by
  unfold getResultRows
  split
  · exact hcache
  · rename_i metric cases values hbuild
    dsimp only
    split
    · have hnext := getMetricTableName_agrees hcache metric
      unfold querySingleMetric
      split <;> rename_i hget <;> rw [hget] at hnext <;> exact hnext
    · exact queryMetrics_agrees _ _ hcache

/-- The row that a query gives for a series. -/
def rowOf (filter : MetricTimeRangeFilter) (table : DataTable) (s : SeriesRow) : ResultRow where
  labels := s.labels
  times := (samplesOf filter table s.id).map (·.time)
  values := (samplesOf filter table s.id).map (·.value)

theorem exists_timeseries (hwf : WellFormed c) {m : MetricRow} (hm : m ∈ c.metric)
    (filter : MetricTimeRangeFilter) (selects : SeriesRow → Bool) :
    ∃ rows, timeseries c { filter with metric := m.tableName } selects = some rows ∧
      ∀ row, row ∈ rows ↔ ∃ m' ∈ c.metric, m'.metricName = m.metricName ∧ ∃ table p,
        c.data m'.tableName = some table ∧ c.dataSeries m'.tableName = some p ∧
        ∃ s ∈ p.rows, selects s = true ∧ samplesOf filter table s.id ≠ [] ∧
          rowOf filter table s = row := by
  obtain ⟨table, hdata⟩ := Option.isSome_iff_exists.mp (hwf.metrics.data m hm)
  obtain ⟨p, hseries, -⟩ := hwf.metrics.partition m hm
  have hsamples : samplesOf { filter with metric := m.tableName } = samplesOf filter := rfl
  unfold timeseries
  rw [hdata, hseries, hsamples]
  refine ⟨_, rfl, fun row => ?_⟩
  constructor
  · intro hrow
    exact ⟨m, hm, rfl, table, p, hdata, hseries, by simpa [rowOf, and_assoc] using hrow⟩
  · rintro ⟨m', hm', heq, table', p', hdata', hseries', hrow⟩
    obtain rfl := hwf.metrics.nameInj m' hm' m hm heq
    obtain rfl : table = table' := by simpa [hdata] using hdata'
    obtain rfl : p = p' := by simpa [hseries] using hseries'
    simpa [rowOf, and_assoc] using hrow

theorem getMetricTableName_cases (hwf : WellFormed c) (hcache : CacheAgrees c cache)
    (metric : String) :
    (∃ cache', getMetricTableName c cache metric = (none, cache') ∧
      ∀ m ∈ c.metric, m.metricName ≠ metric) ∨
    ∃ m ∈ c.metric, m.metricName = metric ∧
      ∃ cache', getMetricTableName c cache metric = (some m.tableName, cache') := by
  have hname := getMetricTableName_fst hwf hcache metric
  cases hmetric : c.metric? metric with
  | none =>
    rw [hmetric] at hname
    exact .inl ⟨_, Prod.ext hname rfl, Catalog.metric?_eq_none_iff.mp hmetric⟩
  | some m =>
    rw [hmetric] at hname
    obtain ⟨hm, rfl⟩ := Catalog.mem_of_metric? hmetric
    exact .inr ⟨m, hm, rfl, _, Prod.ext hname rfl⟩

/-- The row comes from a series of the metric that meets the clauses. -/
def RowFrom (r : Regex) (c : Catalog) (filter : MetricTimeRangeFilter) (cases : List Clause)
    (values : List String) (m : MetricRow) (row : ResultRow) : Prop :=
  ∃ table p, c.data m.tableName = some table ∧ c.dataSeries m.tableName = some p ∧
    ∃ s ∈ p.rows, whereHolds r c cases values s = true ∧ samplesOf filter table s.id ≠ [] ∧
      rowOf filter table s = row

theorem mem_querySingleMetric (hwf : WellFormed c) (hcache : CacheAgrees c cache)
    (metric : String) (filter : MetricTimeRangeFilter) (cases : List Clause)
    (values : List String) (row : ResultRow) :
    row ∈ (querySingleMetric r c cache metric filter cases values).1 ↔
      ∃ m ∈ c.metric, m.metricName = metric ∧ RowFrom r c filter cases values m row := by
  unfold querySingleMetric
  obtain ⟨cache', hget, hnone⟩ | ⟨m, hm, rfl, cache', hget⟩ :=
    getMetricTableName_cases hwf hcache metric
  · simp only [hget, List.not_mem_nil, false_iff, not_exists, not_and]
    exact fun m hm heq => absurd heq (hnone m hm)
  · obtain ⟨rows, hrows, hmem⟩ := exists_timeseries hwf hm filter (whereHolds r c cases values)
    simp only [hget, buildTimeseriesByLabelClausesQuery, hrows, Option.getD_some]
    exact hmem row

theorem mem_seriesTable (hattached : ∀ m ∈ c.metric, m.creationCompleted = true)
    {s : SeriesRow} :
    s ∈ seriesTable c ↔ ∃ m ∈ c.metric, ∃ p, c.dataSeries m.tableName = some p ∧ s ∈ p.rows := by
  simp only [seriesTable, List.mem_flatMap, List.mem_filter]
  constructor
  · rintro ⟨m, ⟨hm, -⟩, hs⟩
    cases hp : c.dataSeries m.tableName with
    | none => simp [hp] at hs
    | some p => exact ⟨m, hm, p, hp, by simpa [hp] using hs⟩
  · rintro ⟨m, hm, p, hp, hs⟩
    exact ⟨m, ⟨hm, hattached m hm⟩, by simpa [hp] using hs⟩

theorem mem_metricNameSeriesID (hwf : WellFormed c)
    (hattached : ∀ m ∈ c.metric, m.creationCompleted = true) {cases : List Clause}
    {values : List String} {metric : String} {id : Nat} :
    (metric, id) ∈ metricNameSeriesID r c cases values ↔
      ∃ m ∈ c.metric, m.metricName = metric ∧ ∃ p, c.dataSeries m.tableName = some p ∧
        ∃ s ∈ p.rows, whereHolds r c cases values s = true ∧ s.id = id := by
  have hmetricId : ∀ m ∈ c.metric, ∀ p, c.dataSeries m.tableName = some p →
      ∀ s ∈ p.rows, s.metricId = m.id := by
    intro m hm p hp s hs
    have hcheck := hwf.series.check _ p hp s hs
    obtain ⟨p', hp', hmetric⟩ := hwf.metrics.partition m hm
    obtain rfl : p = p' := by simpa [hp] using hp'
    simp only [SeriesPartition.check, decide_eq_true_eq] at hcheck
    exact hcheck.2.trans hmetric
  simp only [metricNameSeriesID, List.mem_flatMap, List.mem_filter, List.mem_map,
    mem_seriesTable hattached, decide_eq_true_eq, Prod.mk.injEq]
  constructor
  · rintro ⟨s, ⟨⟨m, hm, p, hp, hs⟩, hwhere⟩, m', ⟨hm', hid⟩, rfl, rfl⟩
    obtain rfl := hwf.metrics.idInj m' hm' m hm (hid.trans (hmetricId m hm p hp s hs))
    exact ⟨m', hm, rfl, p, hp, s, hs, hwhere, rfl⟩
  · rintro ⟨m, hm, rfl, p, hp, s, hs, hwhere, rfl⟩
    exact ⟨s, ⟨⟨m, hm, p, hp, hs⟩, hwhere⟩, m, ⟨hm, (hmetricId m hm p hp s hs).symm⟩, rfl, rfl⟩

theorem mem_seriesPerMetric {cases : List Clause} {values : List String}
    {group : String × List Nat} :
    group ∈ seriesPerMetric r c cases values ↔
      (∃ id, (group.1, id) ∈ metricNameSeriesID r c cases values) ∧
        group.2 = ((metricNameSeriesID r c cases values).filter fun row =>
          row.1 = group.1).map (·.2) := by
  simp only [seriesPerMetric, List.mem_map, List.mem_insertionSort, List.mem_dedup]
  constructor
  · rintro ⟨metric, ⟨⟨name, id⟩, hrow, rfl⟩, rfl⟩
    exact ⟨⟨id, hrow⟩, rfl⟩
  · rintro ⟨⟨id, hrow⟩, hids⟩
    exact ⟨group.1, ⟨_, hrow, rfl⟩, Prod.ext rfl hids.symm⟩

theorem exists_queryMetrics (hwf : WellFormed c) (hcache : CacheAgrees c cache)
    (filter : MetricTimeRangeFilter) (groups : List (String × List Nat)) :
    ∃ results, (queryMetrics c filter groups cache).1 = some results ∧ ∀ row, row ∈ results ↔
      ∃ group ∈ groups, ∃ m ∈ c.metric, m.metricName = group.1 ∧ ∃ table p,
        c.data m.tableName = some table ∧ c.dataSeries m.tableName = some p ∧
        ∃ s ∈ p.rows, s.id ∈ group.2 ∧ samplesOf filter table s.id ≠ [] ∧
          rowOf filter table s = row := by
  induction groups generalizing cache with
  | nil => exact ⟨[], rfl, by simp⟩
  | cons group groups ih =>
    obtain ⟨metric, series⟩ := group
    have hnext := getMetricTableName_agrees hcache metric
    unfold queryMetrics
    obtain ⟨cache', hget, hnone⟩ | ⟨m, hm, rfl, cache', hget⟩ :=
      getMetricTableName_cases hwf hcache metric
    · rw [hget] at hnext
      obtain ⟨results, hresults, hmem⟩ := ih hnext
      refine ⟨results, by simp only [hget, hresults], fun row => ?_⟩
      rw [hmem, List.exists_mem_cons_iff]
      exact (or_iff_right fun ⟨m, hm, heq, _⟩ => hnone m hm heq).symm
    · rw [hget] at hnext
      obtain ⟨rows, hrows, hfirst⟩ := exists_timeseries hwf hm filter fun s => s.id ∈ series
      obtain ⟨results, hresults, hmem⟩ := ih hnext
      refine ⟨rows ++ results, ?_, fun row => ?_⟩
      · simp [hget, buildTimeseriesBySeriesIDQuery, hrows, hresults]
      · rw [List.mem_append, hfirst, hmem, List.exists_mem_cons_iff]
        simp only [decide_eq_true_eq]

theorem exists_queryMultipleMetrics (hwf : WellFormed c)
    (hattached : ∀ m ∈ c.metric, m.creationCompleted = true) (hcache : CacheAgrees c cache)
    (filter : MetricTimeRangeFilter) (cases : List Clause) (values : List String) :
    ∃ results, (queryMultipleMetrics r c cache filter cases values).1 = some results ∧
      ∀ row, row ∈ results ↔ ∃ m ∈ c.metric, RowFrom r c filter cases values m row := by
  obtain ⟨results, hresults, hmem⟩ := exists_queryMetrics hwf hcache filter
    (seriesPerMetric r c cases values)
  refine ⟨results, hresults, fun row => (hmem row).trans ?_⟩
  constructor
  · rintro ⟨group, hgroup, m, hm, hname, table, p, hdata, hseries, s, hs, hid, hsamples, hrow⟩
    obtain ⟨-, hids⟩ := mem_seriesPerMetric.mp hgroup
    rw [hids] at hid
    obtain ⟨⟨name, id⟩, hjoined, rfl⟩ := List.mem_map.mp hid
    simp only [List.mem_filter, decide_eq_true_eq] at hjoined
    obtain ⟨hjoined, rfl⟩ := hjoined
    obtain ⟨m', hm', -, p', hp', s', hs', hwhere, heq⟩ :=
      (mem_metricNameSeriesID hwf hattached).mp hjoined
    obtain ⟨-, rfl⟩ := hwf.series.idInj _ p' hp' _ p hseries s' hs' s hs heq
    exact ⟨m, hm, table, p, hdata, hseries, s', hs, hwhere, hsamples, hrow⟩
  · rintro ⟨m, hm, table, p, hdata, hseries, s, hs, hwhere, hsamples, hrow⟩
    have hjoined : (m.metricName, s.id) ∈ metricNameSeriesID r c cases values :=
      (mem_metricNameSeriesID hwf hattached).mpr ⟨m, hm, rfl, p, hseries, s, hs, hwhere, rfl⟩
    let ids := ((metricNameSeriesID r c cases values).filter fun row =>
      row.1 = m.metricName).map (·.2)
    have hids : s.id ∈ ids :=
      List.mem_map.mpr ⟨_, List.mem_filter.mpr ⟨hjoined, by simp⟩, rfl⟩
    exact ⟨(m.metricName, ids), mem_seriesPerMetric.mpr ⟨⟨s.id, hjoined⟩, rfl⟩, m, hm, rfl, table,
      p, hdata, hseries, s, hs, hids, hsamples, hrow⟩

theorem metricName_of_whereHolds (hnames : NamesOwn c) {matchers : List Matcher}
    {cases : List Clause} {values : List String}
    (heval : ∀ label labels, evalClauses r label values labels cases =
      some (matchers.all (clauseHolds r label labels)))
    {m₀ : Matcher} (hm₀ : m₀ ∈ matchers) (hname : namesMetric m₀ = true) (hvalue : m₀.value ≠ "")
    {m : MetricRow} (hm : m ∈ c.metric) {p : SeriesPartition}
    (hp : c.dataSeries m.tableName = some p) {s : SeriesRow} (hs : s ∈ p.rows)
    (hwhere : whereHolds r c cases values s = true) : m.metricName = m₀.value := by
  simp only [whereHolds, heval, decide_eq_true_eq, Option.some.injEq, List.all_eq_true] at hwhere
  simp only [namesMetric, decide_eq_true_eq] at hname
  have hclause := hwhere m₀ hm₀
  have hempty : m₀.matches r "" = false := by
    simpa [Matcher.matches, hname.1] using hvalue.symm
  simp only [clauseHolds, subQueryFor, hname.1, hempty, Bool.false_eq_true, if_false, subQueryEQ,
    Bool.bne_false, overlap_eq_true, mem_selected, ValueOp.holds, decide_eq_true_eq] at hclause
  obtain ⟨id, hid, row, hrow, hkey, hrowValue, rfl⟩ := hclause
  rw [← hrowValue]
  exact (hnames m hm p hp s hs row hrow hid (hkey.trans hname.2)).symm

theorem singleMetric_eq {matchers : List Matcher} {m₀ : Matcher}
    (hone : matchers.filter namesMetric = [m₀]) : singleMetric matchers = m₀.value := by
  rw [singleMetric, hone]

/-- What holds of a reader and its database as long as series are stored for label sets
that name their metric. -/
structure ReaderInvariant (reader : Reader) : Prop where
  wellFormed : WellFormed reader.catalog
  namesOwn : NamesOwn reader.catalog
  cacheAgrees : CacheAgrees reader.catalog reader.metricTableNames

/-- The action stores series only for label sets that name their metric. -/
def StoresNamed : ReaderAction → Prop
  | .write a => a.Stores NamedSet
  | _ => True

theorem step_metric_mem (hwf : WellFormed c) (a : Action) {m : MetricRow}
    (hm : m ∈ c.metric) :
    ∃ m' ∈ (step c a).metric, m'.metricName = m.metricName ∧ m'.tableName = m.tableName := by
  have hedits : ∀ c', Edits (fun _ _ => True) c c' →
      ∃ m' ∈ c'.metric, m'.metricName = m.metricName ∧ m'.tableName = m.tableName := by
    intro c' h
    obtain ⟨m', hm', hname, htable, -⟩ := Edits.metric_mem h hm
    exact ⟨m', hm', hname, htable⟩
  by_cases hdrop : a.isDrop = false
  · exact hedits _ (step_edits a (by cases a <;> simp [Action.Stores]) hdrop)
  · cases a with
    | dropMetricChunks metricName olderThan =>
      obtain ⟨h, -⟩ | ⟨m', table, p, cut, -, -, hseries, hcut, heq⟩ :=
        step_drop (A := fun _ _ => True) hwf metricName olderThan
      · exact hedits _ h
      · rw [heq, (dropBefore_shrunk hseries hcut).metric]
        exact ⟨m, hm, rfl, rfl⟩
    | _ => simp [Action.isDrop] at hdrop

theorem ReaderInvariant.step {reader : Reader} (h : ReaderInvariant reader) {a : ReaderAction}
    (ha : StoresNamed a) : ReaderInvariant (reader.step r a) := by
  cases a with
  | write a =>
    refine ⟨wellFormed_step h.wellFormed a, namesOwn_step h.namesOwn h.wellFormed ha, ?_⟩
    intro metric t ht
    obtain ⟨m, hm, hname, htable⟩ := h.cacheAgrees metric t ht
    obtain ⟨m', hm', hname', htable'⟩ := step_metric_mem h.wellFormed a hm
    exact ⟨m', hm', hname'.trans hname, htable'.trans htable⟩
  | read startTimestamp endTimestamp matchers =>
    exact ⟨h.wellFormed, h.namesOwn,
      getResultRows_agrees startTimestamp endTimestamp matchers h.cacheAgrees⟩
  | evict metric =>
    refine ⟨h.wellFormed, h.namesOwn, ?_⟩
    intro metric' t ht
    by_cases heq : metric' = metric
    · subst heq
      simp [Reader.step] at ht
    · simp only [Reader.step, Function.update_of_ne heq] at ht
      exact h.cacheAgrees metric' t ht

theorem readerInvariant_run {actions : List ReaderAction}
    (hstores : ∀ a ∈ actions, StoresNamed a) {reader : Reader} (h : ReaderInvariant reader) :
    ReaderInvariant (run (Reader.step r) reader actions) := by
  induction actions generalizing reader with
  | nil => exact h
  | cons a actions ih =>
    exact ih (fun b hb => hstores b (List.mem_cons_of_mem _ hb))
      (h.step (hstores a List.mem_cons_self))

theorem readerInvariant_initial : ReaderInvariant Reader.initial :=
  ⟨wellFormed_empty, namesOwn_empty, by simp [CacheAgrees, Reader.initial]⟩

/-- The filter of a query for the given metric and time range. -/
def timeRange (metric : String) (startTimestamp endTimestamp : Int) : MetricTimeRangeFilter :=
  { metric, startTime := toRFC3339Nano startTimestamp, endTime := toRFC3339Nano endTimestamp }

theorem getResultRows_single {matchers : List Matcher} {metric : String} {cases : List Clause}
    {values : List String} (hbuild : buildSubQueries r matchers = .ok (metric, cases, values))
    (hmetric : metric ≠ "") (startTimestamp endTimestamp : Int) :
    (getResultRows r c cache startTimestamp endTimestamp matchers).1 =
      some (querySingleMetric r c cache metric (timeRange metric startTimestamp endTimestamp)
        cases values).1 := by
  simp only [getResultRows, hbuild, hmetric, ne_eq, not_false_eq_true, if_true, timeRange]

section Lookups

variable (c : Catalog) (filter : MetricTimeRangeFilter) (failure : String)

/-- A query that fails does so with the given error. -/
def answered {α : Type} (x : Option α) : Except String α :=
  x.elim (.error failure) .ok

/-- What the loop over the metrics meets for one of them over this catalog, if no cursor breaks. -/
def lookup (cache : MetricNameCache) (group : String × List Nat) :
    CompleteReads.Lookup (List ResultRow) where
  cached := (cache group.1).elim .notFound .hit
  table := .ok { rest := (c.metric? group.1).toList.map fun m => .ok m.tableName }
  stored := none
  data := answered failure ((getMetricTableName c cache group.1).1.bind fun tableName =>
    buildTimeseriesBySeriesIDQuery c { filter with metric := tableName } group.2)

/-- A metric and the ids of its series as the cursor delivers them. -/
def seriesRow (group : String × List Nat) : String × List Int :=
  (group.1, group.2.map Int.ofNat)

variable {c filter failure}

theorem answered_map {α β : Type} (f : α → β) (x : Option α) :
    answered failure (x.map f) = (answered failure x).map f := by
  cases x <;> rfl

theorem getMetricTableName_lookup (group : String × List Nat) :
    CompleteReads.getMetricTableName (lookup c filter failure cache group) =
      (getMetricTableName c cache group.1).1.elim (.error .errMissingTableName) .ok := by
  unfold CompleteReads.getMetricTableName lookup getMetricTableName
  cases cache group.1 with
  | some tableName => rfl
  | none => cases c.metric? group.1 <;> rfl

theorem getMetricTableName_of_ne {metric metric' : String} (h : metric' ≠ metric) :
    (getMetricTableName c cache metric).2 metric' = cache metric' := by
  unfold getMetricTableName
  split
  · rfl
  · split
    · exact Function.update_of_ne h _ _
    · rfl

theorem getMetricTableName_fst_congr {cache' : MetricNameCache} {metric : String}
    (h : cache' metric = cache metric) :
    (getMetricTableName c cache' metric).1 = (getMetricTableName c cache metric).1 := by
  unfold getMetricTableName
  rw [h]
  split
  · rfl
  · split <;> rfl

theorem metricRows_lookup {lookups : Nat → CompleteReads.Lookup (List ResultRow)}
    {groups : List (String × List Nat)} (hnodup : (groups.map Prod.fst).Nodup)
    {cache' : MetricNameCache} (hsame : ∀ g ∈ groups, cache' g.1 = cache g.1) {n : Nat}
    (hlookups : ∀ i g, groups[i]? = some g → lookups (n + i) = lookup c filter failure cache g) :
    (CompleteReads.metricRows lookups ((groups.map seriesRow).zipIdx n)).map List.flatten =
      answered failure (queryMetrics c filter groups cache').1 := by
  induction groups generalizing cache' n with
  | nil => rfl
  | cons group groups ih =>
    obtain ⟨metric, series⟩ := group
    obtain ⟨hfresh, hnodup⟩ := List.nodup_cons.mp hnodup
    have hlookup : lookups n = lookup c filter failure cache (metric, series) :=
      hlookups 0 _ rfl
    have hname := getMetricTableName_fst_congr (c := c) (hsame _ List.mem_cons_self)
    have hkept : ∀ g ∈ groups, (getMetricTableName c cache' metric).2 g.1 = cache g.1 := by
      intro g hg
      have hne : g.1 ≠ metric := fun heq => hfresh (List.mem_map.mpr ⟨g, hg, heq⟩)
      rw [getMetricTableName_of_ne hne, hsame g (List.mem_cons_of_mem _ hg)]
    have hrest := ih hnodup hkept (n := n + 1) fun i g hi => by
      rw [Nat.add_right_comm]
      exact hlookups (i + 1) g hi
    rw [List.map_cons, List.zipIdx_cons, CompleteReads.metricRows, hlookup,
      getMetricTableName_lookup, ← hname, queryMetrics]
    cases hfound : getMetricTableName c cache' metric with
    | mk found next =>
    rw [hfound] at hrest hname
    cases found with
    | none => exact hrest
    | some tableName =>
      have hdata : (lookup c filter failure cache (metric, series)).data = answered failure
          (buildTimeseriesBySeriesIDQuery c { filter with metric := tableName } series) := by
        simp only [lookup, ← hname, Option.bind_some]
      simp only [Option.elim, hdata]
      cases buildTimeseriesBySeriesIDQuery c { filter with metric := tableName } series with
      | none => rfl
      | some rows =>
        simp only [answered_map, ← hrest]
        cases CompleteReads.metricRows lookups ((groups.map seriesRow).zipIdx (n + 1)) <;> rfl

theorem nodup_seriesPerMetric (r : Regex) (c : Catalog) (cases : List Clause)
    (values : List String) : ((seriesPerMetric r c cases values).map Prod.fst).Nodup := by
  have hfst : ((seriesPerMetric r c cases values).map Prod.fst).Perm
      ((metricNameSeriesID r c cases values).map (·.1)).dedup := by
    simp only [seriesPerMetric, List.map_map, Function.comp_def, List.map_id']
    exact List.perm_insertionSort _ _
  exact hfst.nodup_iff.mpr (List.nodup_dedup _)

/-- Over a catalog, and with nothing that breaks, the loop that reads cursors gives the rows of the
general path. -/
theorem queryMultipleMetrics_refines (r : Regex) (cases : List Clause) (values : List String) :
    (CompleteReads.getResultRows
      (.ok { rest := (seriesPerMetric r c cases values).map fun g => .ok (seriesRow g) })
      fun i => lookup c filter failure cache
        ((seriesPerMetric r c cases values).getD i ("", []))).map List.flatten =
      answered failure (queryMultipleMetrics r c cache filter cases values).1 := by
  have hscan : CompleteReads.scanAll ((seriesPerMetric r c cases values).map fun g =>
      .ok (seriesRow g)) = .ok ((seriesPerMetric r c cases values).map seriesRow) := by
    rw [CompleteReads.scanAll_eq_ok, List.map_map]
    rfl
  simp only [CompleteReads.getResultRows, CompleteReads.getSeriesPerMetric, ok_bind, hscan]
  refine metricRows_lookup (nodup_seriesPerMetric r c cases values) (fun _ _ => rfl) ?_
  intro i g hi
  simp [List.getD_eq_getElem?_getD, hi]

end Lookups

end TimescalePrometheus.Query.ReadPathAgreement
