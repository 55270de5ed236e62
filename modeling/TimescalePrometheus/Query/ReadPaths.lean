import TimescalePrometheus.Query.SubQueries
import TimescalePrometheus.Sql.CatalogRuns

/-!
The two ways in which `getResultRows` reads a list of matchers without pushdown, and
the reader as a machine: a catalog that others write to, and a cache of table names.
-/

namespace TimescalePrometheus.Query.ReadPaths

open Sql.Tables Sql.Series Query.SubQueries

def minTime : Int := (-9223372036854775 + 62135596801) * 1000
def maxTime : Int := (9223372036854775 - 62135596801) * 1000 + 999

/-- A bound of a time filter as the database reads it, in microseconds. -/
inductive TimeBound where
  | negInfinity
  | finite (time : Int)
  | infinity
  deriving DecidableEq

/-- The least and the greatest time are infinite. -/
def toRFC3339Nano (milliseconds : Int) : TimeBound :=
  if milliseconds = minTime then .negInfinity
  else if milliseconds = maxTime then .infinity
  else .finite (milliseconds * 1000)

def TimeBound.le (bound : TimeBound) (time : Int) : Bool :=
  match bound with
  | .negInfinity => true
  | .finite t => t ≤ time
  | .infinity => false

def TimeBound.ge (bound : TimeBound) (time : Int) : Bool :=
  match bound with
  | .negInfinity => false
  | .finite t => time ≤ t
  | .infinity => true

/-- `metricTimeRangeFilter`. -/
structure MetricTimeRangeFilter where
  metric : String
  startTime : TimeBound
  endTime : TimeBound

def MetricTimeRangeFilter.covers (filter : MetricTimeRangeFilter) (time : Int) : Bool :=
  filter.startTime.le time && filter.endTime.ge time

/-- A row of a result: the labels of a series and its samples in the range. -/
structure ResultRow where
  labels : List Nat
  times : List Int
  values : List UInt64
  deriving DecidableEq

/-- The data rows of one series that the filter covers, ordered by time. -/
def samplesOf (filter : MetricTimeRangeFilter) (table : DataTable) (seriesId : Nat) :
    List DataRow :=
  (table.rows.filter fun d => d.seriesId = seriesId ∧ filter.covers d.time).insertionSort
    fun a b => a.time ≤ b.time

/-- Both timeseries queries: the data of a metric joined with those of its series that
meet a condition, grouped by series. A series without data in the range gives no row.
The result is none if a table is missing. -/
def timeseries (c : Catalog) (filter : MetricTimeRangeFilter) (selects : SeriesRow → Bool) :
    Option (List ResultRow) :=
  match c.data filter.metric, c.dataSeries filter.metric with
  | some table, some p =>
    let grouped := (p.rows.filter selects).map fun s => (s, samplesOf filter table s.id)
    some ((grouped.filter fun g => g.2 ≠ []).map fun g =>
      { labels := g.1.labels, times := g.2.map (·.time), values := g.2.map (·.value) })
  | _, _ => none

/-- The clauses of a query, applied to a series. -/
def whereHolds (r : Regex) (c : Catalog) (cases : List Clause) (values : List String)
    (s : SeriesRow) : Bool :=
  evalClauses r c.label values s.labels cases = some true

def buildTimeseriesByLabelClausesQuery (r : Regex) (c : Catalog)
    (filter : MetricTimeRangeFilter) (cases : List Clause) (values : List String) :
    Option (List ResultRow) :=
  timeseries c filter (whereHolds r c cases values)

def buildTimeseriesBySeriesIDQuery (c : Catalog) (filter : MetricTimeRangeFilter)
    (series : List Nat) : Option (List ResultRow) :=
  timeseries c filter fun s => s.id ∈ series

/-- `_prom_catalog.series`: the rows of the partitions that are attached to it. -/
def seriesTable (c : Catalog) : List SeriesRow :=
  (c.metric.filter (·.creationCompleted)).flatMap fun m =>
    ((c.dataSeries m.tableName).map (·.rows)).getD []

/-- The join of the series that meet the clauses with their metrics. -/
def metricNameSeriesID (r : Regex) (c : Catalog) (cases : List Clause)
    (values : List String) : List (String × Nat) :=
  ((seriesTable c).filter (whereHolds r c cases values)).flatMap fun s =>
    (c.metric.filter fun m => m.id = s.metricId).map fun m => (m.metricName, s.id)

/-- The rows of `buildMetricNameSeriesIDQuery`, as `getSeriesPerMetric` reads them: each
metric with the ids of its series. -/
def seriesPerMetric (r : Regex) (c : Catalog) (cases : List Clause) (values : List String) :
    List (String × List Nat) :=
  let joined := metricNameSeriesID r c cases values
  ((joined.map (·.1)).dedup.insertionSort fun a b => a ≤ b).map fun metric =>
    (metric, (joined.filter fun row => row.1 = metric).map (·.2))

/-- The cache of table names. An entry may be evicted at any time. -/
abbrev MetricNameCache := String → Option String

/-- The table of a metric, none if the metric is missing, and the cache afterwards. -/
def getMetricTableName (c : Catalog) (metricTableNames : MetricNameCache) (metric : String) :
    Option String × MetricNameCache :=
  match metricTableNames metric with
  | some tableName => (some tableName, metricTableNames)
  | none =>
    match c.metric? metric with
    | some m => (some m.tableName, Function.update metricTableNames metric (some m.tableName))
    | none => (none, metricTableNames)

/-- The result rows of a metric that is named by the matchers. A missing table gives no
rows, like a missing metric. -/
def querySingleMetric (r : Regex) (c : Catalog) (metricTableNames : MetricNameCache)
    (metric : String) (filter : MetricTimeRangeFilter) (cases : List Clause)
    (values : List String) : List ResultRow × MetricNameCache :=
  match getMetricTableName c metricTableNames metric with
  | (none, cache) => ([], cache)
  | (some tableName, cache) =>
    ((buildTimeseriesByLabelClausesQuery r c { filter with metric := tableName } cases
      values).getD [], cache)

/-- The loop over the metrics; none if a query fails. -/
def queryMetrics (c : Catalog) (filter : MetricTimeRangeFilter) :
    List (String × List Nat) → MetricNameCache → Option (List ResultRow) × MetricNameCache
  | [], cache => (some [], cache)
  | (metric, series) :: rest, cache =>
    match getMetricTableName c cache metric with
    | (none, cache) => queryMetrics c filter rest cache
    | (some tableName, cache) =>
      match buildTimeseriesBySeriesIDQuery c { filter with metric := tableName } series with
      | none => (none, cache)
      | some rows =>
        let (results, cache) := queryMetrics c filter rest cache
        (results.map (rows ++ ·), cache)

/-- The path for matchers that do not name one metric. -/
def queryMultipleMetrics (r : Regex) (c : Catalog) (metricTableNames : MetricNameCache)
    (filter : MetricTimeRangeFilter) (cases : List Clause) (values : List String) :
    Option (List ResultRow) × MetricNameCache :=
  queryMetrics c filter (seriesPerMetric r c cases values) metricTableNames

/-- By the name of a metric, or by all that match. -/
def getResultRows (r : Regex) (c : Catalog) (metricTableNames : MetricNameCache)
    (startTimestamp endTimestamp : Int) (matchers : List Matcher) :
    Option (List ResultRow) × MetricNameCache :=
  match buildSubQueries r matchers with
  | .error _ => (none, metricTableNames)
  | .ok (metric, cases, values) =>
    let filter : MetricTimeRangeFilter :=
      { metric, startTime := toRFC3339Nano startTimestamp, endTime := toRFC3339Nano endTimestamp }
    if metric ≠ "" then
      let (rows, cache) := querySingleMetric r c metricTableNames metric filter cases values
      (some rows, cache)
    else queryMultipleMetrics r c metricTableNames filter cases values

/-- The database and the name cache. -/
structure Reader where
  catalog : Catalog
  metricTableNames : MetricNameCache

/-- A new database, nothing cached. -/
def Reader.initial : Reader := ⟨Catalog.empty, fun _ => none⟩

/-- A write, or a read. -/
inductive ReaderAction where
  | write (a : Sql.CatalogRuns.Action)
  | read (startTimestamp endTimestamp : Int) (matchers : List Matcher)
  | evict (metric : String)

def Reader.step (r : Regex) (reader : Reader) : ReaderAction → Reader
  | .write a => { reader with catalog := Sql.CatalogRuns.step reader.catalog a }
  | .read startTimestamp endTimestamp matchers =>
    { reader with
      metricTableNames := (getResultRows r reader.catalog reader.metricTableNames
        startTimestamp endTimestamp matchers).2 }
  | .evict metric =>
    { reader with metricTableNames := Function.update reader.metricTableNames metric none }

end TimescalePrometheus.Query.ReadPaths
