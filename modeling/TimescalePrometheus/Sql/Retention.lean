import TimescalePrometheus.Sql.Series

/-!
Data rows and retention: writes into a hypertable, `drop_metric_chunks`, and the
part of `finalize_metric_creation` that readers can see.
-/

namespace TimescalePrometheus.Sql.Retention

open Sql.Tables Sql.Metrics

/-- The end is exclusive. -/
def Chunk.contains (chunk : Chunk) (time : Int) : Bool :=
  chunk.rangeStart ≤ time ∧ time < chunk.rangeEnd

def Chunk.disjoint (first second : Chunk) : Bool :=
  first.rangeEnd ≤ second.rangeStart ∨ second.rangeEnd ≤ first.rangeStart

/-- One row of `INSERT INTO data ... ON CONFLICT DO NOTHING`. When no chunk of the
table holds the row's time, `newChunk` is the one the database creates for it; it
always creates one that holds the time and overlaps no other. -/
def insertDataRow (newChunk : Int → Chunk) (table : DataTable) (row : DataRow) : DataTable :=
  if table.rows.any fun old => old.seriesId = row.seriesId ∧ old.time = row.time then table
  else if table.chunks.any fun chunk => Chunk.contains chunk row.time then
    { table with rows := table.rows ++ [row] }
  else if Chunk.contains (newChunk row.time) row.time ∧
      table.chunks.all fun chunk => Chunk.disjoint chunk (newChunk row.time) then
    { chunks := table.chunks ++ [newChunk row.time], rows := table.rows ++ [row] }
  else table

def insertData (newChunk : Int → Chunk) (tableName : String) (rows : List DataRow) :
    Tx Unit := do
  let c ← get
  match c.data tableName with
  | none => throw .undefinedTable
  | some table =>
    let written := rows.foldl (insertDataRow newChunk) table
    set { c with data := Function.update c.data tableName (some written) }

/-- `INTERVAL '1 hour'`. -/
def hour : Int := 3600000000

/-- The end of the last chunk that ends at or before the given time. -/
def tightOlderThan (table : DataTable) (olderThan : Int) : Option Int :=
  ((table.chunks.map (·.rangeEnd)).filter (· ≤ olderThan)).max?

/-- The series ids of the query's `confirmed_drop_series`: ids with a row before
`olderThan`, none in the hour that is looked at first and none after it. -/
def confirmedDropSeries (table : DataTable) (olderThan checkTime : Int) : List Nat :=
  let before := (table.rows.filter fun r => r.time < olderThan).map (·.seriesId)
  let firstHour := (table.rows.filter fun r => olderThan ≤ r.time ∧ r.time < checkTime).map
    (·.seriesId)
  let potentiallyDrop := before.filter fun id => id ∉ firstHour
  potentiallyDrop.filter fun id =>
    ¬ table.rows.any fun r => r.seriesId = id ∧ checkTime ≤ r.time

/-- `drop_chunks`: the chunks that end at or before `olderThan` go, with their rows. -/
def dropChunks (table : DataTable) (olderThan : Int) : DataTable :=
  let dropped := table.chunks.filter fun chunk => chunk.rangeEnd ≤ olderThan
  { chunks := table.chunks.filter fun chunk => ¬ chunk.rangeEnd ≤ olderThan
    rows := table.rows.filter fun r => ¬ dropped.any fun chunk => Chunk.contains chunk r.time }

/-- What `drop_metric_chunks` does once it knows the exact cut-off. -/
def dropBefore (c : Catalog) (tableName : String) (table : DataTable) (p : SeriesPartition)
    (olderThan checkTime : Int) : Catalog :=
  let confirmed := confirmedDropSeries table olderThan checkTime
  let deletedSeries := p.rows.filter fun s => s.id ∈ confirmed
  let remaining := p.rows.filter fun s => s.id ∉ confirmed
  let labelArray := (deletedSeries.flatMap (·.labels)).dedup
  let confirmedDropLabels := labelArray.filter fun labelId =>
    ¬ remaining.any fun s => labelId ∈ s.labels
  { c with
    dataSeries := Function.update c.dataSeries tableName (some { p with rows := remaining })
    label := c.label.filter fun l => l.id ∉ confirmedDropLabels
    data := Function.update c.data tableName (some (dropChunks table olderThan)) }

/-- `drop_metric_chunks`. -/
def dropMetricChunks (metricName : String) (olderThan : Int) : Tx Bool := do
  let (m, _) ← getOrCreateMetricTableName metricName
  let checkTime := olderThan + hour
  let c ← get
  match c.data m.tableName, c.dataSeries m.tableName with
  | some table, some p =>
    match tightOlderThan table olderThan with
    | none => return false
    | some tight =>
      set (dropBefore c m.tableName table p tight checkTime)
      return true
  | _, _ => throw .noDataFound

/-- The part of `finalize_metric_creation` that attaches the partition of one
metric to the series table, which the flag of the metric records. -/
def finalizeMetricCreation (metricId : Nat) : Tx Unit := do
  let c ← get
  let complete (m : MetricRow) : MetricRow :=
    if m.id = metricId then { m with creationCompleted := true } else m
  set { c with metric := c.metric.map complete }

end TimescalePrometheus.Sql.Retention
