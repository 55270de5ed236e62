import TimescalePrometheus.Ingest.SeriesIds
import TimescalePrometheus.Sql.CatalogRuns

/-!
The insert routine of one metric together with the database: the ids the routine holds on one
side, the series and the data of the metric on the other.
-/

namespace TimescalePrometheus.Ingest.Ingestion

open Lib.Runs Sql.Tables Sql.Metrics Sql.Series Sql.Retention Ingest.Samples Ingest.SeriesIds

/-- What `parseData` puts under a metric. -/
structure Data (metric : String) where
  infos : List SamplesInfo
  named : ∀ info ∈ infos, info.labels.metricName = metric
  unset : ∀ info ∈ infos, info.seriesID = -1

/-- The state of the routine. -/
structure Connector where
  metricTableName : Option String := none
  seriesCache : SeriesCache := []
  pending : List SamplesInfo := []
  /-- The groups that `setSeriesIds` has not asked for yet, if it is running. -/
  asking : Option (List Group) := none
  /-- The batches with the copiers. -/
  inFlight : List (List SamplesInfo) := []
  deriving DecidableEq

/-- The routine and the database. -/
structure System where
  connector : Connector
  catalog : Catalog

def System.initial : System := ⟨{}, Catalog.empty⟩

/-- What goes wrong with the three statements of a series, if anything does. -/
inductive Fault
  | none
  | begin (err : Err)
  | query (err : Err)
  | commit (err : Err)
  deriving DecidableEq

/-- The statements of one series against the database. If the `COMMIT` fails the
transaction did not take effect, but the query had returned its row. -/
def askDatabase (fault : Fault) (labels : Labels) (c : Catalog) : SeriesReply × Catalog :=
  let query := getOrCreateSeriesIdForKvArray labels.metricName labels.pairs
  match fault with
  | .begin err => (.beginFailed err, c)
  | .query err => (.queryFailed err, c)
  | .commit err =>
    match query c with
    | .ok (tableName, id) c' =>
      (.commitFailed tableName id err, { c with lastValue := c'.lastValue })
    | .error _ c' =>
      (.queryFailed (.pg "the query failed"), { c with lastValue := c'.lastValue })
  | .none =>
    match transaction query c with
    | (some (tableName, id), c') => (.committed tableName id, c')
    | (none, c') => (.queryFailed (.pg "the query failed"), c')

namespace Connector

/-- Whether the routine may receive or flush: it has its table and is not in `setSeriesIds`. -/
def ready (k : Connector) : Bool := k.metricTableName.isSome && k.asking.isNone

/-- The batch goes to the copiers. -/
def hand (k : Connector) : Connector :=
  { k with pending := [], asking := none, inFlight := k.inFlight ++ [k.pending] }

/-- `setSeriesIds` up to the loop over the results. -/
def beginSetSeriesIds (k : Connector) : Connector :=
  let (pending, numMissingSeries) := fillKnowSeriesIds k.seriesCache k.pending
  let k := { k with pending }
  if numMissingSeries = 0 then k.hand else { k with asking := some (batchSeries pending) }

end Connector

/-- Times are in microseconds there. -/
def toDataRow (row : Row) : DataRow := ⟨row.timestamp * 1000, row.value, row.seriesID.toNat⟩

/-- A step of the routine, a copier or the database. -/
inductive Action (metric : String)
  /-- The routine starts and gets its table. -/
  | start
  /-- `handleReq`. -/
  | receive (data : Data metric)
  | beginSetSeriesIds
  | sendBatchFailed
  | readResult (fault : Fault)
  | doInsert (n : Nat) (newChunk : Int → Chunk)
  /-- A copier gives a batch up. -/
  | dropBatch (n : Nat)
  /-- Anybody calls a function of the database. -/
  | database (a : Sql.CatalogRuns.Action)

variable {metric : String}

/-- The rows that the statement of `doInsert` is given, and its table. -/
def insertRequest (s : System) (n : Nat) : Option (String × List Row) := do
  let table ← s.connector.metricTableName
  let infos ← s.connector.inFlight[n]?
  let (rows, _) ← SampleInfoIterator.batchRows { sampleInfos := infos }
  return (table, rows)

/-- The reply for the next group. -/
def readResult (s : System) (fault : Fault) : System :=
  match s.connector.asking with
  | none => s
  | some [] => { s with connector := s.connector.hand }
  | some (group :: groups) =>
    let (result, f) := SeriesIds.readResult (askDatabase fault) group
      ⟨s.connector.seriesCache, s.connector.pending, s.catalog⟩
    match result with
    | .error _ =>
      ⟨{ s.connector with seriesCache := f.seriesCache, pending := [], asking := none },
        f.database⟩
    | .ok _ =>
      ⟨{ s.connector with
          seriesCache := f.seriesCache, pending := f.sampleInfos, asking := some groups },
        f.database⟩

/-- Actions out of turn change nothing. -/
def step (s : System) : Action metric → System
  | .start =>
    match s.connector.metricTableName,
      transaction (getOrCreateMetricTableName metric) s.catalog with
    | none, (some (m, _), catalog) =>
      ⟨{ s.connector with metricTableName := some m.tableName }, catalog⟩
    | none, (none, catalog) => { s with catalog }
    | some _, _ => s
  | .receive data =>
    if s.connector.ready then
      let infos := (fillKnowSeriesIds s.connector.seriesCache data.infos).1
      { s with connector := { s.connector with pending := s.connector.pending ++ infos } }
    else s
  | .beginSetSeriesIds =>
    if s.connector.ready then { s with connector := s.connector.beginSetSeriesIds }
    else s
  | .sendBatchFailed =>
    if s.connector.asking.isSome then
      { s with connector := { s.connector with pending := [], asking := none } }
    else s
  | .readResult fault => readResult s fault
  | .doInsert n newChunk =>
    match insertRequest s n with
    | none => s
    | some (table, rows) =>
      ⟨{ s.connector with inFlight := s.connector.inFlight.eraseIdx n },
        (transaction (insertData newChunk table (rows.map toDataRow)) s.catalog).2⟩
  | .dropBatch n =>
    { s with connector := { s.connector with inFlight := s.connector.inFlight.eraseIdx n } }
  | .database a => { s with catalog := Sql.CatalogRuns.step s.catalog a }

/-- The table and the rows of a `doInsert` that returns nil. -/
def written (s : System) : Action metric → Option (String × List Row)
  | .doInsert n newChunk => do
    let (table, rows) ← insertRequest s n
    let _ ← (transaction (insertData newChunk table (rows.map toDataRow)) s.catalog).1
    return (table, rows)
  | _ => none

/-- The partition has a series of the id. -/
def hasSeries (c : Catalog) (table : String) (id : Int) : Bool :=
  match c.dataSeries table with
  | none => false
  | some p => p.rows.any fun series => series.id = id

/-- Each row that the action writes refers to a series of the metric's partition. -/
def WritesKnown (s : System) (a : Action metric) : Prop :=
  ∀ w ∈ written s a, ∀ row ∈ w.2, hasSeries s.catalog w.1 row.seriesID = true

instance (s : System) (a : Action metric) : Decidable (WritesKnown s a) :=
  inferInstanceAs (Decidable (∀ w ∈ written s a, _))

end TimescalePrometheus.Ingest.Ingestion
