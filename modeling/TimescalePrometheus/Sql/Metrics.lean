import TimescalePrometheus.Sql.Names
import TimescalePrometheus.Sql.Tables

/-!
Label ids and metric tables: `get_new_label_id`, `get_or_create_label_id`,
`make_metric_table`, `create_metric_table`, `get_or_create_metric_table_name`.
Each function is taken as it runs with no concurrent writer.
-/

namespace TimescalePrometheus.Sql.Metrics

open Sql.Names Sql.Tables

/-- The insert takes a value of the serial column even when it then does nothing
because the pair is already stored; the select after it finds that row. -/
def getNewLabelId (keyName valueName : String) : Tx Nat := do
  let id ← nextval .label
  let c ← get
  match c.labelId? keyName valueName with
  | some found => return found
  | none =>
    let row : LabelRow := { id, key := keyName, value := valueName }
    set { c with label := c.label ++ [row] }
    return id

/-- `get_or_create_label_id`. -/
def getOrCreateLabelId (keyName valueName : String) : Tx Nat := do
  let c ← get
  match c.labelId? keyName valueName with
  | some id => return id
  | none => getNewLabelId keyName valueName

/-- The trigger that runs after a row was inserted into the metric table. It
freezes the label id of the metric's name in a CHECK of the series partition. -/
def makeMetricTable (new : MetricRow) : Tx Unit := do
  let c ← get
  if (c.data new.tableName).isSome then throw .duplicateTable
  let dataTable : DataTable := { chunks := [], rows := [] }
  set { c with data := Function.update c.data new.tableName (some dataTable) }
  let labelId ← getOrCreateLabelId metricNameLabelName new.metricName
  let c ← get
  if (c.dataSeries new.tableName).isSome then throw .duplicateTable
  let partition : SeriesPartition :=
    { checkLabel := labelId, checkMetric := new.id, rows := [] }
  set { c with dataSeries := Function.update c.dataSeries new.tableName (some partition) }

/-- With no concurrent writer an iteration of the INSERT-or-SELECT loop that does
not leave it changes nothing, so every later iteration goes the same way. -/
def createMetricTable (metricNameArg : String) : Tx MetricRow := do
  let newId ← nextval .metric
  let c ← get
  let tableName := pgNameUnique metricNameArg (toString newId)
  let conflict := c.metric.any fun m =>
    m.id = newId ∨ m.metricName = metricNameArg ∨ m.tableName = tableName
  if conflict then
    match c.metric? metricNameArg with
    | some m => return m
    | none => throw .loopNeverExits
  else
    let new : MetricRow := { id := newId, metricName := metricNameArg, tableName }
    set { c with metric := c.metric ++ [new] }
    makeMetricTable new
    return new

/-- The row of the metric, and whether it may be new. -/
def getOrCreateMetricTableName (metricName : String) : Tx (MetricRow × Bool) := do
  let c ← get
  match c.metric? metricName with
  | some m => return (m, false)
  | none =>
    let m ← createMetricTable metricName
    return (m, true)

end TimescalePrometheus.Sql.Metrics
