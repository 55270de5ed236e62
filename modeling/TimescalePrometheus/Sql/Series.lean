import TimescalePrometheus.Sql.LabelKeys

/-!
Label arrays and series ids. A label set is a list of key/value pairs, listed in
the order in which the executor evaluates the rows of `idx_val`; the `ORDER BY`
there only fixes this order (up to the database's collation), and every result
below holds for all of them.
-/

namespace TimescalePrometheus.Sql.Series

open Sql.Tables Sql.Metrics Sql.LabelKeys

/-- Names and values. -/
abbrev LabelSet := List (String × String)

/-- `coalesce`, which evaluates its second argument only if the first is NULL. -/
def coalesce {α : Type} : Option α → Tx α → Tx α
  | some a, _ => pure a
  | none, otherwise => otherwise

/-- The rows of the `idx_val` query. The left joins read the `snapshot` taken
when the statement started; the volatile functions see what was written since. -/
def idxVal (metricName : String) (snapshot : Catalog) : LabelSet → Tx (List (Nat × Nat))
  | [] => return []
  | (key, value) :: rest => do
    let idx ← coalesce (snapshot.position? metricName key)
      (getOrCreateLabelKeyPos metricName key)
    let val ← coalesce (snapshot.labelId? key value) (getOrCreateLabelId key value)
    let rows ← idxVal metricName snapshot rest
    return (idx, val) :: rows

/-- `coalesce(val, 0)` for the rows that `LEFT JOIN idx_val ON (idx = g)` gives for
one `g`. -/
def joined (rows : List (Nat × Nat)) (g : Nat) : List Nat :=
  match rows.filter fun row => row.1 = g with
  | [] => [0]
  | row :: more => (row :: more).map (·.2)

/-- The array over `generate_series(1, max(idx))`. -/
def arrayOf (rows : List (Nat × Nat)) : List Nat :=
  (List.range' 1 ((rows.map (·.1)).max?.getD 0)).flatMap (joined rows)

/-- `get_or_create_label_array(metric_name, label_keys, label_values)`. -/
def getOrCreateLabelArray (metricName : String) (labels : LabelSet) : Tx (List Nat) := do
  let snapshot ← get
  let rows ← idxVal metricName snapshot labels
  return arrayOf rows

/-- `js->>'__name__'`, NULL if the object has no such key. -/
def jsonMetricName (js : LabelSet) : Option String :=
  (js.find? fun kv => kv.1 = metricNameLabelName).map (·.2)

/-- `get_or_create_label_array(js)`. Without a metric name the first key position
that is asked for would belong to a metric whose name is NULL. -/
def getOrCreateLabelArrayJsonb (js : LabelSet) : Tx (List Nat) :=
  match jsonMetricName js with
  | some metricName => getOrCreateLabelArray metricName js
  | none => throw .notNullViolation

/-- The rows that `labels_info` aggregates: one label for each array element that
is the id of a label. -/
def labelsInfo (c : Catalog) (labels : List Nat) : List LabelRow :=
  labels.filterMap c.labelById?

def keyValueArray (c : Catalog) (labels : List Nat) : List String × List String :=
  ((labelsInfo c labels).map (·.key), (labelsInfo c labels).map (·.value))

/-- `jsonb_object(keys, vals)`, as the function that `->>` is on it: of two pairs
with the same key the last one counts. -/
def jsonb (c : Catalog) (labels : List Nat) (key : String) : Option String :=
  let (keys, vals) := keyValueArray c labels
  ((keys.zip vals).reverse.find? fun kv => kv.1 = key).map (·.2)

/-- The CHECK constraints of a series partition. -/
def SeriesPartition.check (p : SeriesPartition) (metricId : Nat) (labels : List Nat) : Bool :=
  labels.head? = some p.checkLabel ∧ metricId = p.checkMetric

def SeriesPartition.findLabels (p : SeriesPartition) (labels : List Nat) : Option SeriesRow :=
  p.rows.find? fun row => row.labels = labels

/-- `create_series`. -/
def createSeries (metricId : Nat) (metricTableName : String) (labelArray : List Nat) :
    Tx Nat := do
  let newSeriesId ← nextval .seriesId
  let c ← get
  match c.dataSeries metricTableName with
  | none => throw .undefinedTable
  | some p =>
    if ¬ SeriesPartition.check p metricId labelArray then throw .checkViolation
    match SeriesPartition.findLabels p labelArray with
    | some row => return row.id
    | none =>
      let row : SeriesRow := { id := newSeriesId, metricId, labels := labelArray }
      let partition := { p with rows := p.rows ++ [row] }
      set { c with
        dataSeries := Function.update c.dataSeries metricTableName (some partition) }
      return newSeriesId

/-- The statement that both series functions execute: the id of the series with
this label array, created if there is none. -/
def findOrCreateSeries (m : MetricRow) (labelArray : List Nat) : Tx Nat := do
  let c ← get
  match c.dataSeries m.tableName with
  | none => throw .undefinedTable
  | some p =>
    match SeriesPartition.findLabels p labelArray with
    | some row => return row.id
    | none => createSeries m.id m.tableName labelArray

/-- `get_or_create_series_id(label jsonb)`. -/
def getOrCreateSeriesId (label : LabelSet) : Tx Nat := do
  match jsonMetricName label with
  | none => throw .notNullViolation
  | some metricName =>
    let (m, _) ← getOrCreateMetricTableName metricName
    let labelArray ← getOrCreateLabelArrayJsonb label
    findOrCreateSeries m labelArray

/-- The table name and the series id. -/
def getOrCreateSeriesIdForKvArray (metricName : String) (labels : LabelSet) :
    Tx (String × Nat) := do
  let (m, _) ← getOrCreateMetricTableName metricName
  let labelArray ← getOrCreateLabelArray metricName labels
  let seriesId ← findOrCreateSeries m labelArray
  return (m.tableName, seriesId)

end TimescalePrometheus.Sql.Series
