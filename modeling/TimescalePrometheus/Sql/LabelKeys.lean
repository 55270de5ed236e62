import Mathlib.Data.List.Sort
import TimescalePrometheus.Sql.Metrics

/-!
Label keys, their positions in a metric's label arrays, and the views that are
regenerated whenever a metric gains a key.
-/

namespace TimescalePrometheus.Sql.LabelKeys

open Sql.Names Sql.Tables Sql.Metrics

def createLabelKey (newKey : String) : Tx LabelKeyRow := do
  let newId ← nextval .labelKey
  let c ← get
  match c.labelKey.find? fun k => k.key = newKey with
  | some row => return row
  | none =>
    let row : LabelKeyRow :=
      { id := newId, key := newKey
        valueColumnName := pgNameUnique newKey (toString newId)
        idColumnName := pgNameUnique (newKey ++ "_id") (toString newId ++ "_id") }
    set { c with labelKey := c.labelKey ++ [row] }
    return row

/-- `get_or_create_label_key`. -/
def getOrCreateLabelKey (key : String) : Tx LabelKeyRow := do
  let c ← get
  match c.labelKey.find? fun k => k.key = key with
  | some row => return row
  | none => createLabelKey key

def reservedColumnNames : List String := ["time", "value", "series_id", "labels"]

/-- Reserved names get a prefix. -/
def getLabelKeyColumnNameForView (labelKey : String) (id : Bool) : Tx String := do
  let labelKey := if labelKey ∈ reservedColumnNames then "label_" ++ labelKey else labelKey
  let row ← getOrCreateLabelKey labelKey
  return if id then row.idColumnName else row.valueColumnName

/-- The column of every listed key, with the key's position. -/
def labelKeyColumns (id : Bool) : List LabelKeyPositionRow → Tx (List (Nat × String))
  | [] => return []
  | row :: rows => do
    let column ← getLabelKeyColumnNameForView row.key id
    let columns ← labelKeyColumns id rows
    return (row.pos, column) :: columns

/-- The label columns of a metric's view, ordered by position. -/
def labelValueCols (metricName : String) (id : Bool) : Tx (List String) := do
  let c ← get
  let columns ← labelKeyColumns id <| c.labelKeyPosition.filter fun p =>
    p.metricName = metricName ∧ p.key ≠ metricNameLabelName
  return (columns.insertionSort fun a b => a.1 ≤ b.1).map (·.2)

/-- What `CREATE OR REPLACE VIEW` checks: the columns have different names, and
those of the view it replaces come first, unchanged and in the same order. -/
def checkView (old : Option (List String)) (columns : List String) : Tx Unit :=
  if ¬ columns.Nodup then throw .duplicateColumn
  else if ¬ (old.getD []) <+: columns then throw .invalidViewChange
  else pure ()

/-- The view of the series. -/
def createSeriesView (metricName : String) : Tx Unit := do
  let labelCols ← labelValueCols metricName false
  let c ← get
  match c.metric? metricName with
  | none => throw .noDataFound
  | some m =>
    let columns := ["series_id", "labels"] ++ labelCols
    checkView (c.seriesView m.tableName) columns
    set { c with seriesView := Function.update c.seriesView m.tableName (some columns) }

/-- The view of the data. -/
def createMetricView (metricName : String) : Tx Unit := do
  let labelCols ← labelValueCols metricName true
  let c ← get
  match c.metric? metricName with
  | none => throw .noDataFound
  | some m =>
    let columns := ["time", "value", "series_id", "labels"] ++ labelCols
    checkView (c.metricView m.tableName) columns
    set { c with metricView := Function.update c.metricView m.tableName (some columns) }

/-- `max(pos)` over the positions of a metric, NULL if it has none. -/
def maxPos (c : Catalog) (metricName : String) : Option Nat :=
  ((c.labelKeyPosition.filter fun p => p.metricName = metricName).map (·.pos)).max?

/-- The position a key gets: 1 is reserved for the metric name. -/
def nextPosition (c : Catalog) (metricName keyName : String) : Nat :=
  if keyName = metricNameLabelName then 1
  else match maxPos c metricName with
    | some pos => pos + 1
    | none => 2

def getNewPosForKey (metricName keyName : String) : Tx Nat := do
  let c ← get
  match c.position? metricName keyName with
  | some position => return position
  | none =>
    let _ ← getOrCreateMetricTableName metricName
    -- the data table is locked from here on, so the second check is final
    let c ← get
    match c.position? metricName keyName with
    | some position => return position
    | none =>
      let position := nextPosition c metricName keyName
      let _ ← getOrCreateLabelKey keyName
      let c ← get
      if (c.position? metricName keyName).isSome then throw .couldNotFindNewPosition
      let row : LabelKeyPositionRow := { metricName, key := keyName, pos := position }
      set { c with labelKeyPosition := c.labelKeyPosition ++ [row] }
      createSeriesView metricName
      createMetricView metricName
      return position

/-! The same function cut where another session can overtake it. -/

/-- What is left to do once both checks have failed: record the key at the next
position and regenerate the views. -/
def recordKey (metricName keyName : String) (position : Nat) : Tx Nat := do
  let _ ← getOrCreateLabelKey keyName
  let c ← get
  if (c.position? metricName keyName).isSome then throw .couldNotFindNewPosition
  let row : LabelKeyPositionRow := { metricName, key := keyName, pos := position }
  set { c with labelKeyPosition := c.labelKeyPosition ++ [row] }
  createSeriesView metricName
  createMetricView metricName
  return position

/-- From the end of the optimistic check on. The lock on the data table is held from
the second check until the transaction ends. -/
def lockedNewPos (metricName keyName : String) : Tx Nat := do
  let _ ← getOrCreateMetricTableName metricName
  let c ← get
  match c.position? metricName keyName with
  | some position => return position
  | none => recordKey metricName keyName (nextPosition c metricName keyName)

theorem getNewPosForKey_eq (metricName keyName : String) :
    getNewPosForKey metricName keyName = (do
      let c ← get
      match c.position? metricName keyName with
      | some position => return position
      | none => lockedNewPos metricName keyName) := rfl

def getOrCreateLabelKeyPos (metricName key : String) : Tx Nat := do
  let c ← get
  match c.position? metricName key with
  | some pos => return pos
  | none => getNewPosForKey metricName key

end TimescalePrometheus.Sql.LabelKeys
