import Mathlib.Logic.Function.Basic
import Mathlib.Data.List.Basic
import TimescalePrometheus.Lib.Transactions

/-!
The tables of the connector's catalog, as the migration scripts declare them,
and the transactions that the SQL functions run on them.
-/

namespace TimescalePrometheus.Sql.Tables

/-- The key under which a metric's own name is stored as a label. -/
def metricNameLabelName : String := "__name__"

/-- A row of `_prom_catalog.label`. -/
structure LabelRow where
  id : Nat
  key : String
  value : String
  deriving DecidableEq

/-- A row of `_prom_catalog.label_key`. -/
structure LabelKeyRow where
  id : Nat
  key : String
  valueColumnName : String
  idColumnName : String
  deriving DecidableEq

/-- A row of `_prom_catalog.label_key_position`. -/
structure LabelKeyPositionRow where
  metricName : String
  key : String
  pos : Nat
  deriving DecidableEq

/-- A row of `_prom_catalog.metric`. -/
structure MetricRow where
  id : Nat
  metricName : String
  tableName : String
  creationCompleted : Bool := false
  deriving DecidableEq

/-- A row of a metric's series partition. The label array holds label ids, and
0 where the series does not set the key of that position. -/
structure SeriesRow where
  id : Nat
  metricId : Nat
  labels : List Nat
  deriving DecidableEq

/-- A table `prom_data_series.%I`: the two constants that `make_metric_table`
writes into its CHECK constraints, and its rows. -/
structure SeriesPartition where
  checkLabel : Nat
  checkMetric : Nat
  rows : List SeriesRow
  deriving DecidableEq

/-- A chunk of a hypertable: it holds the times from `rangeStart` (inclusive) to
`rangeEnd` (exclusive), in microseconds. -/
structure Chunk where
  rangeStart : Int
  rangeEnd : Int
  deriving DecidableEq

/-- A row of a metric's data table. Times are microseconds, and a value is kept
as the 64 bits of its double. -/
structure DataRow where
  time : Int
  value : UInt64
  seriesId : Nat
  deriving DecidableEq

/-- A hypertable `prom_data.%I`. -/
structure DataTable where
  chunks : List Chunk
  rows : List DataRow
  deriving DecidableEq

/-- The sequences behind the serial columns. -/
inductive Sequence where
  | label
  | labelKey
  | metric
  | seriesId
  deriving DecidableEq

/-- The database as far as the connector's functions read and write it. Tables
and views whose name is computed are looked up by that name in their schema. -/
structure Catalog where
  label : List LabelRow
  labelKey : List LabelKeyRow
  labelKeyPosition : List LabelKeyPositionRow
  metric : List MetricRow
  dataSeries : String → Option SeriesPartition
  data : String → Option DataTable
  seriesView : String → Option (List String)
  metricView : String → Option (List String)
  /-- The last value each sequence handed out. -/
  lastValue : Sequence → Nat

/-- The catalog that the preinstall scripts leave behind. -/
def Catalog.empty : Catalog where
  label := []
  labelKey := []
  labelKeyPosition := []
  metric := []
  dataSeries := fun _ => none
  data := fun _ => none
  seriesView := fun _ => none
  metricView := fun _ => none
  lastValue := fun _ => 0

/-- Why a statement aborts its transaction, or never ends. -/
inductive Abort where
  | notNullViolation
  | checkViolation
  | duplicateTable
  | undefinedTable
  | noDataFound
  | duplicateColumn
  | invalidViewChange
  | couldNotFindNewPosition
  | loopNeverExits
  | invalidParameterValue
  deriving DecidableEq

/-- A function on the catalog. -/
abbrev Tx := EStateM Abort Catalog

/-- Runs a function as a transaction of its own. An abort undoes everything
except the values taken from sequences, which PostgreSQL never gives back. -/
def transaction {α : Type} (x : Tx α) (c : Catalog) : Option α × Catalog :=
  match x c with
  | .ok a c' => (some a, c')
  | .error _ c' => (none, { c with lastValue := c'.lastValue })

theorem eq_ok_of_transaction {α : Type} {x : Tx α} {c : Catalog} {a : α}
    (h : (transaction x c).1 = some a) : x c = .ok a (transaction x c).2 := by
  unfold transaction at h ⊢
  cases hx : x c with
  | ok b c' =>
    rw [hx] at h
    obtain rfl : b = a := by simpa using h
    rfl
  | error e c' => simp [hx] at h

/-- `nextval`. -/
def nextval (q : Sequence) : Tx Nat := do
  let c ← get
  let next := c.lastValue q + 1
  set { c with lastValue := Function.update c.lastValue q next }
  return next

namespace Catalog

/-- `SELECT id FROM label WHERE key = ... AND value = ...`. -/
def labelId? (c : Catalog) (key value : String) : Option Nat :=
  (c.label.find? fun l => l.key = key ∧ l.value = value).map (·.id)

/-- The row of the label table with the given id. -/
def labelById? (c : Catalog) (id : Nat) : Option LabelRow :=
  c.label.find? fun l => l.id = id

/-- `SELECT pos FROM label_key_position WHERE metric_name = ... AND key = ...`. -/
def position? (c : Catalog) (metricName key : String) : Option Nat :=
  (c.labelKeyPosition.find? fun p => p.metricName = metricName ∧ p.key = key).map (·.pos)

/-- `SELECT * FROM metric WHERE metric_name = ...`. -/
def metric? (c : Catalog) (metricName : String) : Option MetricRow :=
  c.metric.find? fun m => m.metricName = metricName

theorem exists_of_labelId? {c : Catalog} {key value : String} {id : Nat}
    (h : c.labelId? key value = some id) :
    ∃ l ∈ c.label, l.key = key ∧ l.value = value ∧ l.id = id := by
  obtain ⟨l, hfind, hid⟩ := Option.map_eq_some_iff.mp h
  have hpair := List.find?_some hfind
  simp only [decide_eq_true_eq] at hpair
  exact ⟨l, List.mem_of_find?_eq_some hfind, hpair.1, hpair.2, hid⟩

theorem labelId?_eq_none_iff {c : Catalog} {key value : String} :
    c.labelId? key value = none ↔ ∀ l ∈ c.label, ¬(l.key = key ∧ l.value = value) := by
  simp [labelId?, List.find?_eq_none]

theorem exists_of_position? {c : Catalog} {metricName key : String} {pos : Nat}
    (h : c.position? metricName key = some pos) :
    ∃ p ∈ c.labelKeyPosition, p.metricName = metricName ∧ p.key = key ∧ p.pos = pos := by
  obtain ⟨p, hfind, hpos⟩ := Option.map_eq_some_iff.mp h
  have hkey := List.find?_some hfind
  simp only [decide_eq_true_eq] at hkey
  exact ⟨p, List.mem_of_find?_eq_some hfind, hkey.1, hkey.2, hpos⟩

theorem position?_eq_none_iff {c : Catalog} {metricName key : String} :
    c.position? metricName key = none ↔
      ∀ p ∈ c.labelKeyPosition, ¬(p.metricName = metricName ∧ p.key = key) := by
  simp [position?, List.find?_eq_none]

theorem mem_of_metric? {c : Catalog} {metricName : String} {m : MetricRow}
    (h : c.metric? metricName = some m) : m ∈ c.metric ∧ m.metricName = metricName := by
  have hname := List.find?_some h
  simp only [decide_eq_true_eq] at hname
  exact ⟨List.mem_of_find?_eq_some h, hname⟩

theorem metric?_eq_none_iff {c : Catalog} {metricName : String} :
    c.metric? metricName = none ↔ ∀ m ∈ c.metric, m.metricName ≠ metricName := by
  simp [metric?, List.find?_eq_none]

end Catalog

end TimescalePrometheus.Sql.Tables
