import Mathlib.Data.List.Induction
import TimescalePrometheus.Sql.FunctionEdits

/-!
`create_metric_table` with its loop written out.
-/

namespace TimescalePrometheus.Sql.MetricLoop

open Lib.Transactions Sql.Names Sql.Tables
open Sql.Metrics (getOrCreateLabelId)
open Sql.CatalogEdits Sql.FunctionEdits

/-- The catalog, and the indexes of the two schemas in which a metric has a table. -/
structure Database where
  catalog : Catalog
  dataIndexes : List String
  seriesIndexes : List String

/-- Why a call aborts. -/
inductive Failure where
  | sequenceLimit
  | duplicateRelation
  | zeroLengthIdentifier
  | indexRowSize
  | abort (reason : Abort)
deriving DecidableEq

abbrev DbTx := EStateM Failure Database

namespace Database

def empty : Database where
  catalog := Catalog.empty
  dataIndexes := []
  seriesIndexes := []

/-- The name is taken among the data tables. -/
def dataRelation (d : Database) (name : String) : Bool :=
  (d.catalog.data name).isSome || decide (name ∈ d.dataIndexes)

/-- The name is taken among the series tables. -/
def seriesRelation (d : Database) (name : String) : Bool :=
  (d.catalog.dataSeries name).isSome || decide (name ∈ d.seriesIndexes)

def withDataTable (d : Database) (name : String) : Database :=
  let table : DataTable := { chunks := [], rows := [] }
  { d with catalog.data := Function.update d.catalog.data name (some table) }

def withDataIndex (d : Database) (name : String) : Database :=
  { d with dataIndexes := name :: d.dataIndexes }

def withSeriesTable (d : Database) (name : String) (partition : SeriesPartition) : Database :=
  { d with catalog.dataSeries := Function.update d.catalog.dataSeries name (some partition) }

def withSeriesIndex (d : Database) (name : String) : Database :=
  { d with seriesIndexes := name :: d.seriesIndexes }

end Database

def onCatalog {α : Type} (x : Tx α) : DbTx α := fun d =>
  match x d.catalog with
  | .ok a c => .ok a { d with catalog := c }
  | .error e c => .error (.abort e) { d with catalog := c }

/-- `nextval` of the sequence behind `metric.id`, which is of type `int`. -/
def nextMetricId : DbTx Nat := do
  let d ← get
  if d.catalog.lastValue .metric + 1 < 2 ^ 31 then onCatalog (nextval .metric)
  else throw .sequenceLimit

/-- `format` writes an empty name as a delimited identifier without a character. -/
def createDataTable (name : String) : DbTx Unit := do
  let d ← get
  if name = "" then throw .zeroLengthIdentifier
  else if d.dataRelation name then throw .duplicateRelation else set (d.withDataTable name)

def createDataIndex (name : String) : DbTx Unit := do
  let d ← get
  if d.dataRelation name then throw .duplicateRelation else set (d.withDataIndex name)

def createSeriesTable (name : String) (partition : SeriesPartition) : DbTx Unit := do
  let d ← get
  if d.seriesRelation name then throw .duplicateRelation
  else set (d.withSeriesTable name partition)

def createSeriesIndex (name : String) : DbTx Unit := do
  let d ← get
  if d.seriesRelation name then throw .duplicateRelation else set (d.withSeriesIndex name)

def dataIndexName (id : Nat) : String := "data_series_id_time_" ++ toString id

def labelsIndexName (id : Nat) : String := "series_labels_id_" ++ toString id

def pkeyIndexName (id : Nat) : String := "series_pkey_" ++ toString id

/-- The trigger with all the relations it creates. -/
def makeMetricTable (new : MetricRow) : DbTx Unit := do
  createDataTable new.tableName
  createDataIndex (dataIndexName new.id)
  let labelId ← onCatalog (getOrCreateLabelId metricNameLabelName new.metricName)
  createSeriesTable new.tableName { checkLabel := labelId, checkMetric := new.id, rows := [] }
  createSeriesIndex (labelsIndexName new.id)
  createSeriesIndex (pkeyIndexName new.id)

section Calls

-- The names whose rows fit into the unique index of `metric`, the longest index rows that hold a
-- name. PostgreSQL compresses them before it compares them with its limit.
variable (indexable : String → Bool)

/-- One iteration: the insert, and the select if nothing was inserted. -/
def insertOrSelect (metricNameArg : String) (newId : Nat) : DbTx (Option MetricRow) := do
  let d ← get
  let tableName := pgNameUnique metricNameArg (toString newId)
  let conflict := d.catalog.metric.any fun m =>
    m.id = newId ∨ m.metricName = metricNameArg ∨ m.tableName = tableName
  if conflict then return d.catalog.metric? metricNameArg
  else if ¬indexable metricNameArg then throw .indexRowSize
  else
    let new : MetricRow := { id := newId, metricName := metricNameArg, tableName }
    set { d with catalog.metric := d.catalog.metric ++ [new] }
    makeMetricTable new
    return some new

/-- The loop, left after the given number of iterations if it has not been left before. -/
def insertLoop (metricNameArg : String) (newId : Nat) : Nat → DbTx (Option MetricRow)
  | 0 => return none
  | iterations + 1 => do
    match ← insertOrSelect indexable metricNameArg newId with
    | some row => return some row
    | none => insertLoop metricNameArg newId iterations

def createMetricTable (iterations : Nat) (metricNameArg : String) : DbTx (Option MetricRow) := do
  let newId ← nextMetricId
  insertLoop indexable metricNameArg newId iterations

/-- The database after a call. One that fails, or that was stopped in its loop, leaves only the
sequences behind. -/
def call (d : Database) (metricName : String) : Database :=
  match createMetricTable indexable 1 metricName d with
  | .ok (some _) d' => d'
  | .ok none d' | .error _ d' => { d with catalog.lastValue := d'.catalog.lastValue }

/-- The database after calls for these names. -/
def calls (metricNames : List String) : Database :=
  metricNames.foldl (call indexable) Database.empty

end Calls

namespace Database

variable (d : Database) (name other : String) (partition : SeriesPartition)

@[simp] theorem dataRelation_withDataTable :
    (d.withDataTable name).dataRelation other =
      (decide (other = name) || d.dataRelation other) := by
  by_cases h : other = name
  · simp [dataRelation, withDataTable, h]
  · simp only [dataRelation, withDataTable, Function.update_of_ne h, h, decide_false,
      Bool.false_or]
    rfl

@[simp] theorem dataRelation_withDataIndex :
    (d.withDataIndex name).dataRelation other =
      (decide (other = name) || d.dataRelation other) := by
  simp only [dataRelation, withDataIndex, List.mem_cons, Bool.decide_or]
  exact Bool.or_left_comm _ _ _

@[simp] theorem seriesRelation_withDataTable :
    (d.withDataTable name).seriesRelation other = d.seriesRelation other := rfl

@[simp] theorem seriesRelation_withDataIndex :
    (d.withDataIndex name).seriesRelation other = d.seriesRelation other := rfl

@[simp] theorem seriesRelation_withSeriesTable :
    (d.withSeriesTable name partition).seriesRelation other =
      (decide (other = name) || d.seriesRelation other) := by
  by_cases h : other = name
  · simp [seriesRelation, withSeriesTable, h]
  · simp only [seriesRelation, withSeriesTable, Function.update_of_ne h, h, decide_false,
      Bool.false_or]
    rfl

@[simp] theorem seriesRelation_withSeriesIndex :
    (d.withSeriesIndex name).seriesRelation other =
      (decide (other = name) || d.seriesRelation other) := by
  simp only [seriesRelation, withSeriesIndex, List.mem_cons, Bool.decide_or]
  exact Bool.or_left_comm _ _ _

@[simp] theorem dataRelation_withSeriesTable :
    (d.withSeriesTable name partition).dataRelation other = d.dataRelation other := rfl

@[simp] theorem dataRelation_withSeriesIndex :
    (d.withSeriesIndex name).dataRelation other = d.dataRelation other := rfl

end Database

theorem create_eq_ok {taken : Bool} {d d' d₁ : Database} {u : Unit} :
    (if taken then throw .duplicateRelation else set d₁ : DbTx Unit) d = .ok u d' ↔
      taken = false ∧ d₁ = d' := by
  cases taken with
  | true => simp
  | false => simp

section Statements

variable {d d' : Database} {name : String} {partition : SeriesPartition} {u : Unit}

theorem createDataTable_eq_ok : createDataTable name d = .ok u d' ↔
    (name ≠ "" ∧ d.dataRelation name = false) ∧ d.withDataTable name = d' := by
  rw [createDataTable, get_bind]
  by_cases hname : name = ""
  · simp [hname]
  · rw [if_neg hname, create_eq_ok]
    simp [hname]

theorem createDataIndex_eq_ok : createDataIndex name d = .ok u d' ↔
    d.dataRelation name = false ∧ d.withDataIndex name = d' := create_eq_ok

theorem createSeriesTable_eq_ok : createSeriesTable name partition d = .ok u d' ↔
    d.seriesRelation name = false ∧ d.withSeriesTable name partition = d' := create_eq_ok

theorem createSeriesIndex_eq_ok : createSeriesIndex name d = .ok u d' ↔
    d.seriesRelation name = false ∧ d.withSeriesIndex name = d' := create_eq_ok

end Statements

theorem toList_prefix_append (word text : String) : word.toList <+: (word ++ text).toList := by
  rw [String.toList_append]
  exact List.prefix_append _ _

theorem labelsIndexName_ne_pkeyIndexName (id id' : Nat) :
    labelsIndexName id ≠ pkeyIndexName id' := by
  intro h
  have hlabels : "series_labels_id_".toList <+: (pkeyIndexName id').toList := by
    rw [← h]
    exact toList_prefix_append _ _
  have hpkey : "series_pkey_".toList <+: (pkeyIndexName id').toList := toList_prefix_append _ _
  rcases List.prefix_or_prefix_of_prefix hlabels hpkey with hword | hword
  · exact absurd hword (by decide +kernel)
  · exact absurd hword (by decide +kernel)

theorem eq_of_append_toString_eq {text : String} {id id' : Nat}
    (h : text ++ toString id = text ++ toString id') : id = id' := by
  have hlist := congrArg String.toList h
  rw [String.toList_append, String.toList_append] at hlist
  exact toString_nat_injective (String.toList_inj.mp (List.append_cancel_left hlist))

/-- No relation that the trigger creates has a name that is taken when it comes to it. -/
structure TablesFree (d : Database) (new : MetricRow) : Prop where
  dataTable : new.tableName ≠ "" ∧ d.dataRelation new.tableName = false
  dataIndex : dataIndexName new.id ≠ new.tableName ∧ d.dataRelation (dataIndexName new.id) = false
  seriesTable : d.seriesRelation new.tableName = false
  labelsIndex : labelsIndexName new.id ≠ new.tableName ∧
    d.seriesRelation (labelsIndexName new.id) = false
  pkeyIndex : pkeyIndexName new.id ≠ new.tableName ∧
    d.seriesRelation (pkeyIndexName new.id) = false

/-- What the trigger has done when it returns: as far as the catalog goes, it did what
`Metrics.makeMetricTable` does. -/
structure Created (new : MetricRow) (d d' : Database) : Prop where
  catalog : Metrics.makeMetricTable new d.catalog = .ok () d'.catalog
  dataRelation : ∀ name, d'.dataRelation name = true ↔
    d.dataRelation name = true ∨ name = new.tableName ∨ name = dataIndexName new.id
  seriesRelation : ∀ name, d'.seriesRelation name = true ↔
    d.seriesRelation name = true ∨
      name = new.tableName ∨ name = labelsIndexName new.id ∨ name = pkeyIndexName new.id

/-- A catalog that differs in its labels only. -/
structure SameTables (c c' : Catalog) : Prop where
  metric : c'.metric = c.metric
  data : c'.data = c.data
  dataSeries : c'.dataSeries = c.dataSeries
  lastValue : c'.lastValue .metric = c.lastValue .metric

theorem getOrCreateLabelId_sameTables {key value : String} {id : Nat} {c c' : Catalog}
    (h : getOrCreateLabelId key value c = .ok id c') : SameTables c c' := by
  obtain ⟨-, rfl⟩ | ⟨-, -, rfl⟩ := getOrCreateLabelId_eq_ok h
  · exact ⟨rfl, rfl, rfl, rfl⟩
  · exact ⟨rfl, rfl, rfl, rfl⟩

section Relabelled

variable {d : Database} {c : Catalog} (h : SameTables d.catalog c) (name : String)

include h

theorem SameTables.dataRelation :
    Database.dataRelation { d with catalog := c } name = d.dataRelation name := by
  simp only [Database.dataRelation, h.data]

theorem SameTables.seriesRelation :
    Database.seriesRelation { d with catalog := c } name = d.seriesRelation name := by
  simp only [Database.seriesRelation, h.dataSeries]

end Relabelled

theorem onCatalog_eq_ok {α : Type} {x : Tx α} {d d' : Database} {a : α} :
    onCatalog x d = .ok a d' ↔ ∃ c, x d.catalog = .ok a c ∧ { d with catalog := c } = d' := by
  unfold onCatalog
  cases h : x d.catalog with
  | ok b c =>
    constructor
    · intro hok
      cases hok
      exact ⟨c, rfl, rfl⟩
    · rintro ⟨c', hc, rfl⟩
      cases hc
      rfl
  | error e c => simp

/-- The database that the trigger leaves behind if the label of the name was stored with the
given id in the given catalog. -/
def Database.withTables (d : Database) (new : MetricRow) (labelId : Nat) (c : Catalog) :
    Database :=
  let labelled : Database :=
    { (d.withDataTable new.tableName).withDataIndex (dataIndexName new.id) with catalog := c }
  ((labelled.withSeriesTable new.tableName ⟨labelId, new.id, []⟩).withSeriesIndex
    (labelsIndexName new.id)).withSeriesIndex (pkeyIndexName new.id)

theorem makeMetricTable_eq_ok {new : MetricRow} {d d' : Database} :
    makeMetricTable new d = .ok () d' ↔ TablesFree d new ∧ ∃ labelId c,
      getOrCreateLabelId metricNameLabelName new.metricName
        (d.withDataTable new.tableName).catalog = .ok labelId c ∧
      d.withTables new labelId c = d' := by
  simp only [makeMetricTable, bind_eq_ok, createDataTable_eq_ok, createDataIndex_eq_ok,
    createSeriesTable_eq_ok, createSeriesIndex_eq_ok, onCatalog_eq_ok]
  constructor
  · rintro ⟨_, _, ⟨hdata, rfl⟩, _, _, ⟨hindex, rfl⟩, labelId, _, ⟨c, hlabel, rfl⟩, _, _,
      ⟨hseries, rfl⟩, _, _, ⟨hlabels, rfl⟩, hpkey, rfl⟩
    have hsame := getOrCreateLabelId_sameTables hlabel
    simp only [Database.dataRelation_withDataTable, Database.seriesRelation_withSeriesTable,
      Database.seriesRelation_withSeriesIndex, hsame.seriesRelation,
      Database.seriesRelation_withDataIndex, Database.seriesRelation_withDataTable,
      Bool.or_eq_false_iff, decide_eq_false_iff_not] at hdata hindex hseries hlabels hpkey
    exact ⟨⟨hdata, hindex, hseries, hlabels, hpkey.2⟩, labelId, c, hlabel, rfl⟩
  · rintro ⟨hfree, labelId, c, hlabel, rfl⟩
    have hsame : SameTables ((d.withDataTable new.tableName).withDataIndex
        (dataIndexName new.id)).catalog c := getOrCreateLabelId_sameTables hlabel
    have hne := (labelsIndexName_ne_pkeyIndexName new.id new.id).symm
    refine ⟨(), _, ⟨hfree.dataTable, rfl⟩, (), _, ⟨?_, rfl⟩, labelId, _, ⟨c, hlabel, rfl⟩, (), _,
      ⟨?_, rfl⟩, (), _, ⟨?_, rfl⟩, ?_, rfl⟩
    · simp [hfree.dataIndex]
    · simp [hsame.seriesRelation, hfree.seriesTable]
    · simp [hsame.seriesRelation, hfree.labelsIndex]
    · simp [hsame.seriesRelation, hfree.pkeyIndex, hne]

theorem makeMetricTable_of_ok {new : MetricRow} {d d' : Database}
    (h : makeMetricTable new d = .ok () d') : TablesFree d new ∧ Created new d d' := by
  obtain ⟨hfree, labelId, c, hlabel, rfl⟩ := makeMetricTable_eq_ok.mp h
  have hsame : SameTables ((d.withDataTable new.tableName).withDataIndex
      (dataIndexName new.id)).catalog c := getOrCreateLabelId_sameTables hlabel
  have hdata : d.catalog.data new.tableName = none := by
    have hnone := hfree.dataTable.2
    simp only [Database.dataRelation, Bool.or_eq_false_iff] at hnone
    simpa using hnone.1
  have hseries : c.dataSeries new.tableName = none := by
    have hnone := hfree.seriesTable
    simp only [Database.seriesRelation, Bool.or_eq_false_iff] at hnone
    rw [show c.dataSeries = d.catalog.dataSeries from hsame.dataSeries]
    simpa using hnone.1
  refine ⟨hfree, ⟨?_, ?_, ?_⟩⟩
  · simp only [Metrics.makeMetricTable, bind_eq_ok, get_eq_ok]
    refine ⟨_, _, ⟨rfl, rfl⟩, ?_⟩
    rw [hdata]
    simp only [Option.isSome_none, Bool.false_eq_true, if_false, bind_eq_ok, set_eq_ok, get_eq_ok]
    refine ⟨(), _, rfl, labelId, c, hlabel, _, _, ⟨rfl, rfl⟩, ?_⟩
    rw [hseries]
    rfl
  · intro name
    simp only [Database.withTables, Database.dataRelation_withSeriesIndex,
      Database.dataRelation_withSeriesTable, hsame.dataRelation,
      Database.dataRelation_withDataIndex, Database.dataRelation_withDataTable,
      Bool.or_eq_true, decide_eq_true_eq]
    tauto
  · intro name
    simp only [Database.withTables, Database.seriesRelation_withSeriesIndex,
      Database.seriesRelation_withSeriesTable, hsame.seriesRelation,
      Database.seriesRelation_withDataIndex, Database.seriesRelation_withDataTable,
      Bool.or_eq_true, decide_eq_true_eq]
    tauto

theorem makeMetricTable_returns {new : MetricRow} {d : Database} (hfree : TablesFree d new) :
    ∃ d', makeMetricTable new d = .ok () d' := by
  obtain ⟨labelId, c, hlabel⟩ := getOrCreateLabelId_returns metricNameLabelName new.metricName
    (d.withDataTable new.tableName).catalog
  exact ⟨_, makeMetricTable_eq_ok.mpr ⟨hfree, labelId, c, hlabel, rfl⟩⟩

def SameLastId (d d' : Database) : Prop :=
  d'.catalog.lastValue .metric = d.catalog.lastValue .metric

theorem sameLastId_trans (d d' d'' : Database) (h : SameLastId d d') (h' : SameLastId d' d'') :
    SameLastId d d'' := Eq.trans h' h

theorem create_sameLastId {taken : Bool} {d d₁ : Database} (h : SameLastId d d₁) :
    Respects SameLastId (if taken then throw .duplicateRelation else set d₁ : DbTx Unit) d := by
  cases taken with
  | true =>
    change SameLastId d d
    rfl
  | false => exact respects_set h

theorem makeMetricTable_sameLastId (new : MetricRow) (d : Database) :
    Respects SameLastId (makeMetricTable new) d := by
  apply respects_bind sameLastId_trans
  · unfold createDataTable
    refine respects_get_bind ?_
    by_cases hname : new.tableName = ""
    · rw [if_pos hname]
      exact (rfl : SameLastId d d)
    · rw [if_neg hname]
      exact create_sameLastId rfl
  intro _ d₁ _
  apply respects_bind sameLastId_trans
  · exact create_sameLastId rfl
  intro _ d₂ _
  apply respects_bind sameLastId_trans
  · obtain ⟨id, c, hlabel⟩ :=
      getOrCreateLabelId_returns metricNameLabelName new.metricName d₂.catalog
    unfold Respects
    rw [onCatalog_eq_ok.mpr ⟨c, hlabel, rfl⟩]
    exact (getOrCreateLabelId_sameTables hlabel).lastValue
  intro labelId d₃ _
  apply respects_bind sameLastId_trans
  · exact create_sameLastId rfl
  intro _ d₄ _
  apply respects_bind sameLastId_trans
  · exact create_sameLastId rfl
  intro _ d₅ _
  exact create_sameLastId rfl

/-- The database when a call has taken its id. -/
def Database.numbered (d : Database) : Database :=
  { d with catalog.lastValue :=
    Function.update d.catalog.lastValue .metric (d.catalog.lastValue .metric + 1) }

theorem Database.lastValue_numbered (d : Database) :
    d.numbered.catalog.lastValue .metric = d.catalog.lastValue .metric + 1 := by
  simp [Database.numbered]

/-- The row that a call adds for a new name. -/
def Database.newRow (d : Database) (metricName : String) : MetricRow :=
  newMetric d.catalog metricName

def Database.inserted (d : Database) (metricName : String) : Database :=
  { d.numbered with catalog.metric := d.catalog.metric ++ [d.newRow metricName] }

/-- The ways in which a call can end, or not end. -/
inductive Outcome (indexable : String → Bool) (d : Database) (metricName : String) :
    EStateM.Result Failure Database (Option MetricRow) → Prop
  | limit (hlimit : ¬d.catalog.lastValue .metric + 1 < 2 ^ 31) :
      Outcome indexable d metricName (.error .sequenceLimit d)
  | found (hlimit : d.catalog.lastValue .metric + 1 < 2 ^ 31) {row : MetricRow}
      (hrow : d.catalog.metric? metricName = some row) :
      Outcome indexable d metricName (.ok (some row) d.numbered)
  | endless (hlimit : d.catalog.lastValue .metric + 1 < 2 ^ 31)
      (hnone : d.catalog.metric? metricName = none) {m : MetricRow} (hm : m ∈ d.catalog.metric)
      (htable : m.tableName = (d.newRow metricName).tableName) :
      Outcome indexable d metricName (.ok none d.numbered)
  | created (hlimit : d.catalog.lastValue .metric + 1 < 2 ^ 31)
      (hnone : d.catalog.metric? metricName = none)
      (htable : ∀ m ∈ d.catalog.metric, m.tableName ≠ (d.newRow metricName).tableName)
      (hindexable : indexable metricName = true) (hfree : TablesFree d (d.newRow metricName))
      {d' : Database} (hd' : Created (d.newRow metricName) (d.inserted metricName) d') :
      Outcome indexable d metricName (.ok (some (d.newRow metricName)) d')
  | refused (hlimit : d.catalog.lastValue .metric + 1 < 2 ^ 31)
      (hnone : d.catalog.metric? metricName = none)
      (htable : ∀ m ∈ d.catalog.metric, m.tableName ≠ (d.newRow metricName).tableName)
      (hclash : ¬(indexable metricName = true ∧ TablesFree d (d.newRow metricName)))
      (e : Failure) {d' : Database}
      (hlast : SameLastId d.numbered d') :
      Outcome indexable d metricName (.error e d')

section Runs

variable {indexable : String → Bool}

theorem nextMetricId_of_lt {d : Database} (h : d.catalog.lastValue .metric + 1 < 2 ^ 31) :
    nextMetricId d = .ok (d.catalog.lastValue .metric + 1) d.numbered := by
  rw [nextMetricId, get_bind, if_pos h, onCatalog_eq_ok]
  exact ⟨_, nextval_eq_ok.mpr ⟨rfl, rfl⟩, rfl⟩

theorem nextMetricId_of_ge {d : Database} (h : ¬d.catalog.lastValue .metric + 1 < 2 ^ 31) :
    nextMetricId d = .error .sequenceLimit d := by
  rw [nextMetricId, get_bind, if_neg h]
  rfl

theorem insertLoop_of_some {d d' : Database} {metricName : String} {newId : Nat} {row : MetricRow}
    (h : insertOrSelect indexable metricName newId d = .ok (some row) d') (n : Nat) :
    insertLoop indexable metricName newId (n + 1) d = .ok (some row) d' := by
  rw [insertLoop, bind_of_ok h]
  rfl

theorem insertLoop_of_error {d d' : Database} {metricName : String} {newId : Nat} {e : Failure}
    (h : insertOrSelect indexable metricName newId d = .error e d') (n : Nat) :
    insertLoop indexable metricName newId (n + 1) d = .error e d' := by
  rw [insertLoop, bind_eq_error]
  exact .inl h

theorem insertLoop_of_none {d : Database} {metricName : String} {newId : Nat}
    (h : insertOrSelect indexable metricName newId d = .ok none d) (n : Nat) :
    insertLoop indexable metricName newId n d = .ok none d := by
  induction n with
  | zero => rfl
  | succ n ih =>
    rw [insertLoop, bind_of_ok h]
    exact ih

/-- What the calls keep: the relations of the two schemas are those of the rows of the metrics, and
every row has the name and an id that its own call gave it. -/
structure Built (d : Database) : Prop where
  dataRelation : ∀ name, d.dataRelation name = true ↔
    ∃ m ∈ d.catalog.metric, name = m.tableName ∨ name = dataIndexName m.id
  seriesRelation : ∀ name, d.seriesRelation name = true ↔
    ∃ m ∈ d.catalog.metric,
      name = m.tableName ∨ name = labelsIndexName m.id ∨ name = pkeyIndexName m.id
  id_le : ∀ m ∈ d.catalog.metric, m.id ≤ d.catalog.lastValue .metric
  tableName_eq : ∀ m ∈ d.catalog.metric,
    m.tableName = pgNameUnique m.metricName (toString m.id)

section Outcome

variable {d : Database} {metricName : String}

/-- The insert meets a row that it must differ from. -/
def Database.conflict (d : Database) (metricName : String) : Bool :=
  d.catalog.metric.any fun m =>
    m.id = (d.newRow metricName).id ∨ m.metricName = metricName ∨
      m.tableName = (d.newRow metricName).tableName

theorem insertOrSelect_of_conflict (indexable : String → Bool)
    (h : d.conflict metricName = true) :
    insertOrSelect indexable metricName (d.catalog.lastValue .metric + 1) d.numbered =
      .ok (d.catalog.metric? metricName) d.numbered := by
  rw [insertOrSelect, get_bind]
  exact if_pos h ▸ rfl

theorem insertOrSelect_of_not_indexable (h : ¬d.conflict metricName = true)
    (hlong : indexable metricName = false) :
    insertOrSelect indexable metricName (d.catalog.lastValue .metric + 1) d.numbered =
      .error .indexRowSize d.numbered := by
  rw [insertOrSelect, get_bind]
  refine Eq.trans (congrFun (if_neg h) _) ?_
  rw [if_pos (by simp [hlong])]
  rfl

theorem insertOrSelect_of_not_conflict (h : ¬d.conflict metricName = true)
    (hindexable : indexable metricName = true) :
    insertOrSelect indexable metricName (d.catalog.lastValue .metric + 1) d.numbered =
      (makeMetricTable (d.newRow metricName) >>= fun _ => pure (some (d.newRow metricName)) :
        DbTx (Option MetricRow)) (d.inserted metricName) := by
  rw [insertOrSelect, get_bind]
  refine Eq.trans (congrFun (if_neg h) _) ?_
  rw [if_neg (by simp [hindexable])]
  rfl

theorem conflict_eq_true_iff (hid : ∀ m ∈ d.catalog.metric, m.id ≤ d.catalog.lastValue .metric) :
    d.conflict metricName = true ↔ ∃ m ∈ d.catalog.metric,
      m.metricName = metricName ∨ m.tableName = (d.newRow metricName).tableName := by
  simp only [Database.conflict, List.any_eq_true, decide_eq_true_eq]
  constructor
  · rintro ⟨m, hm, hnew | hsame⟩
    · have hle := hid m hm
      rw [hnew] at hle
      exact absurd hle (Nat.not_succ_le_self _)
    · exact ⟨m, hm, hsame⟩
  · rintro ⟨m, hm, hsame⟩
    exact ⟨m, hm, .inr hsame⟩

theorem tablesFree_inserted_iff :
    TablesFree (d.inserted metricName) (d.newRow metricName) ↔
      TablesFree d (d.newRow metricName) :=
  ⟨fun ⟨h₁, h₂, h₃, h₄, h₅⟩ => ⟨h₁, h₂, h₃, h₄, h₅⟩,
    fun ⟨h₁, h₂, h₃, h₄, h₅⟩ => ⟨h₁, h₂, h₃, h₄, h₅⟩⟩

theorem createMetricTable_outcome (indexable : String → Bool)
    (hid : ∀ m ∈ d.catalog.metric, m.id ≤ d.catalog.lastValue .metric)
    (metricName : String) (n : Nat) :
    Outcome indexable d metricName (createMetricTable indexable (n + 1) metricName d) := by
  unfold createMetricTable
  by_cases hlimit : d.catalog.lastValue .metric + 1 < 2 ^ 31
  swap
  · rw [(bind_eq_error _ _ _ _ _).mpr (.inl (nextMetricId_of_ge hlimit))]
    exact .limit hlimit
  rw [bind_of_ok (nextMetricId_of_lt hlimit)]
  by_cases hconflict : d.conflict metricName = true
  · have hstep := insertOrSelect_of_conflict indexable hconflict
    cases hrow : d.catalog.metric? metricName with
    | some row =>
      rw [hrow] at hstep
      rw [insertLoop_of_some hstep]
      exact .found hlimit hrow
    | none =>
      rw [hrow] at hstep
      rw [insertLoop_of_none hstep]
      obtain ⟨m, hm, hname | htable⟩ := (conflict_eq_true_iff hid).mp hconflict
      · exact absurd hname (Catalog.metric?_eq_none_iff.mp hrow m hm)
      · exact .endless hlimit hrow hm htable
  · have hother := hconflict
    rw [conflict_eq_true_iff hid] at hother
    have hnone : d.catalog.metric? metricName = none :=
      Catalog.metric?_eq_none_iff.mpr fun m hm hname => hother ⟨m, hm, .inl hname⟩
    have htable : ∀ m ∈ d.catalog.metric, m.tableName ≠ (d.newRow metricName).tableName :=
      fun m hm hsame => hother ⟨m, hm, .inr hsame⟩
    cases hindexable : indexable metricName with
    | false =>
      rw [insertLoop_of_error (insertOrSelect_of_not_indexable hconflict hindexable)]
      exact .refused hlimit hnone htable (by simp [hindexable]) _ rfl
    | true =>
    have hstep := insertOrSelect_of_not_conflict hconflict hindexable
    cases hmake : makeMetricTable (d.newRow metricName) (d.inserted metricName) with
    | ok _ d' =>
      obtain ⟨hfree, hcreated⟩ := makeMetricTable_of_ok hmake
      rw [bind_of_ok hmake] at hstep
      rw [insertLoop_of_some hstep]
      exact .created hlimit hnone htable hindexable (tablesFree_inserted_iff.mp hfree) hcreated
    | error e d' =>
      rw [(bind_eq_error _ _ _ _ _).mpr (.inl hmake)] at hstep
      rw [insertLoop_of_error hstep]
      have hlast : SameLastId (d.inserted metricName) d' :=
        (makeMetricTable_sameLastId _ _).of_error hmake
      refine .refused hlimit hnone htable ?_ e hlast
      rintro ⟨-, hfree⟩
      obtain ⟨d'', hok⟩ := makeMetricTable_returns (tablesFree_inserted_iff.mpr hfree)
      rw [hok] at hmake
      cases hmake

end Outcome

theorem Created.metric {new : MetricRow} {d d' : Database} (h : Created new d d') :
    d'.catalog.metric = d.catalog.metric := by
  obtain ⟨-, labelId, c₁, hlabel, -, hc⟩ := FunctionEdits.makeMetricTable_eq_ok h.catalog
  rw [hc]
  exact (getOrCreateLabelId_sameTables hlabel).metric

theorem Created.lastValue {new : MetricRow} {d d' : Database} (h : Created new d d') :
    d'.catalog.lastValue .metric = d.catalog.lastValue .metric := by
  obtain ⟨-, labelId, c₁, hlabel, -, hc⟩ := FunctionEdits.makeMetricTable_eq_ok h.catalog
  rw [hc]
  exact (getOrCreateLabelId_sameTables hlabel).lastValue

theorem built_empty : Built Database.empty := by
  refine ⟨?_, ?_, ?_, ?_⟩ <;> simp [Database.empty, Database.dataRelation,
    Database.seriesRelation, Catalog.empty]

theorem Built.of_lastValue {d : Database} (h : Built d) {last : Sequence → Nat}
    (hle : d.catalog.lastValue .metric ≤ last .metric) :
    Built { d with catalog.lastValue := last } :=
  ⟨h.dataRelation, h.seriesRelation, fun m hm => (h.id_le m hm).trans hle, h.tableName_eq⟩

theorem Built.created {d d' : Database} {metricName : String} (h : Built d)
    (hd' : Created (d.newRow metricName) (d.inserted metricName) d') : Built d' := by
  have hmetric : d'.catalog.metric = d.catalog.metric ++ [d.newRow metricName] := hd'.metric
  have hlast : d'.catalog.lastValue .metric = d.catalog.lastValue .metric + 1 :=
    hd'.lastValue.trans d.lastValue_numbered
  refine ⟨?_, ?_, ?_, ?_⟩
  · intro name
    rw [hd'.dataRelation, hmetric]
    have hd : (d.inserted metricName).dataRelation name = true ↔ _ := h.dataRelation name
    rw [hd]
    simp only [List.mem_append, List.mem_singleton, or_and_right, exists_or, exists_eq_left]
  · intro name
    rw [hd'.seriesRelation, hmetric]
    have hd : (d.inserted metricName).seriesRelation name = true ↔ _ := h.seriesRelation name
    rw [hd]
    simp only [List.mem_append, List.mem_singleton, or_and_right, exists_or, exists_eq_left]
  · intro m hm
    rw [hmetric, List.mem_append, List.mem_singleton] at hm
    rw [hlast]
    rcases hm with hm | rfl
    · exact (h.id_le m hm).trans (Nat.le_succ _)
    · exact le_rfl
  · intro m hm
    rw [hmetric, List.mem_append, List.mem_singleton] at hm
    rcases hm with hm | rfl
    · exact h.tableName_eq m hm
    · rfl

theorem call_step (indexable : String → Bool) {d : Database} (h : Built d) (metricName : String) :
    Built (call indexable d metricName) ∧
      (call indexable d metricName).catalog.lastValue .metric ≤ d.catalog.lastValue .metric + 1 ∧
      ∀ m ∈ (call indexable d metricName).catalog.metric,
        m ∈ d.catalog.metric ∨ m.metricName = metricName := by
  have hnumbered := d.lastValue_numbered
  have houtcome := createMetricTable_outcome indexable h.id_le metricName 0
  unfold call
  generalize createMetricTable indexable (0 + 1) metricName d = r at houtcome
  cases houtcome with
  | limit hlimit => exact ⟨h.of_lastValue le_rfl, Nat.le_succ _, fun m hm => .inl hm⟩
  | found hlimit hrow =>
    exact ⟨h.of_lastValue (hnumbered ▸ Nat.le_succ _), hnumbered.le, fun m hm => .inl hm⟩
  | endless hlimit hnone hm htable =>
    exact ⟨h.of_lastValue (hnumbered ▸ Nat.le_succ _), hnumbered.le, fun m hm => .inl hm⟩
  | created hlimit hnone htable hindexable hfree hd' =>
    refine ⟨h.created hd', (hd'.lastValue.trans hnumbered).le, ?_⟩
    intro m hm
    rw [hd'.metric] at hm
    rcases List.mem_append.mp hm with hold | hnew
    · exact .inl hold
    · rw [List.mem_singleton.mp hnew]
      exact .inr rfl
  | refused hlimit hnone htable hclash e hlast =>
    have hlast := Eq.trans hlast hnumbered
    exact ⟨h.of_lastValue (hlast ▸ Nat.le_succ _), hlast.le, fun m hm => .inl hm⟩

theorem built_calls (indexable : String → Bool) (metricNames : List String) :
    Built (calls indexable metricNames) ∧
      (calls indexable metricNames).catalog.lastValue .metric ≤ metricNames.length ∧
      ∀ m ∈ (calls indexable metricNames).catalog.metric, m.metricName ∈ metricNames := by
  induction metricNames using List.reverseRecOn with
  | nil => exact ⟨built_empty, le_rfl, fun m hm => by cases hm⟩
  | append_singleton names name ih =>
    obtain ⟨hbuilt, hlast, hnames⟩ := ih
    have hcalls : calls indexable (names ++ [name]) =
        call indexable (calls indexable names) name := by
      simp [calls, List.foldl_append]
    obtain ⟨hbuilt', hlast', hnames'⟩ := call_step indexable hbuilt name
    rw [hcalls, List.length_append]
    refine ⟨hbuilt', hlast'.trans (Nat.succ_le_succ hlast), ?_⟩
    intro m hm
    rw [List.mem_append, List.mem_singleton]
    exact (hnames' m hm).imp_left (hnames m)

/-- As far as the catalog goes, a call does what `Metrics.createMetricTable` does. -/
theorem createMetricTable_refines {d d' : Database} (h : Built d) {metricName : String} {n : Nat}
    {row : Option MetricRow}
    (hrun : createMetricTable indexable (n + 1) metricName d = .ok row d') :
    Metrics.createMetricTable metricName d.catalog =
      match row with
      | some row => .ok row d'.catalog
      | none => .error .loopNeverExits d'.catalog := by
  have hnext : nextval .metric d.catalog =
      .ok (d.catalog.lastValue .metric + 1) d.numbered.catalog := nextval_eq_ok.mpr ⟨rfl, rfl⟩
  have houtcome := createMetricTable_outcome indexable h.id_le metricName n
  rw [hrun] at houtcome
  rw [Metrics.createMetricTable, bind_of_ok hnext, get_bind]
  cases houtcome with
  | found hlimit hrow =>
    obtain ⟨hm, hname⟩ := Catalog.mem_of_metric? hrow
    have hconflict : d.conflict metricName = true :=
      (conflict_eq_true_iff h.id_le).mpr ⟨_, hm, .inl hname⟩
    have hrow' : d.numbered.catalog.metric? metricName = some _ := hrow
    refine Eq.trans (congrFun (if_pos hconflict) _) ?_
    rw [hrow']
    rfl
  | endless hlimit hnone hm htable =>
    have hconflict : d.conflict metricName = true :=
      (conflict_eq_true_iff h.id_le).mpr ⟨_, hm, .inr htable⟩
    have hnone' : d.numbered.catalog.metric? metricName = none := hnone
    refine Eq.trans (congrFun (if_pos hconflict) _) ?_
    rw [hnone']
    rfl
  | created hlimit hnone htable hindexable hfree hd' =>
    have hconflict : ¬d.conflict metricName = true := by
      rw [conflict_eq_true_iff h.id_le]
      rintro ⟨m, hm, hname | hsame⟩
      · exact Catalog.metric?_eq_none_iff.mp hnone m hm hname
      · exact htable m hm hsame
    refine Eq.trans (congrFun (if_neg hconflict) _) ?_
    exact (bind_of_ok rfl _).trans (bind_of_ok hd'.catalog _)

end Runs

/-- Every name fits into an index row. -/
def everyName (_ : String) : Bool := true

theorem createMetricTable_refines_empty : ∃ row d',
    createMetricTable everyName 1 "cpu" Database.empty = .ok (some row) d' ∧
      Metrics.createMetricTable "cpu" Database.empty.catalog = .ok row d'.catalog :=
  ⟨_, _, rfl, createMetricTable_refines built_empty
    (rfl : createMetricTable everyName 1 "cpu" _ = .ok (some _) _)⟩

/-- The names of a metric's indexes. -/
def indexNames (id : Nat) : List String :=
  [dataIndexName id, labelsIndexName id, pkeyIndexName id]

/-- The table of the new metric has a name, and it and its indexes have theirs for themselves. -/
structure NameFree (d : Database) (metricName : String) : Prop where
  named : (d.newRow metricName).tableName ≠ ""
  tables : ∀ m ∈ d.catalog.metric, m.tableName ≠ (d.newRow metricName).tableName ∧
    m.tableName ∉ indexNames (d.newRow metricName).id
  indexes : ∀ m ∈ d.catalog.metric ++ [d.newRow metricName],
    (d.newRow metricName).tableName ∉ indexNames m.id

theorem not_mem_indexNames {name : String} {id : Nat} : name ∉ indexNames id ↔
    name ≠ dataIndexName id ∧ name ≠ labelsIndexName id ∧ name ≠ pkeyIndexName id := by
  simp [indexNames]

theorem Built.dataRelation_eq_false {d : Database} (h : Built d) {name : String} :
    d.dataRelation name = false ↔
      ∀ m ∈ d.catalog.metric, name ≠ m.tableName ∧ name ≠ dataIndexName m.id := by
  rw [← Bool.not_eq_true, h.dataRelation]
  simp

theorem Built.seriesRelation_eq_false {d : Database} (h : Built d) {name : String} :
    d.seriesRelation name = false ↔ ∀ m ∈ d.catalog.metric,
      name ≠ m.tableName ∧ name ≠ labelsIndexName m.id ∧ name ≠ pkeyIndexName m.id := by
  rw [← Bool.not_eq_true, h.seriesRelation]
  simp

theorem nameFree_iff {d : Database} (h : Built d) (metricName : String) :
    NameFree d metricName ↔
      (∀ m ∈ d.catalog.metric, m.tableName ≠ (d.newRow metricName).tableName) ∧
        TablesFree d (d.newRow metricName) := by
  have hid : ∀ m ∈ d.catalog.metric, (d.newRow metricName).id ≠ m.id := by
    intro m hm heq
    have hle := h.id_le m hm
    rw [← heq] at hle
    exact Nat.not_succ_le_self _ hle
  constructor
  · intro hfree
    have htables : ∀ m ∈ d.catalog.metric, _ := fun m hm =>
      not_mem_indexNames.mp (hfree.tables m hm).2
    have hindexes : ∀ m ∈ d.catalog.metric, _ := fun m hm =>
      not_mem_indexNames.mp (hfree.indexes m (List.mem_append_left _ hm))
    have hown := not_mem_indexNames.mp
      (hfree.indexes _ (List.mem_append_right _ (List.mem_singleton.mpr rfl)))
    refine ⟨fun m hm => (hfree.tables m hm).1, ⟨⟨hfree.named, ?_⟩, ⟨hown.1.symm, ?_⟩, ?_,
      ⟨hown.2.1.symm, ?_⟩, ⟨hown.2.2.symm, ?_⟩⟩⟩
    · rw [h.dataRelation_eq_false]
      exact fun m hm => ⟨(hfree.tables m hm).1.symm, (hindexes m hm).1⟩
    · rw [h.dataRelation_eq_false]
      exact fun m hm => ⟨(htables m hm).1.symm, fun heq => hid m hm (eq_of_append_toString_eq heq)⟩
    · rw [h.seriesRelation_eq_false]
      exact fun m hm => ⟨(hfree.tables m hm).1.symm, (hindexes m hm).2⟩
    · rw [h.seriesRelation_eq_false]
      exact fun m hm => ⟨(htables m hm).2.1.symm,
        fun heq => hid m hm (eq_of_append_toString_eq heq), labelsIndexName_ne_pkeyIndexName _ _⟩
    · rw [h.seriesRelation_eq_false]
      exact fun m hm => ⟨(htables m hm).2.2.symm, (labelsIndexName_ne_pkeyIndexName _ _).symm,
        fun heq => hid m hm (eq_of_append_toString_eq heq)⟩
  · rintro ⟨htable, hfree⟩
    have hdata := h.dataRelation_eq_false.mp hfree.dataTable.2
    have hdataIndex := h.dataRelation_eq_false.mp hfree.dataIndex.2
    have hseries := h.seriesRelation_eq_false.mp hfree.seriesTable
    have hlabels := h.seriesRelation_eq_false.mp hfree.labelsIndex.2
    have hpkey := h.seriesRelation_eq_false.mp hfree.pkeyIndex.2
    refine ⟨hfree.dataTable.1, ?_, ?_⟩
    · intro m hm
      exact ⟨htable m hm, not_mem_indexNames.mpr
        ⟨(hdataIndex m hm).1.symm, (hlabels m hm).1.symm, (hpkey m hm).1.symm⟩⟩
    · intro m hm
      rw [not_mem_indexNames]
      rcases List.mem_append.mp hm with hold | hnew
      · exact ⟨(hdata m hold).2, (hseries m hold).2⟩
      · rw [List.mem_singleton.mp hnew]
        exact ⟨hfree.dataIndex.1.symm, hfree.labelsIndex.1.symm, hfree.pkeyIndex.1.symm⟩

/-- The call leaves the loop in its first iteration and returns the row of that very name. -/
def LeavesAtOnce (indexable : String → Bool) (d : Database) (metricName : String) : Prop :=
  ∃ row d', createMetricTable indexable 1 metricName d = .ok (some row) d' ∧
    row ∈ d'.catalog.metric ∧ row.metricName = metricName

theorem leavesAtOnce_iff (indexable : String → Bool) {d : Database} (h : Built d)
    (metricName : String) :
    LeavesAtOnce indexable d metricName ↔ d.catalog.lastValue .metric + 1 < 2 ^ 31 ∧
      ((∃ m ∈ d.catalog.metric, m.metricName = metricName) ∨
        indexable metricName = true ∧ NameFree d metricName) := by
  unfold LeavesAtOnce
  have houtcome := createMetricTable_outcome indexable h.id_le metricName 0
  rw [nameFree_iff h]
  generalize createMetricTable indexable (0 + 1) metricName d = r at houtcome
  cases houtcome with
  | limit hlimit =>
    constructor
    · rintro ⟨_, _, hrun, -⟩
      cases hrun
    · exact fun hok => absurd hok.1 hlimit
  | @found hlimit row hrow =>
    obtain ⟨hm, hname⟩ := Catalog.mem_of_metric? hrow
    exact iff_of_true ⟨row, _, rfl, hm, hname⟩ ⟨hlimit, .inl ⟨row, hm, hname⟩⟩
  | @endless hlimit hnone m hm htable =>
    constructor
    · rintro ⟨_, _, hrun, -⟩
      cases hrun
    · rintro ⟨-, ⟨m', hm', hname⟩ | ⟨-, hfree, -⟩⟩
      · exact absurd hname (Catalog.metric?_eq_none_iff.mp hnone m' hm')
      · exact absurd htable (hfree m hm)
  | @created hlimit hnone htable hindexable hfree d' hd' =>
    refine iff_of_true ⟨_, d', rfl, ?_, rfl⟩ ⟨hlimit, .inr ⟨hindexable, htable, hfree⟩⟩
    rw [hd'.metric]
    exact List.mem_append_right _ (List.mem_singleton.mpr rfl)
  | refused hlimit hnone htable hclash e hlast =>
    constructor
    · rintro ⟨_, _, hrun, -⟩
      cases hrun
    · rintro ⟨-, ⟨m', hm', hname⟩ | ⟨hindexable, -, hfree⟩⟩
      · exact absurd hname (Catalog.metric?_eq_none_iff.mp hnone m' hm')
      · exact absurd ⟨hindexable, hfree⟩ hclash

/-- What the names of the indexes start with. -/
def indexWords : List String :=
  ["data_series_id_time_", "series_labels_id_", "series_pkey_"]

/-- A name of one-byte characters that does not start like the name of an index. -/
structure Ordinary (metricName : String) : Prop where
  nonempty : metricName ≠ ""
  ascii : Ascii metricName
  notIndex : ∀ word ∈ indexWords, ¬word.toList <+: metricName.toList

theorem exists_word_of_mem_indexNames {name : String} {id : Nat} (h : name ∈ indexNames id) :
    ∃ word ∈ indexWords, word.toList <+: name.toList := by
  simp only [indexNames, List.mem_cons, List.not_mem_nil, or_false] at h
  rcases h with rfl | rfl | rfl
  · exact ⟨_, List.mem_cons_self, toList_prefix_append _ _⟩
  · exact ⟨_, List.mem_cons_of_mem _ List.mem_cons_self, toList_prefix_append _ _⟩
  · exact ⟨_, List.mem_cons_of_mem _ (List.mem_cons_of_mem _ List.mem_cons_self),
      toList_prefix_append _ _⟩

theorem Ordinary.not_mem_indexNames {metricName : String} (h : Ordinary metricName) {id : Nat}
    (hid : id < 2 ^ 31) (id' : Nat) :
    pgNameUnique metricName (toString id) ∉ indexNames id' := by
  intro hmem
  obtain ⟨word, hword, hstarts⟩ := exists_word_of_mem_indexNames hmem
  apply h.notIndex word hword
  by_cases hshort : metricName.length < 62
  · rwa [pgNameUnique_of_short _ h.ascii hshort] at hstarts
  · have hlen := length_toString_nat hid.le
    have hwords : ∀ word ∈ indexWords, word.toList.length ≤ 20 := by decide +kernel
    have hwordLen := hwords word hword
    rw [toList_pgNameUnique_of_long h.ascii (ascii_toString id) (by omega) (by omega)] at hstarts
    refine (List.prefix_of_prefix_length_le hstarts (List.prefix_append _ _) ?_).trans
      (List.take_prefix _ _)
    have hmetric : metricName.toList.length = metricName.length := String.length_toList
    rw [List.length_take, hmetric]
    omega

theorem Ordinary.tableName_ne {metricName : String} (h : Ordinary metricName) {id : Nat}
    (hid : id < 2 ^ 31) : pgNameUnique metricName (toString id) ≠ "" := by
  by_cases hshort : metricName.length < 62
  · rw [pgNameUnique_of_short _ h.ascii hshort]
    exact h.nonempty
  · have hlen := length_toString_nat hid.le
    intro hempty
    have hlist := congrArg String.toList hempty
    rw [toList_pgNameUnique_of_long h.ascii (ascii_toString id) (by omega) (by omega)] at hlist
    simp at hlist

theorem nameFree_of_ordinary {d : Database} (h : Built d)
    (hlimit : d.catalog.lastValue .metric + 1 < 2 ^ 31)
    (hrows : ∀ m ∈ d.catalog.metric, Ordinary m.metricName) {metricName : String}
    (hname : Ordinary metricName) (hnew : ∀ m ∈ d.catalog.metric, m.metricName ≠ metricName) :
    NameFree d metricName := by
  have hid : ∀ m ∈ d.catalog.metric, m.id < 2 ^ 31 := fun m hm =>
    lt_of_le_of_lt (h.id_le m hm) (by omega)
  have hlen : ∀ {id : Nat}, id < 2 ^ 31 → (toString id ++ "").length < 62 := by
    intro id hid
    have := length_toString_nat hid.le
    rw [String.append_empty]
    omega
  refine ⟨hname.tableName_ne hlimit, ?_, ?_⟩
  · intro m hm
    constructor
    · intro heq
      rw [h.tableName_eq m hm] at heq
      have heq : pgNameUnique m.metricName (toString m.id ++ "") =
          pgNameUnique metricName (toString (d.catalog.lastValue .metric + 1) ++ "") := by
        rw [String.append_empty, String.append_empty]
        exact heq
      rcases pgNameUnique_eq (hrows m hm).ascii hname.ascii ascii_empty (hlen (hid m hm))
        (hlen hlimit) heq with hsame | hsame
      · exact hnew m hm hsame
      · have := h.id_le m hm
        omega
    · rw [h.tableName_eq m hm]
      exact (hrows m hm).not_mem_indexNames (hid m hm) _
  · intro m _
    exact hname.not_mem_indexNames hlimit _

/-- After any run of calls, a call leaves the loop at once exactly if its name has a row already,
or fits into an index row and its table has a name, and that and those of its indexes are not
taken, as long as there are ids left. The names are free if no call was for an empty name, one with
a character of several bytes or one that starts like the name of an index. -/
theorem createMetricTable_leaves (indexable : String → Bool) (metricNames : List String)
    (metricName : String) :
    (LeavesAtOnce indexable (calls indexable metricNames) metricName ↔
      (calls indexable metricNames).catalog.lastValue .metric + 1 < 2 ^ 31 ∧
        ((∃ m ∈ (calls indexable metricNames).catalog.metric, m.metricName = metricName) ∨
          indexable metricName = true ∧ NameFree (calls indexable metricNames) metricName)) ∧
    ((∀ name ∈ metricName :: metricNames, Ordinary name) → metricNames.length + 1 < 2 ^ 31 →
      indexable metricName = true →
        LeavesAtOnce indexable (calls indexable metricNames) metricName) := by
  obtain ⟨hbuilt, hlast, hnames⟩ := built_calls indexable metricNames
  have hleaves := leavesAtOnce_iff indexable hbuilt metricName
  refine ⟨hleaves, ?_⟩
  intro hordinary hlength hindexable
  have hlimit : (calls indexable metricNames).catalog.lastValue .metric + 1 < 2 ^ 31 := by omega
  refine hleaves.mpr ⟨hlimit, ?_⟩
  by_cases hrow : ∃ m ∈ (calls indexable metricNames).catalog.metric, m.metricName = metricName
  · exact .inl hrow
  · refine .inr ⟨hindexable, nameFree_of_ordinary hbuilt hlimit ?_ ?_ ?_⟩
    · exact fun m hm => hordinary _ (List.mem_cons_of_mem _ (hnames m hm))
    · exact hordinary _ List.mem_cons_self
    · exact fun m hm heq => hrow ⟨m, hm, heq⟩

/-- Two names of 41 characters and 81 bytes each, that differ in their last character only. -/
def longName (last : Char) : String := String.ofList (List.replicate 40 'é' ++ [last])

theorem insertLoop_longName (n : Nat) : ∃ d',
    createMetricTable everyName n (longName 'b') (calls everyName [longName 'a']) =
      .ok none d' := by
  have hconflict : (calls everyName [longName 'a']).conflict (longName 'b') = true := by
    decide +kernel
  have hnone : (calls everyName [longName 'a']).catalog.metric? (longName 'b') = none := by
    decide +kernel
  have hstep := insertOrSelect_of_conflict everyName hconflict
  rw [hnone] at hstep
  refine ⟨(calls everyName [longName 'a']).numbered, ?_⟩
  rw [createMetricTable, bind_of_ok (nextMetricId_of_lt (by decide +kernel)),
    insertLoop_of_none hstep]

/-- The second long name gets the table name of the first, so that its call inserts nothing and
finds nothing in any iteration. The table of a metric that is named like the index of another one
cannot be created. -/
theorem createMetricTable_stuck :
    (∀ n, ∃ d', createMetricTable everyName n (longName 'b') (calls everyName [longName 'a']) =
      .ok none d') ∧
      ¬LeavesAtOnce everyName (calls everyName ["up"]) "data_series_id_time_1" := by
  refine ⟨insertLoop_longName, ?_⟩
  rw [leavesAtOnce_iff everyName (built_calls everyName ["up"]).1]
  have hname : ∀ m ∈ (calls everyName ["up"]).catalog.metric,
      m.metricName ≠ "data_series_id_time_1" := by
    decide +kernel
  have hindex : ∃ m ∈ (calls everyName ["up"]).catalog.metric,
      ((calls everyName ["up"]).newRow "data_series_id_time_1").tableName ∈ indexNames m.id := by
    decide +kernel
  rintro ⟨-, ⟨m, hm, heq⟩ | ⟨-, hfree⟩⟩
  · exact hname m hm heq
  · obtain ⟨m, hm, hmem⟩ := hindex
    exact hfree.indexes m (List.mem_append_left _ hm) hmem

end TimescalePrometheus.Sql.MetricLoop
