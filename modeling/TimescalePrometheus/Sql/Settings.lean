import TimescalePrometheus.Sql.CatalogRuns

/-!
The settings of the metrics: the columns `retention_period` and
`default_chunk_interval` of the metric table, the rows of the table `default`, and
the SQL functions that read and write them.
-/

namespace TimescalePrometheus.Sql.Settings

open Lib.Runs Lib.Transactions Sql.Tables Sql.Metrics Sql.Retention Sql.CatalogEdits
open Sql.FunctionEdits Sql.Sequences Sql.Invariant Sql.Drops

/-- Two columns of a row of the metric table, with their defaults. Intervals are in
microseconds. -/
structure MetricSettings where
  retentionPeriod : Option Int := none
  defaultChunkInterval : Bool := true
  deriving DecidableEq

/-- The catalog with the columns of the metric rows, by row id, the two rows of the
table `default`, and the intervals that `set_chunk_time_interval` gave to data tables. -/
structure Database where
  catalog : Catalog
  settings : Nat → MetricSettings
  retentionPeriod : Int
  chunkInterval : Int
  chunkTimeInterval : String → Option Int

/-- What the preinstall scripts leave behind. -/
def Database.initial : Database where
  catalog := Catalog.empty
  settings := fun _ => {}
  retentionPeriod := 90 * 24 * hour
  chunkInterval := 8 * hour
  chunkTimeInterval := fun _ => none

/-- A function on the whole database. -/
abbrev SettingsTx := EStateM Abort Database

def onCatalog {α : Type} (x : Tx α) : SettingsTx α := fun db =>
  match x db.catalog with
  | .ok a c => .ok a { db with catalog := c }
  | .error e c => .error e { db with catalog := c }

/-- Runs a function as a transaction of its own, as for the catalog alone. -/
def transaction {α : Type} (x : SettingsTx α) (db : Database) : Option α × Database :=
  match x db with
  | .ok a db' => (some a, db')
  | .error _ db' =>
    (none, { db with catalog := { db.catalog with lastValue := db'.catalog.lastValue } })

/-- What an unqualified name of a parameter denotes in the body of an SQL function: a
column of that name that is visible there, also one of an outer query, hides it. -/
def unqualified {α : Type} (visibleColumn : Option α) (parameter : α) : α :=
  visibleColumn.getD parameter

/-- `UPDATE metric SET ... WHERE ...`. -/
def Database.updateMetric (db : Database) (condition : MetricRow → Bool)
    (assign : MetricSettings → MetricSettings) : Database :=
  { db with
    settings := fun id =>
      if db.catalog.metric.any fun m => m.id = id ∧ condition m then assign (db.settings id)
      else db.settings id }

/-- The ids that `get_metric_table_name_if_exists` returns. -/
def getMetricTableNameIfExists (c : Catalog) (metricName : String) : List Nat :=
  (c.metric.filter fun m => m.metricName = metricName).map (·.id)

/-- Both setters create the metric first, so that its row exists for the update. The
parameter is qualified in both of their statements. -/
def createAndUpdate (metricName : String) (assign : MetricSettings → MetricSettings) :
    SettingsTx Unit := do
  let _ ← onCatalog (getOrCreateMetricTableName metricName)
  let db ← get
  set (db.updateMetric (fun m => m.id ∈ getMetricTableNameIfExists db.catalog metricName) assign)

/-- The statement of both resetters. The subquery is part of an update of the metric
table, whose column `metric_name` is visible in it. -/
def updateUnqualified (metricName : String) (assign : MetricSettings → MetricSettings) :
    SettingsTx Unit := do
  let db ← get
  set (db.updateMetric
    (fun m => some m.id = (getMetricTableNameIfExists db.catalog
      (unqualified (some m.metricName) metricName)).head?)
    assign)

/-- `stagger` applies the random factor that keeps the chunks of different metrics apart, and is
`none` where `set_chunk_time_interval` refuses the interval. -/
def setChunkIntervalOnMetricTable (stagger : Int → Option Int) (metricName : String)
    (newInterval : Int) : SettingsTx Unit := do
  let (m, _) ← onCatalog (getOrCreateMetricTableName (unqualified none metricName))
  match stagger newInterval with
  | none => throw .invalidParameterValue
  | some interval =>
    let db ← get
    set { db with
      chunkTimeInterval := Function.update db.chunkTimeInterval m.tableName (some interval) }

def setMetricChunkInterval (stagger : Int → Option Int) (metricName : String)
    (chunkInterval : Int) : SettingsTx Bool := do
  createAndUpdate metricName fun row => { row with defaultChunkInterval := false }
  setChunkIntervalOnMetricTable stagger (unqualified none metricName) chunkInterval
  return true

def resetMetricChunkInterval (stagger : Int → Option Int) (metricName : String) :
    SettingsTx Bool := do
  updateUnqualified metricName fun row => { row with defaultChunkInterval := true }
  let db ← get
  setChunkIntervalOnMetricTable stagger (unqualified none metricName) db.chunkInterval
  return true

def getMetricRetentionPeriod (db : Database) (metricName : String) : Int :=
  let overridden := (db.catalog.metric.filter fun m =>
    m.id ∈ getMetricTableNameIfExists db.catalog metricName).map fun m =>
      (db.settings m.id).retentionPeriod.getD db.retentionPeriod
  -- `UNION ALL` the default, `LIMIT 1`
  overridden.head?.getD db.retentionPeriod

def setDefaultRetentionPeriod (retentionPeriod : Int) : SettingsTx Bool := do
  let db ← get
  set { db with retentionPeriod }
  return true

/-- `set_metric_retention_period`. -/
def setMetricRetentionPeriod (metricName : String) (newRetentionPeriod : Int) :
    SettingsTx Bool := do
  createAndUpdate metricName fun row => { row with retentionPeriod := some newRetentionPeriod }
  return true

def resetMetricRetentionPeriod (metricName : String) : SettingsTx Bool := do
  updateUnqualified metricName fun row => { row with retentionPeriod := none }
  return true

/-- A call of one of the functions. -/
inductive Call where
  | setDefaultRetentionPeriod (retentionPeriod : Int)
  | setMetricRetentionPeriod (metricName : String) (newRetentionPeriod : Int)
  | resetMetricRetentionPeriod (metricName : String)
  | setMetricChunkInterval (stagger : Int → Option Int) (metricName : String) (chunkInterval : Int)
  | resetMetricChunkInterval (stagger : Int → Option Int) (metricName : String)

/-- The metric that a per-metric call is about. -/
def Call.metric? : Call → Option String
  | .setDefaultRetentionPeriod _ => none
  | .setMetricRetentionPeriod metricName _ => some metricName
  | .resetMetricRetentionPeriod metricName => some metricName
  | .setMetricChunkInterval _ metricName _ => some metricName
  | .resetMetricChunkInterval _ metricName => some metricName

/-- The function of a call. -/
def Call.exec : Call → SettingsTx Bool
  | .setDefaultRetentionPeriod retentionPeriod =>
    Settings.setDefaultRetentionPeriod retentionPeriod
  | .setMetricRetentionPeriod metricName newRetentionPeriod =>
    Settings.setMetricRetentionPeriod metricName newRetentionPeriod
  | .resetMetricRetentionPeriod metricName => Settings.resetMetricRetentionPeriod metricName
  | .setMetricChunkInterval stagger metricName chunkInterval =>
    Settings.setMetricChunkInterval stagger metricName chunkInterval
  | .resetMetricChunkInterval stagger metricName =>
    Settings.resetMetricChunkInterval stagger metricName

/-- What the retention settings are for: a default, and the metrics that override it. -/
structure Overrides where
  default : Int
  period : String → Option Int

/-- The retention period of a metric. -/
def Overrides.lookup (o : Overrides) (metricName : String) : Int :=
  (o.period metricName).getD o.default

/-- What a call that returns is meant to do. -/
def Overrides.after (o : Overrides) : Call → Overrides
  | .setDefaultRetentionPeriod retentionPeriod => { o with default := retentionPeriod }
  | .setMetricRetentionPeriod metricName newRetentionPeriod =>
    { o with period := Function.update o.period metricName (some newRetentionPeriod) }
  | .resetMetricRetentionPeriod metricName =>
    { o with period := Function.update o.period metricName none }
  | .setMetricChunkInterval .. | .resetMetricChunkInterval .. => o

/-- The database and, beside it, the override map that its calls stand for. -/
structure State where
  db : Database
  meant : Overrides

def State.initial : State where
  db := .initial
  meant := { default := 90 * 24 * hour, period := fun _ => none }

/-- Calls come in any order, with any calls of the catalog's own functions between
them. A call that aborts is meant to do nothing. -/
inductive Action where
  | settings (call : Call)
  | catalog (a : CatalogRuns.Action)

def step (s : State) : Action → State
  | .settings call =>
    let (returned, db) := transaction call.exec s.db
    { db, meant := if returned.isSome then s.meant.after call else s.meant }
  | .catalog a => { s with db := { s.db with catalog := CatalogRuns.step s.db.catalog a } }

/-- The database answers as it is meant to. -/
def Refines (s : State) : Prop :=
  ∀ metricName, getMetricRetentionPeriod s.db metricName = s.meant.lookup metricName

/-- A per-metric call leaves the settings of every other metric's row as they are. -/
def OthersUnchanged (s : State) : Action → Prop
  | .catalog _ => True
  | .settings call =>
    ∀ metricName, call.metric? = some metricName → ∀ m ∈ s.db.catalog.metric,
      m.metricName ≠ metricName →
        (step s (.settings call)).db.settings m.id = s.db.settings m.id

/-- The metric has its tables, or `get_or_create_metric_table_name` can create them. -/
def Creatable (c : Catalog) (metricName : String) : Prop :=
  (Tables.transaction (getOrCreateMetricTableName metricName) c).1.isSome = true

/-- No metric but the one that is reset has an override of the setting. -/
def OthersAtDefault (s : State) : Action → Prop
  | .settings (.resetMetricRetentionPeriod metricName) =>
    ∀ m ∈ s.db.catalog.metric, m.metricName ≠ metricName →
      (s.db.settings m.id).retentionPeriod = none
  | .settings (.resetMetricChunkInterval stagger metricName) =>
    Creatable s.db.catalog metricName ∧ (stagger s.db.chunkInterval).isSome = true →
      ∀ m ∈ s.db.catalog.metric, m.metricName ≠ metricName →
        (s.db.settings m.id).defaultChunkInterval = true
  | _ => True

/-- Metrics stay under their id and name, and a new metric has an id that the sequence
had not handed out. -/
structure MetricsGrow (c c' : Catalog) : Prop where
  mem : ∀ m ∈ c.metric, ∃ m' ∈ c'.metric, m'.id = m.id ∧ m'.metricName = m.metricName
  cases : ∀ m' ∈ c'.metric, (∃ m ∈ c.metric, m.id = m'.id ∧ m.metricName = m'.metricName) ∨
    c.lastValue .metric < m'.id
  lastValue : c.lastValue .metric ≤ c'.lastValue .metric

section Grow

variable {A : String → Series.LabelSet → Prop} {c c' : Catalog}

theorem MetricsGrow.of_eq (hmetric : c'.metric = c.metric)
    (hlast : c.lastValue .metric ≤ c'.lastValue .metric) : MetricsGrow c c' where
  mem m hm := ⟨m, hmetric ▸ hm, rfl, rfl⟩
  cases m' hm' := .inl ⟨m', hmetric ▸ hm', rfl, rfl⟩
  lastValue := hlast

theorem metric_new_of_edit (h : Edit A c c') {m' : MetricRow} (hm' : m' ∈ c'.metric) :
    (∃ m ∈ c.metric, m.id = m'.id ∧ m.metricName = m'.metricName) ∨
      c.lastValue .metric < m'.id := by
  cases h with
  | unobserved h => exact .inl ⟨m', h.metric ▸ hm', rfl, rfl⟩
  | addLabel | addPosition | addSeries => exact .inl ⟨m', hm', rfl, rfl⟩
  | addMetric metricName labelId =>
    simp only [withMetric, List.mem_append, List.mem_singleton] at hm'
    rcases hm' with hm' | rfl
    · exact .inl ⟨m', hm', rfl, rfl⟩
    · exact .inr (Nat.lt_succ_self _)
  | completeMetric metricId =>
    obtain ⟨m, hm, rfl⟩ := List.mem_map.mp hm'
    refine .inl ⟨m, hm, ?_⟩
    unfold completed
    split <;> exact ⟨rfl, rfl⟩

theorem MetricsGrow.of_edits (h : Edits A c c') : MetricsGrow c c' := by
  induction h with
  | refl => exact .of_eq rfl le_rfl
  | @tail c₁ c₂ hedits hedit ih =>
    refine ⟨?_, ?_, ih.lastValue.trans (hedit.lastValue_le .metric)⟩
    · intro m hm
      obtain ⟨m₁, hm₁, hid₁, hname₁⟩ := ih.mem m hm
      obtain ⟨m₂, hm₂, hname₂, -, hid₂⟩ := hedit.metric_mem hm₁
      exact ⟨m₂, hm₂, hid₂.trans hid₁, hname₂.trans hname₁⟩
    · intro m₂ hm₂
      rcases metric_new_of_edit hedit hm₂ with ⟨m₁, hm₁, hid₁, hname₁⟩ | hnew
      · rw [← hid₁, ← hname₁]
        exact ih.cases m₁ hm₁
      · exact .inr (ih.lastValue.trans_lt hnew)

theorem MetricsGrow.of_step (hwf : WellFormed c) (a : CatalogRuns.Action) :
    MetricsGrow c (CatalogRuns.step c a) := by
  by_cases hdrop : a.isDrop = false
  · refine .of_edits (CatalogRuns.step_edits (A := fun _ _ => True) a ?_ hdrop)
    cases a <;> simp [CatalogRuns.Action.Stores]
  · cases a with
    | dropMetricChunks metricName olderThan =>
      obtain ⟨hedits, -⟩ | ⟨m, table, p, cut, -, -, -, -, heq⟩ :=
        CatalogRuns.step_drop (A := fun _ _ => True) hwf metricName olderThan
      · exact .of_edits hedits
      · rw [heq]
        exact .of_eq rfl le_rfl
    | _ => simp [CatalogRuns.Action.isDrop] at hdrop

end Grow

section Statements

variable {db db' : Database} {metricName : String}

theorem mem_getMetricTableNameIfExists {c : Catalog} (hwf : WellFormed c) {m : MetricRow}
    (hm : m ∈ c.metric) :
    m.id ∈ getMetricTableNameIfExists c metricName ↔ m.metricName = metricName := by
  simp only [getMetricTableNameIfExists, List.mem_map, List.mem_filter, decide_eq_true_eq]
  constructor
  · rintro ⟨m', ⟨hm', hname⟩, hid⟩
    rw [hwf.metrics.idInj m hm m' hm' hid.symm, hname]
  · exact fun hname => ⟨m, ⟨hm, hname⟩, rfl⟩

theorem head?_getMetricTableNameIfExists {c : Catalog} (hwf : WellFormed c) {m : MetricRow}
    (hm : m ∈ c.metric) :
    (getMetricTableNameIfExists c m.metricName).head? = some m.id := by
  have hfind := metric?_of_mem hwf hm
  rw [getMetricTableNameIfExists, List.head?_map, List.head?_filter]
  exact congrArg (Option.map (·.id)) hfind

theorem updateMetric_of_mem (db : Database) (hwf : WellFormed db.catalog) {m : MetricRow}
    (hm : m ∈ db.catalog.metric) (condition : MetricRow → Bool)
    (assign : MetricSettings → MetricSettings) :
    (db.updateMetric condition assign).settings m.id =
      if condition m then assign (db.settings m.id) else db.settings m.id := by
  have hany : (db.catalog.metric.any fun m' => m'.id = m.id ∧ condition m') = condition m := by
    rw [Bool.eq_iff_iff]
    simp only [List.any_eq_true, Bool.decide_and, Bool.and_eq_true, decide_eq_true_eq,
      Bool.decide_eq_true]
    constructor
    · rintro ⟨m', hm', hid, hcond⟩
      rw [← hwf.metrics.idInj m' hm' m hm hid]
      exact hcond
    · exact fun hcond => ⟨m, hm, rfl, hcond⟩
  simp only [Database.updateMetric, hany]

theorem updateMetric_of_not_mem (db : Database) {id : Nat}
    (hid : ∀ m ∈ db.catalog.metric, m.id ≠ id) (condition : MetricRow → Bool)
    (assign : MetricSettings → MetricSettings) :
    (db.updateMetric condition assign).settings id = db.settings id := by
  simp only [Database.updateMetric, ite_eq_right_iff, List.any_eq_true, decide_eq_true_eq]
  rintro ⟨m, hm, heq, -⟩
  exact absurd heq (hid m hm)

/-- The metric table grew, and the row of a metric went from its settings before to
what `assign` makes of them. -/
structure Updates (assign : String → MetricSettings → MetricSettings) (db db' : Database) :
    Prop where
  wf : WellFormed db'.catalog
  grow : MetricsGrow db.catalog db'.catalog
  rows : ∀ m ∈ db'.catalog.metric, db'.settings m.id = assign m.metricName (db.settings m.id)
  rest : ∀ id, (∀ m ∈ db'.catalog.metric, m.id ≠ id) → db'.settings id = db.settings id

/-- A new row has the defaults of the metric table. -/
def Fresh (db : Database) : Prop :=
  ∀ id, db.catalog.lastValue .metric < id → db.settings id = {}

theorem onCatalog_eq_ok {α : Type} {x : Tx α} {a : α} :
    onCatalog x db = .ok a db' ↔
      ∃ c, x db.catalog = .ok a c ∧ { db with catalog := c } = db' := by
  unfold onCatalog
  cases hx : x db.catalog <;> simp

theorem updates_of_settings_eq (hwf : WellFormed db'.catalog)
    (hgrow : MetricsGrow db.catalog db'.catalog) (hsettings : db'.settings = db.settings) :
    Updates (fun _ row => row) db db' where
  wf := hwf
  grow := hgrow
  rows m _ := by rw [hsettings]
  rest id _ := by rw [hsettings]

theorem createAndUpdate_updates (hwf : WellFormed db.catalog)
    {assign : MetricSettings → MetricSettings}
    (h : createAndUpdate metricName assign db = .ok () db') :
    Updates (fun name row => if name = metricName then assign row else row) db db' ∧
      (∃ m, db'.catalog.metric? metricName = some m) ∧
      db'.retentionPeriod = db.retentionPeriod := by
  simp only [createAndUpdate, bind_eq_ok, onCatalog_eq_ok, get_eq_ok, set_eq_ok] at h
  obtain ⟨⟨m, new⟩, _, ⟨c, hcreate, rfl⟩, _, _, ⟨rfl, rfl⟩, rfl⟩ := h
  obtain ⟨hedits, hm, rfl⟩ :=
    getOrCreateMetricTableName_edits (A := fun _ _ => True) hcreate
  have hwf' : WellFormed c := hwf.edits hedits
  refine ⟨⟨hwf', .of_edits hedits, ?_, ?_⟩, ⟨m, metric?_of_mem hwf' hm⟩, rfl⟩
  · intro m' hm'
    rw [updateMetric_of_mem { db with catalog := c } hwf' hm']
    simp only [decide_eq_true_eq, mem_getMetricTableNameIfExists hwf' hm']
  · exact fun id hid => updateMetric_of_not_mem { db with catalog := c } hid _ _

theorem updateUnqualified_updates (hwf : WellFormed db.catalog)
    {assign : MetricSettings → MetricSettings}
    (h : updateUnqualified metricName assign db = .ok () db') :
    Updates (fun _ row => assign row) db db' ∧ db'.catalog = db.catalog ∧
      db'.retentionPeriod = db.retentionPeriod ∧ db'.chunkInterval = db.chunkInterval := by
  simp only [updateUnqualified, bind_eq_ok, get_eq_ok, set_eq_ok] at h
  obtain ⟨_, _, ⟨rfl, rfl⟩, rfl⟩ := h
  refine ⟨⟨hwf, .of_eq rfl le_rfl, ?_, ?_⟩, rfl, rfl, rfl⟩
  · intro m hm
    rw [updateMetric_of_mem db hwf hm]
    simp [unqualified, head?_getMetricTableNameIfExists hwf hm]
  · exact fun id hid => updateMetric_of_not_mem db hid _ _

theorem setChunkIntervalOnMetricTable_eq_ok {stagger : Int → Option Int} {newInterval : Int}
    (h : setChunkIntervalOnMetricTable stagger metricName newInterval db = .ok () db') :
    (∃ m, getOrCreateMetricTableName metricName db.catalog = .ok m db'.catalog) ∧
      (stagger newInterval).isSome = true ∧ db'.settings = db.settings ∧
      db'.retentionPeriod = db.retentionPeriod := by
  simp only [setChunkIntervalOnMetricTable, unqualified, Option.getD_none, bind_eq_ok,
    onCatalog_eq_ok] at h
  obtain ⟨m, _, ⟨c, hcreate, rfl⟩, h⟩ := h
  cases hstagger : stagger newInterval with
  | none => simp only [hstagger, throw_ne_ok] at h
  | some interval =>
    simp only [hstagger, bind_eq_ok, get_eq_ok, set_eq_ok] at h
    obtain ⟨_, _, ⟨rfl, rfl⟩, rfl⟩ := h
    exact ⟨⟨m, hcreate⟩, rfl, rfl, rfl⟩

end Statements

section Calls

variable {db db' : Database}

/-- What a call that returns makes of the row of the metric with the given name. -/
def Call.assign : Call → String → MetricSettings → MetricSettings
  | .setDefaultRetentionPeriod _, _, row => row
  | .setMetricRetentionPeriod metricName newRetentionPeriod, name, row =>
    if name = metricName then { row with retentionPeriod := some newRetentionPeriod } else row
  | .resetMetricRetentionPeriod _, _, row => { row with retentionPeriod := none }
  | .setMetricChunkInterval _ metricName _, name, row =>
    if name = metricName then { row with defaultChunkInterval := false } else row
  | .resetMetricChunkInterval _ _, _, row => { row with defaultChunkInterval := true }

theorem setMetricChunkInterval_updates (hwf : WellFormed db.catalog) {stagger : Int → Option Int}
    {metricName : String} {chunkInterval : Int} {b : Bool}
    (h : setMetricChunkInterval stagger metricName chunkInterval db = .ok b db') :
    Updates (Call.setMetricChunkInterval stagger metricName chunkInterval).assign db db' ∧
      db'.retentionPeriod = db.retentionPeriod := by
  simp only [setMetricChunkInterval, unqualified, Option.getD_none, bind_eq_ok, pure_eq_ok] at h
  obtain ⟨⟨⟩, db₁, hupdate, ⟨⟩, db₂, hchunk, -, rfl⟩ := h
  obtain ⟨hupdates, ⟨m, hm⟩, hperiod⟩ := createAndUpdate_updates hwf hupdate
  obtain ⟨⟨m', hcreate⟩, -, hsettings, hperiod'⟩ := setChunkIntervalOnMetricTable_eq_ok hchunk
  have hcatalog : db₂.catalog = db₁.catalog := by
    obtain ⟨-, heq⟩ | ⟨hnone, -⟩ := getOrCreateMetricTableName_eq_ok hcreate
    · exact heq
    · rw [hm] at hnone
      cases hnone
  refine ⟨⟨?_, ?_, ?_, ?_⟩, hperiod'.trans hperiod⟩
  · rw [hcatalog]; exact hupdates.wf
  · rw [hcatalog]; exact hupdates.grow
  · rw [hcatalog, hsettings]; exact hupdates.rows
  · rw [hcatalog, hsettings]; exact hupdates.rest

theorem resetMetricChunkInterval_updates (hwf : WellFormed db.catalog) (hfresh : Fresh db)
    {stagger : Int → Option Int} {metricName : String} {b : Bool}
    (h : resetMetricChunkInterval stagger metricName db = .ok b db') :
    Updates (Call.resetMetricChunkInterval stagger metricName).assign db db' ∧
      db'.retentionPeriod = db.retentionPeriod ∧ Creatable db.catalog metricName ∧
      (stagger db.chunkInterval).isSome = true := by
  simp only [resetMetricChunkInterval, unqualified, Option.getD_none, bind_eq_ok, get_eq_ok,
    pure_eq_ok] at h
  obtain ⟨⟨⟩, db₁, hupdate, _, _, ⟨rfl, rfl⟩, ⟨⟩, db₂, hchunk, -, rfl⟩ := h
  obtain ⟨hupdates, hcatalog, hperiod, hinterval⟩ := updateUnqualified_updates hwf hupdate
  obtain ⟨⟨m, hcreate⟩, hset, hsettings, hperiod'⟩ := setChunkIntervalOnMetricTable_eq_ok hchunk
  rw [hcatalog] at hcreate
  have hedits := (getOrCreateMetricTableName_edits (A := fun _ _ => True) hcreate).1
  have hgrow : MetricsGrow db.catalog db₂.catalog := .of_edits hedits
  refine ⟨⟨hwf.edits hedits, hgrow, ?_, ?_⟩, hperiod'.trans hperiod,
    by simp [Creatable, Tables.transaction, hcreate], hinterval ▸ hset⟩
  · intro m' hm'
    rw [hsettings]
    rcases hgrow.cases m' hm' with ⟨m₀, hm₀, hid, hname⟩ | hnew
    · rw [← hid, ← hname]
      exact hupdates.rows m₀ (hcatalog ▸ hm₀)
    · -- a row that the call created was out of reach of its update
      rw [hupdates.rest, hfresh m'.id hnew]
      · rfl
      · intro m₀ hm₀ hid
        have := hwf.metrics.bound m₀ (hcatalog ▸ hm₀)
        omega
  · intro id hid
    rw [hsettings]
    apply hupdates.rest
    intro m₀ hm₀ heq
    obtain ⟨m', hm', hid', -⟩ := hgrow.mem m₀ (hcatalog ▸ hm₀)
    exact hid m' hm' (hid'.trans heq)

/-- What the override map is meant to be after a call that returned, as far as it does
not depend on the rows. -/
structure Meant (call : Call) (db db' : Database) : Prop where
  default : ∀ o : Overrides, db.retentionPeriod = o.default →
    db'.retentionPeriod = (o.after call).default
  absent : ∀ (o : Overrides) metricName, db'.catalog.metric? metricName = none →
    o.period metricName = none → (o.after call).period metricName = none

theorem not_settable_of_error {stagger : Int → Option Int} {metricName : String} {e : Abort}
    (h : resetMetricChunkInterval stagger metricName db = .error e db') :
    ¬ (Creatable db.catalog metricName ∧ (stagger db.chunkInterval).isSome = true) := by
  simp only [resetMetricChunkInterval, updateUnqualified, setChunkIntervalOnMetricTable,
    unqualified, Option.getD_none, bind_eq_error, bind_eq_ok, get_ne_error, set_ne_error,
    pure_ne_error, get_eq_ok, set_eq_ok, false_or, or_false, and_false, exists_false] at h
  obtain ⟨_, _, ⟨_, _, ⟨rfl, rfl⟩, rfl⟩, _, _, ⟨rfl, rfl⟩, h⟩ := h
  unfold onCatalog at h
  rintro ⟨hcreatable, hset⟩
  obtain ⟨interval, hstagger⟩ := Option.isSome_iff_exists.mp hset
  unfold Creatable Tables.transaction at hcreatable
  cases hcreate : getOrCreateMetricTableName metricName db.catalog with
  | ok m c => simp [Database.updateMetric, hcreate, hstagger] at h
  | error e c => simp [hcreate] at hcreatable

theorem exec_updates (hwf : WellFormed db.catalog) (hfresh : Fresh db) {call : Call} {b : Bool}
    (h : call.exec db = .ok b db') : Updates call.assign db db' ∧ Meant call db db' := by
  cases call with
  | setDefaultRetentionPeriod retentionPeriod =>
    simp only [Call.exec, setDefaultRetentionPeriod, bind_eq_ok, get_eq_ok, set_eq_ok,
      pure_eq_ok] at h
    obtain ⟨_, _, ⟨rfl, rfl⟩, _, _, rfl, -, rfl⟩ := h
    exact ⟨updates_of_settings_eq hwf (.of_eq rfl le_rfl) rfl, fun _ _ => rfl,
      fun _ _ _ hnone => hnone⟩
  | setMetricRetentionPeriod metricName newRetentionPeriod =>
    simp only [Call.exec, setMetricRetentionPeriod, bind_eq_ok, pure_eq_ok] at h
    obtain ⟨⟨⟩, _, h, -, rfl⟩ := h
    obtain ⟨hupdates, ⟨m, hm⟩, hperiod⟩ := createAndUpdate_updates hwf h
    refine ⟨hupdates, fun _ hdefault => hperiod.trans hdefault, ?_⟩
    intro o name habsent hnone
    have hne : name ≠ metricName := by
      rintro rfl
      simp [hm] at habsent
    simpa [Overrides.after, hne] using hnone
  | resetMetricRetentionPeriod metricName =>
    simp only [Call.exec, resetMetricRetentionPeriod, bind_eq_ok, pure_eq_ok] at h
    obtain ⟨⟨⟩, _, h, -, rfl⟩ := h
    obtain ⟨hupdates, -, hperiod, -⟩ := updateUnqualified_updates hwf h
    refine ⟨hupdates, fun _ hdefault => hperiod.trans hdefault, ?_⟩
    intro o name _ hnone
    simp [Overrides.after, Function.update_apply, hnone]
  | setMetricChunkInterval stagger metricName chunkInterval =>
    obtain ⟨hupdates, hperiod⟩ := setMetricChunkInterval_updates hwf h
    exact ⟨hupdates, fun _ hdefault => hperiod.trans hdefault, fun _ _ _ hnone => hnone⟩
  | resetMetricChunkInterval stagger metricName =>
    obtain ⟨hupdates, hperiod, -⟩ := resetMetricChunkInterval_updates hwf hfresh h
    exact ⟨hupdates, fun _ hdefault => hperiod.trans hdefault, fun _ _ _ hnone => hnone⟩

/-- No sequence goes back. An abort leaves nothing else behind. -/
def Advances (db db' : Database) : Prop := Advance db.catalog db'.catalog

theorem advances_refl (db : Database) : Advances db db := advance_refl _

theorem advances_trans (db db' db'' : Database) (h : Advances db db') (h' : Advances db' db'') :
    Advances db db'' := advance_trans _ _ _ h h'

theorem onCatalog_advance {α : Type} {x : Tx α} (hx : Respects Advance x db.catalog) :
    Respects Advances (onCatalog x) db := by
  unfold Respects onCatalog at *
  cases h : x db.catalog with
  | ok a c =>
    rw [h] at hx
    exact hx
  | error e c =>
    rw [h] at hx
    exact hx

theorem createAndUpdate_advance (metricName : String) (assign : MetricSettings → MetricSettings)
    (db : Database) :
    Respects Advances (createAndUpdate metricName assign) db := by
  apply respects_bind advances_trans
    (onCatalog_advance (getOrCreateMetricTableName_advance metricName db.catalog))
  intro m db₁ _
  exact respects_get_bind (respects_set (advances_refl _))

theorem setChunkIntervalOnMetricTable_advance (stagger : Int → Option Int) (metricName : String)
    (newInterval : Int) (db : Database) :
    Respects Advances
      (setChunkIntervalOnMetricTable stagger metricName newInterval) db := by
  apply respects_bind advances_trans
    (onCatalog_advance (getOrCreateMetricTableName_advance _ db.catalog))
  intro m db₁ _
  dsimp only
  split
  · exact respects_throw (advances_refl _) _
  · exact respects_get_bind (respects_set (advances_refl _))

theorem exec_advance (call : Call) (db : Database) :
    Respects Advances call.exec db := by
  cases call with
  | setDefaultRetentionPeriod | resetMetricRetentionPeriod => exact advances_refl _
  | setMetricRetentionPeriod metricName newRetentionPeriod =>
    apply respects_bind advances_trans (createAndUpdate_advance _ _ db)
    exact fun _ _ _ => respects_pure (advances_refl _) _
  | setMetricChunkInterval stagger metricName chunkInterval =>
    apply respects_bind advances_trans (createAndUpdate_advance _ _ db)
    intro _ db₁ _
    apply respects_bind advances_trans
      (setChunkIntervalOnMetricTable_advance _ _ _ db₁)
    exact fun _ _ _ => respects_pure (advances_refl _) _
  | resetMetricChunkInterval stagger metricName =>
    have hupdate : Respects Advances (updateUnqualified metricName fun row =>
        { row with defaultChunkInterval := true }) db := advances_refl db
    apply respects_bind advances_trans hupdate
    intro _ db₁ _
    apply respects_get_bind
    apply respects_bind advances_trans
      (setChunkIntervalOnMetricTable_advance _ _ _ db₁)
    exact fun _ _ _ => respects_pure (advances_refl _) _

end Calls

/-- The columns hold what the override map says. -/
structure Inv (s : State) : Prop where
  wf : WellFormed s.db.catalog
  fresh : Fresh s.db
  rows : ∀ m ∈ s.db.catalog.metric,
    (s.db.settings m.id).retentionPeriod = s.meant.period m.metricName
  absent : ∀ metricName, s.db.catalog.metric? metricName = none →
    s.meant.period metricName = none
  default : s.db.retentionPeriod = s.meant.default

theorem inv_initial : Inv State.initial where
  wf := wellFormed_empty
  fresh _ _ := rfl
  rows m hm := by simp [State.initial, Database.initial, Catalog.empty] at hm
  absent _ _ := rfl
  default := rfl

theorem Inv.refines {s : State} (h : Inv s) : Refines s := by
  intro metricName
  have hfilter : (s.db.catalog.metric.filter fun m =>
      m.id ∈ getMetricTableNameIfExists s.db.catalog metricName) =
      s.db.catalog.metric.filter fun m => m.metricName = metricName := by
    apply List.filter_congr
    intro m hm
    simp only [mem_getMetricTableNameIfExists h.wf hm]
  have hfind : (s.db.catalog.metric.filter fun m => m.metricName = metricName).head? =
      s.db.catalog.metric? metricName := List.head?_filter
  simp only [getMetricRetentionPeriod, hfilter, List.head?_map, hfind, Overrides.lookup, h.default]
  cases hmetric : s.db.catalog.metric? metricName with
  | none => simp [h.absent metricName hmetric]
  | some m =>
    obtain ⟨hm, rfl⟩ := Catalog.mem_of_metric? hmetric
    simp [h.rows m hm]

section Step

variable {s : State} {assign : String → MetricSettings → MetricSettings} {db' : Database}

theorem Inv.row_of_grow (h : Inv s) {c' : Catalog} (hwf' : WellFormed c')
    (hgrow : MetricsGrow s.db.catalog c') {m : MetricRow} (hm : m ∈ c'.metric) :
    (s.db.settings m.id).retentionPeriod = s.meant.period m.metricName := by
  rcases hgrow.cases m hm with ⟨m₀, hm₀, hid, hname⟩ | hnew
  · rw [← hid, ← hname]
    exact h.rows m₀ hm₀
  · rw [h.fresh m.id hnew]
    symm
    apply h.absent
    rw [Catalog.metric?_eq_none_iff]
    intro m₀ hm₀ hname
    obtain ⟨m₁, hm₁, hid₁, hname₁⟩ := hgrow.mem m₀ hm₀
    obtain rfl := hwf'.metrics.nameInj m₁ hm₁ m hm (hname₁.trans hname)
    have := h.wf.metrics.bound m₀ hm₀
    omega

theorem metric?_none_of_grow {c c' : Catalog} (hgrow : MetricsGrow c c') {metricName : String}
    (hnone : c'.metric? metricName = none) : c.metric? metricName = none := by
  rw [Catalog.metric?_eq_none_iff] at hnone ⊢
  intro m hm hname
  obtain ⟨m', hm', -, hname'⟩ := hgrow.mem m hm
  exact hnone m' hm' (hname'.trans hname)

theorem Inv.of_updates (h : Inv s) (hupdates : Updates assign s.db db') {meant : Overrides}
    (hrows : ∀ m ∈ db'.catalog.metric,
      (assign m.metricName (s.db.settings m.id)).retentionPeriod = meant.period m.metricName)
    (habsent : ∀ metricName, db'.catalog.metric? metricName = none →
      s.meant.period metricName = none → meant.period metricName = none)
    (hdefault : db'.retentionPeriod = meant.default) : Inv { db := db', meant } where
  wf := hupdates.wf
  fresh := by
    intro id (hid : db'.catalog.lastValue .metric < id)
    rw [hupdates.rest id]
    · exact h.fresh id (hupdates.grow.lastValue.trans_lt hid)
    · intro m hm heq
      have := hupdates.wf.metrics.bound m hm
      omega
  rows m hm := by rw [hupdates.rows m hm]; exact hrows m hm
  absent metricName hnone :=
    habsent metricName hnone (h.absent metricName (metric?_none_of_grow hupdates.grow hnone))
  default := hdefault

theorem Inv.of_settings_eq (h : Inv s) (hwf : WellFormed db'.catalog)
    (hgrow : MetricsGrow s.db.catalog db'.catalog) (hsettings : db'.settings = s.db.settings)
    (hperiod : db'.retentionPeriod = s.db.retentionPeriod) : Inv { s with db := db' } :=
  h.of_updates (updates_of_settings_eq hwf hgrow hsettings)
    (fun _ hm => h.row_of_grow hwf hgrow hm) (fun _ _ hnone => hnone) (hperiod.trans h.default)

theorem step_settings_cases (h : Inv s) (call : Call) :
    (∃ b db', call.exec s.db = .ok b db' ∧
      step s (.settings call) = { db := db', meant := s.meant.after call }) ∨
    ∃ e db', call.exec s.db = .error e db' ∧
      (step s (.settings call)).db.settings = s.db.settings ∧ Inv (step s (.settings call)) := by
  cases hexec : call.exec s.db with
  | ok b db' => exact .inl ⟨b, db', rfl, by simp [step, transaction, hexec]⟩
  | error e db' =>
    have hadvance : Advances s.db db' := Respects.of_error (exec_advance call s.db) hexec
    refine .inr ⟨e, db', rfl, by simp [step, transaction, hexec], ?_⟩
    simp only [step, transaction, hexec, Option.isSome_none, Bool.false_eq_true, if_false]
    refine h.of_settings_eq ?_ (.of_eq rfl (hadvance .metric)) rfl rfl
    exact h.wf.edits (A := fun _ _ => True)
      (.single (.unobserved ⟨rfl, rfl, rfl, rfl, fun _ => rfl, hadvance⟩))

theorem retentionPeriod_assign (call : Call) (o : Overrides) {name : String}
    {row : MetricSettings} (hrow : row.retentionPeriod = o.period name)
    (hreset : ∀ metricName, call = .resetMetricRetentionPeriod metricName →
      name ≠ metricName → row.retentionPeriod = none) :
    (call.assign name row).retentionPeriod = (o.after call).period name := by
  cases call with
  | setDefaultRetentionPeriod | resetMetricChunkInterval => exact hrow
  | setMetricRetentionPeriod metricName newRetentionPeriod =>
    by_cases hname : name = metricName
    · simp [Call.assign, Overrides.after, hname]
    · simp [Call.assign, Overrides.after, hname, hrow]
  | resetMetricRetentionPeriod metricName =>
    by_cases hname : name = metricName
    · simp [Call.assign, Overrides.after, hname]
    · simp [Call.assign, Overrides.after, hname, ← hrow, hreset metricName rfl hname]
  | setMetricChunkInterval stagger metricName chunkInterval =>
    simp only [Call.assign, Overrides.after]
    split <;> exact hrow

theorem Inv.step (h : Inv s) (a : Action) (hok : OthersAtDefault s a) :
    Inv (Settings.step s a) := by
  cases a with
  | catalog a =>
    exact h.of_settings_eq (CatalogRuns.wellFormed_step h.wf a) (.of_step h.wf a) rfl rfl
  | settings call =>
    obtain ⟨b, db', hexec, heq⟩ | ⟨e, db', -, -, hinv⟩ := step_settings_cases h call
    · rw [heq]
      obtain ⟨hupdates, hmeant⟩ := exec_updates h.wf h.fresh hexec
      refine h.of_updates hupdates ?_ (hmeant.absent s.meant) (hmeant.default _ h.default)
      intro m hm
      refine retentionPeriod_assign call s.meant
        (h.row_of_grow hupdates.wf hupdates.grow hm) ?_
      rintro metricName rfl hne
      rcases hupdates.grow.cases m hm with ⟨m₀, hm₀, hid, hname⟩ | hnew
      · rw [← hid]
        exact hok m₀ hm₀ (hname ▸ hne)
      · rw [h.fresh m.id hnew]
    · exact hinv

theorem othersUnchanged_of_ok (h : Inv s) {call : Call} {b : Bool} {metricName : String}
    (hcall : call.metric? = some metricName) (hexec : call.exec s.db = .ok b db') :
    OthersUnchanged s (.settings call) ↔
      ∀ m ∈ s.db.catalog.metric, m.metricName ≠ metricName →
        call.assign m.metricName (s.db.settings m.id) = s.db.settings m.id := by
  obtain ⟨hupdates, -⟩ := exec_updates h.wf h.fresh hexec
  have hrow : ∀ m ∈ s.db.catalog.metric, (Settings.step s (.settings call)).db.settings m.id =
      call.assign m.metricName (s.db.settings m.id) := by
    intro m hm
    obtain ⟨m', hm', hid, hname⟩ := hupdates.grow.mem m hm
    rw [← hid, ← hname, ← hupdates.rows m' hm']
    simp [Settings.step, transaction, hexec]
  constructor
  · intro hsame m hm hne
    rw [← hrow m hm]
    exact hsame metricName hcall m hm hne
  · intro hsame name hname m hm hne
    obtain rfl : metricName = name := by simpa [hcall] using hname
    rw [hrow m hm]
    exact hsame m hm hne

theorem resetRetention_eq_iff (row : MetricSettings) :
    { row with retentionPeriod := none } = row ↔ row.retentionPeriod = none := by
  cases row
  simp [eq_comm]

theorem resetChunk_eq_iff (row : MetricSettings) :
    { row with defaultChunkInterval := true } = row ↔ row.defaultChunkInterval = true := by
  cases row
  simp [eq_comm]

theorem othersUnchanged_iff (h : Inv s) (a : Action) :
    OthersUnchanged s a ↔ OthersAtDefault s a := by
  cases a with
  | catalog a => exact iff_of_true trivial trivial
  | settings call =>
    obtain ⟨b, db', hexec, -⟩ | ⟨e, db', hexec, hsettings, -⟩ := step_settings_cases h call
    · cases call with
      | setDefaultRetentionPeriod =>
        refine iff_of_true ?_ trivial
        rintro metricName ⟨⟩
      | setMetricRetentionPeriod | setMetricChunkInterval =>
        rw [othersUnchanged_of_ok h rfl hexec]
        refine iff_of_true ?_ trivial
        exact fun m _ hne => if_neg hne
      | resetMetricRetentionPeriod metricName =>
        rw [othersUnchanged_of_ok h rfl hexec]
        refine forall₃_congr fun m _ _ => ?_
        exact resetRetention_eq_iff _
      | resetMetricChunkInterval stagger metricName =>
        rw [othersUnchanged_of_ok h rfl hexec]
        obtain ⟨-, -, hcreatable⟩ := resetMetricChunkInterval_updates h.wf h.fresh hexec
        simp only [OthersAtDefault, hcreatable, and_self, true_imp_iff]
        refine forall₃_congr fun m _ _ => ?_
        exact resetChunk_eq_iff _
    · have hsame : OthersUnchanged s (.settings call) := by
        intro metricName _ m _ _
        rw [hsettings]
      refine iff_of_true hsame ?_
      cases call with
      | setDefaultRetentionPeriod | setMetricRetentionPeriod | setMetricChunkInterval => trivial
      | resetMetricRetentionPeriod metricName => cases hexec
      | resetMetricChunkInterval stagger metricName =>
        exact fun hdone => absurd hdone (not_settable_of_error hexec)

end Step

/-- Along a run the settings refine the override map, and per-metric calls leave other
metrics alone, exactly if no reset finds an override of its setting at another metric. -/
theorem settings_refine_iff_others_at_default (actions : List Action) :
    (Always step Refines State.initial actions ∧
      Throughout step OthersUnchanged State.initial actions) ↔
      Throughout step OthersAtDefault State.initial actions := by
  have hcongr : Throughout step OthersUnchanged State.initial actions ↔
      Throughout step OthersAtDefault State.initial actions :=
    throughout_congr Inv (fun _ a h hok => h.step a hok) (fun _ a h => othersUnchanged_iff h a)
      inv_initial actions
  rw [hcongr, and_iff_right_iff_imp]
  intro hok
  have halways : Always step Inv State.initial actions :=
    always_of_throughout (fun _ a h hok => h.step a hok) inv_initial hok
  exact halways.mono fun _ h => h.refines

/-- Two metrics override the retention period and one of them is reset. -/
def resetOneOfTwo : List Action :=
  [.settings (.setMetricRetentionPeriod "cpu" (30 * 24 * hour)),
    .settings (.setMetricRetentionPeriod "memory" (60 * 24 * hour)),
    .settings (.resetMetricRetentionPeriod "cpu")]

/-- The other metric falls back to the default of 90 days. -/
theorem memory_reset_with_cpu :
    getMetricRetentionPeriod (run step State.initial resetOneOfTwo).db "memory" = 90 * 24 * hour ∧
      (run step State.initial resetOneOfTwo).meant.lookup "memory" = 60 * 24 * hour ∧
      ¬ (Always step Refines State.initial resetOneOfTwo ∧
        Throughout step OthersUnchanged State.initial resetOneOfTwo) := by
  have hget : getMetricRetentionPeriod (run step State.initial resetOneOfTwo).db "memory" =
      90 * 24 * hour := by decide +kernel
  have hmeant : (run step State.initial resetOneOfTwo).meant.lookup "memory" =
      60 * 24 * hour := by decide +kernel
  refine ⟨hget, hmeant, fun h => ?_⟩
  have hrefines := h.1.last "memory"
  rw [hget, hmeant] at hrefines
  exact absurd hrefines (by decide)

end TimescalePrometheus.Sql.Settings
