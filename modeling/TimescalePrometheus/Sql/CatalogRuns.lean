import TimescalePrometheus.Lib.Runs
import TimescalePrometheus.Sql.Drops

/-!
The catalog as a machine: its functions called in any order, each as a
transaction of its own.
-/

namespace TimescalePrometheus.Sql.CatalogRuns

open Lib.Runs Lib.Transactions Sql.Tables Sql.Metrics Sql.LabelKeys Sql.Series Sql.Retention
open Sql.CatalogEdits Sql.FunctionEdits Sql.Sequences Sql.Invariant Sql.Drops

/-- A call of one of the functions, with its arguments. -/
inductive Action where
  | metricTableName (metricName : String)
  | finalize (metricId : Nat)
  | labelId (key value : String)
  | labelKeyPos (metricName key : String)
  | labelArray (metricName : String) (labels : LabelSet)
  | seriesIdForKvArray (metricName : String) (labels : LabelSet)
  | seriesId (label : LabelSet)
  | insertData (newChunk : Int → Chunk) (tableName : String) (rows : List DataRow)
  | dropMetricChunks (metricName : String) (olderThan : Int)

/-- Each function in its own transaction. -/
def step (c : Catalog) : Action → Catalog
  | .metricTableName metricName => (transaction (getOrCreateMetricTableName metricName) c).2
  | .finalize metricId => (transaction (finalizeMetricCreation metricId) c).2
  | .labelId key value => (transaction (getOrCreateLabelId key value) c).2
  | .labelKeyPos metricName key => (transaction (getOrCreateLabelKeyPos metricName key) c).2
  | .labelArray metricName labels => (transaction (getOrCreateLabelArray metricName labels) c).2
  | .seriesIdForKvArray metricName labels =>
    (transaction (getOrCreateSeriesIdForKvArray metricName labels) c).2
  | .seriesId label => (transaction (getOrCreateSeriesId label) c).2
  | .insertData newChunk tableName rows =>
    (transaction (insertData newChunk tableName rows) c).2
  | .dropMetricChunks metricName olderThan =>
    (transaction (dropMetricChunks metricName olderThan) c).2

/-- The action stores series only for metric names and label sets that `A` allows. -/
def Action.Stores (A : String → LabelSet → Prop) : Action → Prop
  | .seriesIdForKvArray metricName labels => A metricName labels
  | .seriesId label => ∀ metricName, jsonMetricName label = some metricName → A metricName label
  | _ => True

def Action.isDrop : Action → Bool
  | .dropMetricChunks .. => true
  | _ => false

variable {A : String → LabelSet → Prop} {c : Catalog}

theorem transaction_edits {α : Type} {x : Tx α} (hadvance : Respects Advance x c)
    (hok : ∀ a c', x c = .ok a c' → Edits A c c') : Edits A c (transaction x c).2 := by
  unfold transaction
  cases hx : x c with
  | ok a c' => exact hok a c' hx
  | error e c' =>
    have hle : Advance c c' := Respects.of_error hadvance hx
    exact .single (.unobserved ⟨rfl, rfl, rfl, rfl, fun _ => rfl, hle⟩)

theorem insertData_edits {newChunk : Int → Chunk} {tableName : String} {rows : List DataRow}
    {c' : Catalog} (h : insertData newChunk tableName rows c = .ok () c') : Edits A c c' := by
  simp only [insertData, bind_eq_ok, get_eq_ok] at h
  obtain ⟨_, _, ⟨rfl, rfl⟩, h⟩ := h
  cases hdata : c.data tableName with
  | none => simp [hdata] at h
  | some table =>
    simp only [hdata, set_eq_ok] at h
    subst h
    refine .single (.unobserved ⟨rfl, rfl, rfl, rfl, ?_, fun _ => le_rfl⟩)
    intro t
    by_cases ht : t = tableName
    · subst ht
      simp [hdata]
    · simp [ht]

theorem step_edits (a : Action) (hstores : a.Stores A) (hdrop : a.isDrop = false) :
    Edits A c (step c a) := by
  cases a with
  | metricTableName metricName =>
    apply transaction_edits (getOrCreateMetricTableName_advance metricName c)
    exact fun m c' h => (getOrCreateMetricTableName_edits h).1
  | finalize metricId => exact .single (.completeMetric metricId)
  | labelId key value =>
    apply transaction_edits (getOrCreateLabelId_advance key value c)
    exact fun id c' h => (getOrCreateLabelId_edits h).1
  | labelKeyPos metricName key =>
    apply transaction_edits (getOrCreateLabelKeyPos_advance metricName key c)
    exact fun pos c' h => (getOrCreateLabelKeyPos_edits h).1
  | labelArray metricName labels =>
    apply transaction_edits (getOrCreateLabelArray_advance metricName labels c)
    exact fun array c' h => (getOrCreateLabelArray_edits h).1
  | seriesIdForKvArray metricName labels =>
    apply transaction_edits (getOrCreateSeriesIdForKvArray_advance metricName labels c)
    exact fun r c' h => (getOrCreateSeriesIdForKvArray_edits hstores h).1
  | seriesId label =>
    apply transaction_edits (getOrCreateSeriesId_advance label c)
    intro id c' h
    cases hname : jsonMetricName label with
    | none => simp [getOrCreateSeriesId, hname] at h
    | some metricName => exact (getOrCreateSeriesId_edits hname (hstores _ hname) h).1
  | insertData newChunk tableName rows =>
    apply transaction_edits (insertData_advance newChunk tableName rows c)
    exact fun _ c' h => insertData_edits h
  | dropMetricChunks => simp [Action.isDrop] at hdrop

theorem step_drop (hwf : WellFormed c) (metricName : String) (olderThan : Int) :
    (Edits A c (step c (.dropMetricChunks metricName olderThan)) ∧
      ∀ m table cut, c.metric? metricName = some m → c.data m.tableName = some table →
        ¬ IsCut table olderThan cut) ∨
    ∃ m table p cut, c.metric? metricName = some m ∧ c.data m.tableName = some table ∧
      c.dataSeries m.tableName = some p ∧ IsCut table olderThan cut ∧
      step c (.dropMetricChunks metricName olderThan) =
        dropBefore c m.tableName table p cut (olderThan + hour) := by
  cases hmetric : c.metric? metricName with
  | none =>
    refine .inl ⟨transaction_edits (dropMetricChunks_advance metricName olderThan c) ?_, ?_⟩
    · exact fun dropped c' h => dropMetricChunks_of_new hmetric h
    · simp
  | some m =>
    have hm := (Catalog.mem_of_metric? hmetric).1
    obtain ⟨table, hdata⟩ := Option.isSome_iff_exists.mp (hwf.metrics.data m hm)
    obtain ⟨p, hseries, -⟩ := hwf.metrics.partition m hm
    have hdrop := dropMetricChunks_of_metric hmetric hdata hseries olderThan
    cases htight : tightOlderThan table olderThan with
    | none =>
      rw [htight] at hdrop
      refine .inl ⟨?_, ?_⟩
      · simp only [step, transaction, hdrop]
        exact .refl
      · rintro m' table' cut ⟨⟩ hdata' hcut
        obtain rfl : table = table' := by simpa [hdata] using hdata'
        rw [← tightOlderThan_eq_some_iff, htight] at hcut
        simp at hcut
    | some cut =>
      rw [htight] at hdrop
      refine .inr ⟨m, table, p, cut, rfl, hdata, hseries,
        tightOlderThan_eq_some_iff.mp htight, ?_⟩
      simp only [step, transaction, hdrop]

/-- What a drop would need to look at before it deletes: `Q` holds of the tables of
its metric. Other actions meet the condition. -/
def DropMeets (Q : Catalog → MetricRow → DataTable → SeriesPartition → Int → Prop)
    (c : Catalog) : Action → Prop
  | .dropMetricChunks metricName olderThan =>
    ∀ m table p, c.metric? metricName = some m → c.data m.tableName = some table →
      c.dataSeries m.tableName = some p → Q c m table p olderThan
  | _ => True

theorem step_iff_dropMeets {P : Catalog → Prop}
    {Q : Catalog → MetricRow → DataTable → SeriesPartition → Int → Prop} (hwf : WellFormed c)
    (hedits : ∀ c', Edits (fun _ _ => True) c c' → P c')
    (hnocut : ∀ m table p olderThan, (∀ cut, ¬ IsCut table olderThan cut) →
      Q c m table p olderThan)
    (hdrop : ∀ m table p olderThan cut, c.dataSeries m.tableName = some p →
      IsCut table olderThan cut →
        (P (dropBefore c m.tableName table p cut (olderThan + hour)) ↔ Q c m table p olderThan))
    (a : Action) : P (step c a) ↔ DropMeets Q c a := by
  cases a with
  | dropMetricChunks metricName olderThan =>
    obtain ⟨hsame, hnone⟩ | ⟨m, table, p, cut, hm, hdata, hp, hcut, heq⟩ :=
      step_drop (A := fun _ _ => True) hwf metricName olderThan
    · refine iff_of_true (hedits _ hsame) ?_
      exact fun m table p hm hdata _ =>
        hnocut m table p olderThan fun cut => hnone m table cut hm hdata
    · rw [heq, hdrop m table p olderThan cut hp hcut]
      constructor
      · intro hQ m' table' p' hm' hdata' hp'
        obtain rfl : m = m' := by simpa [hm] using hm'
        obtain rfl : table = table' := by simpa [hdata] using hdata'
        obtain rfl : p = p' := by simpa [hp] using hp'
        exact hQ
      · exact fun hQ => hQ m table p hm hdata hp
  | _ =>
    refine iff_of_true ?_ trivial
    exact hedits _ (step_edits _ (by simp [Action.Stores]) rfl)

theorem wellFormed_step (h : WellFormed c) (a : Action) : WellFormed (step c a) := by
  by_cases hdrop : a.isDrop = false
  · refine h.edits (step_edits (A := fun _ _ => True) a ?_ hdrop)
    cases a <;> simp [Action.Stores]
  · cases a with
    | dropMetricChunks metricName olderThan =>
      obtain ⟨hedits, -⟩ | ⟨m, table, p, cut, -, -, hseries, hcut, heq⟩ :=
        step_drop (A := fun _ _ => True) h metricName olderThan
      · exact h.edits hedits
      · rw [heq]
        exact WellFormed.shrunk h (dropBefore_shrunk hseries hcut)
    | _ => simp [Action.isDrop] at hdrop

theorem wellFormed_run (h : WellFormed c) (actions : List Action) :
    WellFormed (run step c actions) :=
  run_invariant WellFormed (fun _ a h => wellFormed_step h a) h actions

end TimescalePrometheus.Sql.CatalogRuns
