import TimescalePrometheus.Ingest.Orphans
import TimescalePrometheus.Ingest.SeriesBatch

/-!
The cache of series ids against the series that the database has committed.
-/

namespace TimescalePrometheus.Ingest.CommittedCache

open Sql.Tables Sql.Series Sql.CatalogEdits Sql.FunctionEdits Ingest.Samples
open Ingest.SeriesIds hiding setSeriesIds readResult
open Ingest.SeriesBatch
open Ingest.Ingestion hiding readResult
open Ingest.Orphans

/-- What goes wrong with a statement. -/
inductive StatementFault
  | none
  | fails (err : Err)
  /-- The statement runs, and its row cannot be scanned. -/
  | unreadable (err : Err)
  deriving DecidableEq

/-- A connection, with the faults to come. -/
structure Session where
  committed : Catalog
  /-- What the open transaction sees. -/
  transaction : Option Catalog := none
  /-- After a failure the server skips the rest of the batch. -/
  skipping : Option Err := none
  /-- For the statements to come. -/
  faults : List StatementFault := []

namespace Session

/-- The statement fails, and with it the transaction it is in. -/
def fail (s : Session) (err : Err) : Reply × Session :=
  (.failed err, { s with transaction := none, skipping := some err })

/-- The statement for one series. -/
def query (s : Session) (fault : StatementFault) (labels : Labels) : Reply × Session :=
  match getOrCreateSeriesIdForKvArray labels.metricName labels.pairs
      (s.transaction.getD s.committed) with
  | .error _ c =>
    fail { s with committed := { s.committed with lastValue := c.lastValue } }
      (.pg "the query failed")
  | .ok (tableName, id) c =>
    -- sequences move at once, whatever becomes of the transaction
    let s := { s with
      committed := { s.committed with lastValue := c.lastValue }
      transaction := some c }
    match fault with
    | .unreadable err => (.failed err, s)
    | _ => (.row tableName id, s)

/-- A statement of the batch. -/
def run (statement : Statement) (s : Session) : Reply × Session :=
  let fault := s.faults.headD .none
  let s := { s with faults := s.faults.tail }
  match s.skipping with
  | some err => (.failed err, s)
  | none =>
    match fault, statement with
    | .fails err, _ => s.fail err
    | _, .begin => (.done, { s with transaction := some s.committed })
    | fault, .getSeriesIDForLabel labels => s.query fault labels
    | _, .commit =>
      (.done, { s with committed := s.transaction.getD s.committed, transaction := none })

end Session

/-- A series with this id is stored. -/
def HasSeries (c : Catalog) (id : Int) : Prop := ∃ table, hasSeries c table id = true

/-- Every id in the cache is that of a committed series. -/
def CacheCommitted (seriesCache : SeriesCache) (c : Catalog) : Prop :=
  ∀ entry ∈ seriesCache, HasSeries c entry.2

theorem hasSeries_of_dataSeries_eq {c c' : Catalog} (h : c'.dataSeries = c.dataSeries) {id : Int} :
    HasSeries c' id ↔ HasSeries c id := by
  unfold HasSeries hasSeries
  rw [h]

theorem hasSeries_of_query {labels : Labels} {c c' : Catalog} {tableName : String} {id : Nat}
    (h : getOrCreateSeriesIdForKvArray labels.metricName labels.pairs c =
      .ok (tableName, id) c') :
    (∀ id, HasSeries c id → HasSeries c' id) ∧ HasSeries c' id := by
  obtain ⟨hedits, hstored⟩ :=
    getOrCreateSeriesIdForKvArray_edits (A := fun _ _ => True) trivial h
  constructor
  · rintro id ⟨table, hid⟩
    exact ⟨table, hasSeries_edits hedits hid⟩
  · obtain ⟨_, _, m, _, _, p, series, hp, hseries, hid, _⟩ := hstored
    exact ⟨m.tableName, hasSeries_iff.mpr ⟨p, hp, series, hseries, by rw [hid]⟩⟩

/-- An open transaction sees the committed series. -/
def Sound (s : Session) : Prop :=
  ∀ c ∈ s.transaction, ∀ id, HasSeries s.committed id → HasSeries c id

theorem Sound.getD {s : Session} (h : Sound s) {id : Int} (hid : HasSeries s.committed id) :
    HasSeries (s.transaction.getD s.committed) id := by
  cases htransaction : s.transaction with
  | none => exact hid
  | some c => exact h c htransaction id hid

/-- The session after a statement: still sound, and no committed series is lost. -/
structure Keeps (s s' : Session) : Prop where
  sound : Sound s'
  series : ∀ id, HasSeries s.committed id → HasSeries s'.committed id

theorem keeps_fail {s : Session} (err : Err) : Keeps s (s.fail err).2 :=
  ⟨by rintro c ⟨⟩, fun _ hid => hid⟩

theorem keeps_query {s : Session} (h : Sound s) (fault : StatementFault) (labels : Labels) :
    Keeps s (s.query fault labels).2 := by
  unfold Session.query
  split
  · exact ⟨by rintro c ⟨⟩, fun id hid => (hasSeries_of_dataSeries_eq rfl).mpr hid⟩
  · rename_i tableName id c hquery
    have hkeeps := (hasSeries_of_query hquery).1
    have hsound : ∀ id, HasSeries s.committed id → HasSeries c id :=
      fun id hid => hkeeps id (h.getD hid)
    split
    all_goals
      refine ⟨?_, fun id hid => (hasSeries_of_dataSeries_eq rfl).mpr hid⟩
      rintro _ ⟨⟩ id hid
      exact hsound id ((hasSeries_of_dataSeries_eq rfl).mp hid)

theorem keeps_run {s : Session} (h : Sound s) (statement : Statement) :
    Keeps s (s.run statement).2 := by
  have htail : ∀ s', Keeps { s with faults := s.faults.tail } s' → Keeps s s' :=
    fun s' hkeeps => ⟨hkeeps.sound, hkeeps.series⟩
  unfold Session.run
  dsimp only
  split
  · exact ⟨h, fun _ hid => hid⟩
  · split
    · exact htail _ (keeps_fail _)
    · refine ⟨?_, fun _ hid => hid⟩
      rintro c ⟨⟩ id hid
      exact hid
    · have htailed : Sound { s with faults := s.faults.tail } := h
      exact htail _ (keeps_query htailed _ _)
    · exact ⟨by rintro c ⟨⟩, fun id hid => h.getD hid⟩

theorem keeps_execBatch {s : Session} (h : Sound s) (batch : List Statement) :
    Keeps s (execBatch Session.run batch s).2 := by
  induction batch generalizing s with
  | nil => exact ⟨h, fun _ hid => hid⟩
  | cons statement batch ih =>
    have hstep := keeps_run h statement
    have hrest := ih hstep.sound
    exact ⟨hrest.sound, fun id hid => hrest.series id (hstep.series id hid)⟩

theorem committed_execBatch_of_skipping {s : Session} {err : Err} (h : s.skipping = some err)
    (batch : List Statement) : (execBatch Session.run batch s).2.committed = s.committed := by
  induction batch generalizing s with
  | nil => rfl
  | cons statement batch ih =>
    have hrun : (s.run statement).2 = { s with faults := s.faults.tail } := by
      simp [Session.run, h]
    change (execBatch Session.run batch (s.run statement).2).2.committed = _
    rw [hrun]
    exact ih h

/-- Between two batches, and between the statements of two series. -/
structure Idle (s : Session) : Prop where
  transaction : s.transaction = none
  skipping : s.skipping = none

theorem Idle.sound {s : Session} (h : Idle s) : Sound s := by
  intro c hc
  rw [h.transaction] at hc
  cases hc

theorem run_begin {s : Session} (h : Idle s) :
    (∃ err s', s.run .begin = (.failed err, s')) ∨
      ∃ faults, s.run .begin = (.done, { s with transaction := some s.committed, faults }) := by
  obtain ⟨committed, transaction, skipping, faults⟩ := s
  obtain ⟨rfl, rfl⟩ := h
  unfold Session.run
  dsimp only
  cases faults.headD .none with
  | fails err => exact .inl ⟨err, _, rfl⟩
  | none | unreadable err => exact .inr ⟨faults.tail, rfl⟩

theorem query_cases {s : Session} {c : Catalog} (htransaction : s.transaction = some c)
    (fault : StatementFault) (labels : Labels) :
    (∃ err s', s.query fault labels = (.failed err, s')) ∨
      ∃ tableName id c',
        getOrCreateSeriesIdForKvArray labels.metricName labels.pairs c = .ok (tableName, id) c' ∧
          s.query fault labels = (.row tableName id, { s with
            committed := { s.committed with lastValue := c'.lastValue }
            transaction := some c' }) := by
  unfold Session.query
  rw [htransaction, Option.getD_some]
  cases getOrCreateSeriesIdForKvArray labels.metricName labels.pairs c with
  | error e c' => exact .inl ⟨_, _, rfl⟩
  | ok result c' =>
    cases fault with
    | unreadable err => exact .inl ⟨_, _, rfl⟩
    | none | fails err => exact .inr ⟨_, _, c', rfl, rfl⟩

theorem run_query {s : Session} (hskipping : s.skipping = none) {c : Catalog}
    (htransaction : s.transaction = some c) (labels : Labels) :
    (∃ err s', s.run (.getSeriesIDForLabel labels) = (.failed err, s')) ∨
      ∃ tableName id c' faults,
        getOrCreateSeriesIdForKvArray labels.metricName labels.pairs c = .ok (tableName, id) c' ∧
          s.run (.getSeriesIDForLabel labels) = (.row tableName id, { s with
            committed := { s.committed with lastValue := c'.lastValue }
            transaction := some c', faults }) := by
  obtain ⟨committed, transaction, skipping, faults⟩ := s
  obtain rfl : skipping = none := hskipping
  have hquery := @query_cases ⟨committed, transaction, none, faults.tail⟩ c htransaction
  unfold Session.run
  dsimp only
  cases faults.headD .none with
  | fails err => exact .inl ⟨err, _, rfl⟩
  | none | unreadable err =>
    refine (hquery _ labels).imp_right ?_
    rintro ⟨tableName, id, c', hstored, heq⟩
    exact ⟨tableName, id, c', faults.tail, hstored, heq⟩

theorem run_commit {s : Session} (hskipping : s.skipping = none) :
    (∃ err faults, s.run .commit = (.failed err, { s with
        transaction := none, skipping := some err, faults })) ∨
      ∃ faults, s.run .commit = (.done, { s with
        committed := s.transaction.getD s.committed, transaction := none, faults }) := by
  obtain ⟨committed, transaction, skipping, faults⟩ := s
  obtain rfl : skipping = none := hskipping
  unfold Session.run
  dsimp only
  cases faults.headD .none with
  | fails err => exact .inl ⟨err, _, rfl⟩
  | none | unreadable err => exact .inr ⟨faults.tail, rfl⟩

/-- What the three statements of a series come to. -/
inductive Asked (s : Session) : SeriesReply × Session → Prop
  | beginFailed {s' : Session} {err : Err} : Asked s (.beginFailed err, s')
  | queryFailed {s' : Session} {err : Err} : Asked s (.queryFailed err, s')
  /-- The series are those from before. -/
  | commitFailed {s' : Session} {tableName : String} {id : Int} {err err' : Err}
      (hskipping : s'.skipping = some err')
      (hseries : s'.committed.dataSeries = s.committed.dataSeries) :
      Asked s (.commitFailed tableName id err, s')
  | committed {s' : Session} {tableName : String} {id : Int} (hidle : Idle s')
      (hseries : HasSeries s'.committed id) : Asked s (.committed tableName id, s')

theorem asked {s : Session} (h : Idle s) (labels : Labels) :
    Asked s (askStatements Session.run labels s) := by
  simp only [askStatements, statements, execBatch]
  rcases run_begin h with ⟨err, s₁, hbegin⟩ | ⟨faults₁, hbegin⟩
  · rw [hbegin]
    exact .beginFailed
  · rw [hbegin]
    generalize hs₁ : ({ s with transaction := some s.committed, faults := faults₁ } : Session) = s₁
    have hskipping₁ : s₁.skipping = none := by rw [← hs₁]; exact h.skipping
    have htransaction₁ : s₁.transaction = some s.committed := by rw [← hs₁]
    have hcommitted₁ : s₁.committed = s.committed := by rw [← hs₁]
    rcases run_query hskipping₁ htransaction₁ labels with
      ⟨err, s₂, hquery⟩ | ⟨tableName, id, c, faults₂, hstored, hquery⟩
    · rw [hquery]
      exact .queryFailed
    · rw [hquery]
      generalize hs₂ : ({ s₁ with
        committed := { s₁.committed with lastValue := c.lastValue }
        transaction := some c, faults := faults₂ } : Session) = s₂
      have hskipping₂ : s₂.skipping = none := by rw [← hs₂]; exact hskipping₁
      rcases run_commit hskipping₂ with ⟨err, faults₃, hcommit⟩ | ⟨faults₃, hcommit⟩
      · rw [hcommit]
        refine .commitFailed rfl ?_
        rw [← hs₂, ← hcommitted₁]
      · rw [hcommit]
        refine .committed ⟨rfl, hskipping₂⟩ ?_
        rw [← hs₂]
        exact (hasSeries_of_query hstored).2

/-- The `COMMIT` that fails, if one does, is that of a series whose row was there before. -/
def CommitsSafely : List Group → Session → Prop
  | [], _ => True
  | group :: groups, s =>
    match askStatements Session.run group.labels s with
    | (.commitFailed _ id _, _) => HasSeries s.committed id
    | (.committed _ _, s') => CommitsSafely groups s'
    | _ => True

theorem execBatch_append {δ : Type} (run : Statement → δ → Reply × δ) (l l' : List Statement)
    (d : δ) :
    (execBatch run (l ++ l') d).2 = (execBatch run l' (execBatch run l d).2).2 := by
  induction l generalizing d with
  | nil => rfl
  | cons statement l ih => exact ih _

theorem cacheCommitted_readResults_iff (groups : List Group) {s : Session} (h : Idle s)
    {seriesCache : SeriesCache} (hcache : CacheCommitted seriesCache s.committed)
    (infos : List SamplesInfo) (tableName : String) :
    CacheCommitted (readResults (askStatements Session.run) groups tableName
        ⟨seriesCache, infos, s⟩).2.seriesCache
      (execBatch Session.run (groups.flatMap fun g => statements g.labels) s).2.committed ↔
      CommitsSafely groups s := by
  induction groups generalizing s seriesCache infos tableName with
  | nil => exact iff_of_true hcache trivial
  | cons group groups ih =>
    have hkept := (keeps_execBatch h.sound
      ((group :: groups).flatMap fun g => statements g.labels)).series
    have hsession : (execBatch Session.run (statements group.labels) s).2 =
        (askStatements Session.run group.labels s).2 := rfl
    rw [List.flatMap_cons, execBatch_append, hsession] at hkept ⊢
    simp only [readResults, SeriesIds.readResult, CommitsSafely]
    have hasked := asked h group.labels
    cases hask : askStatements Session.run group.labels s with
    | mk reply s' =>
      rw [hask] at hkept hasked
      cases hasked with
      | beginFailed | queryFailed =>
        exact iff_of_true (fun entry he => hkept _ (hcache entry he)) trivial
      | @commitFailed _ name id err err' hskipping hseries =>
        have hcommitted := committed_execBatch_of_skipping hskipping
          (groups.flatMap fun g => statements g.labels)
        dsimp only at hkept ⊢
        rw [hcommitted] at hkept ⊢
        constructor
        · intro hafter
          exact (hasSeries_of_dataSeries_eq hseries).mp (hafter _ List.mem_cons_self)
        · intro hbefore
          refine List.forall_mem_cons.mpr ⟨?_, fun entry he => hkept _ (hcache entry he)⟩
          exact (hasSeries_of_dataSeries_eq hseries).mpr hbefore
      | @committed _ name id hidle hseries =>
        have hmono : ∀ id, HasSeries s.committed id → HasSeries s'.committed id := by
          have := (keeps_execBatch h.sound (statements group.labels)).series
          rw [hsession, hask] at this
          exact this
        refine ih hidle ?_ _ _
        exact List.forall_mem_cons.mpr ⟨hseries, fun entry he => hmono _ (hcache entry he)⟩

/-- `setSeriesIds` on a session with nothing open, with a cache of committed series: the
cache holds committed series afterwards exactly if no `COMMIT` of a series that was just
created fails. -/
theorem cacheCommitted_setSeriesIds_iff {f : Filling Session} (h : Idle f.database)
    (hcache : CacheCommitted f.seriesCache f.database.committed) (sendBatch : Option Err) :
    CacheCommitted (setSeriesIds sendBatch Session.run f).2.seriesCache
      (setSeriesIds sendBatch Session.run f).2.database.committed ↔
      (sendBatch = none → (fillKnowSeriesIds f.seriesCache f.sampleInfos).2 ≠ 0 →
        CommitsSafely (batchSeries (fillKnowSeriesIds f.seriesCache f.sampleInfos).1)
          f.database) := by
  obtain ⟨-, hcaches, -⟩ := setSeriesIds_eq sendBatch Session.run f
  obtain ⟨hseries, hbatch, hcount⟩ :=
    queueSeries_eq (fillKnowSeriesIds f.seriesCache f.sampleInfos).1
  rw [hcaches]
  unfold SeriesBatch.setSeriesIds SeriesIds.setSeriesIds
  dsimp only
  split
  · rename_i hnone
    exact iff_of_true hcache fun _ hmissing => absurd hnone hmissing
  · rename_i hmissing
    cases sendBatch with
    | some err => exact iff_of_true hcache (by simp)
    | none =>
      dsimp only
      rw [if_neg (not_not_intro hcount), hbatch]
      rw [cacheCommitted_readResults_iff _ h hcache]
      simp [hmissing]

theorem database_setSeriesIds {δ : Type} (run : Statement → δ → Reply × δ) (f : Filling δ) :
    (setSeriesIds none run f).2.database =
      (execBatch run (queued f.seriesCache f.sampleInfos) f.database).2 := by
  unfold setSeriesIds queued
  dsimp only
  split
  · rfl
  · split <;> rfl

/-- One sample of a series that an empty database does not have yet. -/
def newSeries (faults : List StatementFault) : Filling Session where
  seriesCache := []
  sampleInfos := [⟨nameOnly "cpu", -1, [⟨1, 0⟩], List.cons_ne_nil _ _⟩]
  database := { committed := Catalog.empty, faults }

theorem database_newSeries (faults : List StatementFault) :
    (setSeriesIds none Session.run (newSeries faults)).2.database =
      (askStatements Session.run (nameOnly "cpu") (newSeries faults).database).2 := by
  have hqueued : queued (newSeries faults).seriesCache (newSeries faults).sampleInfos =
      statements (nameOnly "cpu") := by
    have : queued (newSeries []).seriesCache (newSeries []).sampleInfos =
      statements (nameOnly "cpu") := by decide +kernel
    exact this
  rw [database_setSeriesIds, hqueued]
  rfl

theorem cacheCommitted_newSeries :
    (setSeriesIds none Session.run (newSeries [])).2.seriesCache = [("cpu", 1)] ∧
      CacheCommitted (setSeriesIds none Session.run (newSeries [])).2.seriesCache
        (setSeriesIds none Session.run (newSeries [])).2.database.committed := by
  have hidle : Idle (newSeries []).database := ⟨rfl, rfl⟩
  have hcache : CacheCommitted (newSeries []).seriesCache (newSeries []).database.committed := by
    rintro entry ⟨⟩
  refine ⟨by decide +kernel, ?_⟩
  refine (cacheCommitted_setSeriesIds_iff hidle hcache none).mpr ?_
  intro _ _
  have hgroups : batchSeries (fillKnowSeriesIds (newSeries []).seriesCache
      (newSeries []).sampleInfos).1 = [⟨nameOnly "cpu", [0]⟩] := by decide +kernel
  have hreply : (askStatements Session.run (nameOnly "cpu") (newSeries []).database).1 =
      .committed "cpu" 1 := by decide +kernel
  rw [hgroups, CommitsSafely]
  generalize askStatements Session.run (nameOnly "cpu") (newSeries []).database = answer
    at hreply ⊢
  obtain ⟨reply, s⟩ := answer
  obtain rfl : reply = _ := hreply
  exact trivial

def commitFails : List StatementFault := [.none, .none, .fails (.pg "the commit failed")]

/-- The `COMMIT` fails: the cache keeps the id of a series that was never stored. -/
theorem not_cacheCommitted_commitFails :
    (setSeriesIds none Session.run (newSeries commitFails)).1 =
        .error (.pg "the commit failed") ∧
      (setSeriesIds none Session.run (newSeries commitFails)).2.seriesCache = [("cpu", 1)] ∧
      ¬ CacheCommitted (setSeriesIds none Session.run (newSeries commitFails)).2.seriesCache
        (setSeriesIds none Session.run (newSeries commitFails)).2.database.committed := by
  have hcache : (setSeriesIds none Session.run (newSeries commitFails)).2.seriesCache =
      [("cpu", 1)] := by decide +kernel
  refine ⟨by decide +kernel, hcache, ?_⟩
  have hreply : (askStatements Session.run (nameOnly "cpu") (newSeries commitFails).database).1 =
      .commitFailed "cpu" 1 (.pg "the commit failed") := by decide +kernel
  have hidle : Idle (newSeries commitFails).database := ⟨rfl, rfl⟩
  have hasked := asked hidle (nameOnly "cpu")
  rw [hcache, database_newSeries]
  generalize askStatements Session.run (nameOnly "cpu") (newSeries commitFails).database = answer
    at hreply hasked ⊢
  intro hcommitted
  cases hasked with
  | commitFailed _ hseries =>
    obtain ⟨table, hhas⟩ := hcommitted ("cpu", 1) List.mem_cons_self
    obtain ⟨p, hp, -⟩ := hasSeries_iff.mp hhas
    rw [hseries] at hp
    cases hp
  | beginFailed | queryFailed | committed => cases hreply

end TimescalePrometheus.Ingest.CommittedCache
