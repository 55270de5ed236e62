import Mathlib.Data.List.ModifyLast
import TimescalePrometheus.Ingest.SeriesIds

/-!
`setSeriesIds` statement by statement. The loop that groups the series queues three
statements for each group, and the results of the batch are matched with the groups by
their position alone.
-/

namespace TimescalePrometheus.Ingest.SeriesBatch

open Ingest.Samples
open Ingest.SeriesIds hiding setSeriesIds

/-- The statements of the batch. -/
inductive Statement
  | begin
  /-- `getSeriesIDForLabelSQL`, with the metric name, names and values of the labels. -/
  | getSeriesIDForLabel (labels : Labels)
  | commit
  deriving DecidableEq

/-- The variables of the grouping loop. -/
structure Queue where
  batch : List Statement := []
  numSQLFunctionCalls : Nat := 0
  batchSeries : List Group := []
  lastSeenLabel : Option Labels := none

/-- The statements of one series. -/
def statements (labels : Labels) : List Statement :=
  [.begin, .getSeriesIDForLabel labels, .commit]

def Queue.add (q : Queue) (curr : Missing) : Queue :=
  if q.lastSeenLabel.any fun last => last.str = curr.labels.str then
    { q with
      batchSeries := q.batchSeries.modifyLast fun group =>
        { group with members := group.members ++ [curr.index] } }
  else
    { batch := q.batch ++ statements curr.labels
      numSQLFunctionCalls := q.numSQLFunctionCalls + 1
      batchSeries := q.batchSeries ++ [⟨curr.labels, [curr.index]⟩]
      lastSeenLabel := some curr.labels }

/-- Series by their text, each once. -/
def queueSeries (sampleInfos : List SamplesInfo) : Queue :=
  ((seriesToInsert sampleInfos).insertionSort fun a b => a.labels.str ≤ b.labels.str).foldl
    Queue.add {}

/-- The result of a statement. A row that does not scan is a failure too. -/
inductive Reply
  | done
  | row (tableName : String) (id : Int)
  | failed (err : Err)
  deriving DecidableEq

/-- What the calls `Exec`, `QueryRow` and `Exec` of one round of the reading loop find in
the results that are left. -/
def nextReplies : List Reply → SeriesReply × List Reply
  | [] => (.beginFailed (.other "no result"), [])
  | .failed err :: rest => (.beginFailed err, rest)
  | [_] => (.queryFailed (.other "no result"), [])
  | _ :: .failed err :: rest => (.queryFailed err, rest)
  | _ :: .done :: rest => (.queryFailed (.other "no rows in result set"), rest)
  | [_, .row tableName id] => (.commitFailed tableName id (.other "no result"), [])
  | _ :: .row tableName id :: .failed err :: rest => (.commitFailed tableName id err, rest)
  | _ :: .row tableName id :: _ :: rest => (.committed tableName id, rest)

variable {δ : Type}

/-- The database runs the statements of a batch in their order. -/
def execBatch (run : Statement → δ → Reply × δ) : List Statement → δ → List Reply × δ
  | [], database => ([], database)
  | statement :: rest, database =>
    let (reply, database) := run statement database
    let (replies, database) := execBatch run rest database
    (reply :: replies, database)

/-- The statements that are queued for the samples, none if the cache knows all series. -/
def queued (seriesCache : SeriesCache) (sampleInfos : List SamplesInfo) : List Statement :=
  let (sampleInfos, numMissingSeries) := fillKnowSeriesIds seriesCache sampleInfos
  if numMissingSeries = 0 then [] else (queueSeries sampleInfos).batch

/-- `setSeriesIds`, against statements. -/
def setSeriesIds (sendBatch : Option Err) (run : Statement → δ → Reply × δ) (f : Filling δ) :
    Except Err String × Filling δ :=
  let (sampleInfos, numMissingSeries) := fillKnowSeriesIds f.seriesCache f.sampleInfos
  let f := { f with sampleInfos }
  if numMissingSeries = 0 then (.ok "", f)
  else
    let queue := queueSeries f.sampleInfos
    match sendBatch with
    | some err => (.error err, f)
    | none =>
      let (replies, database) := execBatch run queue.batch f.database
      if queue.numSQLFunctionCalls ≠ queue.batchSeries.length then
        (.error (.other "unexpected difference in numQueries and batchSeries"),
          { f with database })
      else
        let (result, read) := readResults (fun _ => nextReplies) queue.batchSeries ""
          ⟨f.seriesCache, f.sampleInfos, replies⟩
        (result, ⟨read.seriesCache, read.sampleInfos, database⟩)

/-- The queue against the groups, of which the one built last comes first. -/
structure Built (q : Queue) (groups : List Group) : Prop where
  batchSeries : q.batchSeries = groups.reverse
  lastSeenLabel : q.lastSeenLabel = groups.head?.map (·.labels)
  batch : q.batch = groups.reverse.flatMap fun group => statements group.labels
  count : q.numSQLFunctionCalls = groups.length

theorem Built.add {q : Queue} {groups : List Group} (h : Built q groups) (curr : Missing) :
    Built (q.add curr) (addToGroups groups curr) := by
  obtain ⟨hseries, hlast, hbatch, hcount⟩ := h
  cases groups with
  | nil =>
    have hnew : (q.lastSeenLabel.any fun last => last.str = curr.labels.str) = false := by
      simp [hlast]
    rw [Queue.add, hnew]
    exact ⟨by simp [hseries, addToGroups], rfl, by simp [hbatch, addToGroups],
      by simp [hcount, addToGroups]⟩
  | cons last earlier =>
    have hany : (q.lastSeenLabel.any fun last => last.str = curr.labels.str) =
        decide (last.labels.str = curr.labels.str) := by
      simp [hlast]
    rw [Queue.add, hany, addToGroups]
    by_cases hsame : last.labels.str = curr.labels.str
    · rw [if_pos hsame, if_pos (decide_eq_true hsame)]
      refine ⟨?_, by simp [hlast], by simp [hbatch], by simp [hcount]⟩
      rw [hseries, List.reverse_cons, List.modifyLast_concat, List.reverse_cons]
    · rw [if_neg hsame, if_neg (by simpa using hsame)]
      exact ⟨by simp [hseries], rfl, by simp [hbatch], by simp [hcount]⟩

theorem built_foldl (missing : List Missing) {q : Queue} {groups : List Group}
    (h : Built q groups) :
    Built (missing.foldl Queue.add q) (missing.foldl addToGroups groups) := by
  induction missing generalizing q groups with
  | nil => exact h
  | cons curr missing ih => exact ih (h.add curr)

theorem queueSeries_eq (infos : List SamplesInfo) :
    (queueSeries infos).batchSeries = batchSeries infos ∧
      (queueSeries infos).batch = (batchSeries infos).flatMap (fun g => statements g.labels) ∧
      (queueSeries infos).numSQLFunctionCalls = (queueSeries infos).batchSeries.length := by
  have hempty : Built {} [] := ⟨rfl, rfl, rfl, rfl⟩
  have hbuilt : Built (queueSeries infos) _ := built_foldl _ hempty
  refine ⟨hbuilt.batchSeries, hbuilt.batch, ?_⟩
  rw [hbuilt.batchSeries, hbuilt.count, List.length_reverse]

/-- The statements of one series, and what the loop finds in their results. -/
def askStatements (run : Statement → δ → Reply × δ) (labels : Labels) (database : δ) :
    SeriesReply × δ :=
  let (replies, database) := execBatch run (statements labels) database
  ((nextReplies replies).1, database)

theorem readResults_replies (run : Statement → δ → Reply × δ) (groups : List Group)
    (tableName : String) (seriesCache : SeriesCache) (infos : List SamplesInfo) (database : δ) :
    let replies := (execBatch run (groups.flatMap fun g => statements g.labels) database).1
    let read := readResults (fun _ => nextReplies) groups tableName ⟨seriesCache, infos, replies⟩
    let asked := readResults (askStatements run) groups tableName ⟨seriesCache, infos, database⟩
    read.1 = asked.1 ∧ read.2.seriesCache = asked.2.seriesCache ∧
      read.2.sampleInfos = asked.2.sampleInfos := by
  induction groups generalizing tableName seriesCache infos database with
  | nil => exact ⟨rfl, rfl, rfl⟩
  | cons group groups ih =>
    simp only [List.flatMap_cons, statements, List.cons_append, List.nil_append, execBatch,
      readResults, readResult, askStatements]
    cases (run .begin database).1 with
    | failed err => exact ⟨rfl, rfl, rfl⟩
    | done | row name id =>
      cases (run (.getSeriesIDForLabel group.labels) (run .begin database).2).1 with
      | failed err | done => exact ⟨rfl, rfl, rfl⟩
      | row name id =>
        cases (run .commit (run (.getSeriesIDForLabel group.labels)
            (run .begin database).2).2).1 with
        | failed err => exact ⟨rfl, rfl, rfl⟩
        | done | row name' id' => exact ih _ _ _ _

theorem setSeriesIds_eq (sendBatch : Option Err) (run : Statement → δ → Reply × δ)
    (f : Filling δ) :
    (setSeriesIds sendBatch run f).1 =
        (SeriesIds.setSeriesIds sendBatch (askStatements run) f).1 ∧
      (setSeriesIds sendBatch run f).2.seriesCache =
        (SeriesIds.setSeriesIds sendBatch (askStatements run) f).2.seriesCache ∧
      (setSeriesIds sendBatch run f).2.sampleInfos =
        (SeriesIds.setSeriesIds sendBatch (askStatements run) f).2.sampleInfos := by
  unfold setSeriesIds SeriesIds.setSeriesIds
  dsimp only
  split
  · exact ⟨rfl, rfl, rfl⟩
  · cases sendBatch with
    | some err => exact ⟨rfl, rfl, rfl⟩
    | none =>
      obtain ⟨hseries, hbatch, hcount⟩ :=
        queueSeries_eq (fillKnowSeriesIds f.seriesCache f.sampleInfos).1
      dsimp only
      rw [if_neg (not_not_intro hcount), hseries, hbatch]
      exact readResults_replies run _ _ _ _ _

section Groups

/-- The group comes from elements that satisfy `Q`, all with the text of its labels. -/
structure GroupOf (Q : Missing → Prop) (g : Group) : Prop where
  labels : ∃ curr, Q curr ∧ curr.labels = g.labels
  members : ∀ i ∈ g.members, ∃ curr, Q curr ∧ curr.index = i ∧ curr.labels.str = g.labels.str

theorem groupOf_singleton {Q : Missing → Prop} {curr : Missing} (hcurr : Q curr) :
    GroupOf Q ⟨curr.labels, [curr.index]⟩ := by
  refine ⟨⟨curr, hcurr, rfl⟩, ?_⟩
  intro i hi
  exact ⟨curr, hcurr, (List.mem_singleton.mp hi).symm, rfl⟩

theorem groupOf_addToGroups {Q : Missing → Prop} {groups : List Group} {curr : Missing}
    (hgroups : ∀ g ∈ groups, GroupOf Q g) (hcurr : Q curr) :
    ∀ g ∈ addToGroups groups curr, GroupOf Q g := by
  cases groups with
  | nil => exact List.forall_mem_singleton.mpr (groupOf_singleton hcurr)
  | cons last earlier =>
    obtain ⟨hlast, hearlier⟩ := List.forall_mem_cons.mp hgroups
    simp only [addToGroups]
    split
    · rename_i hsame
      refine List.forall_mem_cons.mpr ⟨⟨hlast.labels, ?_⟩, hearlier⟩
      intro i hi
      rcases List.mem_append.mp hi with hi | hi
      · exact hlast.members i hi
      · exact ⟨curr, hcurr, (List.mem_singleton.mp hi).symm, hsame.symm⟩
    · exact List.forall_mem_cons.mpr ⟨groupOf_singleton hcurr, hgroups⟩

theorem groupOf_batchSeries (infos : List SamplesInfo) :
    ∀ g ∈ batchSeries infos, GroupOf (· ∈ seriesToInsert infos) g := by
  intro g hg
  refine List.foldlRecOn (motive := fun groups => ∀ g ∈ groups, GroupOf _ g) _ addToGroups
    (by simp) (fun groups hgroups curr hcurr => ?_) g (List.mem_reverse.mp hg)
  exact groupOf_addToGroups hgroups ((List.mem_insertionSort _).mp hcurr)

theorem mem_seriesToInsert {infos : List SamplesInfo} {curr : Missing} :
    curr ∈ seriesToInsert infos ↔
      ∃ info, infos[curr.index]? = some info ∧ info.seriesID < 0 ∧ info.labels = curr.labels := by
  unfold seriesToInsert
  rw [List.mem_map]
  constructor
  · rintro ⟨⟨info, i⟩, hmem, rfl⟩
    obtain ⟨hmem, hneg⟩ := List.mem_filter.mp hmem
    exact ⟨info, List.mem_zipIdx_iff_getElem?.mp hmem, by simpa using hneg, rfl⟩
  · rintro ⟨info, hinfo, hneg, hlabels⟩
    refine ⟨(info, curr.index), List.mem_filter.mpr ⟨?_, by simpa using hneg⟩, ?_⟩
    · exact List.mem_zipIdx_iff_getElem?.mpr hinfo
    · dsimp only
      rw [hlabels]

/-- Groups built from sorted elements have increasing texts; the last one comes first. -/
abbrev Descending (groups : List Group) : Prop :=
  groups.Pairwise fun a b => b.labels.str ≤ a.labels.str ∧ b.labels.str ≠ a.labels.str

theorem descending_foldl {missing : List Missing}
    (hsorted : missing.Pairwise fun a b => a.labels.str ≤ b.labels.str) {groups : List Group}
    (hgroups : Descending groups)
    (hafter : ∀ g ∈ groups, ∀ curr ∈ missing, g.labels.str ≤ curr.labels.str) :
    Descending (missing.foldl addToGroups groups) := by
  induction missing generalizing groups with
  | nil => exact hgroups
  | cons curr missing ih =>
    obtain ⟨hcurr, hrest⟩ := List.pairwise_cons.mp hsorted
    rw [List.foldl_cons]
    cases groups with
    | nil =>
      refine ih hrest (List.pairwise_singleton _ _) ?_
      exact List.forall_mem_singleton.mpr hcurr
    | cons last earlier =>
      obtain ⟨hlast, hearlier⟩ := List.pairwise_cons.mp hgroups
      have hbelow : ∀ g ∈ last :: earlier, ∀ c ∈ missing, g.labels.str ≤ c.labels.str :=
        fun g hg c hc => hafter g hg c (List.mem_cons_of_mem _ hc)
      simp only [addToGroups]
      split
      · refine ih hrest (List.pairwise_cons.mpr ⟨hlast, hearlier⟩) ?_
        exact List.forall_mem_cons.mpr ⟨hbelow last List.mem_cons_self,
          fun g hg => hbelow g (List.mem_cons_of_mem _ hg)⟩
      · rename_i hne
        have hle : last.labels.str ≤ curr.labels.str :=
          hafter last List.mem_cons_self curr List.mem_cons_self
        refine ih hrest (List.pairwise_cons.mpr ⟨?_, hgroups⟩)
          (List.forall_mem_cons.mpr ⟨hcurr, hbelow⟩)
        refine List.forall_mem_cons.mpr ⟨⟨hle, hne⟩, ?_⟩
        intro g hg
        refine ⟨hafter g (List.mem_cons_of_mem _ hg) curr List.mem_cons_self, ?_⟩
        -- an earlier group with the text of `curr` would have that of the last one too
        intro heq
        exact (hlast g hg).2 (String.le_antisymm (hlast g hg).1 (heq ▸ hle))

theorem nodup_batchSeries (infos : List SamplesInfo) :
    ((batchSeries infos).map (·.labels.str)).Nodup := by
  have htotal : Std.Total fun a b : Missing => a.labels.str ≤ b.labels.str :=
    ⟨fun a b => String.le_total a.labels.str b.labels.str⟩
  have htrans : IsTrans Missing fun a b => a.labels.str ≤ b.labels.str :=
    ⟨fun _ _ _ => String.le_trans⟩
  have hsorted := List.pairwise_insertionSort
    (fun a b : Missing => a.labels.str ≤ b.labels.str) (seriesToInsert infos)
  have hdescending := descending_foldl hsorted List.Pairwise.nil (by simp)
  refine List.pairwise_map.mpr (List.pairwise_reverse.mpr (hdescending.imp ?_))
  exact fun h => h.2

end Groups

/-- Label sets as the interner hands them out: the text determines the set. -/
structure Interned where
  members : Set Labels
  injOn : Set.InjOn Labels.str members

section Assign

variable (I : Interned) (assign : Labels → Nat)

/-- The cache has for a text the id that the database assigns to the label set. -/
def CacheRight (seriesCache : SeriesCache) : Prop :=
  ∀ labels ∈ I.members, ∀ id, seriesCache.lookup labels.str = some id → id = assign labels

/-- The rows that the database returns for a label set carry its id. -/
def Assigns (run : Statement → δ → Reply × δ) : Prop :=
  ∀ labels ∈ I.members, ∀ database tableName id,
    (run (.getSeriesIDForLabel labels) database).1 = .row tableName id → id = assign labels

/-- The label sets for which the database is called. -/
def calls (batch : List Statement) : List Labels :=
  batch.filterMap fun statement =>
    match statement with
    | .getSeriesIDForLabel labels => some labels
    | _ => none

variable {I assign}

theorem askStatements_committed {run : Statement → δ → Reply × δ} (hrun : Assigns I assign run)
    {labels : Labels} (hlabels : labels ∈ I.members) {database database' : δ}
    {tableName : String} {id : Int}
    (h : askStatements run labels database = (.committed tableName id, database')) :
    id = assign labels := by
  simp only [askStatements, statements, execBatch, Prod.mk.injEq] at h
  obtain ⟨h, -⟩ := h
  have hquery := hrun labels hlabels (run .begin database).2
  revert h hquery
  generalize (run .begin database).1 = first
  generalize run (.getSeriesIDForLabel labels) (run .begin database).2 = second
  obtain ⟨second, database₂⟩ := second
  generalize (run .commit database₂).1 = third
  intro h hquery
  cases first <;> cases second <;> cases third <;> simp [nextReplies] at h <;>
    exact h.2 ▸ hquery _ _ rfl

theorem readResults_cons_ok {ask : Labels → δ → SeriesReply × δ} {group : Group}
    {groups : List Group} {tableName tableName' : String} {f f' : Filling δ}
    (h : readResults ask (group :: groups) tableName f = (.ok tableName', f')) :
    ∃ name id database, ask group.labels f.database = (.committed name id, database) ∧
      readResults ask groups name (({ f with database }).assign group id) =
        (.ok tableName', f') := by
  simp only [readResults, readResult] at h
  cases hask : ask group.labels f.database with
  | mk reply database =>
    rw [hask] at h
    cases reply with
    | committed name id => exact ⟨name, id, database, rfl, h⟩
    | beginFailed err | queryFailed err | commitFailed name id err => simp at h

theorem CacheRight.cons {seriesCache : SeriesCache} (h : CacheRight I assign seriesCache)
    {labels : Labels} (hlabels : labels ∈ I.members) :
    CacheRight I assign ((labels.str, (assign labels : Int)) :: seriesCache) := by
  intro other hother id hlookup
  rw [List.lookup_cons] at hlookup
  split at hlookup
  · rename_i hsame
    rw [I.injOn hother hlabels (eq_of_beq hsame)]
    exact (Option.some.inj hlookup).symm
  · exact h other hother id hlookup

theorem cacheRight_readResults {ask : Labels → δ → SeriesReply × δ}
    (hask : ∀ labels ∈ I.members, ∀ database name id database',
      ask labels database = (.committed name id, database') → id = assign labels)
    {groups : List Group} (hgroups : ∀ g ∈ groups, g.labels ∈ I.members)
    {tableName tableName' : String} {f f' : Filling δ}
    (hcache : CacheRight I assign f.seriesCache)
    (h : readResults ask groups tableName f = (.ok tableName', f')) :
    CacheRight I assign f'.seriesCache := by
  induction groups generalizing tableName f with
  | nil =>
    cases h
    exact hcache
  | cons group groups ih =>
    obtain ⟨hgroup, hgroups⟩ := List.forall_mem_cons.mp hgroups
    obtain ⟨name, id, database, hasked, h⟩ := readResults_cons_ok h
    obtain rfl := hask group.labels hgroup _ _ _ _ hasked
    exact ih hgroups (hcache.cons hgroup) h

theorem getElem?_readResults {ask : Labels → δ → SeriesReply × δ}
    (hask : ∀ labels ∈ I.members, ∀ database name id database',
      ask labels database = (.committed name id, database') → id = assign labels)
    {groups : List Group} (hgroups : ∀ g ∈ groups, g.labels ∈ I.members)
    {tableName tableName' : String} {f f' : Filling δ}
    (hmembers : ∀ g ∈ groups, ∀ i ∈ g.members, ∀ info, f.sampleInfos[i]? = some info →
      info.labels = g.labels)
    (h : readResults ask groups tableName f = (.ok tableName', f')) (i : Nat) :
    f'.sampleInfos[i]? = f.sampleInfos[i]?.map fun info =>
      if ∃ g ∈ groups, i ∈ g.members then info.withID (assign info.labels) else info := by
  induction groups generalizing tableName f with
  | nil =>
    cases h
    simp
  | cons group groups ih =>
    obtain ⟨hgroup, hgroups⟩ := List.forall_mem_cons.mp hgroups
    obtain ⟨hmember, hmembers⟩ := List.forall_mem_cons.mp hmembers
    obtain ⟨name, id, database, hasked, h⟩ := readResults_cons_ok h
    obtain rfl := hask group.labels hgroup _ _ _ _ hasked
    rw [ih hgroups ?_ h, getElem?_assign]
    · cases hinfo : f.sampleInfos[i]? with
      | none => rfl
      | some info =>
        by_cases hin : i ∈ group.members
        · simp [hin, hmember i hin info hinfo, SamplesInfo.withID]
        · simp [hin]
    · intro g hg j hj info hinfo
      rw [getElem?_assign, Option.map_eq_some_iff] at hinfo
      obtain ⟨old, hold, rfl⟩ := hinfo
      have hlabels := hmembers g hg j hj old hold
      split <;> exact hlabels

theorem seriesID_fillKnowSeriesId {seriesCache : SeriesCache}
    (hcache : CacheRight I assign seriesCache) {info : SamplesInfo}
    (hlabels : info.labels ∈ I.members) :
    (isMissing seriesCache info = true ∧ fillKnowSeriesId seriesCache info = info ∧
        info.seriesID < 0) ∨
      (isMissing seriesCache info = false ∧
        (fillKnowSeriesId seriesCache info).seriesID =
          if info.seriesID > -1 then info.seriesID else assign info.labels) := by
  unfold fillKnowSeriesId isMissing
  by_cases hset : info.seriesID > -1
  · simp [hset]
  · cases hlookup : seriesCache.lookup info.labels.str with
    | none =>
      refine .inl ⟨by simp [hset], if_neg hset, by omega⟩
    | some id =>
      have hid := hcache info.labels hlabels id hlookup
      refine .inr ⟨by simp, ?_⟩
      rw [if_neg hset, if_neg hset]
      exact hid

section Batch

variable {seriesCache : SeriesCache} {infos : List SamplesInfo}

theorem getElem?_fillKnowSeriesIds (i : Nat) :
    (fillKnowSeriesIds seriesCache infos).1[i]? =
      infos[i]?.map (fillKnowSeriesId seriesCache) :=
  List.getElem?_map ..

theorem labels_fillKnowSeriesId (info : SamplesInfo) :
    (fillKnowSeriesId seriesCache info).labels = info.labels :=
  congrArg Prod.fst (content_fillKnowSeriesId seriesCache info)

theorem mem_seriesToInsert_fill (hcache : CacheRight I assign seriesCache)
    (hinfos : ∀ info ∈ infos, info.labels ∈ I.members) {curr : Missing} :
    curr ∈ seriesToInsert (fillKnowSeriesIds seriesCache infos).1 ↔
      ∃ info, infos[curr.index]? = some info ∧ isMissing seriesCache info = true ∧
        info.labels = curr.labels := by
  rw [mem_seriesToInsert, getElem?_fillKnowSeriesIds]
  cases hinfo : infos[curr.index]? with
  | none => simp
  | some info =>
    have hlabels := hinfos info (List.mem_of_getElem? hinfo)
    rcases seriesID_fillKnowSeriesId hcache hlabels with ⟨hmissing, hsame, hneg⟩ | ⟨hknown, hid⟩
    · simp [hmissing, hsame, hneg]
    · have hnonneg : 0 ≤ (fillKnowSeriesId seriesCache info).seriesID := by
        rw [hid]
        split <;> omega
      simp [hknown, hnonneg]

theorem batchSeries_fill_of_none (hcache : CacheRight I assign seriesCache)
    (hinfos : ∀ info ∈ infos, info.labels ∈ I.members)
    (hnone : (fillKnowSeriesIds seriesCache infos).2 = 0) :
    batchSeries (fillKnowSeriesIds seriesCache infos).1 = [] := by
  have hempty : seriesToInsert (fillKnowSeriesIds seriesCache infos).1 = [] := by
    refine List.eq_nil_iff_forall_not_mem.mpr fun curr hcurr => ?_
    obtain ⟨info, hinfo, hmissing, -⟩ := (mem_seriesToInsert_fill hcache hinfos).mp hcurr
    exact List.countP_eq_zero.mp hnone info (List.mem_of_getElem? hinfo) hmissing
  simp [batchSeries, hempty]

theorem exists_missing_of_group (hcache : CacheRight I assign seriesCache)
    (hinfos : ∀ info ∈ infos, info.labels ∈ I.members) {g : Group}
    (hg : g ∈ batchSeries (fillKnowSeriesIds seriesCache infos).1) :
    ∃ info ∈ infos, isMissing seriesCache info = true ∧ info.labels = g.labels := by
  obtain ⟨curr, hcurr, hlabels⟩ := (groupOf_batchSeries _ g hg).labels
  obtain ⟨info, hinfo, hmissing, hsame⟩ := (mem_seriesToInsert_fill hcache hinfos).mp hcurr
  exact ⟨info, List.mem_of_getElem? hinfo, hmissing, hsame.trans hlabels⟩

theorem labels_mem_of_group (hcache : CacheRight I assign seriesCache)
    (hinfos : ∀ info ∈ infos, info.labels ∈ I.members) :
    ∀ g ∈ batchSeries (fillKnowSeriesIds seriesCache infos).1, g.labels ∈ I.members := by
  intro g hg
  obtain ⟨info, hinfo, -, hlabels⟩ := exists_missing_of_group hcache hinfos hg
  exact hlabels ▸ hinfos info hinfo

theorem missing_of_member (hcache : CacheRight I assign seriesCache)
    (hinfos : ∀ info ∈ infos, info.labels ∈ I.members) {g : Group}
    (hg : g ∈ batchSeries (fillKnowSeriesIds seriesCache infos).1) {i : Nat}
    (hi : i ∈ g.members) {info : SamplesInfo} (hinfo : infos[i]? = some info) :
    isMissing seriesCache info = true ∧ info.labels = g.labels := by
  obtain ⟨curr, hcurr, rfl, hstr⟩ := (groupOf_batchSeries _ g hg).members i hi
  obtain ⟨info', hinfo', hmissing, hlabels⟩ := (mem_seriesToInsert_fill hcache hinfos).mp hcurr
  obtain rfl : info = info' := Option.some.inj (hinfo.symm.trans hinfo')
  refine ⟨hmissing, I.injOn (hinfos info (List.mem_of_getElem? hinfo))
    (labels_mem_of_group hcache hinfos g hg) ?_⟩
  rw [hlabels, hstr]

theorem exists_group_of_missing (hcache : CacheRight I assign seriesCache)
    (hinfos : ∀ info ∈ infos, info.labels ∈ I.members) {i : Nat} {info : SamplesInfo}
    (hinfo : infos[i]? = some info) (hmissing : isMissing seriesCache info = true) :
    ∃ g ∈ batchSeries (fillKnowSeriesIds seriesCache infos).1, i ∈ g.members := by
  have hcurr : (⟨i, info.labels⟩ : Missing) ∈
      seriesToInsert (fillKnowSeriesIds seriesCache infos).1 :=
    (mem_seriesToInsert_fill hcache hinfos).mpr ⟨info, hinfo, hmissing, rfl⟩
  obtain ⟨filled, hfilled, hneg, -⟩ := mem_seriesToInsert.mp hcurr
  exact exists_group hfilled hneg

theorem calls_queued (hcache : CacheRight I assign seriesCache)
    (hinfos : ∀ info ∈ infos, info.labels ∈ I.members) :
    calls (queued seriesCache infos) =
      (batchSeries (fillKnowSeriesIds seriesCache infos).1).map (·.labels) := by
  have hcalls : ∀ groups : List Group,
      calls (groups.flatMap fun g => statements g.labels) = groups.map (·.labels) := by
    intro groups
    induction groups with
    | nil => rfl
    | cons g groups ih =>
      rw [List.flatMap_cons, calls, List.filterMap_append, List.map_cons, ← ih]
      rfl
  unfold queued
  dsimp only
  split
  · rename_i hnone
    rw [batchSeries_fill_of_none hcache hinfos hnone]
    rfl
  · rw [(queueSeries_eq _).2.1, hcalls]

theorem mem_calls_queued (hcache : CacheRight I assign seriesCache)
    (hinfos : ∀ info ∈ infos, info.labels ∈ I.members) {labels : Labels} :
    labels ∈ calls (queued seriesCache infos) ↔
      ∃ info ∈ infos, isMissing seriesCache info = true ∧ info.labels = labels := by
  rw [calls_queued hcache hinfos, List.mem_map]
  constructor
  · rintro ⟨g, hg, rfl⟩
    exact exists_missing_of_group hcache hinfos hg
  · rintro ⟨info, hinfo, hmissing, rfl⟩
    obtain ⟨i, hi⟩ := List.mem_iff_getElem?.mp hinfo
    obtain ⟨g, hg, hmember⟩ := exists_group_of_missing hcache hinfos hi hmissing
    exact ⟨g, hg, (missing_of_member hcache hinfos hg hmember hi).2.symm⟩

theorem nodup_calls_queued (hcache : CacheRight I assign seriesCache)
    (hinfos : ∀ info ∈ infos, info.labels ∈ I.members) :
    (calls (queued seriesCache infos)).Nodup := by
  rw [calls_queued hcache hinfos]
  refine List.Nodup.of_map Labels.str ?_
  rw [List.map_map]
  exact nodup_batchSeries _

theorem readResults_of_setSeriesIds (hcache : CacheRight I assign seriesCache)
    (hinfos : ∀ info ∈ infos, info.labels ∈ I.members) {sendBatch : Option Err}
    {ask : Labels → δ → SeriesReply × δ} {database : δ} {tableName : String} {f' : Filling δ}
    (h : SeriesIds.setSeriesIds sendBatch ask ⟨seriesCache, infos, database⟩ =
      (.ok tableName, f')) :
    readResults ask (batchSeries (fillKnowSeriesIds seriesCache infos).1) ""
      ⟨seriesCache, (fillKnowSeriesIds seriesCache infos).1, database⟩ = (.ok tableName, f') := by
  unfold SeriesIds.setSeriesIds at h
  dsimp only at h
  split at h
  · rename_i hnone
    rw [batchSeries_fill_of_none hcache hinfos hnone]
    exact h
  · cases sendBatch with
    | some err => cases h
    | none => exact h

theorem seriesID_readResults (hcache : CacheRight I assign seriesCache)
    (hinfos : ∀ info ∈ infos, info.labels ∈ I.members) {ask : Labels → δ → SeriesReply × δ}
    (hask : ∀ labels ∈ I.members, ∀ database name id database',
      ask labels database = (.committed name id, database') → id = assign labels)
    {database : δ} {tableName : String} {f' : Filling δ}
    (hread : readResults ask (batchSeries (fillKnowSeriesIds seriesCache infos).1) ""
      ⟨seriesCache, (fillKnowSeriesIds seriesCache infos).1, database⟩ = (.ok tableName, f'))
    {i : Nat} {info info' : SamplesInfo} (hinfo : infos[i]? = some info)
    (hinfo' : f'.sampleInfos[i]? = some info') :
    info'.seriesID = if info.seriesID > -1 then info.seriesID else assign info.labels := by
  have hmembers : ∀ g ∈ batchSeries (fillKnowSeriesIds seriesCache infos).1, ∀ i ∈ g.members,
      ∀ info, (fillKnowSeriesIds seriesCache infos).1[i]? = some info →
        info.labels = g.labels := by
    intro g hg i hi filled hfilled
    rw [getElem?_fillKnowSeriesIds, Option.map_eq_some_iff] at hfilled
    obtain ⟨old, hold, rfl⟩ := hfilled
    rw [labels_fillKnowSeriesId]
    exact (missing_of_member hcache hinfos hg hi hold).2
  rw [getElem?_readResults hask (labels_mem_of_group hcache hinfos) hmembers hread,
    getElem?_fillKnowSeriesIds, hinfo] at hinfo'
  obtain rfl := Option.some.inj hinfo'
  dsimp only
  rw [labels_fillKnowSeriesId]
  rcases seriesID_fillKnowSeriesId hcache (hinfos info (List.mem_of_getElem? hinfo)) with
    ⟨hmissing, -, hneg⟩ | ⟨hknown, hid⟩
  · rw [if_pos (exists_group_of_missing hcache hinfos hinfo hmissing), if_neg (by omega)]
    rfl
  · rw [if_neg, hid]
    rintro ⟨g, hg, hi⟩
    have hmissing := (missing_of_member hcache hinfos hg hi hinfo).1
    rw [hknown] at hmissing
    cases hmissing

end Batch

/-- An element whose id, if set, is that of its labels. -/
def OwnId (assign : Labels → Nat) (info : SamplesInfo) : Prop :=
  info.seriesID > -1 → info.seriesID = assign info.labels

/-- If `setSeriesIds` returns nil, every element has the id it had or else the one of its own
label set, and the database was called once for each label set that the cache did not know. -/
theorem setSeriesIds_assigns {run : Statement → δ → Reply × δ} (hrun : Assigns I assign run)
    {seriesCache : SeriesCache} {infos : List SamplesInfo}
    (hcache : CacheRight I assign seriesCache)
    (hinfos : ∀ info ∈ infos, info.labels ∈ I.members) {sendBatch : Option Err} {database : δ}
    {tableName : String} {f' : Filling δ}
    (h : setSeriesIds sendBatch run ⟨seriesCache, infos, database⟩ = (.ok tableName, f')) :
    f'.sampleInfos.map SamplesInfo.content = infos.map SamplesInfo.content ∧
      (∀ (i : Nat) (info info' : SamplesInfo), infos[i]? = some info →
        f'.sampleInfos[i]? = some info' →
        info'.seriesID = if info.seriesID > -1 then info.seriesID else assign info.labels) ∧
      (∀ (i j : Nat) (a b a' b' : SamplesInfo), infos[i]? = some a → infos[j]? = some b →
        f'.sampleInfos[i]? = some a' → f'.sampleInfos[j]? = some b' → a.labels = b.labels →
          OwnId assign a → OwnId assign b → a'.seriesID = b'.seriesID) ∧
      (calls (queued seriesCache infos)).Nodup ∧
      (∀ labels, labels ∈ calls (queued seriesCache infos) ↔
        ∃ info ∈ infos, isMissing seriesCache info = true ∧ info.labels = labels) ∧
      CacheRight I assign f'.seriesCache := by
  obtain ⟨hresult, hcaches, hsamples⟩ :=
    setSeriesIds_eq sendBatch run ⟨seriesCache, infos, database⟩
  rw [h] at hresult hcaches hsamples
  dsimp only at hresult hcaches hsamples
  have hasked : SeriesIds.setSeriesIds sendBatch (askStatements run)
      ⟨seriesCache, infos, database⟩ = (.ok tableName, _) := Prod.ext hresult.symm rfl
  have hread := readResults_of_setSeriesIds hcache hinfos hasked
  have hask : ∀ labels ∈ I.members, ∀ database name id database',
      askStatements run labels database = (.committed name id, database') → id = assign labels :=
    fun labels hlabels _ _ _ _ hasked => askStatements_committed hrun hlabels hasked
  have hids : ∀ (i : Nat) (info info' : SamplesInfo), infos[i]? = some info →
      f'.sampleInfos[i]? = some info' →
      info'.seriesID = if info.seriesID > -1 then info.seriesID else assign info.labels :=
    fun i info info' hinfo hinfo' =>
      seriesID_readResults hcache hinfos hask hread hinfo (hsamples ▸ hinfo')
  refine ⟨?_, hids, ?_, nodup_calls_queued hcache hinfos, ?_, ?_⟩
  · rw [hsamples]
    exact content_setSeriesIds sendBatch (askStatements run) ⟨seriesCache, infos, database⟩
  · intro i j a b a' b' ha hb ha' hb' hlabels howna hownb
    rw [hids i a a' ha ha', hids j b b' hb hb', hlabels]
    have hownA : (if a.seriesID > -1 then a.seriesID else assign b.labels) = assign b.labels := by
      split
      · rw [howna ‹_›, hlabels]
      · rfl
    have hownB : (if b.seriesID > -1 then b.seriesID else assign b.labels) = assign b.labels := by
      split
      · exact hownb ‹_›
      · rfl
    rw [hownA, hownB]
  · exact fun labels => mem_calls_queued hcache hinfos
  · rw [hcaches]
    exact cacheRight_readResults hask (labels_mem_of_group hcache hinfos) hcache hread

end Assign

/-- Label sets that hold nothing but a metric name. -/
def nameOnly (name : String) : Labels := ⟨name, [("__name__", name)], name⟩

def nameOnlyInterned : Interned where
  members := Set.range nameOnly
  injOn := by
    rintro _ ⟨a, rfl⟩ _ ⟨b, rfl⟩ hstr
    exact congrArg nameOnly hstr

/-- A database in which the id of a label set is the length of its text. -/
def lengthIds : Statement → Unit → Reply × Unit
  | .getSeriesIDForLabel labels, _ => (.row "cpu" labels.str.length, ())
  | _, _ => (.done, ())

/-- The first and the third element have the same series. -/
def repeatedSeries : Filling Unit where
  seriesCache := [("mem", 3)]
  sampleInfos := [⟨nameOnly "disk", -1, [⟨1, 0⟩], by simp⟩, ⟨nameOnly "mem", -1, [⟨2, 0⟩], by simp⟩,
    ⟨nameOnly "disk", -1, [⟨3, 0⟩], by simp⟩, ⟨nameOnly "net", 9, [⟨4, 0⟩], by simp⟩]
  database := ()

theorem setSeriesIds_assigns_repeatedSeries :
    (setSeriesIds none lengthIds repeatedSeries).1 = .ok "cpu" ∧
      (setSeriesIds none lengthIds repeatedSeries).2.sampleInfos.map (·.seriesID) = [4, 3, 4, 9] ∧
      calls (queued repeatedSeries.seriesCache repeatedSeries.sampleInfos) = [nameOnly "disk"] ∧
      CacheRight nameOnlyInterned (fun labels => labels.str.length)
        (setSeriesIds none lengthIds repeatedSeries).2.seriesCache := by
  have hrun : Assigns nameOnlyInterned (fun labels => labels.str.length) lengthIds := by
    intro labels _ database tableName id hreply
    cases hreply
    rfl
  have hcache : CacheRight nameOnlyInterned (fun labels => labels.str.length)
      repeatedSeries.seriesCache := by
    rintro _ ⟨name, rfl⟩ id hlookup
    by_cases hname : name = "mem"
    · subst hname
      exact (Option.some.inj hlookup).symm
    · have hmiss : repeatedSeries.seriesCache.lookup (nameOnly name).str = none := by
        simpa [repeatedSeries, nameOnly, List.lookup_eq_none_iff] using hname
      rw [hmiss] at hlookup
      cases hlookup
  have hok : (setSeriesIds none lengthIds repeatedSeries).1 = .ok "cpu" := by decide +kernel
  refine ⟨hok, by decide +kernel, by decide +kernel, ?_⟩
  refine (setSeriesIds_assigns hrun hcache ?_ (Prod.ext hok rfl)).2.2.2.2.2
  simp [nameOnlyInterned]

end TimescalePrometheus.Ingest.SeriesBatch
