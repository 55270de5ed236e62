import TimescalePrometheus.Ingest.Samples
import Mathlib.Data.List.Sort

/-!
Series ids: the cache of an insert handler and the batch of database calls that asks
for the ids the cache does not have. The database is a parameter.
-/

namespace TimescalePrometheus.Ingest.SeriesIds

open Ingest.Samples

/-- An error, as far as the ingest code looks into it. -/
inductive Err
  /-- A `*pgconn.PgError`. -/
  | pg (message : String)
  | other (message : String)
  /-- The routine of the metric had failed before: `%w` wraps the error it failed with. -/
  | previouslyFailed (err : Err)
  deriving DecidableEq

/-- The map from texts to ids. -/
abbrev SeriesCache := List (String × Int)

/-- One round of `fillKnowSeriesIds`. -/
def fillKnowSeriesId (seriesCache : SeriesCache) (series : SamplesInfo) : SamplesInfo :=
  if series.seriesID > -1 then series
  else
    match seriesCache.lookup series.labels.str with
    | some id => series.withID id
    | none => series

/-- The id has to be asked for. -/
def isMissing (seriesCache : SeriesCache) (series : SamplesInfo) : Bool :=
  !(series.seriesID > -1) && (seriesCache.lookup series.labels.str).isNone

/-- The samples with the ids the cache has, and `numMissingSeries`. -/
def fillKnowSeriesIds (seriesCache : SeriesCache) (sampleInfos : List SamplesInfo) :
    List SamplesInfo × Nat :=
  (sampleInfos.map (fillKnowSeriesId seriesCache), sampleInfos.countP (isMissing seriesCache))

/-- An element of `seriesToInsert`, which points into the batch. -/
structure Missing where
  index : Nat
  labels : Labels
  deriving DecidableEq

/-- An element of `batchSeries`, with the labels of its first member. -/
structure Group where
  labels : Labels
  members : List Nat
  deriving DecidableEq

/-- Series without id, with their place. -/
def seriesToInsert (sampleInfos : List SamplesInfo) : List Missing :=
  (sampleInfos.zipIdx.filter (·.1.seriesID < 0)).map fun (series, i) => ⟨i, series.labels⟩

/-- One round of the grouping loop; the group built last comes first. -/
def addToGroups (groups : List Group) (curr : Missing) : List Group :=
  match groups with
  | [] => [⟨curr.labels, [curr.index]⟩]
  | last :: earlier =>
    if last.labels.str = curr.labels.str then
      { last with members := last.members ++ [curr.index] } :: earlier
    else ⟨curr.labels, [curr.index]⟩ :: last :: earlier

/-- Equal series form one group. -/
def batchSeries (sampleInfos : List SamplesInfo) : List Group :=
  (((seriesToInsert sampleInfos).insertionSort fun a b => a.labels.str ≤ b.labels.str).foldl
    addToGroups []).reverse

/-- What comes back for the `BEGIN`, the query and the `COMMIT` of one series. -/
inductive SeriesReply
  | beginFailed (err : Err)
  | queryFailed (err : Err)
  | commitFailed (tableName : String) (id : Int) (err : Err)
  | committed (tableName : String) (id : Int)
  deriving DecidableEq

/-- The cache and the batch, with the database that the calls go to. -/
structure Filling (δ : Type) where
  seriesCache : SeriesCache
  sampleInfos : List SamplesInfo
  database : δ

variable {δ : Type}

/-- The id is cached and handed out before the result of the `COMMIT` is looked at. -/
def Filling.assign (f : Filling δ) (group : Group) (id : Int) : Filling δ :=
  { f with
    seriesCache := (group.labels.str, id) :: f.seriesCache
    sampleInfos := group.members.foldl
      (fun infos i => infos.modify i fun info => info.withID id) f.sampleInfos }

/-- One round of the loop over the results of the batch. -/
def readResult (ask : Labels → δ → SeriesReply × δ) (group : Group) (f : Filling δ) :
    Except Err String × Filling δ :=
  let reply := ask group.labels f.database
  let f := { f with database := reply.2 }
  match reply.1 with
  | .beginFailed err => (.error err, f)
  | .queryFailed err => (.error err, f)
  | .commitFailed _ id err => (.error err, f.assign group id)
  | .committed tableName id => (.ok tableName, f.assign group id)

/-- The loop over the replies. -/
def readResults (ask : Labels → δ → SeriesReply × δ) :
    List Group → String → Filling δ → Except Err String × Filling δ
  | [], tableName, f => (.ok tableName, f)
  | group :: groups, _, f =>
    match readResult ask group f with
    | (.error err, f) => (.error err, f)
    | (.ok tableName, f) => readResults ask groups tableName f

def setSeriesIds (sendBatch : Option Err) (ask : Labels → δ → SeriesReply × δ) (f : Filling δ) :
    Except Err String × Filling δ :=
  let (sampleInfos, numMissingSeries) := fillKnowSeriesIds f.seriesCache f.sampleInfos
  let f := { f with sampleInfos }
  if numMissingSeries = 0 then (.ok "", f)
  else
    match sendBatch with
    | some err => (.error err, f)
    | none => readResults ask (batchSeries f.sampleInfos) "" f

@[simp] theorem content_fillKnowSeriesId (seriesCache : SeriesCache) (info : SamplesInfo) :
    (fillKnowSeriesId seriesCache info).content = info.content := by
  unfold fillKnowSeriesId
  split
  · rfl
  · split <;> rfl

theorem content_fillKnowSeriesIds (seriesCache : SeriesCache) (infos : List SamplesInfo) :
    (fillKnowSeriesIds seriesCache infos).1.map SamplesInfo.content =
      infos.map SamplesInfo.content := by
  simp [fillKnowSeriesIds]

theorem content_modify (infos : List SamplesInfo) (i : Nat) (id : Int) :
    (infos.modify i fun info => info.withID id).map SamplesInfo.content =
      infos.map SamplesInfo.content := by
  induction infos generalizing i with
  | nil => simp
  | cons info infos ih =>
    cases i with
    | zero => simp
    | succ i => simp [ih]

theorem content_assign (f : Filling δ) (group : Group) (id : Int) :
    (f.assign group id).sampleInfos.map SamplesInfo.content =
      f.sampleInfos.map SamplesInfo.content := by
  simp only [Filling.assign]
  induction group.members generalizing f with
  | nil => rfl
  | cons i members ih =>
    rw [List.foldl_cons]
    exact (ih { f with sampleInfos := _ }).trans (content_modify f.sampleInfos i id)

theorem content_readResult (ask : Labels → δ → SeriesReply × δ) (group : Group)
    (f : Filling δ) :
    (readResult ask group f).2.sampleInfos.map (·.content) = f.sampleInfos.map (·.content) := by
  simp only [readResult]
  split
  · rfl
  · rfl
  · exact content_assign _ group _
  · exact content_assign _ group _

theorem content_readResults (ask : Labels → δ → SeriesReply × δ) (groups : List Group)
    (tableName : String) (f : Filling δ) :
    (readResults ask groups tableName f).2.sampleInfos.map (·.content) =
      f.sampleInfos.map (·.content) := by
  induction groups generalizing tableName f with
  | nil => rfl
  | cons group groups ih =>
    have hround := content_readResult ask group f
    simp only [readResults]
    split
    · rename_i heq
      rw [heq] at hround
      exact hround
    · rename_i heq
      rw [heq] at hround
      exact (ih _ _).trans hround

theorem content_setSeriesIds (sendBatch : Option Err) (ask : Labels → δ → SeriesReply × δ)
    (f : Filling δ) :
    (setSeriesIds sendBatch ask f).2.sampleInfos.map SamplesInfo.content =
      f.sampleInfos.map SamplesInfo.content := by
  simp only [setSeriesIds]
  split
  · exact content_fillKnowSeriesIds _ _
  · split
    · exact content_fillKnowSeriesIds _ _
    · exact (content_readResults _ _ _ _).trans (content_fillKnowSeriesIds _ _)

section Groups

theorem mem_addToGroups {groups : List Group} {curr : Missing} {i : Nat}
    (h : (∃ g ∈ groups, i ∈ g.members) ∨ curr.index = i) :
    ∃ g ∈ addToGroups groups curr, i ∈ g.members := by
  cases groups with
  | nil =>
    rcases h with ⟨g, hg, _⟩ | rfl
    · exact absurd hg (by simp)
    · exact ⟨_, List.mem_cons_self, List.mem_cons_self⟩
  | cons last earlier =>
    simp only [addToGroups]
    split
    · rcases h with ⟨g, hg, hi⟩ | rfl
      · rcases List.mem_cons.mp hg with rfl | hg
        · exact ⟨_, List.mem_cons_self, List.mem_append_left _ hi⟩
        · exact ⟨g, List.mem_cons_of_mem _ hg, hi⟩
      · exact ⟨_, List.mem_cons_self, List.mem_append_right _ List.mem_cons_self⟩
    · rcases h with ⟨g, hg, hi⟩ | rfl
      · exact ⟨g, List.mem_cons_of_mem _ hg, hi⟩
      · exact ⟨_, List.mem_cons_self, List.mem_cons_self⟩

theorem mem_foldl_addToGroups {missing : List Missing} (groups : List Group) {i : Nat}
    (h : (∃ g ∈ groups, i ∈ g.members) ∨ ∃ curr ∈ missing, curr.index = i) :
    ∃ g ∈ missing.foldl addToGroups groups, i ∈ g.members := by
  induction missing generalizing groups with
  | nil => exact h.resolve_right (by simp)
  | cons curr missing ih =>
    rw [List.foldl_cons]
    apply ih
    rcases h with h | ⟨x, hx, hi⟩
    · exact .inl (mem_addToGroups (.inl h))
    · rcases List.mem_cons.mp hx with rfl | hx
      · exact .inl (mem_addToGroups (.inr hi))
      · exact .inr ⟨x, hx, hi⟩

theorem exists_group {infos : List SamplesInfo} {i : Nat} {info : SamplesInfo}
    (hi : infos[i]? = some info) (hmissing : info.seriesID < 0) :
    ∃ g ∈ batchSeries infos, i ∈ g.members := by
  have hmem : (⟨i, info.labels⟩ : Missing) ∈ seriesToInsert infos := by
    refine List.mem_map.mpr ⟨(info, i), List.mem_filter.mpr ⟨?_, by simpa using hmissing⟩, rfl⟩
    exact List.mem_zipIdx_iff_getElem?.mpr hi
  obtain ⟨g, hg, hmember⟩ := mem_foldl_addToGroups [] (.inr ⟨_,
    (List.mem_insertionSort fun a b : Missing => a.labels.str ≤ b.labels.str).mpr hmem, rfl⟩)
  exact ⟨g, List.mem_reverse.mpr hg, hmember⟩

theorem labels_addToGroups {P : Labels → Prop} {groups : List Group} {curr : Missing}
    (hgroups : ∀ g ∈ groups, P g.labels) (hcurr : P curr.labels) :
    ∀ g ∈ addToGroups groups curr, P g.labels := by
  intro g hg
  cases groups with
  | nil =>
    rw [List.mem_singleton.mp hg]
    exact hcurr
  | cons last earlier =>
    simp only [addToGroups] at hg
    split at hg
    · rcases List.mem_cons.mp hg with rfl | hg
      · exact hgroups last List.mem_cons_self
      · exact hgroups g (List.mem_cons_of_mem _ hg)
    · rcases List.mem_cons.mp hg with rfl | hg
      · exact hcurr
      · exact hgroups g hg

theorem labels_batchSeries {P : Labels → Prop} {infos : List SamplesInfo}
    (hinfos : ∀ info ∈ infos, P info.labels) : ∀ g ∈ batchSeries infos, P g.labels := by
  have hmissing : ∀ curr ∈ seriesToInsert infos, P curr.labels := by
    intro curr hcurr
    obtain ⟨⟨info, i⟩, hmem, rfl⟩ := List.mem_map.mp hcurr
    exact hinfos info (List.mem_of_getElem?
      (List.mem_zipIdx_iff_getElem?.mp (List.mem_filter.mp hmem).1))
  intro g hg
  refine List.foldlRecOn (motive := fun groups => ∀ g ∈ groups, P g.labels) _ addToGroups
    (by simp) (fun groups hgroups curr hcurr => ?_) g (List.mem_reverse.mp hg)
  exact labels_addToGroups hgroups (hmissing curr ((List.mem_insertionSort _).mp hcurr))

theorem getElem?_foldl_modify (members : List Nat) (infos : List SamplesInfo) (id : Int)
    (i : Nat) :
    (members.foldl (fun infos i => infos.modify i fun info => info.withID id) infos)[i]? =
      infos[i]?.map fun info => if i ∈ members then info.withID id else info := by
  induction members generalizing infos with
  | nil => simp
  | cons n members ih =>
    rw [List.foldl_cons, ih, List.getElem?_modify, Option.map_eq_map, Option.map_map]
    congr 1
    funext info
    by_cases hn : n = i
    · simp [hn, SamplesInfo.withID]
    · simp [hn, Ne.symm hn]

theorem getElem?_assign (f : Filling δ) (group : Group) (id : Int) (i : Nat) :
    (f.assign group id).sampleInfos[i]? =
      f.sampleInfos[i]?.map fun info => if i ∈ group.members then info.withID id else info :=
  getElem?_foldl_modify group.members f.sampleInfos id i

end Groups

end TimescalePrometheus.Ingest.SeriesIds
