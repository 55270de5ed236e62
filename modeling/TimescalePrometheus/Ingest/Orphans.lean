import TimescalePrometheus.Ingest.Ingestion

/-!
Rows without a series. The routine of a metric keeps ids as long as it runs, while
`drop_metric_chunks` deletes series: whether what is written can be read depends on
whether a drop takes a series whose id the routine still holds.
-/

namespace TimescalePrometheus.Ingest.Orphans

open Lib.Runs Sql.Tables Sql.Metrics Sql.Series Sql.Retention Sql.CatalogEdits Sql.FunctionEdits
open Sql.Invariant Sql.Drops
open Sql.CatalogRuns hiding Action step
open Ingest.Samples
open Ingest.SeriesIds hiding readResult
open Ingest.Ingestion

/-- The ids in the cache and on the samples that are still to be written. -/
def Holds (k : Connector) (id : Int) : Prop :=
  (∃ entry ∈ k.seriesCache, entry.2 = id) ∨ (∃ info ∈ k.pending, info.seriesID = id) ∨
    ∃ batch ∈ k.inFlight, ∃ info ∈ batch, info.seriesID = id

variable {metric table : String} {c c' : Catalog} {k : Connector}

/-- No drop deletes a series of the metric whose id the routine holds, and no `COMMIT`
fails after the query has given out an id. -/
def HeldSeriesSurvive (s : System) : Action metric → Prop
  | .readResult fault => ∀ err, fault ≠ .commit err
  | .database a =>
    DropMeets (fun _ m dataTable _ olderThan =>
      s.connector.metricTableName = some m.tableName →
        ∀ id : Nat, Dead dataTable olderThan id → ¬ Holds s.connector id) s.catalog a
  | _ => True

/-- What is true of a routine with its table, as long as the series it holds survive. -/
structure Running (metric table : String) (k : Connector) (c : Catalog) : Prop where
  registered : ∃ m ∈ c.metric, m.metricName = metric ∧ m.tableName = table
  cache : ∀ entry ∈ k.seriesCache, hasSeries c table entry.2 = true
  named : ∀ info ∈ k.pending, info.labels.metricName = metric
  pending : ∀ info ∈ k.pending, info.seriesID = -1 ∨ hasSeries c table info.seriesID = true
  asked : ∀ groups, k.asking = some groups → ∀ g ∈ groups, g.labels.metricName = metric
  grouped : ∀ groups, k.asking = some groups → ∀ (i : Nat) (info : SamplesInfo),
    k.pending[i]? = some info → info.seriesID = -1 → ∃ g ∈ groups, i ∈ g.members
  inFlight : ∀ batch ∈ k.inFlight, ∀ info ∈ batch, hasSeries c table info.seriesID = true

/-- The invariant, before and after the start. -/
structure Inv (metric : String) (s : System) : Prop where
  wellFormed : WellFormed s.catalog
  fresh : s.connector.metricTableName = none → s.connector = {}
  running : ∀ table, s.connector.metricTableName = some table →
    Running metric table s.connector s.catalog

section Series

theorem hasSeries_iff {id : Int} : hasSeries c table id = true ↔
    ∃ p, c.dataSeries table = some p ∧ ∃ series ∈ p.rows, (series.id : Int) = id := by
  unfold hasSeries
  cases c.dataSeries table with
  | none => simp
  | some p => simp

theorem nonneg_of_hasSeries {id : Int} (h : hasSeries c table id = true) : 0 ≤ id := by
  obtain ⟨_, _, series, _, rfl⟩ := hasSeries_iff.mp h
  exact Int.natCast_nonneg series.id

theorem hasSeries_edits {A : String → LabelSet → Prop} {id : Int} (hedits : Edits A c c')
    (h : hasSeries c table id = true) : hasSeries c' table id = true := by
  obtain ⟨p, hp, series, hseries, hid⟩ := hasSeries_iff.mp h
  obtain ⟨p', hp', _, _, hrows⟩ := Edits.partition_eq hedits hp
  exact hasSeries_iff.mpr ⟨p', hp', series, hrows series hseries, hid⟩

theorem hasSeries_of_stored {labels : LabelSet} {id : Nat} (hwf : WellFormed c)
    (hregistered : ∃ m ∈ c.metric, m.metricName = metric ∧ m.tableName = table)
    (h : Stored c metric labels id) : hasSeries c table id = true := by
  obtain ⟨m, hm, hname, rfl⟩ := hregistered
  obtain ⟨_, _, m', hm', hname', p, series, hp, hseries, hid, _⟩ := h
  rw [hwf.metrics.nameInj m hm m' hm' (hname.trans hname'.symm)]
  exact hasSeries_iff.mpr ⟨p, hp, series, hseries, by rw [hid]⟩

theorem hasSeries_dropBefore {t : String} {dataTable : DataTable} {p : SeriesPartition}
    {olderThan cut : Int} {id : Int} (hp : c.dataSeries t = some p)
    (hcut : IsCut dataTable olderThan cut) (h : hasSeries c table id = true)
    (hkept : table = t → ∀ n : Nat, (n : Int) = id → ¬ Dead dataTable olderThan n) :
    hasSeries (dropBefore c t dataTable p cut (olderThan + hour)) table id = true := by
  obtain ⟨p', hp', series, hseries, rfl⟩ := hasSeries_iff.mp h
  rcases eq_or_ne table t with rfl | hne
  · obtain rfl : p' = p := Option.some.inj (hp'.symm.trans hp)
    obtain ⟨p₁, hp₁, _, _, hrows⟩ := dataSeries_dropBefore_self (c := c) (t := table) (p := p') hcut
    exact hasSeries_iff.mpr ⟨p₁, hp₁, series,
      (hrows series).mpr ⟨hseries, hkept rfl series.id rfl⟩, rfl⟩
  · refine hasSeries_iff.mpr ⟨p', ?_, series, hseries, rfl⟩
    exact (dataSeries_dropBefore_of_ne hne _).trans hp'

end Series

section Running

variable {id : Int}

theorem Running.catalog (h : Running metric table k c)
    (hmetric : ∀ m ∈ c.metric, ∃ m' ∈ c'.metric, m'.metricName = m.metricName ∧
      m'.tableName = m.tableName)
    (hseries : ∀ id, Holds k id → hasSeries c table id = true → hasSeries c' table id = true) :
    Running metric table k c' := by
  refine { h with registered := ?_, cache := ?_, pending := ?_, inFlight := ?_ }
  · obtain ⟨m, hm, hname, htable⟩ := h.registered
    obtain ⟨m', hm', hname', htable'⟩ := hmetric m hm
    exact ⟨m', hm', hname'.trans hname, htable'.trans htable⟩
  · exact fun entry he => hseries _ (.inl ⟨entry, he, rfl⟩) (h.cache entry he)
  · exact fun info hi => (h.pending info hi).imp_right (hseries _ (.inr (.inl ⟨info, hi, rfl⟩)))
  · exact fun batch hb info hi =>
      hseries _ (.inr (.inr ⟨batch, hb, info, hi, rfl⟩)) (h.inFlight batch hb info hi)

theorem Running.edits {A : String → LabelSet → Prop} (h : Running metric table k c)
    (hedits : Edits A c c') : Running metric table k c' := by
  refine h.catalog (fun m hm => ?_) (fun id _ => hasSeries_edits hedits)
  obtain ⟨m', hm', hname, htable, _⟩ := Edits.metric_mem hedits hm
  exact ⟨m', hm', hname, htable⟩

theorem fillKnowSeriesId_cases (cache : SeriesCache) (info : SamplesInfo) :
    (info.seriesID > -1 ∧ fillKnowSeriesId cache info = info) ∨
      (∃ entry ∈ cache, fillKnowSeriesId cache info = info.withID entry.2) ∨
      (isMissing cache info = true ∧ fillKnowSeriesId cache info = info) := by
  unfold fillKnowSeriesId isMissing
  split
  · rename_i h
    exact .inl ⟨h, rfl⟩
  · rename_i h
    cases hlookup : cache.lookup info.labels.str with
    | none => exact .inr (.inr ⟨by simpa using h, rfl⟩)
    | some id =>
      obtain ⟨before, after, hcache, _⟩ := List.lookup_eq_some_iff.mp hlookup
      exact .inr (.inl ⟨(info.labels.str, id), by simp [hcache], rfl⟩)

theorem Running.fill (h : Running metric table k c) {infos : List SamplesInfo}
    (hnamed : ∀ info ∈ infos, info.labels.metricName = metric)
    (hinfos : ∀ info ∈ infos, info.seriesID = -1 ∨ hasSeries c table info.seriesID = true) :
    ∀ info ∈ (fillKnowSeriesIds k.seriesCache infos).1, info.labels.metricName = metric ∧
      (info.seriesID = -1 ∨ hasSeries c table info.seriesID = true) := by
  intro filled hfilled
  obtain ⟨info, hinfo, rfl⟩ := List.mem_map.mp hfilled
  rcases fillKnowSeriesId_cases k.seriesCache info with ⟨_, heq⟩ | ⟨entry, he, heq⟩ | ⟨_, heq⟩
  · rw [heq]
    exact ⟨hnamed info hinfo, hinfos info hinfo⟩
  · rw [heq]
    exact ⟨hnamed info hinfo, .inr (h.cache entry he)⟩
  · rw [heq]
    exact ⟨hnamed info hinfo, hinfos info hinfo⟩

theorem Running.fill_complete (h : Running metric table k c) {infos : List SamplesInfo}
    (hinfos : ∀ info ∈ infos, info.seriesID = -1 ∨ hasSeries c table info.seriesID = true)
    (hnone : (fillKnowSeriesIds k.seriesCache infos).2 = 0) :
    ∀ info ∈ (fillKnowSeriesIds k.seriesCache infos).1,
      hasSeries c table info.seriesID = true := by
  intro filled hfilled
  obtain ⟨info, hinfo, rfl⟩ := List.mem_map.mp hfilled
  rcases fillKnowSeriesId_cases k.seriesCache info with ⟨hset, heq⟩ | ⟨entry, he, heq⟩ | ⟨hmiss, _⟩
  · rw [heq]
    exact (hinfos info hinfo).resolve_left (by omega)
  · rw [heq]
    exact h.cache entry he
  · exact absurd hmiss (List.countP_eq_zero.mp hnone info hinfo)

theorem Running.receive (h : Running metric table k c) (hready : k.asking = none)
    (data : Data metric) :
    Running metric table { k with
      pending := k.pending ++ (fillKnowSeriesIds k.seriesCache data.infos).1 } c := by
  have hdata := h.fill data.named fun info hinfo => .inl (data.unset info hinfo)
  refine { h with named := ?_, pending := ?_, grouped := ?_ }
  · intro info hinfo
    rcases List.mem_append.mp hinfo with hinfo | hinfo
    · exact h.named info hinfo
    · exact (hdata info hinfo).1
  · intro info hinfo
    rcases List.mem_append.mp hinfo with hinfo | hinfo
    · exact h.pending info hinfo
    · exact (hdata info hinfo).2
  · exact fun groups hgroups => absurd (hready.symm.trans hgroups) (by simp)

theorem Running.hand (h : Running metric table k c)
    (hknown : ∀ info ∈ k.pending, hasSeries c table info.seriesID = true) :
    Running metric table k.hand c := by
  refine ⟨h.registered, h.cache, by simp [Connector.hand], by simp [Connector.hand],
    by simp [Connector.hand], by simp [Connector.hand], fun batch hbatch => ?_⟩
  rcases List.mem_append.mp hbatch with hbatch | hbatch
  · exact h.inFlight batch hbatch
  · rw [List.mem_singleton.mp hbatch]
    exact hknown

theorem Running.beginSetSeriesIds (h : Running metric table k c) :
    Running metric table k.beginSetSeriesIds c := by
  have hfill := h.fill h.named h.pending
  have hfilled : Running metric table
      { k with pending := (fillKnowSeriesIds k.seriesCache k.pending).1, asking := none } c :=
    ⟨h.registered, h.cache, fun info hi => (hfill info hi).1, fun info hi => (hfill info hi).2,
      by simp, by simp, h.inFlight⟩
  simp only [Connector.beginSetSeriesIds]
  split
  · rename_i hnone
    exact hfilled.hand (h.fill_complete h.pending hnone)
  · refine { hfilled with asked := ?_, grouped := ?_ }
    · rintro groups ⟨⟩
      exact labels_batchSeries (P := fun labels => labels.metricName = metric) hfilled.named
    · rintro groups ⟨⟩ i info hi hid
      exact exists_group hi (by omega)

theorem Running.assign {group : Group} {groups : List Group} {f : Filling Catalog}
    (h : Running metric table k c) (hasking : k.asking = some (group :: groups))
    (hcache : f.seriesCache = k.seriesCache) (hinfos : f.sampleInfos = k.pending)
    (hid : hasSeries c table id = true) :
    Running metric table { k with
      seriesCache := (f.assign group id).seriesCache
      pending := (f.assign group id).sampleInfos
      asking := some groups } c := by
  have hcases : ∀ {i : Nat} {info : SamplesInfo}, (f.assign group id).sampleInfos[i]? = some info →
      ∃ old, k.pending[i]? = some old ∧ info.labels = old.labels ∧
        ((i ∈ group.members ∧ info.seriesID = id) ∨
          (i ∉ group.members ∧ info.seriesID = old.seriesID)) := by
    intro i info hi
    rw [getElem?_assign, hinfos, Option.map_eq_some_iff] at hi
    obtain ⟨old, hold, rfl⟩ := hi
    refine ⟨old, hold, ?_⟩
    split
    · rename_i hmem
      exact ⟨rfl, .inl ⟨hmem, rfl⟩⟩
    · rename_i hmem
      exact ⟨rfl, .inr ⟨hmem, rfl⟩⟩
  refine ⟨h.registered, ?_, ?_, ?_, ?_, ?_, h.inFlight⟩
  · intro entry he
    rcases List.mem_cons.mp he with rfl | he
    · exact hid
    · exact h.cache entry (hcache ▸ he)
  · intro info hinfo
    obtain ⟨i, hi⟩ := List.mem_iff_getElem?.mp hinfo
    obtain ⟨old, hold, hlabels, _⟩ := hcases hi
    rw [hlabels]
    exact h.named old (List.mem_of_getElem? hold)
  · intro info hinfo
    obtain ⟨i, hi⟩ := List.mem_iff_getElem?.mp hinfo
    obtain ⟨old, hold, _, ⟨_, hset⟩ | ⟨_, hset⟩⟩ := hcases hi
    · rw [hset]
      exact .inr hid
    · rw [hset]
      exact h.pending old (List.mem_of_getElem? hold)
  · rintro _ ⟨⟩ g hg
    exact h.asked _ hasking g (List.mem_cons_of_mem _ hg)
  · rintro _ ⟨⟩ i info hi hunset
    obtain ⟨old, hold, _, ⟨_, hset⟩ | ⟨hnot, hset⟩⟩ := hcases hi
    · have hnonneg := nonneg_of_hasSeries hid
      omega
    · obtain ⟨g, hg, hmem⟩ := h.grouped _ hasking i old hold (hset.symm.trans hunset)
      rcases List.mem_cons.mp hg with rfl | hg
      · exact absurd hmem hnot
      · exact ⟨g, hg, hmem⟩

theorem Running.clear (h : Running metric table k c) {cache : SeriesCache}
    (hcache : ∀ entry ∈ cache, hasSeries c table entry.2 = true) :
    Running metric table { k with seriesCache := cache, pending := [], asking := none } c :=
  ⟨h.registered, hcache, by simp, by simp, by simp, by simp, h.inFlight⟩

theorem Running.erase (h : Running metric table k c) (n : Nat) :
    Running metric table { k with inFlight := k.inFlight.eraseIdx n } c :=
  { h with inFlight := fun batch hbatch => h.inFlight batch (List.mem_of_mem_eraseIdx hbatch) }

end Running

section Steps

variable {s : System}

theorem askDatabase_cases {fault : Fault} (hfault : ∀ err, fault ≠ .commit err)
    (labels : Labels) (c : Catalog) :
    Edits (fun _ _ => True) c (askDatabase fault labels c).2 ∧
      ((∃ err, (askDatabase fault labels c).1 = .beginFailed err) ∨
        (∃ err, (askDatabase fault labels c).1 = .queryFailed err) ∨
        ∃ tableName, ∃ id : Nat, (askDatabase fault labels c).1 = .committed tableName id ∧
          Stored (askDatabase fault labels c).2 labels.metricName labels.pairs id) := by
  cases fault with
  | begin err => exact ⟨.refl, .inl ⟨err, rfl⟩⟩
  | query err => exact ⟨.refl, .inr (.inl ⟨err, rfl⟩)⟩
  | commit err => exact absurd rfl (hfault err)
  | none =>
    have hedits := step_edits (A := fun _ _ => True) (c := c)
      (.seriesIdForKvArray labels.metricName labels.pairs) trivial rfl
    cases hresult : transaction
        (getOrCreateSeriesIdForKvArray labels.metricName labels.pairs) c with
    | mk result c' =>
      simp only [Sql.CatalogRuns.step, hresult] at hedits
      cases result with
      | none =>
        simp only [askDatabase, hresult]
        exact ⟨hedits, .inr (.inl ⟨_, rfl⟩)⟩
      | some stored =>
        obtain ⟨tableName, id⟩ := stored
        have hok := eq_ok_of_transaction (congrArg Prod.fst hresult)
        simp only [askDatabase, hresult]
        rw [hresult] at hok
        exact ⟨hedits, .inr (.inr ⟨tableName, id, rfl,
          (getOrCreateSeriesIdForKvArray_edits (A := fun _ _ => True) trivial hok).2⟩)⟩

theorem inv_of_running (hwf : WellFormed s.catalog)
    (htable : s.connector.metricTableName = some table)
    (hrunning : Running metric table s.connector s.catalog) : Inv metric s := by
  refine ⟨hwf, fun hnone => absurd (hnone.symm.trans htable) (by simp), fun t ht => ?_⟩
  obtain rfl := Option.some.inj (htable.symm.trans ht)
  exact hrunning

theorem Inv.exists_table (hinv : Inv metric s) (h : s.connector ≠ {}) :
    ∃ table, s.connector.metricTableName = some table := by
  cases htable : s.connector.metricTableName with
  | none => exact absurd (hinv.fresh htable) h
  | some table => exact ⟨table, rfl⟩

theorem readResult_inv {fault : Fault} (hinv : Inv metric s)
    (hfault : ∀ err, fault ≠ .commit err) : Inv metric (readResult s fault) := by
  cases hasking : s.connector.asking with
  | none =>
    simp only [readResult, hasking]
    exact hinv
  | some groups =>
    obtain ⟨table, htable⟩ := Inv.exists_table hinv fun h => by simp [h] at hasking
    have hrunning := hinv.running table htable
    cases groups with
    | nil =>
      simp only [readResult, hasking]
      refine inv_of_running hinv.wellFormed htable (hrunning.hand fun info hinfo => ?_)
      obtain ⟨i, hi⟩ := List.mem_iff_getElem?.mp hinfo
      refine (hrunning.pending info hinfo).resolve_left fun hunset => ?_
      obtain ⟨g, hg, _⟩ := hrunning.grouped _ hasking i info hi hunset
      exact absurd hg (by simp)
    | cons group groups =>
      have hname := hrunning.asked _ hasking group List.mem_cons_self
      obtain ⟨hedits, hreply⟩ := askDatabase_cases hfault group.labels s.catalog
      have hwf := hinv.wellFormed.edits hedits
      have hrunning' := hrunning.edits hedits
      simp only [readResult, hasking, SeriesIds.readResult]
      rcases hreply with ⟨err, hreply⟩ | ⟨err, hreply⟩ | ⟨tableName, id, hreply, hstored⟩
      · rw [hreply]
        exact inv_of_running hwf htable (hrunning'.clear hrunning'.cache)
      · rw [hreply]
        exact inv_of_running hwf htable (hrunning'.clear hrunning'.cache)
      · rw [hreply]
        rw [hname] at hstored
        exact inv_of_running hwf htable (hrunning'.assign hasking rfl rfl
          (hasSeries_of_stored hwf hrunning'.registered hstored))

theorem database_inv {a : Sql.CatalogRuns.Action} (hinv : Inv metric s)
    (ha : HeldSeriesSurvive s (.database a : Action metric)) :
    Inv metric { s with catalog := Sql.CatalogRuns.step s.catalog a } := by
  refine ⟨wellFormed_step hinv.wellFormed a, hinv.fresh, fun table htable => ?_⟩
  have hrunning := hinv.running table htable
  cases hdrop : a.isDrop with
  | false =>
    refine hrunning.edits (step_edits (A := fun _ _ => True) a ?_ hdrop)
    cases a <;> simp [Action.Stores]
  | true =>
    cases a with
    | dropMetricChunks metricName olderThan =>
      rcases step_drop (A := fun _ _ => True) hinv.wellFormed metricName olderThan with
        ⟨hedits, _⟩ | ⟨m, dataTable, p, cut, hm, hdata, hp, hcut, heq⟩
      · exact hrunning.edits hedits
      · rw [heq]
        refine hrunning.catalog (fun m hm => ⟨m, hm, rfl, rfl⟩) fun id hid hseries => ?_
        refine hasSeries_dropBefore hp hcut hseries fun hsame n hn hdead => ?_
        refine ha m dataTable p hm hdata hp ?_ n hdead (hn ▸ hid)
        rw [← hsame]
        exact htable
    | _ => simp [Action.isDrop] at hdrop

theorem start_inv (hinv : Inv metric s) : Inv metric (step s (.start : Action metric)) := by
  simp only [step]
  cases htable : s.connector.metricTableName with
  | some table => exact hinv
  | none =>
    have hedits := step_edits (A := fun _ _ => True) (c := s.catalog) (.metricTableName metric)
      trivial rfl
    cases hresult : transaction (getOrCreateMetricTableName metric) s.catalog with
    | mk result c' =>
      simp only [Sql.CatalogRuns.step, hresult] at hedits
      have hwf := hinv.wellFormed.edits hedits
      cases result with
      | none =>
        refine ⟨hwf, hinv.fresh, fun table ht => ?_⟩
        exact absurd (htable.symm.trans ht) (by simp)
      | some found =>
        have hok := eq_ok_of_transaction (congrArg Prod.fst hresult)
        rw [hresult] at hok
        obtain ⟨_, hm, hname⟩ := getOrCreateMetricTableName_edits (A := fun _ _ => True) hok
        refine inv_of_running hwf rfl ?_
        rw [hinv.fresh htable]
        exact ⟨⟨found.1, hm, hname, rfl⟩, by simp, by simp, by simp, by simp, by simp,
          by simp⟩

theorem metricTableName_beginSetSeriesIds (k : Connector) :
    k.beginSetSeriesIds.metricTableName = k.metricTableName := by
  simp only [Connector.beginSetSeriesIds]
  split <;> rfl

theorem doInsert_inv (hinv : Inv metric s) (n : Nat) (newChunk : Int → Chunk) :
    Inv metric (step s (.doInsert n newChunk : Action metric)) := by
  simp only [step]
  cases hrequest : insertRequest s n with
  | none => exact hinv
  | some request =>
    have hedits := step_edits (A := fun _ _ => True) (c := s.catalog)
      (.insertData newChunk request.1 (request.2.map toDataRow)) trivial rfl
    refine ⟨hinv.wellFormed.edits hedits, fun hnone => ?_, fun table htable => ?_⟩
    · simp only [insertRequest, show s.connector.metricTableName = none from hnone] at hrequest
      exact absurd hrequest (by simp)
    · exact ((hinv.running table htable).edits hedits).erase n

theorem step_inv (hinv : Inv metric s) (a : Action metric) (ha : HeldSeriesSurvive s a) :
    Inv metric (step s a) := by
  have hready : s.connector.ready = true → ∃ table, s.connector.metricTableName = some table ∧
      s.connector.asking = none := by
    intro h
    simp only [Connector.ready, Bool.and_eq_true, Option.isSome_iff_exists,
      Option.isNone_iff_eq_none] at h
    obtain ⟨⟨table, htable⟩, hasking⟩ := h
    exact ⟨table, htable, hasking⟩
  cases a with
  | start => exact start_inv hinv
  | receive data =>
    simp only [step]
    split
    · rename_i h
      obtain ⟨table, htable, hasking⟩ := hready h
      exact inv_of_running hinv.wellFormed htable
        ((hinv.running table htable).receive hasking data)
    · exact hinv
  | beginSetSeriesIds =>
    simp only [step]
    split
    · rename_i h
      obtain ⟨table, htable, _⟩ := hready h
      exact inv_of_running hinv.wellFormed ((metricTableName_beginSetSeriesIds _).trans htable)
        (hinv.running table htable).beginSetSeriesIds
    · exact hinv
  | sendBatchFailed =>
    simp only [step]
    split
    · rename_i h
      obtain ⟨table, htable⟩ := Inv.exists_table hinv fun hfresh => by simp [hfresh] at h
      have hrunning := hinv.running table htable
      exact inv_of_running hinv.wellFormed htable (hrunning.clear hrunning.cache)
    · exact hinv
  | readResult fault => exact readResult_inv hinv ha
  | doInsert n newChunk => exact doInsert_inv hinv n newChunk
  | dropBatch n =>
    refine ⟨hinv.wellFormed, fun hnone => ?_, fun table htable =>
      (hinv.running table htable).erase n⟩
    simp only [step]
    rw [hinv.fresh hnone]
    rfl
  | database a => exact database_inv hinv ha

theorem initial_inv : Inv metric .initial :=
  ⟨wellFormed_empty, fun _ => rfl, fun table htable => absurd htable (by simp [System.initial])⟩

theorem writesKnown_of_inv (hinv : Inv metric s) (a : Action metric) : WritesKnown s a := by
  intro w hw row hrow
  cases a with
  | doInsert n newChunk =>
    simp only [written, insertRequest, Option.mem_def, Option.bind_eq_bind,
      Option.bind_eq_some_iff, Option.pure_def, Option.some.injEq] at hw
    obtain ⟨_, ⟨table, htable, infos, hinfos, ⟨rows, u⟩, hrows, rfl⟩, _, _, rfl⟩ := hw
    obtain ⟨u', hbatch, _⟩ := batchRows_eq (t := { sampleInfos := infos }) rfl
    have heq := congrArg Prod.fst (Option.some.inj (hrows.symm.trans hbatch))
    simp only at heq
    rw [heq] at hrow
    obtain ⟨info, hinfo, hmem⟩ := List.mem_flatMap.mp hrow
    obtain ⟨sample, _, rfl⟩ := List.mem_map.mp hmem
    exact (hinv.running table htable).inFlight infos (List.mem_of_getElem? hinfos) info hinfo
  | _ => exact absurd hw (by simp [written])

end Steps

/-- Along every run in which no drop deletes a series that the routine holds and no
`COMMIT` fails, each row that a `doInsert` writes refers to a series of the metric. -/
theorem writesKnown_of_heldSeriesSurvive (actions : List (Action metric))
    (h : Throughout step HeldSeriesSurvive .initial actions) :
    Throughout step WritesKnown .initial actions :=
  throughout_of_invariant (Inv metric) (fun _ a hinv ha => step_inv hinv a ha)
    (fun _ a hinv => writesKnown_of_inv hinv a) initial_inv h

section Runs

/-- One sample of the series `cpu`. -/
def cpuSample (timestamp : Int) : Data "cpu" :=
  ⟨[⟨⟨"cpu", [("__name__", "cpu")], "cpu"⟩, -1, [⟨timestamp, 7⟩], by simp⟩], by simp, by simp⟩

/-- A sample is written, and a drop of everything before `olderThan` follows. -/
def writeAndDrop (olderThan : Int) : List (Action "cpu") :=
  [.start, .receive (cpuSample 1000), .beginSetSeriesIds, .readResult .none, .readResult .none,
    .doInsert 0 fun _ => ⟨0, 8 * hour⟩, .database (.dropMetricChunks "cpu" olderThan)]

/-- The series comes back and finds its id in the cache. -/
def writeAgain : List (Action "cpu") :=
  [.receive (cpuSample 30000000), .beginSetSeriesIds, .doInsert 0 fun _ => ⟨8 * hour, 16 * hour⟩]

/-- The series is written, a series that no routine holds is stored with old data, and a drop
deletes that one. -/
def dropUnheld : List (Action "cpu") :=
  [.start, .receive (cpuSample 30000000), .beginSetSeriesIds, .readResult .none, .readResult .none,
    .doInsert 0 fun _ => ⟨8 * hour, 16 * hour⟩,
    .database (.seriesIdForKvArray "cpu" [("__name__", "cpu"), ("job", "old")]),
    .database (.insertData (fun _ => ⟨0, 8 * hour⟩) "cpu" [⟨1000000, 7, 2⟩]),
    .database (.dropMetricChunks "cpu" (8 * hour))]

theorem writesKnown_of_heldSeriesSurvive_cpu :
    Throughout step WritesKnown .initial (dropUnheld ++ writeAgain) ∧
      hasSeries (run step .initial dropUnheld.dropLast).catalog "cpu" 2 = true ∧
      hasSeries (run step .initial dropUnheld).catalog "cpu" 2 = false := by
  refine ⟨writesKnown_of_heldSeriesSurvive _ ?_, by decide +kernel, by decide +kernel⟩
  refine ⟨trivial, trivial, trivial, by simp [HeldSeriesSurvive], by simp [HeldSeriesSurvive],
    trivial, trivial, trivial, ?_, trivial, trivial, trivial, trivial⟩
  intro m dataTable p hm hdata hp htable id hdead hholds
  obtain rfl : m = ⟨1, "cpu", "cpu", false⟩ :=
    Option.some.inj (hm.symm.trans (by decide +kernel))
  obtain rfl : dataTable = ⟨[⟨8 * hour, 16 * hour⟩, ⟨0, 8 * hour⟩],
      [⟨30000000000, 7, 1⟩, ⟨1000000, 7, 2⟩]⟩ :=
    Option.some.inj (hdata.symm.trans (by decide +kernel))
  have hheld : id = 1 := by
    have hconnector : (run step .initial dropUnheld.dropLast).connector =
        { metricTableName := some "cpu", seriesCache := [("cpu", 1)] } := by decide +kernel
    replace hholds : Holds (run step .initial dropUnheld.dropLast).connector id := hholds
    rw [hconnector] at hholds
    simpa [Holds, eq_comm] using hholds
  obtain ⟨cut, ⟨-, hle, -⟩, -, hbefore⟩ := hdead
  have hlate := hbefore ⟨30000000000, 7, 1⟩ (by simp) hheld.symm
  exact absurd (hlate.trans_le hle) (by decide)

/-- A series goes quiet, its data and its row are dropped, and it comes back. -/
theorem not_writesKnown_quietSeriesRun :
    ¬ Throughout step WritesKnown .initial (writeAndDrop (8 * hour) ++ writeAgain) := by
  decide +kernel

end Runs

end TimescalePrometheus.Ingest.Orphans
