import TimescalePrometheus.Clockcache.Agreement
import TimescalePrometheus.Query.CompleteReads

/-!
`getLabelsForIds` on the slices that it works on.
-/

namespace TimescalePrometheus.Query.LabelLookup

open Clockcache Query.Cursors
open Query.CompleteReads (Answer LabelsInfo Querier Fetched cachedLabels)

/-- The elements from index `i` on are overwritten. -/
def writeAt {α : Type} (slice : List α) (i : Nat) (new : List α) : List α :=
  slice.take i ++ new ++ slice.drop (i + new.length)

/-- The cache, the slices, and the ids that the database was asked for. -/
structure State where
  labels : Cache Int Label
  keys : List Int
  ids : List Int
  values : List (Option Label)
  queried : List (List Int)

/-- An error, or an index out of range. -/
inductive Failure where
  | error (err : String)
  | panic

/-- A row of the reply. `misses` and `newLabels` have length `numMisses`. -/
def fetchRow (numHits numMisses : Nat) (s : State) (info : LabelsInfo) : Except String State :=
  if info.ids.length ≠ info.keys.length then
    .error ("query returned a mismatch in ids and keys: " ++ toString info.ids.length ++ ", " ++
      toString info.keys.length)
  else if info.keys.length ≠ info.vals.length then
    .error ("query returned a mismatch in timestamps and values: " ++
      toString info.keys.length ++ ", " ++ toString info.vals.length)
  else if numMisses < info.keys.length then
    .error ("query returned wrong number of labels: " ++ toString numMisses ++ ", " ++
      toString info.keys.length)
  else
    let newLabels := info.keys.zipWith Label.mk info.vals
    let keys := writeAt s.keys numHits info.ids
    let values := writeAt s.values numHits (newLabels.map some)
    -- `InsertBatch` writes its canonical entries over the same elements.
    let batch := insertLoop s.labels (info.ids.zip newLabels)
    .ok { s with
      labels := batch.cache
      keys := writeAt keys numHits (batch.pairs.map Prod.fst)
      values := writeAt values numHits (batch.pairs.map fun pair => some pair.2) }

/-- The loop over the rows; it returns `numNewLabels`. -/
def fetchRows (numHits : Nat) : Nat → Nat → State → List (Except String LabelsInfo) →
    Except String Nat × State
  | _, numNewLabels, s, [] => (.ok numNewLabels, s)
  | _, _, s, .error err :: _ => (.error err, s)
  | numMisses, _, s, .ok info :: rest =>
    match fetchRow numHits numMisses s info with
    | .error err => (.error err, s)
    | .ok s => fetchRows numHits info.keys.length info.keys.length s rest

def fetchMissingLabels (labelsInfo : List Int → Answer LabelsInfo) (numHits : Nat) (s : State) :
    Except String Nat × State :=
  let misses := s.keys.drop numHits
  let ids := writeAt s.ids numHits misses
  let missedIds := ids.drop numHits
  let s := { s with ids, queried := s.queried ++ [missedIds] }
  match labelsInfo missedIds with
  | .error err => (.error err, s)
  | .ok rows => fetchRows numHits misses.length 0 s rows.rest

/-- `values[i].(labels.Label)` for all elements. -/
def assertLabels (values : List (Option Label)) : Except Failure (List Label) :=
  match values.mapM id with
  | none => .error .panic
  | some lls => .ok lls

def getLabelsForIds (labelsInfo : List Int → Answer LabelsInfo) (labels : Cache Int Label)
    (ids : List Int) : Except Failure (List Label) × State :=
  let keys := ids
  let values := List.replicate ids.length none
  match labels.getValues keys values with
  | none => (.error .panic, ⟨labels, keys, ids, values, []⟩)
  | some v =>
    let s : State := ⟨v.cache, v.keys, ids, v.valuesOut, []⟩
    if v.numFound < ids.length then
      match fetchMissingLabels labelsInfo v.numFound s with
      | (.error err, s) => (.error (.error err), s)
      | (.ok numFetches, s) => (assertLabels (s.values.take (v.numFound + numFetches)), s)
    else (assertLabels s.values, s)

section Slices

variable {α : Type} {slice new : List α} {i : Nat}

theorem take_writeAt (h : i ≤ slice.length) :
    (writeAt slice i new).take (i + new.length) = slice.take i ++ new := by
  have hlen : (slice.take i ++ new).length = i + new.length := by
    rw [List.length_append, List.length_take_of_le h]
  rw [writeAt, ← hlen, List.take_left']
  rfl

theorem take_writeAt_of_le (h : i ≤ slice.length) :
    (writeAt slice i new).take i = slice.take i := by
  rw [writeAt, List.append_assoc, List.take_left']
  exact List.length_take_of_le h

theorem drop_writeAt (h : i + new.length = slice.length) : (writeAt slice i new).drop i = new := by
  rw [writeAt, List.drop_of_length_le (le_of_eq h.symm), List.append_nil, List.drop_left']
  exact List.length_take_of_le (by omega)

theorem length_writeAt (h : i + new.length ≤ slice.length) :
    (writeAt slice i new).length = slice.length := by
  simp only [writeAt, List.length_append, List.length_take, List.length_drop]
  omega

end Slices

/-- The state of the loop over the rows in the two models. The values of the hits stay where they
are, and the new labels stand after them. -/
structure Simulates (hits : List (Option Label)) (numNewLabels : Nat) (s : State) (f : Fetched) :
    Prop where
  labels : s.labels = f.labels
  front : s.values.take hits.length = hits
  values : s.values.take (hits.length + numNewLabels) = hits ++ f.newLabels.map some
  length : hits.length + f.numMisses ≤ s.values.length

theorem fetchRow_simulates {hits : List (Option Label)} {numNewLabels : Nat} {s : State}
    {f : Fetched} (h : Simulates hits numNewLabels s f) (info : LabelsInfo) :
    (∃ err, fetchRow hits.length f.numMisses s info = .error err ∧
      CompleteReads.fetchRow f info = .error err) ∨
    ∃ s' f', fetchRow hits.length f.numMisses s info = .ok s' ∧
      CompleteReads.fetchRow f info = .ok f' ∧ Simulates hits info.keys.length s' f' ∧
      f'.numMisses = info.keys.length ∧ s'.queried = s.queried := by
  unfold fetchRow CompleteReads.fetchRow
  by_cases hids : info.ids.length ≠ info.keys.length
  · rw [if_pos hids, if_pos hids]
    exact .inl ⟨_, rfl, rfl⟩
  rw [if_neg hids, if_neg hids]
  by_cases hvals : info.keys.length ≠ info.vals.length
  · rw [if_pos hvals, if_pos hvals]
    exact .inl ⟨_, rfl, rfl⟩
  rw [if_neg hvals, if_neg hvals]
  by_cases hmisses : f.numMisses < info.keys.length
  · rw [if_pos hmisses, if_pos hmisses]
    exact .inl ⟨_, rfl, rfl⟩
  rw [if_neg hmisses, if_neg hmisses, h.labels]
  refine .inr ⟨_, _, rfl, rfl, ?_, rfl, rfl⟩
  have hlen := h.length
  have hnew : (info.keys.zipWith Label.mk info.vals).length = info.keys.length := by
    rw [List.length_zipWith]
    omega
  have hpairs : ((insertLoop f.labels (info.ids.zip
      (info.keys.zipWith Label.mk info.vals))).pairs.map fun pair => some pair.2).length =
      info.keys.length := by
    rw [List.length_map, length_pairs_insertLoop, List.length_zip, hnew]
    omega
  have hwritten : (writeAt s.values hits.length
      ((info.keys.zipWith Label.mk info.vals).map some)).length = s.values.length := by
    apply length_writeAt
    rw [List.length_map, hnew]
    omega
  have hfront : (writeAt s.values hits.length
      ((info.keys.zipWith Label.mk info.vals).map some)).take hits.length = hits := by
    rw [take_writeAt_of_le (by omega), h.front]
  refine ⟨rfl, ?_, ?_, ?_⟩
  · dsimp only
    rw [take_writeAt_of_le (by omega), hfront]
  · dsimp only
    rw [← hpairs, take_writeAt (by omega), hfront, List.map_map]
    rfl
  · dsimp only
    rw [length_writeAt (by omega)]
    omega

theorem fetchRows_simulates {hits : List (Option Label)} {numNewLabels : Nat} {s : State}
    {f : Fetched} (h : Simulates hits numNewLabels s f) (rows : List (Except String LabelsInfo)) :
    ∃ result s' f', fetchRows hits.length f.numMisses numNewLabels s rows = (result, s') ∧
      s'.labels = f'.labels ∧ s'.queried = s.queried ∧
      match result with
      | .error err => CompleteReads.fetchRows f rows = (some err, f')
      | .ok n => CompleteReads.fetchRows f rows = (none, f') ∧
          s'.values.take (hits.length + n) = hits ++ f'.newLabels.map some := by
  induction rows generalizing numNewLabels s f with
  | nil => exact ⟨.ok numNewLabels, s, f, rfl, h.labels, rfl, rfl, h.values⟩
  | cons row rows ih =>
    cases row with
    | error err => exact ⟨.error err, s, f, rfl, h.labels, rfl, rfl⟩
    | ok info =>
      unfold fetchRows CompleteReads.fetchRows
      obtain ⟨err, hs, hf⟩ | ⟨s', f', hs, hf, hsim, hmisses, hqueried⟩ :=
        fetchRow_simulates h info
      · rw [hs, hf]
        exact ⟨.error err, s, f, rfl, h.labels, rfl, rfl⟩
      · rw [hs, hf]
        dsimp only
        rw [← hmisses, ← hqueried]
        exact ih (hmisses ▸ hsim)

theorem map_some_filterMap_id {values : List (Option Label)}
    (h : ∀ value ∈ values, value.isSome = true) : (values.filterMap id).map some = values := by
  induction values with
  | nil => rfl
  | cons value values ih =>
    obtain ⟨label, rfl⟩ := Option.isSome_iff_exists.mp (h value List.mem_cons_self)
    change some label :: (values.filterMap id).map some = some label :: values
    rw [ih fun value hvalue => h value (List.mem_cons_of_mem _ hvalue)]

section Reads

variable (c : Cache Int Label) (ids : List Int)

/-- `GetValues` of the ids. -/
def read : Values Int Label := cachedLabels { labels := c } ids

/-- The keys that `GetValues` left at the end. -/
def misses : List Int := (read c ids).keys.drop (read c ids).numFound

/-- The values that `GetValues` filled in. -/
def hits : List Label := ((read c ids).keys.take (read c ids).numFound).filterMap c.view

theorem read_hitsFirst : (read c ids).keys.Perm ids ∧ (read c ids).valuesOut.length = ids.length ∧
    HitsFirst c (read c ids).keys (read c ids).valuesOut (read c ids).numFound
      (read c ids).numFound := by
  have hstart : HitsFirst c ids (List.replicate ids.length none) 0 (0 + ids.length) := by
    refine ⟨rfl, fun value hvalue => ?_, fun key hkey => ?_⟩
    · cases hvalue
    · rw [Nat.zero_add, List.drop_length] at hkey
      cases hkey
  obtain ⟨hperm, hlength, hfirst⟩ := getValuesLoop_hitsFirst rfl (by omega)
    List.length_replicate.symm hstart
  exact ⟨hperm, hlength.trans List.length_replicate, hfirst⟩

theorem numFound_le : (read c ids).numFound ≤ ids.length := by
  have hle := numFound_getValuesLoop_le c ids (List.replicate ids.length none) 0 ids.length
  rwa [Nat.zero_add] at hle

theorem getValues_eq : c.getValues ids (List.replicate ids.length none) = some (read c ids) := by
  rw [Cache.getValues, if_pos List.length_replicate.symm]
  rfl

theorem take_valuesOut : (read c ids).valuesOut.take (read c ids).numFound =
    (hits c ids).map some := by
  obtain ⟨-, -, hfirst⟩ := read_hitsFirst c ids
  rw [← map_some_filterMap_id hfirst.isSome, ← hfirst.found, List.filterMap_map]
  rfl

theorem length_hits : (hits c ids).length = (read c ids).numFound := by
  have hlength := congrArg List.length (take_valuesOut c ids)
  rw [List.length_map, List.length_take, (read_hitsFirst c ids).2.1] at hlength
  have := numFound_le c ids
  omega

end Reads

theorem assertLabels_map_some (lls : List Label) : assertLabels (lls.map some) = .ok lls := by
  have hall : (lls.map some).mapM id = some lls := by
    induction lls with
    | nil => rfl
    | cons label lls ih => rw [List.map_cons, List.mapM_cons, ih]; rfl
  rw [assertLabels, hall]

section Calls

variable (labelsInfo : List Int → Answer LabelsInfo) (c : Cache Int Label) (ids : List Int)

/-- The state after `GetValues`. -/
def afterRead : State := ⟨(read c ids).cache, (read c ids).keys, ids, (read c ids).valuesOut, []⟩

theorem getLabelsForIds_eq : getLabelsForIds labelsInfo c ids =
    if (read c ids).numFound < ids.length then
      match fetchMissingLabels labelsInfo (read c ids).numFound (afterRead c ids) with
      | (.error err, s) => (.error (.error err), s)
      | (.ok numFetches, s) =>
        (assertLabels (s.values.take ((read c ids).numFound + numFetches)), s)
    else (assertLabels (read c ids).valuesOut, afterRead c ids) := by
  unfold getLabelsForIds
  dsimp only
  rw [getValues_eq]
  rfl

theorem getLabelsForIds_eq_lists (answers : Nat → Answer LabelsInfo) :
    CompleteReads.getLabelsForIds answers { labels := c } ids =
    if (read c ids).numFound < ids.length then
      match CompleteReads.fetchMissingLabels answers { labels := (read c ids).cache }
          (misses c ids) with
      | (.error err, q) => (.error err, q)
      | (.ok newLabels, q) => (.ok (hits c ids ++ newLabels), q)
    else (.ok (hits c ids), { labels := (read c ids).cache }) := by
  have hkept : ((read c ids).valuesOut.take (read c ids).numFound).filterMap id = hits c ids := by
    rw [take_valuesOut, List.filterMap_map]
    exact List.filterMap_some
  rw [← hkept]
  rfl

/-- The state when the database is asked. -/
def asking : State :=
  { afterRead c ids with
    ids := writeAt ids (read c ids).numFound (misses c ids)
    queried := [misses c ids] }

theorem length_misses : (misses c ids).length = ids.length - (read c ids).numFound := by
  rw [misses, List.length_drop, (read_hitsFirst c ids).1.length_eq]

theorem fetchMissingLabels_eq :
    fetchMissingLabels labelsInfo (read c ids).numFound (afterRead c ids) =
      match labelsInfo (misses c ids) with
      | .error err => (.error err, asking c ids)
      | .ok rows =>
        fetchRows (read c ids).numFound (misses c ids).length 0 (asking c ids) rows.rest := by
  have hle := numFound_le c ids
  have hmisses := length_misses c ids
  have hasked : (writeAt ids (read c ids).numFound
      ((read c ids).keys.drop (read c ids).numFound)).drop (read c ids).numFound =
      misses c ids := drop_writeAt (by rw [← misses]; omega)
  unfold fetchMissingLabels
  dsimp only [afterRead]
  rw [hasked]
  rfl

theorem asking_simulates : Simulates ((hits c ids).map some) 0 (asking c ids)
    { labels := (read c ids).cache, numMisses := (misses c ids).length, newLabels := [] } := by
  have hfront : (asking c ids).values.take ((hits c ids).map some).length =
      (hits c ids).map some := by
    rw [List.length_map, length_hits]
    exact take_valuesOut c ids
  refine ⟨rfl, hfront, ?_, ?_⟩
  · rw [Nat.add_zero, hfront]
    exact (List.append_nil _).symm
  · have hlength : (asking c ids).values.length = ids.length := (read_hitsFirst c ids).2.1
    have hle := numFound_le c ids
    have hmisses := length_misses c ids
    rw [List.length_map, length_hits, hlength]
    dsimp only
    omega

theorem getLabelsForIds_refines :
    (getLabelsForIds labelsInfo c ids).1 =
      (CompleteReads.getLabelsForIds (fun _ => labelsInfo (misses c ids)) { labels := c }
        ids).1.mapError Failure.error ∧
    (getLabelsForIds labelsInfo c ids).2.labels =
      (CompleteReads.getLabelsForIds (fun _ => labelsInfo (misses c ids)) { labels := c }
        ids).2.labels ∧
    (getLabelsForIds labelsInfo c ids).2.queried =
      if (read c ids).numFound < ids.length then [misses c ids] else [] := by
  rw [getLabelsForIds_eq, getLabelsForIds_eq_lists]
  by_cases hmisses : (read c ids).numFound < ids.length
  · rw [if_pos hmisses, if_pos hmisses, if_pos hmisses, fetchMissingLabels_eq,
      CompleteReads.fetchMissingLabels]
    dsimp only
    cases labelsInfo (misses c ids) with
    | error err => exact ⟨rfl, rfl, rfl⟩
    | ok rows =>
      obtain ⟨result, s, f, hrun, hlabels, hqueried, hresult⟩ :=
        fetchRows_simulates (asking_simulates c ids) rows.rest
      rw [List.length_map, length_hits] at hrun
      dsimp only
      rw [hrun]
      cases result with
      | error err =>
        rw [hresult]
        exact ⟨rfl, hlabels, hqueried⟩
      | ok n =>
        obtain ⟨hrows, htake⟩ := hresult
        rw [List.length_map, length_hits, ← List.map_append] at htake
        dsimp only
        rw [hrows, htake, assertLabels_map_some]
        exact ⟨rfl, hlabels, hqueried⟩
  · have hall : (read c ids).valuesOut = (hits c ids).map some := by
      rw [← take_valuesOut, List.take_of_length_le]
      rw [(read_hitsFirst c ids).2.1]
      omega
    rw [if_neg hmisses, if_neg hmisses, if_neg hmisses, hall, assertLabels_map_some]
    exact ⟨rfl, rfl, rfl⟩

end Calls

/-- A database whose `labels_info` returns one row, with the labels of those of the ids that exist,
in any order. -/
structure LabelsInfoOf (table : Int → Option Label) where
  reply : List Int → LabelsInfo
  perm : ∀ ids, (reply ids).ids.Perm (ids.filter fun id => (table id).isSome)
  keys : ∀ ids, (reply ids).keys = ((reply ids).ids.filterMap table).map (·.name)
  vals : ∀ ids, (reply ids).vals = ((reply ids).ids.filterMap table).map (·.value)

def LabelsInfoOf.answer {table : Int → Option Label} (db : LabelsInfoOf table) (ids : List Int) :
    Answer LabelsInfo :=
  .ok { rest := [.ok (db.reply ids)] }

/-- A cache whose entries are labels of the table. -/
structure CacheOf (table : Int → Option Label) where
  cache : Cache Int Label
  rep : Rep cache
  agrees : Agrees cache table

section Table

variable {table : Int → Option Label}

theorem zip_filterMap {ids : List Int} (h : ∀ id ∈ ids, (table id).isSome = true) :
    (ids.filterMap table).length = ids.length ∧
      ∀ pair ∈ ids.zip (ids.filterMap table), table pair.1 = some pair.2 := by
  induction ids with
  | nil => exact ⟨rfl, fun pair hpair => nomatch hpair⟩
  | cons id ids ih =>
    obtain ⟨label, hlabel⟩ := Option.isSome_iff_exists.mp (h id List.mem_cons_self)
    obtain ⟨hlength, hentries⟩ := ih fun id hid => h id (List.mem_cons_of_mem _ hid)
    rw [List.filterMap_cons_some hlabel]
    refine ⟨congrArg (· + 1) hlength, ?_⟩
    intro pair hpair
    rw [List.zip_cons_cons, List.mem_cons] at hpair
    rcases hpair with rfl | hpair
    · exact hlabel
    · exact hentries pair hpair

variable (db : LabelsInfoOf table)

theorem LabelsInfoOf.labels_eq (ids : List Int) :
    (db.reply ids).keys.zipWith Label.mk (db.reply ids).vals =
      (db.reply ids).ids.filterMap table := by
  rw [db.keys, db.vals, List.zipWith_map, List.zipWith_self]
  exact List.map_id' _

theorem LabelsInfoOf.isSome (ids : List Int) : ∀ id ∈ (db.reply ids).ids,
    (table id).isSome = true := by
  intro id hid
  exact (List.mem_filter.mp ((db.perm ids).mem_iff.mp hid)).2

theorem fetchMissingLabels_exact {c : Cache Int Label} (hrep : Rep c) (hagrees : Agrees c table)
    (misses : List Int) : ∃ q,
      CompleteReads.fetchMissingLabels (fun _ => db.answer misses) { labels := c } misses =
        (.ok ((db.reply misses).ids.filterMap table), q) ∧
      Rep q.labels ∧ Agrees q.labels table := by
  obtain ⟨hlength, hentries⟩ := zip_filterMap (db.isSome misses)
  have hkeys : (db.reply misses).keys.length = (db.reply misses).ids.length := by
    rw [db.keys, List.length_map, hlength]
  have hvals : (db.reply misses).vals.length = (db.reply misses).ids.length := by
    rw [db.vals, List.length_map, hlength]
  have hle : (db.reply misses).ids.length ≤ misses.length := by
    rw [(db.perm misses).length_eq]
    exact List.length_filter_le _ _
  obtain ⟨hagrees', hpairs⟩ := insertLoop_agrees hrep hagrees hentries
  have hrow : CompleteReads.fetchRow ⟨c, misses.length, []⟩ (db.reply misses) =
      .ok ⟨(insertLoop c ((db.reply misses).ids.zip
        ((db.reply misses).ids.filterMap table))).cache, (db.reply misses).keys.length,
        (db.reply misses).ids.filterMap table⟩ := by
    rw [CompleteReads.fetchRow, if_neg (by omega), if_neg (by omega), if_neg (by dsimp only; omega),
      db.labels_eq]
    dsimp only
    rw [hpairs, List.map_snd_zip hlength.le]
  refine ⟨⟨(insertLoop c ((db.reply misses).ids.zip
    ((db.reply misses).ids.filterMap table))).cache, 1⟩, ?_, rep_insertLoop hrep _, hagrees'⟩
  unfold CompleteReads.fetchMissingLabels
  dsimp only [LabelsInfoOf.answer]
  rw [CompleteReads.fetchRows, hrow]
  rfl

omit db in
theorem isSome_of_mem_hits (c : Cache Int Label) (ids : List Int) :
    ∀ key ∈ (read c ids).keys.take (read c ids).numFound, (c.view key).isSome = true := by
  obtain ⟨-, -, hfirst⟩ := read_hitsFirst c ids
  intro key hkey
  apply hfirst.isSome
  rw [← hfirst.found]
  exact List.mem_map_of_mem hkey

omit db in
theorem misses_perm (c : Cache Int Label) (ids : List Int) :
    (misses c ids).Perm (ids.filter fun id => (c.view id).isNone) := by
  obtain ⟨hperm, -, hfirst⟩ := read_hitsFirst c ids
  refine List.Perm.trans (List.Perm.of_eq ?_) (hperm.filter _)
  conv_rhs => rw [← List.take_append_drop (read c ids).numFound (read c ids).keys]
  rw [List.filter_append, List.filter_eq_nil_iff.mpr, List.nil_append, List.filter_eq_self.mpr]
  · rfl
  · intro key hkey
    rw [hfirst.missing key hkey]
    rfl
  · intro key hkey
    rw [Option.isNone_iff_eq_none, ← Option.not_isSome_iff_eq_none, not_not]
    exact isSome_of_mem_hits c ids key hkey

theorem hits_append_perm (cache : CacheOf table) (ids : List Int) :
    (hits cache.cache ids ++ (db.reply (misses cache.cache ids)).ids.filterMap table).Perm
      (ids.filterMap table) := by
  obtain ⟨hperm, -, -⟩ := read_hitsFirst cache.cache ids
  have hhits : hits cache.cache ids =
      ((read cache.cache ids).keys.take (read cache.cache ids).numFound).filterMap table := by
    apply List.filterMap_congr
    intro key hkey
    obtain ⟨label, hlabel⟩ :=
      Option.isSome_iff_exists.mp (isSome_of_mem_hits cache.cache ids key hkey)
    rw [hlabel, cache.agrees key label hlabel]
  have hmissing : ((db.reply (misses cache.cache ids)).ids.filterMap table).Perm
      ((misses cache.cache ids).filterMap table) := by
    refine ((db.perm _).filterMap table).trans (List.Perm.of_eq ?_)
    rw [List.filterMap_filter]
    apply List.filterMap_congr
    intro id _
    cases table id <;> rfl
  rw [hhits]
  refine (hmissing.append_left _).trans ?_
  rw [misses, ← List.filterMap_append, List.take_append_drop]
  exact hperm.filterMap table

/-- A lookup returns the labels of exactly those of the ids that exist, as often as they are
listed. It asks the database for the ids that are not in the cache and for no others, at most
once, and leaves a cache that agrees with the table. -/
theorem getLabelsForIds_exact (cache : CacheOf table) (ids : List Int) :
    ∃ lls s, getLabelsForIds db.answer cache.cache ids = (.ok lls, s) ∧
      lls.Perm (ids.filterMap table) ∧
      s.queried.length ≤ 1 ∧
      s.queried.flatten.Perm (ids.filter fun id => (cache.cache.view id).isNone) ∧
      Rep s.labels ∧ Agrees s.labels table := by
  obtain ⟨hresult, hlabels, hqueried⟩ := getLabelsForIds_refines db.answer cache.cache ids
  have hremarked := (Cache.remarked_getValuesLoop cache.cache ids
    (List.replicate ids.length none) 0 ids.length)
  have hrep : Rep (read cache.cache ids).cache := by
    refine hremarked.1.rep cache.rep ?_
    rw [hremarked.2, hremarked.1.length]
    exact cache.rep.next_le_len
  have hagrees : Agrees (read cache.cache ids).cache table := hremarked.1.agrees cache.agrees
  have hasked := misses_perm cache.cache ids
  rw [getLabelsForIds_eq_lists] at hresult hlabels
  by_cases hmisses : (read cache.cache ids).numFound < ids.length
  · obtain ⟨q, hfetch, hrep', hagrees'⟩ :=
      fetchMissingLabels_exact db hrep hagrees (misses cache.cache ids)
    rw [if_pos hmisses, hfetch] at hresult hlabels
    rw [if_pos hmisses] at hqueried
    refine ⟨_, _, Prod.ext hresult rfl, hits_append_perm db cache ids, ?_, ?_, ?_, ?_⟩
    · rw [hqueried]
      exact le_rfl
    · rw [hqueried, List.flatten_singleton]
      exact hasked
    · rwa [hlabels]
    · rwa [hlabels]
  · have hnil : misses cache.cache ids = [] := by
      rw [← List.length_eq_zero_iff, length_misses]
      omega
    have hnone : (db.reply (misses cache.cache ids)).ids = [] := by
      have hreply := db.perm (misses cache.cache ids)
      rw [hnil] at hreply ⊢
      exact hreply.eq_nil
    have hall := hits_append_perm db cache ids
    rw [hnone, List.filterMap_nil, List.append_nil] at hall
    rw [if_neg hmisses] at hresult hlabels hqueried
    refine ⟨_, _, Prod.ext hresult rfl, hall, ?_, ?_, ?_, ?_⟩
    · rw [hqueried]
      exact Nat.zero_le _
    · rw [hqueried, List.flatten_nil, ← hnil]
      exact hasked
    · rwa [hlabels]
    · rwa [hlabels]

end Table

def jobTable (id : Int) : Option Label := if id = 1 then some ⟨"job", "api"⟩ else none

def jobReplies : LabelsInfoOf jobTable where
  reply ids :=
    let found := ids.filter fun id => (jobTable id).isSome
    ⟨found, (found.filterMap jobTable).map (·.name), (found.filterMap jobTable).map (·.value)⟩
  perm _ := .refl _
  keys _ := rfl
  vals _ := rfl

def emptyCache : CacheOf jobTable :=
  ⟨withMax 1, .withMax 1, fun id l h => by simp [Cache.view, withMax] at h⟩

theorem getLabelsForIds_exact_job : ∃ lls s,
    getLabelsForIds jobReplies.answer emptyCache.cache [2, 1] = (.ok lls, s) ∧
      lls.Perm [⟨"job", "api"⟩] := by
  obtain ⟨lls, s, hcall, hperm, -⟩ := getLabelsForIds_exact jobReplies emptyCache [2, 1]
  exact ⟨lls, s, hcall, hperm⟩

end TimescalePrometheus.Query.LabelLookup
