import TimescalePrometheus.Clockcache.Cache
import TimescalePrometheus.Lib.Transactions
import TimescalePrometheus.Query.Cursors

/-!
The loops of `sql_reader.go` and `query_builder.go` that drain a cursor, and which of them notice
that it broke: the label names and values, the series and the tables of the metrics of a query
over several metrics, and the time series of a cursor with the lookups of their labels.
-/

namespace TimescalePrometheus.Query.CompleteReads

open Query.Cursors Clockcache Lib.Transactions

/-- What `conn.Query` returns. -/
abbrev Answer (α : Type) := Except String (Rows α)

/-- `for rows.Next() { if err := rows.Scan(&x); err != nil { return err }; … }` without a look at
`rows.Err` after it. -/
def scanAll {α : Type} : List (Except String α) → Except String (List α)
  | [] => .ok []
  | .error err :: _ => .error err
  | .ok x :: rest => do return x :: (← scanAll rest)

def sortedStrings (answer : Answer String) : Except String (List String) := do
  let rows ← answer
  return (← scanAll rows.rest).mergeSort

/-- The answer is that to `SELECT distinct key …`. -/
def labelNames := sortedStrings

/-- The answer is that to `SELECT value … WHERE key = $1`. -/
def labelValues := sortedStrings

/-- What the metric cache answers. -/
inductive CacheAnswer where
  | hit (tableName : String)
  | notFound
  | failed (err : String)

/-- What the loop of `getResultRows` meets for one metric: the answers of the cache of table
names, of the query for the table name, of the store into the cache, and of the query for the
metric's samples. -/
structure Lookup (D : Type) where
  cached : CacheAnswer
  table : Answer String
  stored : Option String
  data : Except String D

/-- `errMissingTableName`, or any other. -/
inductive TableError where
  | errMissingTableName
  | other (err : String)

variable {D V : Type}

def getSeriesPerMetric (rows : Rows (String × List Int)) :
    Except String (List (String × List Int)) :=
  scanAll rows.rest

def queryMetricTableName (answer : Answer String) : Except TableError String :=
  match answer with
  | .error err => .error (.other err)
  | .ok res =>
    match res.next with
    | (false, _) => .error .errMissingTableName
    | (true, res) =>
      match res.scan with
      | .error err => .error (.other err)
      | .ok tableName => .ok tableName

/-- The database is asked on a miss. -/
def getMetricTableName (l : Lookup D) : Except TableError String :=
  match l.cached with
  | .hit tableName => .ok tableName
  | .failed err => .error (.other err)
  | .notFound => do
    let tableName ← queryMetricTableName l.table
    match l.stored with
    | some err => .error (.other err)
    | none => .ok tableName

/-- The loop over the metrics. -/
def metricRows (lookups : Nat → Lookup D) :
    List ((String × List Int) × Nat) → Except String (List D)
  | [] => .ok []
  | (_, i) :: metrics =>
    match getMetricTableName (lookups i) with
    | .error .errMissingTableName => metricRows lookups metrics
    | .error (.other err) => .error err
    | .ok _ => do
      let rows ← (lookups i).data
      return rows :: (← metricRows lookups metrics)

/-- `getResultRows` for matchers that name no metric. -/
def getResultRows (series : Answer (String × List Int)) (lookups : Nat → Lookup D) :
    Except String (List D) := do
  let rows ← series
  let metrics ← getSeriesPerMetric rows
  metricRows lookups metrics.zipIdx

/-- A row of `labels_info`. -/
structure LabelsInfo where
  ids : List Int
  keys : List String
  vals : List String

/-- The cache of labels, and how many queries for labels there were. -/
structure Querier where
  labels : Cache Int Label
  asked : Nat := 0

/-- What the loop of `fetchMissingLabels` carries along: the cache, `len(misses)`, and
`newLabels` up to `numNewLabels`. -/
structure Fetched where
  labels : Cache Int Label
  numMisses : Nat
  newLabels : List Label

/-- A row of `labels_info`. -/
def fetchRow (f : Fetched) (info : LabelsInfo) : Except String Fetched :=
  if info.ids.length ≠ info.keys.length then
    .error ("query returned a mismatch in ids and keys: " ++ toString info.ids.length ++ ", " ++
      toString info.keys.length)
  else if info.keys.length ≠ info.vals.length then
    .error ("query returned a mismatch in timestamps and values: " ++
      toString info.keys.length ++ ", " ++ toString info.vals.length)
  else if f.numMisses < info.keys.length then
    .error ("query returned wrong number of labels: " ++ toString f.numMisses ++ ", " ++
      toString info.keys.length)
  else
    -- `InsertBatch` writes the keys and values that it finds in the cache back.
    let batch := insertLoop f.labels (info.ids.zip (info.keys.zipWith Label.mk info.vals))
    .ok { labels := batch.cache, numMisses := info.keys.length
          newLabels := batch.pairs.map Prod.snd }

def fetchRows (f : Fetched) : List (Except String LabelsInfo) → Option String × Fetched
  | [] => (none, f)
  | .error err :: _ => (some err, f)
  | .ok info :: rest =>
    match fetchRow f info with
    | .error err => (some err, f)
    | .ok f => fetchRows f rest

/-- `answers n` is the answer to the `n`-th query for labels. -/
def fetchMissingLabels (answers : Nat → Answer LabelsInfo) (q : Querier) (misses : List Int) :
    Except String (List Label) × Querier :=
  match answers q.asked with
  | .error err => (.error err, { q with asked := q.asked + 1 })
  | .ok rows =>
    match fetchRows { labels := q.labels, numMisses := misses.length, newLabels := [] }
        rows.rest with
    | (some err, f) => (.error err, { labels := f.labels, asked := q.asked + 1 })
    | (none, f) => (.ok f.newLabels, { labels := f.labels, asked := q.asked + 1 })

/-- `GetValues` of the ids: the hits first, then the ids that are not in the cache. -/
def cachedLabels (q : Querier) (ids : List Int) : Values Int Label :=
  getValuesLoop q.labels ids (List.replicate ids.length none) 0 ids.length

def getLabelsForIds (answers : Nat → Answer LabelsInfo) (q : Querier) (ids : List Int) :
    Except String (List Label) × Querier :=
  let v := cachedLabels q ids
  let hits := (v.valuesOut.take v.numFound).filterMap id
  if v.numFound < ids.length then
    match fetchMissingLabels answers { q with labels := v.cache } (v.keys.drop v.numFound) with
    | (.error err, q) => (.error err, q)
    | (.ok newLabels, q) => (.ok (hits ++ newLabels), q)
  else
    (.ok hits, { q with labels := v.cache })

/-- `prompb.TimeSeries`. -/
structure TimeSeries (V : Type) where
  labels : List Label
  samples : List (Int × V)

/-- From nanoseconds. -/
def toMilis (time : Int) : Int :=
  time.tdiv 1000000

def rowSeries (answers : Nat → Answer LabelsInfo) (q : Querier) :
    Except String (Row Int V) → Except String (TimeSeries V) × Querier
  | .error err => (.error err, q)
  | .ok row =>
    if row.times.length ≠ row.values.length then
      (.error "query returned a mismatch in timestamps and values", q)
    else
      match getLabelsForIds answers q row.labelIds with
      | (.error err, q) => (.error err, q)
      | (.ok lls, q) =>
        (.ok { labels := sortLabels lls, samples := (row.times.map toMilis).zip row.values }, q)

def seriesLoop (answers : Nat → Answer LabelsInfo) (q : Querier) :
    List (Except String (Row Int V)) → Except String (List (TimeSeries V))
  | [] => .ok []
  | row :: rest =>
    match rowSeries answers q row with
    | (.error err, _) => .error err
    | (.ok series, q) => do return series :: (← seriesLoop answers q rest)

def buildTimeSeries (answers : Nat → Answer LabelsInfo) (q : Querier) (rows : Rows (Row Int V)) :
    Except String (List (TimeSeries V)) := do
  let results ← seriesLoop answers q rows.rest
  match rows.err with
  | some err => .error err
  | none => .ok results

theorem scanAll_eq_ok {α : Type} {rows : List (Except String α)} {l : List α} :
    scanAll rows = .ok l ↔ rows = l.map .ok := by
  induction rows generalizing l with
  | nil => cases l <;> simp [scanAll]
  | cons row rows ih =>
    cases row with
    | error err => cases l <;> simp [scanAll]
    | ok x =>
      simp only [scanAll, except_bind_eq_ok, ih]
      cases l with
      | nil =>
        refine iff_of_false ?_ (by simp)
        rintro ⟨a, _, h⟩
        cases h
      | cons y l =>
        constructor
        · rintro ⟨a, rfl, h⟩
          cases h
          rfl
        · intro h
          cases h
          exact ⟨l, rfl, rfl⟩

theorem map_ok_injective {α : Type} {l l' : List α}
    (h : l.map (Except.ok (ε := String)) = l'.map .ok) : l = l' :=
  List.map_injective_iff.mpr (fun _ _ h => by cases h; rfl) h

theorem scanAll_ok_iff {α : Type} (rows : List (Except String α)) :
    (∃ l, scanAll rows = .ok l) ↔ ∀ row ∈ rows, ∃ x, row = .ok x := by
  induction rows with
  | nil => simp [scanAll]
  | cons row rows ih =>
    cases row with
    | error err => simp [scanAll]
    | ok x =>
      simp only [scanAll, except_bind_eq_ok, List.mem_cons, forall_eq_or_imp, ← ih]
      constructor
      · rintro ⟨_, l, hl, _⟩
        exact ⟨⟨x, rfl⟩, l, hl⟩
      · rintro ⟨_, l, hl⟩
        exact ⟨x :: l, l, hl, rfl⟩

/-- The cursor does not break, or a row that does not scan ends the loop with an error. -/
def StringsComplete (answer : Answer String) : Prop :=
  ∀ rows, answer = .ok rows → (∃ row ∈ rows.rest, ∀ x, row ≠ .ok x) ∨ rows.err = none

/-- A result without an error is made of all that the database sent, and it sent all. -/
def StringsFaithful (answer : Answer String) (result : Except String (List String)) : Prop :=
  ∀ strings, result = .ok strings → ∃ (rows : Rows String) (l : List String),
    answer = .ok rows ∧ rows.err = none ∧ rows.rest = l.map .ok ∧ strings.Perm l

theorem sortedStrings_eq_ok {answer : Answer String} {strings : List String} :
    sortedStrings answer = .ok strings ↔
      ∃ (rows : Rows String) (l : List String),
        answer = .ok rows ∧ rows.rest = l.map .ok ∧ strings = l.mergeSort := by
  unfold sortedStrings
  simp only [except_bind_eq_ok, scanAll_eq_ok]
  constructor
  · rintro ⟨rows, hrows, l, hl, h⟩
    cases h
    exact ⟨rows, l, hrows, hl, rfl⟩
  · rintro ⟨rows, l, hrows, hl, rfl⟩
    exact ⟨rows, hrows, l, hl, rfl⟩

theorem stringsFaithful_iff (answer : Answer String) :
    StringsFaithful answer (sortedStrings answer) ↔ StringsComplete answer := by
  constructor
  · intro h rows hrows
    rcases Classical.em (∃ row ∈ rows.rest, ∀ x, row ≠ .ok x) with hbad | hgood
    · exact Or.inl hbad
    · right
      have hall : ∀ row ∈ rows.rest, ∃ x, row = .ok x := by
        intro row hrow
        by_contra hnot
        exact hgood ⟨row, hrow, fun x hx => hnot ⟨x, hx⟩⟩
      obtain ⟨l, hl⟩ := (scanAll_ok_iff rows.rest).mpr hall
      have hok := sortedStrings_eq_ok.mpr ⟨rows, l, hrows, scanAll_eq_ok.mp hl, rfl⟩
      obtain ⟨rows', _, hrows', herr, _⟩ := h _ hok
      rw [hrows] at hrows'
      cases hrows'
      exact herr
  · intro h strings hok
    obtain ⟨rows, l, hrows, hl, rfl⟩ := sortedStrings_eq_ok.mp hok
    refine ⟨rows, l, hrows, ?_, hl, List.mergeSort_perm l _⟩
    refine (h rows hrows).resolve_left ?_
    rintro ⟨row, hrow, hbad⟩
    rw [hl] at hrow
    obtain ⟨x, _, rfl⟩ := List.mem_map.mp hrow
    exact hbad x rfl

/-- The lookup of the table reads a cursor that breaks. -/
def Lookup.Broken (l : Lookup D) : Prop :=
  ∃ rows, l.cached = .notFound ∧ l.table = .ok rows ∧ rows.err ≠ none

/-- The loop ends with an error at the metric: the cache fails, the query for the table fails
or its row does not scan, the store into the cache fails, or the query for the samples does. -/
def Lookup.Fails (l : Lookup D) : Prop :=
  match l.cached with
  | .failed _ => True
  | .hit _ => ∃ err, l.data = .error err
  | .notFound =>
    match l.table with
    | .error _ => True
    | .ok rows =>
      match rows.rest with
      | [] => False
      | .error _ :: _ => True
      | .ok _ :: _ => l.stored ≠ none ∨ ∃ err, l.data = .error err

/-- The cursor over the samples, if the metric has a table. -/
def Lookup.found (l : Lookup D) : Option D :=
  match getMetricTableName l, l.data with
  | .ok _, .ok rows => some rows
  | _, _ => none

theorem getMetricTableName_cases (l : Lookup D) :
    (getMetricTableName l = .error .errMissingTableName ∧ ¬l.Fails) ∨
      ((∃ err, getMetricTableName l = .error (.other err)) ∧ l.Fails) ∨
      ((∃ name, getMetricTableName l = .ok name) ∧ (l.Fails ↔ ∃ err, l.data = .error err)) := by
  unfold getMetricTableName Lookup.Fails
  cases l.cached with
  | failed err => exact Or.inr (Or.inl ⟨⟨err, rfl⟩, trivial⟩)
  | hit name => exact Or.inr (Or.inr ⟨⟨name, rfl⟩, Iff.rfl⟩)
  | notFound =>
    cases l.table with
    | error err => exact Or.inr (Or.inl ⟨⟨err, rfl⟩, trivial⟩)
    | ok rows =>
      obtain ⟨current, rest, rowsErr⟩ := rows
      cases rest with
      | nil => exact Or.inl ⟨rfl, id⟩
      | cons row rest =>
        cases row with
        | error err => exact Or.inr (Or.inl ⟨⟨err, rfl⟩, trivial⟩)
        | ok name =>
          cases l.stored with
          | some err => exact Or.inr (Or.inl ⟨⟨err, rfl⟩, Or.inl (by simp)⟩)
          | none => exact Or.inr (Or.inr ⟨⟨name, rfl⟩, by simp⟩)

theorem metricRows_eq_ok {lookups : Nat → Lookup D} {metrics : List ((String × List Int) × Nat)}
    {results : List D} :
    metricRows lookups metrics = .ok results ↔
      (∀ m ∈ metrics, ¬(lookups m.2).Fails) ∧
        results = metrics.filterMap fun m => (lookups m.2).found := by
  induction metrics generalizing results with
  | nil =>
    simp only [metricRows, Except.ok.injEq, List.filterMap_nil, List.not_mem_nil, false_imp_iff,
      implies_true, true_and]
    exact eq_comm
  | cons m metrics ih =>
    simp only [List.mem_cons, forall_eq_or_imp, List.filterMap_cons]
    rcases getMetricTableName_cases (lookups m.2) with ⟨hname, hfails⟩ | ⟨⟨err, hname⟩, hfails⟩ |
      ⟨⟨name, hname⟩, hfails⟩
    · have hfound : (lookups m.2).found = none := by simp [Lookup.found, hname]
      simp only [metricRows, hname, hfound, ih, hfails, not_false_eq_true, true_and]
    · simp [metricRows, hname, hfails]
    · cases hdata : (lookups m.2).data with
      | error err =>
        have : (lookups m.2).Fails := hfails.mpr ⟨err, hdata⟩
        simp only [metricRows, hname, hdata, this, not_true_eq_false, false_and, iff_false]
        intro h
        cases h
      | ok rows =>
        have hnot : ¬(lookups m.2).Fails := by simp [hfails, hdata]
        have hfound : (lookups m.2).found = some rows := by simp [Lookup.found, hname, hdata]
        simp only [metricRows, hname, hdata, hnot, hfound, not_false_eq_true, true_and, ok_bind,
          except_bind_eq_ok, ih]
        constructor
        · rintro ⟨rest, ⟨hall, rfl⟩, h⟩
          cases h
          exact ⟨hall, rfl⟩
        · rintro ⟨hall, rfl⟩
          exact ⟨_, ⟨hall, rfl⟩, rfl⟩

theorem getResultRows_eq_ok {series : Answer (String × List Int)} {lookups : Nat → Lookup D}
    {results : List D} :
    getResultRows series lookups = .ok results ↔
      ∃ (rows : Rows (String × List Int)) (metrics : List (String × List Int)),
        series = .ok rows ∧ rows.rest = metrics.map .ok ∧
          (∀ m ∈ metrics.zipIdx, ¬(lookups m.2).Fails) ∧
          results = metrics.zipIdx.filterMap fun m => (lookups m.2).found := by
  unfold getResultRows getSeriesPerMetric
  simp only [except_bind_eq_ok, scanAll_eq_ok, metricRows_eq_ok]
  constructor
  · rintro ⟨rows, hrows, metrics, hmetrics, hrest⟩
    exact ⟨rows, metrics, hrows, hmetrics, hrest⟩
  · rintro ⟨rows, metrics, hrows, hmetrics, hrest⟩
    exact ⟨rows, hrows, metrics, hmetrics, hrest⟩

/-- A result without an error covers all metrics that the database has: the cursor over the
series was read to its end, and no lookup that broke was taken for a missing table. -/
def MetricsFaithful (series : Answer (String × List Int)) (lookups : Nat → Lookup D)
    (result : Except String (List D)) : Prop :=
  ∀ results, result = .ok results →
    ∃ (rows : Rows (String × List Int)) (metrics : List (String × List Int)),
      series = .ok rows ∧ rows.rest = metrics.map .ok ∧ rows.err = none ∧
        (∀ m ∈ metrics.zipIdx, ¬(lookups m.2).Broken) ∧
        results = metrics.zipIdx.filterMap fun m => (lookups m.2).found

/-- The cursor over the series and the lookups of the tables do not break, or some metric
ends the loop with an error. -/
def MetricsComplete (series : Answer (String × List Int)) (lookups : Nat → Lookup D) : Prop :=
  ∀ (rows : Rows (String × List Int)) (metrics : List (String × List Int)),
    series = .ok rows → rows.rest = metrics.map .ok →
      (∃ m ∈ metrics.zipIdx, (lookups m.2).Fails) ∨
        (rows.err = none ∧ ∀ m ∈ metrics.zipIdx, ¬(lookups m.2).Broken)

theorem metricsFaithful_iff (series : Answer (String × List Int)) (lookups : Nat → Lookup D) :
    MetricsFaithful series lookups (getResultRows series lookups) ↔
      MetricsComplete series lookups := by
  constructor
  · intro h rows metrics hrows hmetrics
    rcases Classical.em (∃ m ∈ metrics.zipIdx, (lookups m.2).Fails) with hfails | hnot
    · exact Or.inl hfails
    · right
      have hall : ∀ m ∈ metrics.zipIdx, ¬(lookups m.2).Fails := fun m hm hf => hnot ⟨m, hm, hf⟩
      obtain ⟨rows', metrics', hrows', hmetrics', herr, hbroken, _⟩ :=
        h _ (getResultRows_eq_ok.mpr ⟨rows, metrics, hrows, hmetrics, hall, rfl⟩)
      rw [hrows] at hrows'
      cases hrows'
      cases map_ok_injective (hmetrics.symm.trans hmetrics')
      exact ⟨herr, hbroken⟩
  · intro h results hok
    obtain ⟨rows, metrics, hrows, hmetrics, hall, hres⟩ := getResultRows_eq_ok.mp hok
    have hclean := (h rows metrics hrows hmetrics).resolve_left fun ⟨m, hm, hf⟩ => hall m hm hf
    exact ⟨rows, metrics, hrows, hmetrics, hclean.1, hclean.2, hres⟩

/-- The row passes the checks of `fetchMissingLabels`, with room for `numMisses` labels. -/
def LabelsInfo.Fits (info : LabelsInfo) (numMisses : Nat) : Prop :=
  info.ids.length = info.keys.length ∧ info.keys.length = info.vals.length ∧
    info.keys.length ≤ numMisses

/-- A row of `labels_info` ends the lookup with an error. -/
def InfoFails : Nat → List (Except String LabelsInfo) → Prop
  | _, [] => False
  | _, .error _ :: _ => True
  | numMisses, .ok info :: rest => ¬info.Fits numMisses ∨ InfoFails info.keys.length rest

theorem fetchRow_cases (f : Fetched) (info : LabelsInfo) :
    ((∃ err, fetchRow f info = .error err) ∧ ¬info.Fits f.numMisses) ∨
      ∃ f', fetchRow f info = .ok f' ∧ f'.numMisses = info.keys.length ∧
        info.Fits f.numMisses := by
  unfold fetchRow LabelsInfo.Fits
  split
  · rename_i h
    exact Or.inl ⟨⟨_, rfl⟩, fun hfits => h hfits.1⟩
  split
  · rename_i h
    exact Or.inl ⟨⟨_, rfl⟩, fun hfits => h hfits.2.1⟩
  split
  · rename_i h
    exact Or.inl ⟨⟨_, rfl⟩, fun hfits => Nat.not_lt.mpr hfits.2.2 h⟩
  · rename_i hids hkeys hroom
    exact Or.inr ⟨_, rfl, rfl, not_not.mp hids, not_not.mp hkeys, Nat.not_lt.mp hroom⟩

theorem fetchRows_none_iff (f : Fetched) (rows : List (Except String LabelsInfo)) :
    (fetchRows f rows).1 = none ↔ ¬InfoFails f.numMisses rows := by
  induction rows generalizing f with
  | nil => simp [fetchRows, InfoFails]
  | cons row rows ih =>
    cases row with
    | error err => simp [fetchRows, InfoFails]
    | ok info =>
      rcases fetchRow_cases f info with ⟨⟨err, hrow⟩, hfits⟩ | ⟨f', hrow, hroom, hfits⟩
      · simp [fetchRows, InfoFails, hrow, hfits]
      · simp [fetchRows, InfoFails, hrow, hfits, ih, hroom]

/-- The ids that are not in the cache. -/
def missesOf (q : Querier) (ids : List Int) : List Int :=
  (cachedLabels q ids).keys.drop (cachedLabels q ids).numFound

/-- The lookup of the labels fails: its query does, or a row of the answer is not as it should
be. -/
def LookupFails (answers : Nat → Answer LabelsInfo) (q : Querier) (ids : List Int) : Prop :=
  (cachedLabels q ids).numFound < ids.length ∧
    match answers q.asked with
    | .error _ => True
    | .ok rows => InfoFails (missesOf q ids).length rows.rest

/-- The cursor that the lookup reads, unless all labels are in the cache. -/
def lookupCursor (answers : Nat → Answer LabelsInfo) (q : Querier) (ids : List Int) :
    Option (Rows LabelsInfo) :=
  if (cachedLabels q ids).numFound < ids.length then (answers q.asked).toOption else none

theorem fetchMissingLabels_ok_iff (answers : Nat → Answer LabelsInfo) (q : Querier)
    (misses : List Int) :
    (∃ lls, (fetchMissingLabels answers q misses).1 = .ok lls) ↔
      ∃ rows, answers q.asked = .ok rows ∧ ¬InfoFails misses.length rows.rest := by
  unfold fetchMissingLabels
  cases answers q.asked with
  | error err => simp
  | ok rows =>
    have hnone := fetchRows_none_iff
      { labels := q.labels, numMisses := misses.length, newLabels := [] } rows.rest
    simp only [Except.ok.injEq, exists_eq_left', ← hnone]
    split
    · rename_i h
      simp [h]
    · rename_i h
      simp [h]

theorem getLabelsForIds_ok_iff (answers : Nat → Answer LabelsInfo) (q : Querier)
    (ids : List Int) :
    (∃ lls, (getLabelsForIds answers q ids).1 = .ok lls) ↔ ¬LookupFails answers q ids := by
  simp only [getLabelsForIds, LookupFails]
  split
  · rename_i hmiss
    have hfetch := fetchMissingLabels_ok_iff answers
      { q with labels := (cachedLabels q ids).cache } (missesOf q ids)
    simp only [missesOf] at hfetch
    simp only [hmiss, true_and, missesOf]
    split
    · rename_i h
      rw [h] at hfetch
      cases hanswer : answers q.asked with
      | error err => simp
      | ok rows => simpa [hanswer] using hfetch
    · rename_i h
      rw [h] at hfetch
      cases hanswer : answers q.asked with
      | error err => simp [hanswer] at hfetch
      | ok rows => simpa [hanswer] using hfetch
  · rename_i hhit
    simp [hhit]

/-- The row ends the loop with an error. -/
def RowFails (answers : Nat → Answer LabelsInfo) (q : Querier) :
    Except String (Row Int V) → Prop
  | .error _ => True
  | .ok row => row.times.length ≠ row.values.length ∨ LookupFails answers q row.labelIds

/-- Some row ends the loop with an error. The cache is the one that the rows before it leave. -/
def RowsFail (answers : Nat → Answer LabelsInfo) :
    Querier → List (Except String (Row Int V)) → Prop
  | _, [] => False
  | q, row :: rest => RowFails answers q row ∨ RowsFail answers (rowSeries answers q row).2 rest

def labelCursors (answers : Nat → Answer LabelsInfo) :
    Querier → List (Except String (Row Int V)) → List (Rows LabelsInfo)
  | _, [] => []
  | q, row :: rest =>
    (match row with
      | .error _ => []
      | .ok row => (lookupCursor answers q row.labelIds).toList) ++
    labelCursors answers (rowSeries answers q row).2 rest

def rowSamples (row : Row Int V) : List (Int × V) :=
  (row.times.map toMilis).zip row.values

theorem rowSeries_cases (answers : Nat → Answer LabelsInfo) (q : Querier)
    (row : Except String (Row Int V)) :
    ((∃ err, (rowSeries answers q row).1 = .error err) ∧ RowFails answers q row) ∨
      ∃ series r, (rowSeries answers q row).1 = .ok series ∧ row = .ok r ∧
        series.samples = rowSamples r ∧ ¬RowFails answers q row := by
  cases row with
  | error err => exact Or.inl ⟨⟨err, rfl⟩, trivial⟩
  | ok row =>
    have hlookup := getLabelsForIds_ok_iff answers q row.labelIds
    simp only [rowSeries, RowFails]
    split
    · rename_i hlen
      exact Or.inl ⟨⟨_, rfl⟩, Or.inl hlen⟩
    split
    · rename_i hlabels
      rw [hlabels] at hlookup
      exact Or.inl ⟨⟨_, rfl⟩, Or.inr (by simpa using hlookup)⟩
    · rename_i hlen _ _ _ hlabels
      rw [hlabels] at hlookup
      exact Or.inr ⟨_, row, rfl, rfl, rfl, not_or.mpr ⟨hlen, by simpa using hlookup⟩⟩

theorem seriesLoop_cons (answers : Nat → Answer LabelsInfo) (q : Querier)
    (row : Except String (Row Int V)) (rest : List (Except String (Row Int V))) :
    seriesLoop answers q (row :: rest) = (do
      let series ← (rowSeries answers q row).1
      return series :: (← seriesLoop answers (rowSeries answers q row).2 rest)) := by
  rw [seriesLoop]
  rcases rowSeries answers q row with ⟨err | series, q⟩ <;> rfl

theorem seriesLoop_ok_iff (answers : Nat → Answer LabelsInfo) (q : Querier)
    (rows : List (Except String (Row Int V))) :
    (∃ results, seriesLoop answers q rows = .ok results) ↔ ¬RowsFail answers q rows := by
  induction rows generalizing q with
  | nil => simp [seriesLoop, RowsFail]
  | cons row rows ih =>
    simp only [seriesLoop_cons, RowsFail, except_bind_eq_ok, not_or, ← ih]
    rcases rowSeries_cases answers q row with ⟨⟨err, herr⟩, hfails⟩ | ⟨series, r, hok, _, _, hnot⟩
    · simp [herr, hfails]
    · simp only [hok, hnot, Except.ok.injEq, exists_eq_left', not_false_eq_true, true_and]
      constructor
      · rintro ⟨_, results, hresults, _⟩
        exact ⟨results, hresults⟩
      · rintro ⟨results, hresults⟩
        exact ⟨series :: results, results, hresults, rfl⟩

theorem seriesLoop_samples {answers : Nat → Answer LabelsInfo} {q : Querier}
    {rows : List (Except String (Row Int V))} {results : List (TimeSeries V)}
    (h : seriesLoop answers q rows = .ok results) :
    ∃ l : List (Row Int V), rows = l.map .ok ∧
      results.map TimeSeries.samples = l.map rowSamples := by
  induction rows generalizing q results with
  | nil =>
    cases h
    exact ⟨[], rfl, rfl⟩
  | cons row rows ih =>
    simp only [seriesLoop_cons, except_bind_eq_ok] at h
    obtain ⟨series, hseries, results, hresults, h⟩ := h
    cases h
    obtain ⟨l, rfl, hsamples⟩ := ih hresults
    rcases rowSeries_cases answers q row with ⟨⟨err, herr⟩, _⟩ | ⟨_, r, hok, rfl, hr, _⟩
    · rw [herr] at hseries
      cases hseries
    · rw [hok] at hseries
      cases hseries
      exact ⟨r :: l, rfl, by simp [hr, hsamples]⟩

theorem buildTimeSeries_eq_ok {answers : Nat → Answer LabelsInfo} {q : Querier}
    {rows : Rows (Row Int V)} {results : List (TimeSeries V)} :
    buildTimeSeries answers q rows = .ok results ↔
      rows.err = none ∧ seriesLoop answers q rows.rest = .ok results := by
  simp only [buildTimeSeries, except_bind_eq_ok]
  cases rows.err with
  | none => simp
  | some err => simp

/-- A result without an error has the samples of all rows, and neither the cursor over the rows
nor one over their labels broke. -/
def SeriesFaithful (answers : Nat → Answer LabelsInfo) (q : Querier) (rows : Rows (Row Int V))
    (result : Except String (List (TimeSeries V))) : Prop :=
  ∀ results, result = .ok results →
    rows.err = none ∧ (∀ cursor ∈ labelCursors answers q rows.rest, cursor.err = none) ∧
      ∃ l : List (Row Int V), rows.rest = l.map .ok ∧
        results.map TimeSeries.samples = l.map rowSamples

/-- No cursor over labels breaks, or the function has another reason to fail. -/
def SeriesComplete (answers : Nat → Answer LabelsInfo) (q : Querier)
    (rows : Rows (Row Int V)) : Prop :=
  rows.err ≠ none ∨ RowsFail answers q rows.rest ∨
    ∀ cursor ∈ labelCursors answers q rows.rest, cursor.err = none

theorem seriesFaithful_iff (answers : Nat → Answer LabelsInfo) (q : Querier)
    (rows : Rows (Row Int V)) :
    SeriesFaithful answers q rows (buildTimeSeries answers q rows) ↔
      SeriesComplete answers q rows := by
  constructor
  · intro h
    rcases Classical.em (rows.err = none) with herr | herr
    · rcases Classical.em (RowsFail answers q rows.rest) with hfail | hnot
      · exact Or.inr (Or.inl hfail)
      · obtain ⟨results, hresults⟩ := (seriesLoop_ok_iff answers q rows.rest).mpr hnot
        exact Or.inr (Or.inr (h results (buildTimeSeries_eq_ok.mpr ⟨herr, hresults⟩)).2.1)
    · exact Or.inl herr
  · intro h results hok
    obtain ⟨herr, hresults⟩ := buildTimeSeries_eq_ok.mp hok
    have hnot := (seriesLoop_ok_iff answers q rows.rest).mp ⟨results, hresults⟩
    exact ⟨herr, (h.resolve_left (not_not.mpr herr)).resolve_left hnot,
      seriesLoop_samples hresults⟩

/-- Of the four reads only the one of the time series looks at the end of its own cursor, and
none of the lookups inside looks at the end of theirs. So a nil error means a complete answer
exactly when no such cursor breaks or something else fails on the way. -/
theorem reads_complete_iff (names values : Answer String) (series : Answer (String × List Int))
    (lookups : Nat → Lookup D) (answers : Nat → Answer LabelsInfo) (q : Querier)
    (rows : Rows (Row Int V)) :
    (StringsFaithful names (labelNames names) ↔ StringsComplete names) ∧
      (StringsFaithful values (labelValues values) ↔ StringsComplete values) ∧
      (MetricsFaithful series lookups (getResultRows series lookups) ↔
        MetricsComplete series lookups) ∧
      (SeriesFaithful answers q rows (buildTimeSeries answers q rows) ↔
        SeriesComplete answers q rows) :=
  ⟨stringsFaithful_iff names, stringsFaithful_iff values, metricsFaithful_iff series lookups,
    seriesFaithful_iff answers q rows⟩

/-- The connection breaks after the first label name; and the lookup of the table of a metric
breaks before its row arrives. Both come out as answers without an error. -/
theorem broken_reads_succeed :
    let names : Rows String := { rest := [.ok "__name__"], err := some "unexpected EOF" }
    let series : Rows (String × List Int) := { rest := [.ok ("cpu_usage", [1])] }
    let lookup : Lookup Nat :=
      { cached := .notFound
        table := .ok { rest := [], err := some "unexpected EOF" }
        stored := none
        data := .ok 7 }
    labelNames (.ok names) = .ok ["__name__"] ∧
      ¬StringsFaithful (.ok names) (labelNames (.ok names)) ∧
      getResultRows (.ok series) (fun _ => lookup) = .ok [] ∧
      ¬MetricsFaithful (.ok series) (fun _ => lookup)
        (getResultRows (.ok series) fun _ => lookup) := by
  intro names series lookup
  have hnames : labelNames (.ok names) = .ok ["__name__"] :=
    sortedStrings_eq_ok.mpr ⟨names, ["__name__"], rfl, rfl, by simp⟩
  refine ⟨hnames, fun h => ?_, rfl, fun h => ?_⟩
  · obtain ⟨rows, _, hrows, herr, _⟩ := h _ hnames
    cases hrows
    cases herr
  · obtain ⟨rows, metrics, hrows, hmetrics, _, hbroken, _⟩ := h [] rfl
    cases hrows
    cases map_ok_injective (l := [("cpu_usage", [1])]) hmetrics
    exact hbroken (("cpu_usage", [1]), 0) (by simp) ⟨_, rfl, rfl, by simp⟩

end TimescalePrometheus.Query.CompleteReads
