import Mathlib.Data.List.Lex
import Mathlib.Data.Prod.Lex
import Mathlib.Data.String.Basic
import TimescalePrometheus.Lib.GoTime
import TimescalePrometheus.Lib.Merging
import TimescalePrometheus.Query.SeriesSet

/-!
The handler of the series endpoint. It selects once for each `match[]` and merges the series
sets, which come in the order in which the database returns its rows.
-/

namespace TimescalePrometheus.Api.SeriesEndpoint

open Lib.GoTime Lib.Merging Query.Cursors Query.SeriesSet

variable {M T V : Type}

/-- Names come before values. -/
def labelKey (l : Label) : String ×ₗ String := toLex (l.name, l.value)

theorem labelKey_injective : Function.Injective labelKey := by
  intro a b h
  cases a
  cases b
  simpa [labelKey] using h

/-- Label sets are compared label by label, first by the name; this is `labels.Compare`. -/
instance : LinearOrder Label := LinearOrder.lift' labelKey labelKey_injective

/-- A querier that finds the labels of all ids. -/
def lookup (labelsOf : List Int → List Label) : LabelQuerier Unit :=
  fun q ids => (.ok (labelsOf ids), q)

/-- `At().Labels()` on a row. A row that cannot be read has none. -/
def rowLabels (labelsOf : List Int → List Label) (row : Except String (Row T V)) : List Label :=
  ((readRow (lookup labelsOf) () row).1.map PgxSeries.labels).getD []

def currentLabels (labelsOf : List Int → List Label) (p : PgxSeriesSet T V Unit) : List Label :=
  ((p.at (lookup labelsOf)).1.map PgxSeries.labels).getD []

/-- The label sets of the rows to come. -/
def labelSets (labelsOf : List Int → List Label) (rows : List (Rows (Row T V))) :
    List (List Label) :=
  (rows.flatMap Rows.rest).map (rowLabels labelsOf)

/-- The set after a `Next` that returns true. -/
def nextSet (p : PgxSeriesSet T V Unit) : Option (PgxSeriesSet T V Unit) :=
  match p.next with
  | (true, p) => some p
  | (false, _) => none

theorem labelSets_eq (labelsOf : List Int → List Label) (p : PgxSeriesSet T V Unit) :
    labelSets labelsOf p.rows = ((nextSet p).map fun p =>
      currentLabels labelsOf p :: labelSets labelsOf p.rows).getD [] := by
  obtain ⟨rows, err, ⟨⟩⟩ := p
  induction rows generalizing err with
  | nil => rfl
  | cons r rows ih =>
    obtain ⟨current, rest, rowErr⟩ := r
    cases rest with
    | nil =>
      refine (ih (err.or rowErr)).trans ?_
      rfl
    | cons row rest =>
      have hat : currentLabels labelsOf
          { rows := ⟨some row, rest, rowErr⟩ :: rows, err := err, querier := () } =
          rowLabels labelsOf row := by
        simp only [currentLabels, PgxSeriesSet.at, Rows.scan, Option.getD_some, rowLabels]
        cases readRow (lookup labelsOf) () row with
        | mk series q => cases series <;> rfl
      change rowLabels labelsOf row :: _ = currentLabels labelsOf _ :: _
      rw [hat]
      rfl

/-- A series set that is at a row. -/
def setSource (labelsOf : List Int → List Label) :
    Source (PgxSeriesSet T V Unit) (List Label) where
  head := currentLabels labelsOf
  next := nextSet
  listing p := currentLabels labelsOf p :: labelSets labelsOf p.rows
  listing_eq p := congrArg (currentLabels labelsOf p :: ·) (labelSets_eq labelsOf p)

/-- `NewMergeSeriesSet` and the loop that drains it; the sets that are not empty are in the
heap. -/
def mergeSets (labelsOf : List Int → List Label) (sets : List (PgxSeriesSet T V Unit)) :
    List (List Label) :=
  let heap := sets.filterMap nextSet
  mergeLoop (setSource labelsOf) (total (setSource labelsOf) heap) heap

/-- `minTime` and `maxTime`. -/
def minTime : Time := unix ((-2 ^ 63 : Int).tdiv 1000 + 62135596801) 0

def maxTime : Time := unix ((2 ^ 63 - 1 : Int).tdiv 1000 - 62135596801) 999999999

/-- An empty parameter is the default. -/
def parseTimeParam (parseTime : String → Except String Time) (val paramName : String)
    (defaultValue : Time) : Except String Time :=
  if val = "" then .ok defaultValue
  else (parseTime val).mapError fun err => "Invalid time value for '" ++ paramName ++ "': " ++ err

/-- `timestamp.FromTime`. -/
def fromTime (t : Time) : Int := int64 (int64 (t.sec * 1000) + t.nsec / 10 ^ 6)

/-- The values of the form; `matchParams` are those of `match[]`. -/
structure Form where
  matchParams : List String
  start : String
  stop : String

/-- What the handler answers. -/
inductive Response where
  | error (status : Nat) (err errType : String)
  | series (metrics : List (List Label))
  | panics
deriving DecidableEq

/-- `respondError` with `bad_data`. -/
def badRequest (err : String) : Response := .error 400 err "bad_data"

/-- `respondError` with `execution`. -/
def unprocessable (err : String) : Response := .error 422 err "execution"

/-- What the handler calls: the parsers of times and selectors, and the querier's `Select` for a
time range. -/
structure Services (M T V : Type) where
  parseTime : String → Except String Time
  parseMetricSelector : String → Except String M
  select : Int → Int → M → Except String (List (Rows (Row T V)))

/-- The handler up to the last `Select`. -/
def selectSets (env : Services M T V) (form : Except String Form) :
    Except Response (List (List (Rows (Row T V)))) := do
  let form ← form.mapError fun err => badRequest ("error parsing form values: " ++ err)
  if form.matchParams = [] then throw (badRequest "no match[] parameter provided")
  let start ← (parseTimeParam env.parseTime form.start "start" minTime).mapError badRequest
  let stop ← (parseTimeParam env.parseTime form.stop "end" maxTime).mapError badRequest
  if stop.before start then throw (badRequest "end timestamp must not be before start time")
  let matcherSets ← form.matchParams.mapM fun s => (env.parseMetricSelector s).mapError badRequest
  matcherSets.mapM fun mset =>
    (env.select (fromTime start) (fromTime stop) mset).mapError unprocessable

/-- The merge drains every set, so that each has the error in the end which it has alone. With
one of them the handler calls `respondError` with an `err` that is nil. -/
def series (labelsOf : List Int → List Label) (env : Services M T V) (form : Except String Form) :
    Response :=
  match selectSets env form with
  | .error response => response
  | .ok rows =>
    let sets := rows.map fun rows => buildSeriesSet rows ()
    if sets.any fun set => (expandSeriesSet (lookup labelsOf) set).2.isSome then .panics
    else .series (mergeSets labelsOf sets)

/-- What a `Select` returns: each series in one row, in any order, over cursors and rows that can
be read. -/
structure Selection (T V : Type) (labelsOf : List Int → List Label) where
  rows : List (Rows (Row T V))
  readable : ∀ o ∈ outcomes (lookup labelsOf) rows (), ¬o.IsError
  nodup : (labelSets labelsOf rows).Nodup

variable {labelsOf : List Int → List Label}

def Selection.labelSets (s : Selection T V labelsOf) : List (List Label) :=
  SeriesEndpoint.labelSets labelsOf s.rows

def Selection.set (s : Selection T V labelsOf) : PgxSeriesSet T V Unit :=
  buildSeriesSet s.rows ()

/-- Two selectors that both return a series return the same series on the way to it, if only
those are counted that are greater than all between them and it. -/
def ReachedAlike (selections : List (Selection T V labelsOf)) : Prop :=
  ∀ s ∈ selections, ∀ t ∈ selections, ∀ ls ∈ s.labelSets, ls ∈ t.labelSets →
    leads ls s.labelSets = leads ls t.labelSets

theorem Selection.getErr_eq_none (s : Selection T V labelsOf) :
    (expandSeriesSet (lookup labelsOf) s.set).2 = none :=
  (((errors_kept_iff (lookup labelsOf) s.rows ()).mpr fun ⟨o, ho, herr⟩ =>
    absurd herr (s.readable o ho)).2 s.readable).1

theorem Selection.listing_of_next {s : Selection T V labelsOf} {p : PgxSeriesSet T V Unit}
    (h : nextSet s.set = some p) : (setSource labelsOf).listing p = s.labelSets := by
  have heq := labelSets_eq labelsOf s.set
  rw [h] at heq
  exact heq.symm

theorem Selection.exists_next {s : Selection T V labelsOf} {ls : List Label}
    (h : ls ∈ s.labelSets) : ∃ p, nextSet s.set = some p := by
  cases hnext : nextSet s.set with
  | some p => exact ⟨p, rfl⟩
  | none =>
    have heq := labelSets_eq labelsOf s.set
    rw [hnext] at heq
    change ls ∈ SeriesEndpoint.labelSets labelsOf s.set.rows at h
    rw [heq] at h
    exact absurd h List.not_mem_nil

theorem mem_heap {selections : List (Selection T V labelsOf)} {p : PgxSeriesSet T V Unit} :
    p ∈ (selections.map Selection.set).filterMap nextSet ↔
      ∃ s ∈ selections, nextSet s.set = some p := by
  simp only [List.mem_filterMap, List.mem_map, exists_exists_and_eq_and]

theorem merges_mergeSets (selections : List (Selection T V labelsOf)) :
    Merges (setSource labelsOf) ((selections.map Selection.set).filterMap nextSet)
      (mergeSets labelsOf (selections.map Selection.set)) :=
  merges_mergeLoop le_rfl

theorem mem_mergeSets {selections : List (Selection T V labelsOf)} {ls : List Label} :
    ls ∈ mergeSets labelsOf (selections.map Selection.set) ↔
      ∃ s ∈ selections, ls ∈ s.labelSets := by
  rw [(merges_mergeSets selections).mem_iff]
  constructor
  · rintro ⟨p, hp, hls⟩
    obtain ⟨s, hs, hnext⟩ := mem_heap.mp hp
    exact ⟨s, hs, s.listing_of_next hnext ▸ hls⟩
  · rintro ⟨s, hs, hls⟩
    obtain ⟨p, hnext⟩ := s.exists_next hls
    exact ⟨p, mem_heap.mpr ⟨s, hs, hnext⟩, (s.listing_of_next hnext).symm ▸ hls⟩

theorem alike_heap_iff {selections : List (Selection T V labelsOf)} :
    Alike (setSource labelsOf) ((selections.map Selection.set).filterMap nextSet) ↔
      ReachedAlike selections := by
  constructor
  · intro halike s hs t ht ls hls hlt
    obtain ⟨p, hp⟩ := s.exists_next hls
    obtain ⟨q, hq⟩ := t.exists_next hlt
    have heq := halike p (mem_heap.mpr ⟨s, hs, hp⟩) q (mem_heap.mpr ⟨t, ht, hq⟩) ls
    rw [s.listing_of_next hp, t.listing_of_next hq] at heq
    exact heq hls hlt
  · intro halike p hp q hq
    obtain ⟨s, hs, hnext⟩ := mem_heap.mp hp
    obtain ⟨t, ht, hnext'⟩ := mem_heap.mp hq
    rw [s.listing_of_next hnext, t.listing_of_next hnext']
    exact halike s hs t ht

theorem nodup_mergeSets_iff {selections : List (Selection T V labelsOf)} :
    (mergeSets labelsOf (selections.map Selection.set)).Nodup ↔ ReachedAlike selections := by
  rw [(merges_mergeSets selections).nodup_iff, alike_heap_iff]
  intro p hp
  obtain ⟨s, _, hnext⟩ := mem_heap.mp hp
  rw [s.listing_of_next hnext]
  exact s.nodup

theorem reachedAlike_of_sorted {selections : List (Selection T V labelsOf)}
    (h : ∀ s ∈ selections, s.labelSets.Pairwise (· < ·)) : ReachedAlike selections := by
  intro s hs t ht ls hls hlt
  rw [leads_of_pairwise (h s hs) hls, leads_of_pairwise (h t ht) hlt]

theorem series_of_selectSets {env : Services M T V} {form : Except String Form}
    {selections : List (Selection T V labelsOf)}
    (h : selectSets env form = .ok (selections.map Selection.rows)) :
    series labelsOf env form = .series (mergeSets labelsOf (selections.map Selection.set)) := by
  have herr : ∀ set ∈ (selections.map Selection.rows).map (fun rows => buildSeriesSet rows ()),
      (expandSeriesSet (lookup labelsOf) set).2.isSome = false := by
    intro set hset
    simp only [List.map_map, List.mem_map, Function.comp_apply] at hset
    obtain ⟨s, _, rfl⟩ := hset
    exact Option.isSome_eq_false_iff.mpr (Option.isNone_iff_eq_none.mpr s.getErr_eq_none)
  rw [series, h]
  simp only
  rw [if_neg]
  · rw [List.map_map]
    rfl
  · rw [Bool.not_eq_true, List.any_eq_false]
    intro set hset
    rw [herr set hset]
    exact Bool.false_ne_true

/-- The handler lists what the selectors return, and each series once if and only if any two
selectors reach alike what they share. -/
theorem series_lists_once_iff (env : Services M T V) (form : Except String Form)
    (selections : List (Selection T V labelsOf))
    (h : selectSets env form = .ok (selections.map Selection.rows)) :
    ∃ listed, series labelsOf env form = .series listed ∧
      (∀ ls, ls ∈ listed ↔ ∃ s ∈ selections, ls ∈ s.labelSets) ∧
      ((∀ ls ∈ listed, listed.count ls = 1) ↔ ReachedAlike selections) := by
  refine ⟨_, series_of_selectSets h, fun ls => mem_mergeSets, ?_⟩
  rw [← List.nodup_iff_count_eq_one, nodup_mergeSets_iff]

def jobLabels (ids : List Int) : List Label :=
  ids.map fun (id : Int) => { name := "job", value := if id = 1 then "api" else "web" }

def idRows (ids : List Int) : List (Rows (Row Nat Nat)) :=
  [{ rest := ids.map fun id => .ok { labelIds := [id], times := [], values := [] } }]

theorem labelSets_idRows (ids : List Int) :
    labelSets jobLabels (idRows ids) = ids.map fun id => jobLabels [id] := by
  simp [labelSets, idRows, rowLabels, readRow, lookup, jobLabels, sortLabels]

theorem readable_idRows (ids : List Int) :
    ∀ o ∈ outcomes (lookup jobLabels) (idRows ids) (), ¬o.IsError := by
  induction ids with
  | nil => simp [outcomes, outcomesFrom, idRows, Outcome.IsError]
  | cons id ids ih =>
    intro o ho
    rcases List.mem_cons.mp ho with rfl | ho
    · exact Option.some_ne_none _
    · exact ih o ho

/-- The two series, in the order of the ids. -/
def jobSelection (ids : List Int) (h : (ids.map fun id => jobLabels [id]).Nodup) :
    Selection Nat Nat jobLabels where
  rows := idRows ids
  readable := readable_idRows ids
  nodup := labelSets_idRows ids ▸ h

/-- The selector `up` returns the series in one order, any other selector in the other. -/
def jobServices : Services String Nat Nat where
  parseTime _ := .error "no time"
  parseMetricSelector := .ok
  select _ _ s := .ok (idRows (if s = "up" then [2, 1] else [1, 2]))

theorem series_lists_once_up :
    ∃ listed, series jobLabels jobServices (.ok ⟨["up", "up"], "", ""⟩) = .series listed ∧
      ∀ ls ∈ listed, listed.count ls = 1 := by
  let up := jobSelection [2, 1] (by decide)
  obtain ⟨listed, hlisted, _, honce⟩ :=
    series_lists_once_iff jobServices (.ok ⟨["up", "up"], "", ""⟩) [up, up] rfl
  refine ⟨listed, hlisted, honce.mpr fun s hs t ht ls _ _ => ?_⟩
  simp only [List.mem_cons, List.not_mem_nil, or_false, or_self] at hs ht
  rw [hs, ht]

theorem series_repeats_api :
    selectSets jobServices (.ok ⟨["up", "up\x7bjob!=''\x7d"], "", ""⟩) =
        .ok ([jobSelection [2, 1] (by decide), jobSelection [1, 2] (by decide)].map
          Selection.rows) ∧
      series jobLabels jobServices (.ok ⟨["up", "up\x7bjob!=''\x7d"], "", ""⟩) =
        .series [jobLabels [1], jobLabels [2], jobLabels [1]] :=
  ⟨rfl, by decide +kernel⟩

end TimescalePrometheus.Api.SeriesEndpoint
