import TimescalePrometheus.Promql.EvaluatorWindows
import TimescalePrometheus.Promql.GapfillWindows
import TimescalePrometheus.Promql.Selection

/-!
A query of the form `delta(metric{matchers}[range] offset offset)`, computed by the storage and by
the engine.
-/

namespace TimescalePrometheus.Promql.Pushdown

open Lib.Budgets Lib.Windows Query.SubQueries Promql.Syntax Promql.Selection Promql.Functions
open Promql.Gapfill
open Promql.Gapfill.GapfillDeltaTransition (windowDelta)
open Promql.GapfillWindows Promql.Evaluator Promql.EvaluatorWindows

/-- The query, with its times in milliseconds. -/
structure DeltaQuery where
  labelMatchers : List Matcher
  start : Int
  stop : Int
  /-- Zero for an instant query. -/
  interval : Int
  range : Int
  offset : Int
  start_le_stop : start ≤ stop
  instant_or_range : interval = 0 ∧ start = stop ∨ 1 ≤ interval
  range_pos : 0 < range
  offset_nonneg : 0 ≤ offset

namespace DeltaQuery

variable (q : DeltaQuery)

def selector : VectorSelector := ⟨q.labelMatchers, q.offset * millisecond⟩

def matrixSelector : Expr := .matrixSelector q.selector (q.range * millisecond)

def expr : Expr := .call ⟨"delta", .vector⟩ [q.matrixSelector]

/-- The statement of the query. -/
def stmt : EvalStmt :=
  ⟨q.expr, q.start * millisecond, q.stop * millisecond, q.interval * millisecond⟩

/-- The evaluator of `execEvalStmt`, at the call. -/
def rangeCall : RangeCall :=
  let instant := q.stmt.start = q.stmt.stop ∧ q.stmt.interval = 0
  { startTimestamp := timeMilliseconds q.stmt.start
    endTimestamp := if instant then timeMilliseconds q.stmt.start else timeMilliseconds q.stmt.stop
    interval := if instant then 1 else durationMilliseconds q.stmt.interval
    selRange := durationMilliseconds (q.range * millisecond)
    offset := durationMilliseconds q.selector.offset
    call := fun points ts => funcDelta points (q.range * millisecond) q.selector.offset ts }

end DeltaQuery

/-- Why there is no result. -/
inductive FetchError where
  | aggregate (err : AggregateError)
  | invalidData
  | notPushedDown
  deriving DecidableEq

/-- A row of a result, with its times in microseconds and none for NULL. -/
structure PgxSeries where
  labels : Labels
  times : List Int
  values : List (Option ℚ)
  deriving DecidableEq

/-- The row of a series, absent if the series has no data row. The data rows are those that
the aggregate accepts. -/
def resultRow (qf : QueryFinalizer) (series : StorageSeries) :
    Except FetchError (Option PgxSeries) :=
  match qf.timeClause, qf.valueClause with
  | .generateSeries start stop step, .promDelta lowestTime greatestTime stepSize range =>
    let rows := (series.samples.map fun s => (⟨s.t * 1000, s.v⟩ : Sample)).filter fun s =>
      lowestTime * 1000 ≤ s.t ∧ s.t ≤ greatestTime * 1000
    match promDelta (lowestTime * 1000) (greatestTime * 1000) stepSize range rows with
    | .error err => .error (.aggregate err)
    | .ok values => .ok (values.map fun values =>
      ⟨series.labels, ticks (start * 1000) (stop * 1000) (step * 1000), values⟩)
  | _, _ => .error .notPushedDown

/-- `At` of the series set. -/
def checkLengths (row : PgxSeries) : Except FetchError PgxSeries :=
  if row.times.length ≠ row.values.length then .error .invalidData else .ok row

def getTs (time : Int) : Int := (time * 1000).tdiv 1000000

/-- What the iterator of a row goes through: NULLs are skipped. -/
def PgxSeries.iterate (row : PgxSeries) : List Point :=
  (row.times.zip row.values).filterMap fun (time, value) => value.map fun v => ⟨getTs time, v⟩

/-- Series without points are left out. -/
def getPushdownResult (series : List PgxSeries) : Matrix :=
  series.filterMap fun s =>
    if s.iterate = [] then none else some ⟨dropMetricName s.labels, s.iterate⟩

def selectClauses : Select QueryFinalizer := fun hints path _ =>
  getQueryFinalizer true (some hints) path

/-- The result of the query if the storage processes its call. -/
def pushdown (lookbackDelta : Int) (q : DeltaQuery) (series : List StorageSeries) :
    Except FetchError Matrix :=
  match (populateSeries lookbackDelta q.stmt selectClauses).selected with
  | [call] => do
    let rows ← series.mapM (resultRow call.unexpandedSeriesSet)
    let expanded ← rows.reduceOption.mapM checkLengths
    return getPushdownResult expanded
  | _ => .error .notPushedDown

namespace DeltaQuery

variable (q : DeltaQuery)

/-- The distance between two steps; any will do for an instant query. -/
def evalStep : Int := if q.interval = 0 then 1 else q.interval

/-- The times at which the engine evaluates the query. -/
def evalTimes : List Int := ticks q.start q.stop q.evalStep

/-- The step that the storage is given. -/
def stepSize : Int := if q.interval > 0 then q.interval else 1000

theorem stepSize_pos : 0 < q.stepSize := by
  unfold stepSize
  split <;> omega

theorem evalStep_pos : 0 < q.evalStep := by
  have := q.instant_or_range
  unfold evalStep
  split <;> omega

theorem ticks_stepSize : ticks q.start q.stop q.stepSize = q.evalTimes := by
  unfold evalTimes stepSize evalStep
  rcases q.instant_or_range with ⟨hzero, heq⟩ | hpos
  · rw [heq, ticks_self, ticks_self]
  · rw [if_pos (by omega), if_neg (by omega)]

theorem rangeCall_eq : q.rangeCall =
    { startTimestamp := q.start
      endTimestamp := q.stop
      interval := q.evalStep
      selRange := q.range
      offset := q.offset
      call := fun points ts =>
        funcDelta points (q.range * millisecond) (q.offset * millisecond) ts } := by
  have hmul : ∀ a b : Int, a * millisecond = b * millisecond ↔ a = b := fun a b =>
    mul_left_inj' (by decide)
  have hzero : q.interval * millisecond = 0 ↔ q.interval = 0 := by
    simpa using hmul q.interval 0
  have hinstant := q.instant_or_range
  unfold rangeCall stmt selector evalStep
  simp only [durationMilliseconds_mul, timeMilliseconds_mul, hmul, hzero]
  congr 1
  · split <;> omega
  · split <;> split <;> omega

theorem selectHints_eq (lookbackDelta : Int) :
    selectHints lookbackDelta q.stmt (q.range * millisecond) q.selector
        [q.expr, q.matrixSelector] =
      { start := q.start - q.range - q.offset, stop := q.stop - q.offset, step := q.interval,
        range := q.range, func := "delta", by_ := false, grouping := [] } := by
  have hrange : q.range * millisecond ≠ 0 := mul_ne_zero q.range_pos.ne' (by decide)
  have hoffset : q.offset * millisecond > 0 ↔ 0 < q.offset := by
    unfold millisecond
    omega
  have hnonneg := q.offset_nonneg
  have hsub : durationMilliseconds (cumulativeSubqueryOffset [q.expr, q.matrixSelector]) = 0 := rfl
  unfold selectHints
  simp only [hsub, if_neg hrange, stmt, selector, fromTime_mul, durationMilliseconds_mul, hoffset]
  split
  · rw [sub_zero]
    rfl
  · have hzero : q.offset = 0 := by omega
    rw [hzero, sub_zero, sub_zero, sub_zero]
    rfl

theorem selectClauses_eq (lookbackDelta : Int) :
    selectClauses (selectHints lookbackDelta q.stmt (q.range * millisecond) q.selector
        [q.expr, q.matrixSelector]) [q.expr, q.matrixSelector] q.labelMatchers =
      .ok (⟨.generateSeries (q.start - q.offset) (q.stop - q.offset) q.stepSize,
        .promDelta (q.start - q.range - q.offset) (q.stop - q.offset) q.stepSize q.range⟩,
        some q.expr) := by
  have hstart : q.start - q.range - q.offset + q.range = q.start - q.offset := by ring
  have hinstant := q.instant_or_range
  rw [selectHints_eq]
  change (deltaFinalizer _).map (fun qf => (qf, some q.expr)) = _
  unfold deltaFinalizer stepSize
  dsimp only
  rw [hstart]
  split
  · rfl
  · rw [if_neg (by omega)]
    rfl

theorem selected_eq (lookbackDelta : Int) : ∃ call,
    (populateSeries lookbackDelta q.stmt selectClauses).selected = [call] ∧
      call.unexpandedSeriesSet =
        ⟨.generateSeries (q.start - q.offset) (q.stop - q.offset) q.stepSize,
          .promDelta (q.start - q.range - q.offset) (q.stop - q.offset) q.stepSize q.range⟩ := by
  refine ⟨⟨q.selector, [q.expr, q.matrixSelector], selectHints lookbackDelta q.stmt
    (q.range * millisecond) q.selector [q.expr, q.matrixSelector], _⟩, ?_, rfl⟩
  change (visitSeries lookbackDelta q.stmt selectClauses
    { evalRange := q.range * millisecond } (.vectorSelector q.selector,
      [q.expr, q.matrixSelector])).selected = _
  rw [visitSeries_ok rfl rfl (q.selectClauses_eq lookbackDelta)]
  rfl

end DeltaQuery

section OneSeries

variable (q : DeltaQuery)

/-- A point with its time in microseconds. -/
def micros (p : Point) : Point := ⟨p.t * 1000, p.v⟩

/-- The data rows of a series between two times in milliseconds. -/
def dataRows (lowestTime greatestTime : Int) (samples : List Sample) : List Sample :=
  (samples.map fun s => (⟨s.t * 1000, s.v⟩ : Sample)).filter fun s =>
    lowestTime * 1000 ≤ s.t ∧ s.t ≤ greatestTime * 1000

theorem points_dataRows (lowestTime greatestTime : Int) (samples : List Sample) :
    points (dataRows lowestTime greatestTime samples) =
      (window Point.t lowestTime greatestTime (points samples)).map micros := by
  have hscaled : points (samples.map fun s => (⟨s.t * 1000, s.v⟩ : Sample)) =
      (points samples).map micros := by
    unfold points
    rw [List.filterMap_map, List.map_filterMap]
    apply List.filterMap_congr
    rintro ⟨t, v⟩ -
    cases v <;> rfl
  unfold dataRows window
  rw [points_filter fun t => decide (lowestTime * 1000 ≤ t ∧ t ≤ greatestTime * 1000), hscaled,
    List.filter_map]
  congr 1
  apply List.filter_congr
  intro p _
  rw [Bool.eq_iff_iff]
  simp only [Function.comp_apply, decide_eq_true_eq]
  simp only [micros]
  omega

theorem window_dataRows {lowestTime greatestTime lo hi : Int} (hlo : lowestTime ≤ lo)
    (hhi : hi ≤ greatestTime) (samples : List Sample) :
    window Point.t (lo * 1000) (hi * 1000) (points (dataRows lowestTime greatestTime samples)) =
      (window Point.t lo hi (points samples)).map micros := by
  rw [points_dataRows]
  unfold window
  rw [List.filter_map, List.filter_filter]
  congr 1
  apply List.filter_congr
  intro p _
  rw [Bool.eq_iff_iff]
  simp only [Function.comp_apply, Bool.and_eq_true, decide_eq_true_eq]
  simp only [micros]
  omega

theorem dataRows_ascending {samples : List Sample} (h : Increasing samples)
    (lowestTime greatestTime : Int) :
    Ascending Sample.t (dataRows lowestTime greatestTime samples) := by
  refine List.Pairwise.filter _ (List.Pairwise.map _ ?_ h)
  intro a b hab
  exact Int.mul_le_mul_of_nonneg_right (le_of_lt hab) (by decide)

theorem funcDelta_eq_none_iff {pts : List Point} {range offset ts : Int} :
    funcDelta pts range offset ts = none ↔ pts.length < 2 := by
  match pts with
  | [] => simp [funcDelta, extrapolatedRate]
  | [p] => simp [funcDelta, extrapolatedRate]
  | p :: p' :: pts =>
    cases hlast : (p' :: pts).getLast? with
    | none => exact absurd (List.getLast?_eq_none_iff.mp hlast) (List.cons_ne_nil _ _)
    | some last => simp [funcDelta, extrapolatedRate, List.getLast?_cons_cons, hlast]

theorem stepPoint_eq (samples : List Sample) (ts : Int) :
    stepPoint q.rangeCall samples ts =
      (funcDelta (window Point.t (ts - q.offset - q.range) (ts - q.offset) (points samples))
        (q.range * millisecond) (q.offset * millisecond) ts).map fun v => ⟨ts, v⟩ := by
  rw [q.rangeCall_eq]
  unfold stepPoint stepWindow
  split
  · rename_i hempty
    dsimp only at hempty
    rw [hempty]
    rfl
  · rfl

theorem aggregate_at {samples : List Sample} {ts : Int} (hts : ts ∈ q.evalTimes) :
    windowDelta false false (q.range * 1000) ((ts - q.offset) * 1000 - q.range * 1000)
        ((ts - q.offset) * 1000)
        (window Point.t ((ts - q.offset) * 1000 - q.range * 1000) ((ts - q.offset) * 1000)
          (points (dataRows (q.start - q.range - q.offset) (q.stop - q.offset) samples))) =
      funcDelta (window Point.t (ts - q.offset - q.range) (ts - q.offset) (points samples))
        (q.range * millisecond) (q.offset * millisecond) ts := by
  have hfirst := first_le_of_mem_ticks q.evalStep_pos hts
  have hlast := le_last_of_mem_ticks q.evalStep_pos hts
  rw [← sub_mul, window_dataRows (by omega) (by omega)]
  refine windowDelta_scaled false _ _ _ _ ts _ _ ?_ ?_
  · rw [← add_mul, durationMilliseconds_mul]
    ring
  · rw [durationMilliseconds_mul]

/-- The row of a series as the query returns it. -/
def expectedRow (series : StorageSeries) : Option PgxSeries :=
  let rows := dataRows (q.start - q.range - q.offset) (q.stop - q.offset) series.samples
  let times := ticks ((q.start - q.offset) * 1000) ((q.stop - q.offset) * 1000)
    (q.stepSize * 1000)
  if rows = [] then none
  else some ⟨series.labels, times, times.map fun windowEnd =>
    windowDelta false false (q.range * 1000) (windowEnd - q.range * 1000) windowEnd
      (window Point.t (windowEnd - q.range * 1000) windowEnd (points rows))⟩

theorem resultRow_eq {series : StorageSeries} (h : Increasing series.samples) :
    resultRow ⟨.generateSeries (q.start - q.offset) (q.stop - q.offset) q.stepSize,
        .promDelta (q.start - q.range - q.offset) (q.stop - q.offset) q.stepSize q.range⟩ series =
      .ok (expectedRow q series) := by
  change (match promDelta ((q.start - q.range - q.offset) * 1000) ((q.stop - q.offset) * 1000)
    q.stepSize q.range
      (dataRows (q.start - q.range - q.offset) (q.stop - q.offset) series.samples) with
    | .error err => Except.error (FetchError.aggregate err)
    | .ok values => .ok (values.map fun values => PgxSeries.mk series.labels
        (ticks ((q.start - q.offset) * 1000) ((q.stop - q.offset) * 1000) (q.stepSize * 1000))
        values)) = _
  unfold expectedRow
  dsimp only
  split_ifs with hempty
  · rw [hempty]
    rfl
  · have hfirst : (q.start - q.range - q.offset) * 1000 + q.range * 1000 =
        (q.start - q.offset) * 1000 := by ring
    rw [promDelta, gapfill_eq false false _ _ q.range q.stepSize_pos hempty ?_
      (dataRows_ascending h _ _), hfirst]
    · rfl
    · intro row hrow
      simpa using (List.mem_filter.mp hrow).2

theorem times_eq : ticks ((q.start - q.offset) * 1000) ((q.stop - q.offset) * 1000)
    (q.stepSize * 1000) = q.evalTimes.map fun ts => (ts - q.offset) * 1000 := by
  rw [mul_comm _ 1000, mul_comm _ 1000, mul_comm _ 1000, ticks_mul (by decide),
    sub_eq_add_neg, sub_eq_add_neg, ticks_add, q.ticks_stepSize, List.map_map]
  apply List.map_congr_left
  intro ts _
  simp only [Function.comp_apply]
  ring

/-- A point at the time that the storage gives it. -/
def moveBack (p : Point) : Point := ⟨p.t - q.offset, p.v⟩

theorem getTs_mul (t : Int) : getTs (t * 1000) = t := by
  unfold getTs
  rw [mul_assoc]
  exact Int.mul_tdiv_cancel t (by decide)

theorem iterate_expectedRow {series : StorageSeries} {row : PgxSeries}
    (h : expectedRow q series = some row) :
    row.labels = series.labels ∧ row.times.length = row.values.length ∧
      row.iterate = (seriesPoints q.rangeCall series.samples).map (moveBack q) := by
  unfold expectedRow at h
  dsimp only at h
  split at h
  · cases h
  · cases h
    refine ⟨rfl, (List.length_map _).symm, ?_⟩
    unfold PgxSeries.iterate seriesPoints
    dsimp only
    rw [times_eq, List.map_map, List.zip_map', List.filterMap_map, List.map_filterMap]
    have hticks : ticks q.rangeCall.startTimestamp q.rangeCall.endTimestamp
        q.rangeCall.interval = q.evalTimes := by
      rw [q.rangeCall_eq]
      rfl
    rw [hticks]
    apply List.filterMap_congr
    intro ts hts
    simp only [Function.comp_apply, aggregate_at q hts, stepPoint_eq, getTs_mul, Option.map_map]
    rfl

theorem seriesPoints_eq_nil {series : StorageSeries} (h : expectedRow q series = none) :
    seriesPoints q.rangeCall series.samples = [] := by
  unfold expectedRow at h
  dsimp only at h
  split at h
  · rename_i hempty
    have hnone : window Point.t (q.start - q.range - q.offset) (q.stop - q.offset)
        (points series.samples) = [] := by
      have := points_dataRows (q.start - q.range - q.offset) (q.stop - q.offset) series.samples
      rw [hempty] at this
      exact List.map_eq_nil_iff.mp this.symm
    unfold seriesPoints
    rw [List.filterMap_eq_nil_iff, q.rangeCall_eq]
    intro ts hts
    have hfirst := first_le_of_mem_ticks q.evalStep_pos hts
    have hlast := le_last_of_mem_ticks q.evalStep_pos hts
    dsimp only at hfirst hlast
    rw [← q.rangeCall_eq, stepPoint_eq, Option.map_eq_none_iff, funcDelta_eq_none_iff,
      window_eq_nil]
    · decide
    · intro p hp
      by_contra hin
      have : p ∈ window Point.t (q.start - q.range - q.offset) (q.stop - q.offset)
          (points series.samples) := mem_window.mpr ⟨hp, by omega, by omega⟩
      rw [hnone] at this
      exact absurd this List.not_mem_nil
  · cases h

end OneSeries

/-- The series of a metric: strictly increasing times, and labels that differ in more than
the name of the metric. -/
structure SeriesSet where
  series : List StorageSeries
  increasing : ∀ s ∈ series, Increasing s.samples
  distinct : (series.map fun s => dropMetricName s.labels).Nodup

theorem mapM_ok {ε α β : Type} {f : α → Except ε β} {g : α → β} {l : List α}
    (h : ∀ a ∈ l, f a = .ok (g a)) : l.mapM f = .ok (l.map g) := by
  induction l with
  | nil => rfl
  | cons a l ih =>
    obtain ⟨ha, hl⟩ := List.forall_mem_cons.mp h
    rw [List.mapM_cons, ha, ih hl]
    rfl

section Agreement

variable (q : DeltaQuery) (set : SeriesSet)

def moveSeriesBack (s : Series) : Series := ⟨s.metric, s.points.map (moveBack q)⟩

/-- The result of the engine, without a limit on the samples. -/
def engineResult : Matrix := set.series.filterMap (seriesResult q.rangeCall)

theorem getPushdownResult_rows :
    getPushdownResult (set.series.filterMap (expectedRow q)) =
      (engineResult q set).map (moveSeriesBack q) := by
  unfold getPushdownResult engineResult
  rw [List.filterMap_filterMap, List.map_filterMap]
  apply List.filterMap_congr
  intro s _
  unfold seriesResult
  cases hrow : expectedRow q s with
  | none =>
    rw [if_pos (seriesPoints_eq_nil q hrow)]
    rfl
  | some row =>
    obtain ⟨hlabels, -, hpoints⟩ := iterate_expectedRow q hrow
    rw [Option.bind_some, hlabels, hpoints]
    simp only [List.map_eq_nil_iff]
    split <;> rfl

theorem pushdown_eq (lookbackDelta : Int) :
    pushdown lookbackDelta q set.series = .ok ((engineResult q set).map (moveSeriesBack q)) := by
  obtain ⟨call, hselected, hclauses⟩ := q.selected_eq lookbackDelta
  have hrows : set.series.mapM (resultRow call.unexpandedSeriesSet) =
      .ok (set.series.map (expectedRow q)) := by
    rw [hclauses]
    exact mapM_ok fun s hs => resultRow_eq q (set.increasing s hs)
  have hlengths : (set.series.map (expectedRow q)).reduceOption.mapM checkLengths =
      .ok (set.series.filterMap (expectedRow q)) := by
    change ((set.series.map (expectedRow q)).filterMap id).mapM checkLengths = _
    rw [List.filterMap_map, Function.id_comp]
    refine (mapM_ok (g := id) ?_).trans (by rw [List.map_id])
    intro row hrow
    obtain ⟨s, -, hs⟩ := List.mem_filterMap.mp hrow
    exact if_neg (not_not.mpr (iterate_expectedRow q hs).2.1)
  unfold pushdown
  rw [hselected]
  dsimp only
  rw [hrows, ← getPushdownResult_rows]
  change ((set.series.map (expectedRow q)).reduceOption.mapM checkLengths).bind _ = _
  rw [hlengths]
  rfl

theorem engineResult_eq_nil_iff : engineResult q set = [] ↔
    ∀ s ∈ set.series, ∀ ts ∈ q.evalTimes,
      (window Point.t (ts - q.offset - q.range) (ts - q.offset) (points s.samples)).length < 2 := by
  have hticks : ticks q.rangeCall.startTimestamp q.rangeCall.endTimestamp
      q.rangeCall.interval = q.evalTimes := by
    rw [q.rangeCall_eq]
    rfl
  unfold engineResult
  rw [List.filterMap_eq_nil_iff]
  apply forall₂_congr
  intro s _
  have hnone : seriesResult q.rangeCall s = none ↔ seriesPoints q.rangeCall s.samples = [] := by
    unfold seriesResult
    split <;> simp [*]
  rw [hnone, seriesPoints, List.filterMap_eq_nil_iff, hticks]
  apply forall₂_congr
  intro ts _
  rw [stepPoint_eq, Option.map_eq_none_iff, funcDelta_eq_none_iff]

theorem points_ne_nil {s : Series} (h : s ∈ engineResult q set) : s.points ≠ [] := by
  obtain ⟨series, -, hresult⟩ := List.mem_filterMap.mp h
  unfold seriesResult at hresult
  split at hresult
  · cases hresult
  · cases hresult
    assumption

theorem moved_eq_self_iff :
    (engineResult q set).map (moveSeriesBack q) = engineResult q set ↔
      q.offset = 0 ∨ engineResult q set = [] := by
  constructor
  · intro h
    rcases List.eq_nil_or_concat (engineResult q set) with hnil | ⟨init, s, hconcat⟩
    · exact .inr hnil
    · left
      have hmem : s ∈ engineResult q set := by simp [hconcat]
      have hself : moveSeriesBack q s = s :=
        List.map_inj_left.mp (h.trans (List.map_id _).symm) s hmem
      obtain ⟨p, rest, hp⟩ := List.exists_cons_of_ne_nil (points_ne_nil q set hmem)
      have hpoints := congrArg Series.points hself
      rw [moveSeriesBack, hp, List.map_cons] at hpoints
      have htime := congrArg Point.t (List.cons.inj hpoints).1
      change p.t - q.offset = p.t at htime
      omega
  · rintro (hzero | hnil)
    · have hmove : moveSeriesBack q = id := by
        funext s
        have hpoint : moveBack q = id := by
          funext p
          change Point.mk (p.t - q.offset) p.v = p
          rw [hzero, sub_zero]
        rw [moveSeriesBack, hpoint, List.map_id]
        rfl
      rw [hmove, List.map_id]
    · rw [hnil, List.map_nil]

end Agreement

/-- An iterator whose buffer holds exactly the samples within its delta. -/
def exactIterator : BufferedSeriesIterator where
  State := List Sample × Int × Int
  reset := fun delta samples => (samples, delta, 0)
  seek := fun (samples, delta, _) t => (samples.any fun s => t ≤ s.t, samples, delta, t)
  buffer := fun (samples, delta, t) => samples.filter fun s => t - delta ≤ s.t ∧ s.t < t
  values := fun (samples, _, t) => (samples.find? fun s => t ≤ s.t).getD ⟨0, none⟩
  reduceDelta := fun (samples, _, t) delta => (samples, delta, t)
  Positioned := fun (samples, delta, _) samples' delta' _ => samples = samples' ∧ delta = delta'
  positioned_reset := fun _ _ => ⟨rfl, rfl⟩
  positioned_reduceDelta := fun h _ => ⟨h.1, rfl⟩
  positioned_seek := fun h _ => h
  seek_values := by
    rintro ⟨samples, delta, t₀⟩ _ _ last t ⟨rfl, rfl⟩ -
    dsimp only
    cases hfind : samples.find? fun s => t ≤ s.t with
    | none =>
      have hnone : samples.any (fun s => t ≤ s.t) = false := by
        simpa using hfind
      exact (if_neg (Bool.eq_false_iff.mp hnone)).symm
    | some s =>
      have hsome : samples.any (fun s => t ≤ s.t) = true :=
        List.any_eq_true.mpr ⟨s, List.mem_of_find?_eq_some hfind,
          List.find?_some (p := fun s : Sample => decide (t ≤ s.t)) hfind⟩
      exact (if_pos hsome).symm
  seek_buffer := by
    rintro ⟨samples, delta, t₀⟩ _ _ last t ⟨rfl, rfl⟩ -
    exact ⟨t - delta, le_rfl, rfl⟩

/-- The instant query `delta(cpu[5m] offset 1m)` at time 600 s. -/
def offsetQuery : DeltaQuery :=
  { labelMatchers := [⟨.matchEqual, "__name__", "cpu"⟩], start := 600000, stop := 600000,
    interval := 0, range := 300000, offset := 60000, start_le_stop := by decide,
    instant_or_range := by decide, range_pos := by decide, offset_nonneg := by decide }

def cpuSeries : List StorageSeries :=
  [⟨[("__name__", "cpu"), ("host", "a")], [⟨300000, some 1⟩, ⟨420000, some 3⟩]⟩]

def cpuSet : SeriesSet := ⟨cpuSeries, by decide, by decide⟩

end TimescalePrometheus.Promql.Pushdown
