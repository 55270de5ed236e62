import TimescalePrometheus.Promql.EvaluatorWindows
import TimescalePrometheus.Promql.TimeFilter

/-!
The samples that the evaluation of an expression reads, and the interval to which
`findMinTime` restricts the querier. The evaluator of a subquery has its own steps; what
it does with the values of the parts of an expression is left open.
-/

namespace TimescalePrometheus.Promql.ReadRange

open Lib.Budgets Lib.GoTime Lib.Windows Promql.Syntax Promql.Functions Promql.Selection
open Promql.TimeFilter Promql.Evaluator Promql.EvaluatorWindows

/-- The times of an evaluator are in milliseconds, `lookbackDelta` is a duration. -/
structure Evaluator where
  startTimestamp : Int
  endTimestamp : Int
  interval : Int
  defaultEvalInterval : Int
  lookbackDelta : Int

/-- The evaluator that `execEvalStmt` builds. -/
def stmtEvaluator (lookbackDelta defaultEvalInterval : Int) (s : EvalStmt) : Evaluator :=
  if s.start = s.stop ∧ s.interval = 0 then
    { startTimestamp := timeMilliseconds s.start, endTimestamp := timeMilliseconds s.start,
      interval := 1, defaultEvalInterval, lookbackDelta }
  else
    { startTimestamp := timeMilliseconds s.start, endTimestamp := timeMilliseconds s.stop,
      interval := durationMilliseconds s.interval, defaultEvalInterval, lookbackDelta }

namespace Evaluator

variable (ev : Evaluator)

/-- The times of the loops over the steps. The source divides by the interval before it
loops, and panics if it is zero. -/
def steps : List Int :=
  if ev.interval = 0 then [] else ticks ev.startTimestamp ev.endTimestamp ev.interval

/-- The evaluator of the expression in a subquery. It starts at the first multiple of its
interval that is not before the range of the subquery; with an interval of zero the source
panics on the division. -/
def subquery (range offset step : Int) : Option Evaluator :=
  let offsetMillis := durationMilliseconds offset
  let rangeMillis := durationMilliseconds range
  let interval := if step ≠ 0 then durationMilliseconds step else ev.defaultEvalInterval
  let first := ev.startTimestamp - offsetMillis - rangeMillis
  let aligned := interval * first.tdiv interval
  if interval = 0 then none
  else some { ev with
    startTimestamp := if aligned < first then aligned + interval else aligned
    endTimestamp := ev.endTimestamp - offsetMillis
    interval }

/-- The evaluator for the children of a node. -/
def inside : Expr → Option Evaluator
  | .subqueryExpr _ range offset step => ev.subquery range offset step
  | _ => some ev

/-- The evaluator at the end of a path. -/
def along (path : List Expr) : Option Evaluator := path.foldlM inside ev

theorem along_concat (path : List Expr) (expr : Expr) :
    ev.along (path ++ [expr]) = (ev.along path).bind fun ev => ev.inside expr := by
  simp [along]

end Evaluator

section Select

variable (B : BufferedSeriesIterator) (ev : Evaluator)

/-- The value of a series at a time, with the time of its sample. -/
def vectorSelectorSingle (n : VectorSelector) (it : B.State) (ts : Int) :
    Option Point × B.State :=
  let refTime := ts - durationMilliseconds n.offset
  let (ok, it) := B.seek it refTime
  let found : Option Sample :=
    if ok ∧ (B.values it).t ≤ refTime then some (B.values it)
    else
      -- `PeekBack(1)` is the last sample of the buffer
      (B.buffer it).getLast?.filter fun s => refTime - durationMilliseconds ev.lookbackDelta ≤ s.t
  (found.bind Sample.point, it)

/-- The steps with one iterator. -/
def selectSteps (n : VectorSelector) : B.State → List Int → List (Int × Point)
  | _, [] => []
  | it, ts :: rest =>
    let (found, it) := vectorSelectorSingle B ev n it ts
    (found.toList.map fun p => (ts, p)) ++ selectSteps n it rest

/-- The points of the series of a vector selector; a series without points is left out. -/
def selectVector (n : VectorSelector) (series : List StorageSeries) :
    List (Labels × List (Int × Point)) :=
  series.filterMap fun s =>
    let out := selectSteps B ev n (B.reset (durationMilliseconds ev.lookbackDelta) s.samples)
      ev.steps
    if out = [] then none else some (s.labels, out)

/-- The windows of the series of a matrix selector, as `matrixIterSlice` fills them; empty
ones are skipped. -/
def selectMatrix (n : VectorSelector) (range : Int) (series : List StorageSeries) :
    List (Labels × List (Int × List Point)) :=
  series.filterMap fun s =>
    let out := ev.steps.filterMap fun ts =>
      let maxt := ts - durationMilliseconds n.offset
      let mint := maxt - durationMilliseconds range
      let points := window Point.t mint maxt (points s.samples)
      if points = [] then none else some (ts, points)
    if out = [] then none else some (s.labels, out)

end Select

/-- What the evaluator does besides reading samples: it turns the points of selectors and
the values of the children of a node into values. -/
structure Operators (V : Type) where
  vector : Evaluator → List (Labels × List (Int × Point)) → V
  matrix : Evaluator → List (Labels × List (Int × List Point)) → V
  node : Expr → Evaluator → List V → V

section Eval

variable {V : Type} (B : BufferedSeriesIterator) (ops : Operators V)
  (storage : VectorSelector → List StorageSeries)

mutual

/-- The evaluation of an expression whose nodes the storage has not processed. None is the
panic of a division by zero, and the limit on the number of samples is left out. -/
def eval (ev : Evaluator) : Expr → Option V
  | .numberLiteral val => some (ops.node (.numberLiteral val) ev [])
  | .stringLiteral val => some (ops.node (.stringLiteral val) ev [])
  | .vectorSelector n => some (ops.vector ev (selectVector B ev n (storage n)))
  | .matrixSelector n range => some (ops.matrix ev (selectMatrix ev n range (storage n)))
  | .subqueryExpr expr range offset step => do
    let newEv ← ev.subquery range offset step
    let res ← eval newEv expr
    return ops.node (.subqueryExpr expr range offset step) ev [res]
  | .call func args => do
    let values ← evalList ev args
    return ops.node (.call func args) ev values
  | .aggregateExpr op expr param grouping without => do
    let value ← eval ev expr
    let values ← evalOption ev param
    return ops.node (.aggregateExpr op expr param grouping without) ev (value :: values)
  | .binaryExpr op lhs rhs => do
    let left ← eval ev lhs
    let right ← eval ev rhs
    return ops.node (.binaryExpr op lhs rhs) ev [left, right]
  | .parenExpr expr => do
    let value ← eval ev expr
    return ops.node (.parenExpr expr) ev [value]
  | .unaryExpr op expr => do
    let value ← eval ev expr
    return ops.node (.unaryExpr op expr) ev [value]

def evalList (ev : Evaluator) : List Expr → Option (List V)
  | [] => some []
  | expr :: rest => do
    let value ← eval ev expr
    let values ← evalList ev rest
    return value :: values

def evalOption (ev : Evaluator) : Option Expr → Option (List V)
  | none => some []
  | some expr => do
    let value ← eval ev expr
    return [value]

end

/-- `execEvalStmt` up to the value of the expression. -/
def execEvalStmt (lookbackDelta defaultEvalInterval : Int) (s : EvalStmt) : Option V :=
  let ev := stmtEvaluator lookbackDelta defaultEvalInterval s
  if ev.interval = 0 then none else eval B ops storage ev s.expr

theorem evalList_eq (ev : Evaluator) (exprs : List Expr) :
    evalList B ops storage ev exprs = exprs.mapM (eval B ops storage ev) := by
  induction exprs with
  | nil => rfl
  | cons expr rest ih => rw [evalList, ih, List.mapM_cons]

theorem evalOption_eq (ev : Evaluator) (param : Option Expr) :
    evalOption B ops storage ev param = param.toList.mapM (eval B ops storage ev) := by
  cases param <;> simp [evalOption]

theorem eval_eq_node {expr : Expr} (hvector : ∀ n, expr ≠ .vectorSelector n)
    (hmatrix : ∀ n range, expr ≠ .matrixSelector n range) (ev : Evaluator) :
    eval B ops storage ev expr = (ev.inside expr).bind fun inner =>
      (expr.children.mapM (eval B ops storage inner)).bind fun values =>
        some (ops.node expr ev values) := by
  cases expr with
  | vectorSelector n => exact absurd rfl (hvector n)
  | matrixSelector n range => exact absurd rfl (hmatrix n range)
  | _ =>
    simp [eval, Expr.children, Evaluator.inside, evalList_eq, evalOption_eq, Option.bind_assoc]

end Eval

section Windows

variable {B : BufferedSeriesIterator} {ev : Evaluator} {n : VectorSelector}
  {samples : List Sample}

/-- The last sample of the lookback, unless it is a staleness marker. -/
def instantPoint (ev : Evaluator) (n : VectorSelector) (samples : List Sample) (ts : Int) :
    Option Point :=
  let refTime := ts - durationMilliseconds n.offset
  (window Sample.t (refTime - durationMilliseconds ev.lookbackDelta) refTime
    samples).getLast?.bind Sample.point

theorem ascending_samples (h : Increasing samples) : Ascending Sample.t samples :=
  h.imp le_of_lt

theorem vectorSelectorSingle_eq (hincreasing : Increasing samples)
    (hlookback : 0 ≤ durationMilliseconds ev.lookbackDelta) {it : B.State} {last : Option Int}
    (hpos : B.Positioned it samples (durationMilliseconds ev.lookbackDelta) last) {ts : Int}
    (hlast : ∀ t₀ ∈ last, t₀ ≤ ts - durationMilliseconds n.offset) :
    (vectorSelectorSingle B ev n it ts).1 = instantPoint ev n samples ts := by
  unfold vectorSelectorSingle instantPoint
  generalize ts - durationMilliseconds n.offset = refTime at hlast
  generalize durationMilliseconds ev.lookbackDelta = lookback at hlookback hpos
  have hfind := B.seek_values hpos hlast
  obtain ⟨lo, hlo, hbuffer⟩ := B.seek_buffer hpos hlast
  have hsplit : window Sample.t (refTime - lookback) refTime samples =
      window Sample.t (refTime - lookback) (refTime - 1) samples ++
        window Sample.t (refTime - 1 + 1) refTime samples :=
    window_split (ascending_samples hincreasing) (by omega) (by omega)
  have hcurrent : window Sample.t (refTime - 1 + 1) refTime samples =
      (samples.find? fun s => refTime ≤ s.t).toList.filter fun s => s.t = refTime := by
    rw [← filter_eq_find? hincreasing]
    apply List.filter_congr
    intro s _
    rw [decide_eq_decide]
    omega
  dsimp only
  rw [hsplit, hcurrent, hfind]
  congr 1
  split
  · rename_i hfound
    have hnot : refTime ≤ (B.values (B.seek it refTime).2).t := by
      rw [if_pos hfound.1] at hfind
      simpa using List.find?_some hfind
    have heq : (B.values (B.seek it refTime).2).t = refTime := le_antisymm hfound.2 hnot
    simp [hfound.1, heq]
  · rename_i hmissing
    have hnone : (if (B.seek it refTime).1 then some (B.values (B.seek it refTime).2)
        else none).toList.filter (fun s => s.t = refTime) = [] := by
      split
      · have : (B.values (B.seek it refTime).2).t ≠ refTime := by
          intro heq
          exact hmissing ⟨‹_›, heq.le⟩
        simp [this]
      · rfl
    have hbuffered : B.buffer (B.seek it refTime).2 = window Sample.t lo (refTime - 1) samples := by
      rw [hbuffer]
      apply List.filter_congr
      intro s _
      rw [decide_eq_decide]
      omega
    rw [hnone, List.append_nil, hbuffered, getLast?_window (ascending_samples hincreasing) hlo]

theorem selectSteps_eq (hincreasing : Increasing samples)
    (hlookback : 0 ≤ durationMilliseconds ev.lookbackDelta) {times : List Int}
    (htimes : times.Pairwise (· < ·)) {it : B.State} {last : Option Int}
    (hpos : B.Positioned it samples (durationMilliseconds ev.lookbackDelta) last)
    (hlast : ∀ ts ∈ times, ∀ t₀ ∈ last, t₀ ≤ ts - durationMilliseconds n.offset) :
    selectSteps B ev n it times =
      times.filterMap fun ts => (instantPoint ev n samples ts).map fun p => (ts, p) := by
  induction times generalizing it last with
  | nil => rfl
  | cons ts rest ih =>
    obtain ⟨hts, hrest⟩ := List.pairwise_cons.mp htimes
    have hfound :=
      vectorSelectorSingle_eq hincreasing hlookback hpos (hlast ts List.mem_cons_self)
    have hpos' := B.positioned_seek hpos (hlast ts List.mem_cons_self)
    have hlater : ∀ ts' ∈ rest, ∀ t₀ ∈ some (ts - durationMilliseconds n.offset),
        t₀ ≤ ts' - durationMilliseconds n.offset := by
      rintro ts' hts' t₀ ⟨⟩
      have := hts ts' hts'
      omega
    unfold selectSteps
    dsimp only
    rw [hfound]
    change _ ++ selectSteps B ev n (B.seek it (ts - durationMilliseconds n.offset)).2 rest = _
    rw [ih hrest hpos' hlater]
    cases hpoint : instantPoint ev n samples ts with
    | none => simp [hpoint]
    | some p => simp [hpoint]

theorem steps_pairwise (hinterval : 0 ≤ ev.interval) : ev.steps.Pairwise (· < ·) := by
  unfold Evaluator.steps
  split
  · exact List.Pairwise.nil
  · exact pairwise_ticks (by omega)

theorem mem_steps (hinterval : 0 ≤ ev.interval) {ts : Int} (h : ts ∈ ev.steps) :
    ev.startTimestamp ≤ ts ∧ ts ≤ ev.endTimestamp := by
  unfold Evaluator.steps at h
  split at h
  · exact absurd h List.not_mem_nil
  · exact ⟨first_le_of_mem_ticks (by omega) h, le_last_of_mem_ticks (by omega) h⟩

/-- The series as a querier for the times from `lo` to `hi` returns them. -/
def restrict (lo hi : Int) (series : List StorageSeries) : List StorageSeries :=
  series.filterMap fun s =>
    if window Sample.t lo hi s.samples = [] then none
    else some { s with samples := window Sample.t lo hi s.samples }

theorem filterMap_restrict {β : Type} {lo hi : Int} {f : StorageSeries → Option β}
    (hwindow : ∀ s, Increasing s.samples →
      f { s with samples := window Sample.t lo hi s.samples } = f s)
    (hempty : ∀ labels, f ⟨labels, []⟩ = none) {series : List StorageSeries}
    (hincreasing : ∀ s ∈ series, Increasing s.samples) :
    (restrict lo hi series).filterMap f = series.filterMap f := by
  unfold restrict
  rw [List.filterMap_filterMap]
  refine List.filterMap_congr fun s hs => ?_
  rw [← hwindow s (hincreasing s hs)]
  split
  · rename_i hnil
    rw [hnil, hempty]
    rfl
  · rfl

theorem increasing_window (h : Increasing samples) (lo hi : Int) :
    Increasing (window Sample.t lo hi samples) :=
  h.sublist List.filter_sublist

theorem points_window (lo hi : Int) (samples : List Sample) :
    points (window Sample.t lo hi samples) = window Point.t lo hi (points samples) :=
  points_filter (fun t => decide (lo ≤ t ∧ t ≤ hi)) samples

/-- The series of a call of a function, from the windows of its matrix selector. -/
def callResult (call : List Point → Int → Option ℚ) (out : Labels × List (Int × List Point)) :
    Option Series :=
  let points := out.2.filterMap fun w => (call w.2 w.1).map fun v => ⟨w.1, v⟩
  if points = [] then none else some ⟨dropMetricName out.1, points⟩

theorem evalCall_yields_callResult (hinterval : 0 < ev.interval) {range : Int}
    (hrange : 0 ≤ durationMilliseconds range) (call : List Point → Int → Option ℚ)
    {series : List StorageSeries} (hincreasing : ∀ s ∈ series, Increasing s.samples)
    (hdistinct : (series.map fun s => dropMetricName s.labels).Nodup) :
    Yields (fun maxSamples => evalCall B maxSamples
        ⟨ev.startTimestamp, ev.endTimestamp, ev.interval, durationMilliseconds range,
          durationMilliseconds n.offset, call⟩ series)
      fun mat => mat = (selectMatrix ev n range series).filterMap (callResult call) := by
  refine (evalCall_yields hinterval hrange hincreasing hdistinct).mono ?_
  rintro mat rfl
  unfold selectMatrix
  rw [List.filterMap_filterMap]
  refine List.filterMap_congr fun s _ => ?_
  have hsteps : ev.steps = ticks ev.startTimestamp ev.endTimestamp ev.interval :=
    if_neg hinterval.ne'
  have hpoints : ∀ times : List Int,
      (times.filterMap fun ts =>
        if window Point.t (ts - durationMilliseconds n.offset - durationMilliseconds range)
          (ts - durationMilliseconds n.offset) (points s.samples) = [] then none
        else some (ts, window Point.t
          (ts - durationMilliseconds n.offset - durationMilliseconds range)
          (ts - durationMilliseconds n.offset) (points s.samples))).filterMap
        (fun w => (call w.2 w.1).map fun v => (⟨w.1, v⟩ : Point)) =
      times.filterMap (stepPoint ⟨ev.startTimestamp, ev.endTimestamp, ev.interval,
        durationMilliseconds range, durationMilliseconds n.offset, call⟩ s.samples) := by
    intro times
    rw [List.filterMap_filterMap]
    refine List.filterMap_congr fun ts _ => ?_
    unfold stepPoint stepWindow
    dsimp only
    split <;> rfl
  unfold seriesResult seriesPoints
  dsimp only
  rw [← hpoints, hsteps]
  split
  · rename_i hnil
    split
    · rfl
    · simp [callResult, hnil]
  · rename_i hne
    rw [if_neg]
    · simp [callResult, hne]
    · intro hnil
      rw [hnil] at hne
      exact hne rfl

/-- The samples that a selector may use at a step. -/
def readWindow (ev : Evaluator) : Expr → Int → Option (Int × Int)
  | .vectorSelector n, ts =>
    let refTime := ts - durationMilliseconds n.offset
    some (refTime - durationMilliseconds ev.lookbackDelta, refTime)
  | .matrixSelector n range, ts =>
    let maxt := ts - durationMilliseconds n.offset
    some (maxt - durationMilliseconds range, maxt)
  | _, _ => none

/-- All windows of a selector lie between two times. -/
def ReadsWithin (ev : Evaluator) (lo hi : Int) (expr : Expr) : Prop :=
  ∀ ts ∈ ev.steps, ∀ w ∈ readWindow ev expr ts, lo ≤ w.1 ∧ w.2 ≤ hi

variable {lo hi : Int} {series : List StorageSeries}

theorem selectVector_restrict (hinterval : 0 ≤ ev.interval)
    (hlookback : 0 ≤ durationMilliseconds ev.lookbackDelta)
    (hwithin : ReadsWithin ev lo hi (.vectorSelector n))
    (hincreasing : ∀ s ∈ series, Increasing s.samples) :
    selectVector B ev n (restrict lo hi series) = selectVector B ev n series := by
  have hsteps : ∀ samples, Increasing samples →
      selectSteps B ev n (B.reset (durationMilliseconds ev.lookbackDelta) samples) ev.steps =
        ev.steps.filterMap fun ts => (instantPoint ev n samples ts).map fun p => (ts, p) := by
    intro samples hsamples
    refine selectSteps_eq hsamples hlookback (steps_pairwise hinterval) (B.positioned_reset _ _) ?_
    rintro ts - t₀ ⟨⟩
  refine filterMap_restrict ?_ ?_ hincreasing
  · intro s hs
    dsimp only
    have hsame : ∀ ts ∈ ev.steps, instantPoint ev n (window Sample.t lo hi s.samples) ts =
        instantPoint ev n s.samples ts := by
      intro ts hts
      obtain ⟨hlo, hhi⟩ := hwithin ts hts _ rfl
      unfold instantPoint
      dsimp only
      rw [window_window hlo hhi]
    rw [hsteps _ (increasing_window hs lo hi), hsteps _ hs,
      List.filterMap_congr fun ts hts => by rw [hsame ts hts]]
  · intro labels
    dsimp only
    rw [hsteps [] List.Pairwise.nil]
    simp [instantPoint, window]

theorem selectMatrix_restrict {range : Int}
    (hwithin : ReadsWithin ev lo hi (.matrixSelector n range))
    (hincreasing : ∀ s ∈ series, Increasing s.samples) :
    selectMatrix ev n range (restrict lo hi series) = selectMatrix ev n range series := by
  refine filterMap_restrict ?_ ?_ hincreasing
  · intro s _
    dsimp only
    have hsame : ∀ ts ∈ ev.steps,
        window Point.t (ts - durationMilliseconds n.offset - durationMilliseconds range)
            (ts - durationMilliseconds n.offset) (points (window Sample.t lo hi s.samples)) =
          window Point.t (ts - durationMilliseconds n.offset - durationMilliseconds range)
            (ts - durationMilliseconds n.offset) (points s.samples) := by
      intro ts hts
      obtain ⟨hlo, hhi⟩ := hwithin ts hts _ rfl
      rw [points_window, window_window hlo hhi]
    rw [List.filterMap_congr fun ts hts => by rw [hsame ts hts]]
  · intro labels
    simp [points, window]

end Windows

/-- An evaluator at the end of a path, as far as reading depends on it: its windows for the
node there lie between two times. -/
structure Reads (ev : Evaluator) (lo hi : Int) (inner : Evaluator) (node : Expr) : Prop where
  interval_nonneg : 0 ≤ inner.interval
  lookbackDelta_eq : inner.lookbackDelta = ev.lookbackDelta
  within : ReadsWithin inner lo hi node

/-- All windows that the evaluation of an expression reads lie between two times. -/
def ReadsAllWithin (ev : Evaluator) (lo hi : Int) (path : List Expr) (expr : Expr) : Prop :=
  ∀ visit ∈ walk entersForMinTime path expr, ∀ inner, ev.along visit.2 = some inner →
    Reads ev lo hi inner visit.1

theorem mapM_congr {α β : Type} {f g : α → Option β} {l : List α} (h : ∀ x ∈ l, f x = g x) :
    l.mapM f = l.mapM g := by
  induction l with
  | nil => rfl
  | cons x l ih =>
    obtain ⟨hx, hl⟩ := List.forall_mem_cons.mp h
    rw [List.mapM_cons, List.mapM_cons, hx, ih hl]

section Restrict

variable {V : Type} {B : BufferedSeriesIterator} {ops : Operators V}
  {storage : VectorSelector → List StorageSeries} {ev : Evaluator} {lo hi : Int}

theorem eval_restrict (hlookback : 0 ≤ durationMilliseconds ev.lookbackDelta)
    (hincreasing : ∀ n, ∀ s ∈ storage n, Increasing s.samples) (expr : Expr) :
    ∀ path inner, ev.along path = some inner → ReadsAllWithin ev lo hi path expr →
      eval B ops (fun n => restrict lo hi (storage n)) inner expr =
        eval B ops storage inner expr := by
  induction expr using Expr.childInduction with
  | node expr ih =>
    intro path inner halong hwithin
    have hself : (expr, path) ∈ walk entersForMinTime path expr := by
      rw [walk_eq]
      exact List.mem_cons_self
    obtain ⟨hinterval, hdelta, hreads⟩ := hwithin _ hself inner halong
    by_cases hvector : ∃ n, expr = .vectorSelector n
    · obtain ⟨n, rfl⟩ := hvector
      rw [← hdelta] at hlookback
      simp only [eval, selectVector_restrict hinterval hlookback hreads (hincreasing n)]
    · by_cases hmatrix : ∃ n range, expr = .matrixSelector n range
      · obtain ⟨n, range, rfl⟩ := hmatrix
        simp only [eval, selectMatrix_restrict hreads (hincreasing n)]
      · push Not at hvector hmatrix
        rw [eval_eq_node _ _ _ hvector hmatrix, eval_eq_node _ _ _ hvector hmatrix]
        cases hinside : inner.inside expr with
        | none => rfl
        | some next =>
          have henters : entersForMinTime expr = true := by
            cases expr with
            | matrixSelector n range => exact absurd rfl (hmatrix n range)
            | _ => rfl
          have hnext : ev.along (path ++ [expr]) = some next := by
            rw [Evaluator.along_concat, halong]
            exact hinside
          rw [Option.bind_some, Option.bind_some, mapM_congr]
          intro child hchild
          refine ih child hchild _ next hnext ?_
          intro visit hvisit
          apply hwithin
          rw [walk_eq, if_pos henters]
          exact List.mem_cons_of_mem _ (List.mem_flatMap_of_mem hchild hvisit)

end Restrict

/-- Durations at a node are whole milliseconds and not negative. -/
def nodeWhole : Expr → Prop
  | .vectorSelector n => 0 ≤ n.offset ∧ millisecond ∣ n.offset
  | .matrixSelector n range =>
    0 ≤ n.offset ∧ millisecond ∣ n.offset ∧ 0 ≤ range ∧ millisecond ∣ range
  | .subqueryExpr _ range offset step =>
    0 ≤ offset ∧ millisecond ∣ offset ∧ 0 ≤ range ∧ millisecond ∣ range ∧ 0 ≤ step
  | _ => True

/-- A statement over whole milliseconds, at times whose nanoseconds an `int64` can hold. -/
structure Whole (lookbackDelta defaultEvalInterval : Int) (s : EvalStmt) : Prop where
  lookbackDelta_nonneg : 0 ≤ lookbackDelta
  lookbackDelta_whole : millisecond ∣ lookbackDelta
  defaultEvalInterval_nonneg : 0 ≤ defaultEvalInterval
  interval_nonneg : 0 ≤ s.interval
  start_whole : millisecond ∣ s.start
  stop_whole : millisecond ∣ s.stop
  start_fits : FitsInt64 s.start
  stop_fits : FitsInt64 s.stop
  nodes : ∀ visit ∈ walk entersForMinTime [] s.expr, nodeWhole visit.1

theorem durationMilliseconds_mul_cancel {d : Int} (h : millisecond ∣ d) :
    durationMilliseconds d * millisecond = d :=
  Int.tdiv_mul_cancel h

theorem durationMilliseconds_nonneg {d : Int} (h : 0 ≤ d) : 0 ≤ durationMilliseconds d :=
  Int.tdiv_nonneg h (by decide)

/-- The range and the offset of a subquery, as an exact sum. -/
def subqueryWidth : Expr → Int
  | .subqueryExpr _ range offset _ => range + offset
  | _ => 0

/-- The exact sum that `cumulativeSubqueryOffset` computes with durations. -/
def subquerySpan (path : List Expr) : Int := (path.map subqueryWidth).sum

theorem subquerySpan_concat (path : List Expr) (node : Expr) :
    subquerySpan (path ++ [node]) = subquerySpan path + subqueryWidth node := by
  simp [subquerySpan]

theorem cumulativeSubqueryOffset_eq (path : List Expr) :
    cumulativeSubqueryOffset path = int64 (subquerySpan path) := by
  induction path using List.reverseRecOn with
  | nil => rfl
  | append_singleton path node ih =>
    unfold cumulativeSubqueryOffset at ih ⊢
    rw [List.foldl_concat, ih, subquerySpan_concat]
    cases node with
    | subqueryExpr expr range offset step =>
      exact (int64_int64_add _ _).trans Int.add_bmod_bmod
    | _ => exact congrArg int64 (add_zero _).symm

/-- How far before the start of the query a selector may read. The sum is exact, whereas that of
`findMinTime` is a duration. -/
def span (lookbackDelta : Int) (visit : Visit) : Int :=
  match visit.1 with
  | .vectorSelector n => n.offset + lookbackDelta + subquerySpan visit.2
  | .matrixSelector n range => n.offset + range + subquerySpan visit.2
  | _ => 0

/-- What nesting does to an evaluator. -/
structure Nested (ev : Evaluator) (path : List Expr) (inner : Evaluator) : Prop where
  interval_nonneg : 0 ≤ inner.interval
  lookbackDelta_eq : inner.lookbackDelta = ev.lookbackDelta
  default_eq : inner.defaultEvalInterval = ev.defaultEvalInterval
  start_ge : ev.startTimestamp * millisecond - subquerySpan path ≤
    inner.startTimestamp * millisecond
  end_le : inner.endTimestamp ≤ ev.endTimestamp

theorem le_aligned {interval : Int} (hinterval : 0 < interval) (first : Int) :
    first ≤ if interval * first.tdiv interval < first then interval * first.tdiv interval + interval
      else interval * first.tdiv interval := by
  have hmod := Int.tmod_lt_of_pos first hinterval
  have hdiv := Int.mul_tdiv_add_tmod first interval
  split <;> omega

theorem nested_subquery {ev inner : Evaluator} {expr : Expr} {range offset step : Int}
    (hdefault : 0 ≤ ev.defaultEvalInterval)
    (hwhole : nodeWhole (.subqueryExpr expr range offset step))
    (h : ev.subquery range offset step = some inner) :
    Nested ev [.subqueryExpr expr range offset step] inner := by
  obtain ⟨hoffset, hoffset_whole, -, hrange_whole, hstep⟩ := hwhole
  have hinterval : 0 ≤ if step ≠ 0 then durationMilliseconds step else ev.defaultEvalInterval := by
    split
    · exact durationMilliseconds_nonneg hstep
    · exact hdefault
  have hoffset_ms := durationMilliseconds_mul_cancel hoffset_whole
  have hrange_ms := durationMilliseconds_mul_cancel hrange_whole
  have hoffset_nonneg := durationMilliseconds_nonneg hoffset
  unfold Evaluator.subquery at h
  dsimp only at h
  generalize (if step ≠ 0 then durationMilliseconds step else ev.defaultEvalInterval) = interval
    at h hinterval
  split at h
  · cases h
  · rename_i hne
    have hpos : 0 < interval := by omega
    have hfirst := le_aligned hpos
      (ev.startTimestamp - durationMilliseconds offset - durationMilliseconds range)
    cases h
    refine ⟨hinterval, rfl, rfl, ?_, ?_⟩
    · have hspan : subquerySpan [.subqueryExpr expr range offset step] = range + offset :=
        add_zero _
      rw [hspan]
      dsimp only
      unfold millisecond at *
      omega
    · dsimp only
      omega

theorem nested_inside {ev inner : Evaluator} {node : Expr} (hinterval : 0 ≤ ev.interval)
    (hdefault : 0 ≤ ev.defaultEvalInterval) (hwhole : nodeWhole node)
    (h : ev.inside node = some inner) : Nested ev [node] inner := by
  cases node with
  | subqueryExpr expr range offset step => exact nested_subquery hdefault hwhole h
  | _ =>
    cases h
    exact ⟨hinterval, rfl, rfl, by simp [subquerySpan, subqueryWidth], le_rfl⟩

theorem nested_along {ev : Evaluator} (hinterval : 0 ≤ ev.interval)
    (hdefault : 0 ≤ ev.defaultEvalInterval) {path : List Expr}
    (hwhole : ∀ node ∈ path, nodeWhole node) {inner : Evaluator}
    (h : ev.along path = some inner) : Nested ev path inner := by
  induction path using List.reverseRecOn generalizing inner with
  | nil =>
    cases h
    exact ⟨hinterval, rfl, rfl, by simp [subquerySpan], le_rfl⟩
  | append_singleton path node ih =>
    rw [Evaluator.along_concat, Option.bind_eq_some_iff] at h
    obtain ⟨outer, houter, hinside⟩ := h
    have hnested := ih (fun node hnode => hwhole node (List.mem_append_left _ hnode)) houter
    have hstep := nested_inside hnested.interval_nonneg (hnested.default_eq ▸ hdefault)
      (hwhole node (by simp)) hinside
    refine ⟨hstep.interval_nonneg, hstep.lookbackDelta_eq.trans hnested.lookbackDelta_eq,
      hstep.default_eq.trans hnested.default_eq, ?_, hstep.end_le.trans hnested.end_le⟩
    have houter_ge := hnested.start_ge
    have hinner_ge := hstep.start_ge
    have hspan : subquerySpan [node] = subqueryWidth node := add_zero _
    rw [subquerySpan_concat]
    omega

section Statement

variable {lookbackDelta defaultEvalInterval : Int} {s : EvalStmt}

theorem Whole.evaluator (h : Whole lookbackDelta defaultEvalInterval s) :
    0 ≤ (stmtEvaluator lookbackDelta defaultEvalInterval s).interval ∧
      (stmtEvaluator lookbackDelta defaultEvalInterval s).defaultEvalInterval =
        defaultEvalInterval ∧
      (stmtEvaluator lookbackDelta defaultEvalInterval s).lookbackDelta = lookbackDelta ∧
      (stmtEvaluator lookbackDelta defaultEvalInterval s).startTimestamp * millisecond = s.start ∧
      (stmtEvaluator lookbackDelta defaultEvalInterval s).endTimestamp * millisecond = s.stop := by
  have hstart : timeMilliseconds s.start * millisecond = s.start :=
    Int.tdiv_mul_cancel h.start_whole
  have hstop : timeMilliseconds s.stop * millisecond = s.stop := Int.tdiv_mul_cancel h.stop_whole
  unfold stmtEvaluator
  split
  · rename_i hinstant
    exact ⟨Int.one_nonneg, rfl, rfl, hstart, hstart.trans hinstant.1⟩
  · exact ⟨durationMilliseconds_nonneg h.interval_nonneg, rfl, rfl, hstart, hstop⟩

theorem Whole.nodeWhole_ancestor (h : Whole lookbackDelta defaultEvalInterval s) {visit : Visit}
    (hvisit : visit ∈ walk entersForMinTime [] s.expr) {node : Expr} (hnode : node ∈ visit.2) :
    nodeWhole node := by
  rcases ancestor_mem_walk hvisit hnode with hnil | ⟨p, hp⟩
  · exact absurd hnil List.not_mem_nil
  · exact h.nodes _ hp

theorem Whole.nested (h : Whole lookbackDelta defaultEvalInterval s) {visit : Visit}
    (hvisit : visit ∈ walk entersForMinTime [] s.expr) {inner : Evaluator}
    (halong : (stmtEvaluator lookbackDelta defaultEvalInterval s).along visit.2 = some inner) :
    Nested (stmtEvaluator lookbackDelta defaultEvalInterval s) visit.2 inner := by
  obtain ⟨hinterval, hdefault, -⟩ := h.evaluator
  refine nested_along hinterval ?_ ?_ halong
  · rw [hdefault]
    exact h.defaultEvalInterval_nonneg
  · intro node hnode
    exact h.nodeWhole_ancestor hvisit hnode

theorem subqueryWidth_nonneg {node : Expr} (h : nodeWhole node) : 0 ≤ subqueryWidth node := by
  cases node with
  | subqueryExpr expr range offset step =>
    obtain ⟨hoffset, -, hrange, -⟩ := h
    exact add_nonneg hrange hoffset
  | _ => exact le_rfl

theorem subquerySpan_nonneg {path : List Expr} (h : ∀ node ∈ path, nodeWhole node) :
    0 ≤ subquerySpan path := by
  induction path with
  | nil => exact le_rfl
  | cons node path ih =>
    obtain ⟨hnode, hpath⟩ := List.forall_mem_cons.mp h
    exact add_nonneg (subqueryWidth_nonneg hnode) (ih hpath)

theorem span_le_reach {visit : Visit} (hnonneg : 0 ≤ span lookbackDelta visit)
    (hfits : span lookbackDelta visit < 2 ^ 63) :
    span lookbackDelta visit ≤ reach lookbackDelta visit := by
  have hexact : int64 (span lookbackDelta visit) = span lookbackDelta visit :=
    int64_of_fits ⟨by omega, hfits⟩
  have hsum : ∀ d, int64 (d + cumulativeSubqueryOffset visit.2) =
      int64 (d + subquerySpan visit.2) := by
    intro d
    rw [cumulativeSubqueryOffset_eq]
    exact Int.add_bmod_bmod
  obtain ⟨node, path⟩ := visit
  cases node with
  | vectorSelector n | matrixSelector n range =>
    unfold reach durationReach
    simp only [hsum]
    exact hexact.symm.trans_le (le_max_right _ _)
  | _ => exact le_rfl

theorem reach_lt (lookbackDelta : Int) (visit : Visit) : reach lookbackDelta visit < 2 ^ 63 := by
  obtain ⟨node, path⟩ := visit
  cases node with
  | vectorSelector n | matrixSelector n range =>
    exact max_lt (fitsInt64_int64 _).2 (fitsInt64_int64 _).2
  | _ => simp [reach]

theorem findMinTime_le {visit : Visit} (hvisit : visit ∈ walk entersForMinTime [] s.expr) :
    findMinTime lookbackDelta s ≤ s.start - reach lookbackDelta visit := by
  have hbound := (foldl_visitMinTime lookbackDelta (walk entersForMinTime [] s.expr)
    (le_refl (0 : Int))).2
  have hreach := ((hbound _).mp le_rfl).2 visit hvisit
  unfold findMinTime
  omega

theorem lt_findMinTime : s.start - 2 ^ 63 < findMinTime lookbackDelta s := by
  have hbound := (foldl_visitMinTime lookbackDelta (walk entersForMinTime [] s.expr)
    (le_refl (0 : Int))).2 (2 ^ 63 - 1)
  have hlargest := hbound.mpr ⟨by decide, fun visit _ =>
    Int.le_sub_one_of_lt (reach_lt lookbackDelta visit)⟩
  unfold findMinTime
  omega

theorem Whole.span_nonneg (h : Whole lookbackDelta defaultEvalInterval s) {visit : Visit}
    (hvisit : visit ∈ walk entersForMinTime [] s.expr) : 0 ≤ span lookbackDelta visit := by
  have hpath := subquerySpan_nonneg fun node hnode => h.nodeWhole_ancestor hvisit hnode
  have hlookback := h.lookbackDelta_nonneg
  have hwhole := h.nodes visit hvisit
  obtain ⟨node, path⟩ := visit
  cases node with
  | vectorSelector n =>
    obtain ⟨hoffset, -⟩ := hwhole
    exact add_nonneg (add_nonneg hoffset hlookback) hpath
  | matrixSelector n range =>
    obtain ⟨hoffset, -, hrange, -⟩ := hwhole
    exact add_nonneg (add_nonneg hoffset hrange) hpath
  | _ => exact le_rfl

theorem Whole.findMinTime_le_span (h : Whole lookbackDelta defaultEvalInterval s) {visit : Visit}
    (hvisit : visit ∈ walk entersForMinTime [] s.expr)
    (hfits : span lookbackDelta visit < 2 ^ 63) :
    findMinTime lookbackDelta s ≤ s.start - span lookbackDelta visit := by
  have hreach := span_le_reach (h.span_nonneg hvisit) hfits
  have hmin : findMinTime lookbackDelta s ≤ s.start - reach lookbackDelta visit :=
    findMinTime_le hvisit
  omega

/-- The windows of a selector, in nanoseconds: the first one begins as far back as the evaluator
at the end of its path does, the last one ends by the end of the query. -/
theorem Whole.window_bounds (h : Whole lookbackDelta defaultEvalInterval s) {visit : Visit}
    (hvisit : visit ∈ walk entersForMinTime [] s.expr) {inner : Evaluator}
    (halong : (stmtEvaluator lookbackDelta defaultEvalInterval s).along visit.2 = some inner)
    {ts : Int} (hts : ts ∈ inner.steps) {w : Int × Int} (hw : w ∈ readWindow inner visit.1 ts) :
    w.1 * millisecond =
        ts * millisecond - (span lookbackDelta visit - subquerySpan visit.2) ∧
      w.1 ≤ w.2 ∧ s.start - span lookbackDelta visit ≤ w.1 * millisecond ∧
      w.2 * millisecond ≤ s.stop := by
  obtain ⟨-, -, hlookback, hstart, hstop⟩ := h.evaluator
  have hnested := h.nested hvisit halong
  obtain ⟨hfirst, hlast⟩ := mem_steps hnested.interval_nonneg hts
  have hwhole := h.nodes visit hvisit
  have hstart_ge := hnested.start_ge
  have hend_le := hnested.end_le
  obtain ⟨node, path⟩ := visit
  dsimp only at hstart_ge
  cases node with
  | vectorSelector n =>
    obtain ⟨hoffset, hoffset_whole⟩ := hwhole
    have hoffset_ms := durationMilliseconds_mul_cancel hoffset_whole
    have hlookback_ms := durationMilliseconds_mul_cancel h.lookbackDelta_whole
    have hoffset_nonneg := durationMilliseconds_nonneg hoffset
    have hlookback_nonneg := durationMilliseconds_nonneg h.lookbackDelta_nonneg
    cases hw
    rw [hnested.lookbackDelta_eq, hlookback]
    simp only [span]
    unfold millisecond at *
    omega
  | matrixSelector n range =>
    obtain ⟨hoffset, hoffset_whole, hrange, hrange_whole⟩ := hwhole
    have hoffset_ms := durationMilliseconds_mul_cancel hoffset_whole
    have hrange_ms := durationMilliseconds_mul_cancel hrange_whole
    have hoffset_nonneg := durationMilliseconds_nonneg hoffset
    have hrange_nonneg := durationMilliseconds_nonneg hrange
    cases hw
    simp only [span]
    unfold millisecond at *
    omega
  | _ => cases hw

/-- Every time in a window of a selector lies in the interval of the querier. -/
def Covered (lookbackDelta defaultEvalInterval : Int) (s : EvalStmt) (visit : Visit) : Prop :=
  ∀ inner, (stmtEvaluator lookbackDelta defaultEvalInterval s).along visit.2 = some inner →
    ∀ ts ∈ inner.steps, ∀ w ∈ readWindow inner visit.1 ts, ∀ t, w.1 ≤ t → t ≤ w.2 →
      findMinTime lookbackDelta s ≤ t * millisecond ∧ t * millisecond ≤ s.stop

/-- No sum of a lookback or range, an offset and the ranges and offsets of the subqueries around
is too large for a duration. -/
def SpansFit (lookbackDelta : Int) (s : EvalStmt) : Prop :=
  ∀ visit ∈ walk entersForMinTime [] s.expr, span lookbackDelta visit < 2 ^ 63

theorem Whole.spansFit_iff (h : Whole lookbackDelta defaultEvalInterval s) :
    SpansFit lookbackDelta s ↔ ∀ visit ∈ walk entersForMinTime [] s.expr,
      findMinTime lookbackDelta s ≤ s.start - span lookbackDelta visit := by
  constructor
  · intro hfits visit hvisit
    exact h.findMinTime_le_span hvisit (hfits visit hvisit)
  · intro hreaches visit hvisit
    have hle := hreaches visit hvisit
    have hlt : s.start - 2 ^ 63 < findMinTime lookbackDelta s := lt_findMinTime
    omega

theorem Whole.covered (h : Whole lookbackDelta defaultEvalInterval s)
    (hfits : SpansFit lookbackDelta s) {visit : Visit}
    (hvisit : visit ∈ walk entersForMinTime [] s.expr) :
    Covered lookbackDelta defaultEvalInterval s visit := by
  have hms : 0 ≤ millisecond := by decide
  intro inner halong ts hts w hw t hlo hhi
  obtain ⟨-, -, hmin, hmax⟩ := h.window_bounds hvisit halong hts hw
  have hspan := h.findMinTime_le_span hvisit (hfits visit hvisit)
  exact ⟨(hspan.trans hmin).trans (mul_le_mul_of_nonneg_right hlo hms),
    (mul_le_mul_of_nonneg_right hhi hms).trans hmax⟩

theorem Whole.span_lt_of_covered (h : Whole lookbackDelta defaultEvalInterval s) {visit : Visit}
    (hvisit : visit ∈ walk entersForMinTime [] s.expr) {inner : Evaluator}
    (halong : (stmtEvaluator lookbackDelta defaultEvalInterval s).along visit.2 = some inner)
    (hstep : inner.startTimestamp ∈ inner.steps)
    (hfirst : inner.startTimestamp * millisecond = s.start - subquerySpan visit.2)
    (hcovered : Covered lookbackDelta defaultEvalInterval s visit) :
    span lookbackDelta visit < 2 ^ 63 := by
  have hlt : s.start - 2 ^ 63 < findMinTime lookbackDelta s := lt_findMinTime
  cases hread : readWindow inner visit.1 inner.startTimestamp with
  | none =>
    obtain ⟨node, path⟩ := visit
    cases node with
    | vectorSelector n | matrixSelector n range => cases hread
    | _ => simp [span]
  | some w =>
    obtain ⟨hbegin, hle, -, -⟩ := h.window_bounds hvisit halong hstep hread
    have hmin := (hcovered inner halong _ hstep w hread w.1 le_rfl hle).1
    omega

end Statement

/-- The instant query `max_over_time(rate(cpu[1m] offset 2m)[10m:30s] offset 5m)`, at a time
that is no multiple of the step. -/
def nestedStmt : EvalStmt :=
  ⟨.call ⟨"max_over_time", .vector⟩
      [.subqueryExpr (.call ⟨"rate", .vector⟩
          [.matrixSelector (metricSelector "cpu" 120000000000) 60000000000])
        600000000000 300000000000 30000000000],
    1600000007000000000, 1600000007000000000, 0⟩

def hundredYears : Int := 100 * 365 * 24 * 3600 * 1000000000

/-- The expression `max_over_time(...[100y:1y])` over another one. -/
def centuries (expr : Expr) : Expr :=
  .call ⟨"max_over_time", .vector⟩ [.subqueryExpr expr hundredYears 0 (hundredYears / 100)]

/-- The instant query `max_over_time(max_over_time(max_over_time(foo[100y:1y])[100y:1y])[100y:1y])`.
Its ranges add up to more than 292 years. -/
def wrappedStmt : EvalStmt :=
  ⟨centuries (centuries (centuries (.vectorSelector (metricSelector "foo" 0)))),
    1600000007000000000, 1600000007000000000, 0⟩

end TimescalePrometheus.Promql.ReadRange
