import TimescalePrometheus.Lib.GoTime
import TimescalePrometheus.Promql.Syntax
import TimescalePrometheus.Query.ReadPaths

/-!
The preparation of a query: the earliest time it reads, the hints that each selector
gives to the storage, and the clauses into which the storage turns them.
-/

namespace TimescalePrometheus.Promql.Selection

open Lib.GoTime (int64)
open Query.SubQueries Query.ReadPaths Promql.Syntax

/-- A parsed query; times and durations are in nanoseconds. -/
structure EvalStmt where
  expr : Expr
  start : Int
  stop : Int
  /-- Zero for an instant query. -/
  interval : Int

/-- The sum of range and offset of all subqueries in the path, as durations add up. -/
def cumulativeSubqueryOffset (path : List Expr) : Int :=
  path.foldl (fun subqOffset node =>
    match node with
    | .subqueryExpr _ range offset _ => int64 (subqOffset + int64 (range + offset))
    | _ => subqOffset) 0

/-- How far back a selector of the given width, which is the lookback or a range, moves the
largest offset. The sums are durations. -/
def raiseMaxOffset (maxOffset width offset subqOffset : Int) : Int :=
  let maxOffset :=
    if maxOffset < int64 (width + subqOffset) then int64 (width + subqOffset) else maxOffset
  if int64 (int64 (offset + width) + subqOffset) > maxOffset then
    int64 (int64 (offset + width) + subqOffset)
  else maxOffset

def visitMinTime (lookbackDelta maxOffset : Int) (visit : Visit) : Int :=
  let subqOffset := cumulativeSubqueryOffset visit.2
  match visit.1 with
  | .vectorSelector n => raiseMaxOffset maxOffset lookbackDelta n.offset subqOffset
  | .matrixSelector n range => raiseMaxOffset maxOffset range n.offset subqOffset
  | _ => maxOffset

/-- The visitor of `findMinTime` does not go from a matrix selector to the vector selector
in it. -/
def entersForMinTime : Expr → Bool
  | .matrixSelector _ _ => false
  | _ => true

/-- `findMinTime`. -/
def findMinTime (lookbackDelta : Int) (s : EvalStmt) : Int :=
  s.start - (walk entersForMinTime [] s.expr).foldl (visitMinTime lookbackDelta) 0

/-- `storage.SelectHints`. -/
structure SelectHints where
  start : Int
  stop : Int
  step : Int
  func : String
  grouping : List String
  by_ : Bool
  range : Int
  deriving DecidableEq

/-- The nearest function or aggregation above a selector, unless a binary expression is
nearer. The path is given with the direct parent first. -/
def extractFuncFromReversed : List Expr → String
  | [] => ""
  | .aggregateExpr op _ _ _ _ :: _ => op
  | .call func _ :: _ => func.name
  | .binaryExpr _ _ _ :: _ => ""
  | _ :: rest => extractFuncFromReversed rest

def extractFuncFromPath (path : List Expr) : String :=
  extractFuncFromReversed path.reverse

def extractGroupsFromPath (path : List Expr) : Bool × List String :=
  match path.getLast? with
  | some (.aggregateExpr _ _ _ grouping without) => (!without, grouping)
  | _ => (false, [])

/-- The hints for a selector. -/
def selectHints (lookbackDelta : Int) (s : EvalStmt) (evalRange : Int)
    (n : VectorSelector) (path : List Expr) : SelectHints :=
  let start := fromTime s.start - durationMilliseconds (cumulativeSubqueryOffset path)
  let (start, range) :=
    if evalRange = 0 then (start - durationMilliseconds lookbackDelta, 0)
    else (start - durationMilliseconds evalRange, durationMilliseconds evalRange)
  let (start, stop) :=
    if n.offset > 0 then
      (start - durationMilliseconds n.offset, fromTime s.stop - durationMilliseconds n.offset)
    else (start, fromTime s.stop)
  { start, stop, step := durationMilliseconds s.interval, range,
    func := extractFuncFromPath path, by_ := (extractGroupsFromPath path).1,
    grouping := (extractGroupsFromPath path).2 }

/-- `Select` of a querier: a series set and the topmost node the storage has processed, if
any, or an error. -/
abbrev Select (σ : Type) :=
  SelectHints → List Expr → List Matcher → Except String (σ × Option Expr)

/-- A vector selector whose series set has been asked for. -/
structure Selected (σ : Type) where
  selector : VectorSelector
  path : List Expr
  hints : SelectHints
  unexpandedSeriesSet : σ

/-- The variables of `populateSeries`. The walk stops at the first error that the visitor
returns. -/
structure Populating (σ : Type) where
  evalRange : Int := 0
  topNode : Option Expr := none
  err : Option String := none
  stopped : Bool := false
  selected : List (Selected σ) := []

variable {σ : Type}

/-- One node of `Inspect`. -/
def visitSeries (lookbackDelta : Int) (s : EvalStmt) (select : Select σ)
    (st : Populating σ) (visit : Visit) : Populating σ :=
  if st.stopped then st
  else
    match visit.1 with
    | .vectorSelector n =>
      let hints := selectHints lookbackDelta s st.evalRange n visit.2
      -- the error about a second top node stops the walk and is not kept
      if st.topNode.isSome then { st with evalRange := 0, stopped := true }
      else
        match select hints visit.2 n.labelMatchers with
        | .error err => { st with evalRange := 0, err := some err, stopped := true }
        | .ok (set, topNode) =>
          { st with
            evalRange := 0, topNode,
            selected := st.selected ++ [⟨n, visit.2, hints, set⟩] }
    | .matrixSelector _ range => { st with evalRange := range }
    | _ => st

theorem visitSeries_ok {lookbackDelta : Int} {s : EvalStmt} {select : Select σ}
    {st : Populating σ} (hrunning : st.stopped = false) (htop : st.topNode = none)
    {n : VectorSelector} {path : List Expr} {set : σ} {topNode : Option Expr}
    (h : select (selectHints lookbackDelta s st.evalRange n path) path n.labelMatchers =
      .ok (set, topNode)) :
    visitSeries lookbackDelta s select st (.vectorSelector n, path) =
      { st with
        evalRange := 0, topNode
        selected := st.selected ++
          [⟨n, path, selectHints lookbackDelta s st.evalRange n path, set⟩] } := by
  simp [visitSeries, hrunning, htop, h]

/-- `populateSeries`. -/
def populateSeries (lookbackDelta : Int) (s : EvalStmt) (select : Select σ) :
    Populating σ :=
  (walk (fun _ => true) [] s.expr).foldl (visitSeries lookbackDelta s select) {}

/-- With a storage that may answer every call in its own way: `storage k` answers the call
that comes after `k` others. -/
def populateSeriesFrom (lookbackDelta : Int) (s : EvalStmt) (storage : Nat → Select σ) :
    Populating σ :=
  (walk (fun _ => true) [] s.expr).foldl
    (fun st visit => visitSeries lookbackDelta s (storage st.selected.length) st visit) {}

theorem populateSeriesFrom_const (lookbackDelta : Int) (s : EvalStmt) (select : Select σ) :
    populateSeriesFrom lookbackDelta s (fun _ => select) =
      populateSeries lookbackDelta s select :=
  rfl

/-- The times of a result row. The parameters are in milliseconds. -/
inductive TimeClause where
  | arrayAgg
  | generateSeries (start stop step : Int)
  deriving DecidableEq

/-- The values of a result row. The parameters are in milliseconds. -/
inductive ValueClause where
  | arrayAgg
  | promDelta (lowestTime greatestTime stepSize range : Int)
  deriving DecidableEq

/-- The clauses of the `SELECT`. -/
structure QueryFinalizer where
  timeClause : TimeClause
  valueClause : ValueClause
  deriving DecidableEq

/-- A subquery is on the path. -/
def hasSubquery (path : List Expr) : Bool :=
  path.any fun node =>
    match node with
    | .subqueryExpr _ _ _ _ => true
    | _ => false

def QueryFinalizer.plain : QueryFinalizer := ⟨.arrayAgg, .arrayAgg⟩

/-- The clauses for a call of delta. The source panics if an instant query has more than
one instant. -/
def deltaFinalizer (hints : SelectHints) : Except String QueryFinalizer :=
  let queryStart := hints.start + hints.range
  let queryEnd := hints.stop
  if hints.step > 0 then
    .ok ⟨.generateSeries queryStart queryEnd hints.step,
      .promDelta hints.start queryEnd hints.step hints.range⟩
  else if queryStart ≠ queryEnd then .error "query start should equal query end"
  else
    .ok ⟨.generateSeries queryStart queryEnd 1000,
      .promDelta hints.start queryEnd 1000 hints.range⟩

/-- The clauses, and the topmost node that they process. -/
def getQueryFinalizer (extensionIsInstalled : Bool) (hints : Option SelectHints)
    (path : List Expr) : Except String (QueryFinalizer × Option Expr) :=
  match hints, path.dropLast.getLast? with
  | some hints, some (.call func args) =>
    if extensionIsInstalled ∧ 2 ≤ path.length ∧ ¬hasSubquery path ∧ func.name = "delta" then
      (deltaFinalizer hints).map fun qf => (qf, some (.call func args))
    else .ok (.plain, none)
  | _, _ => .ok (.plain, none)

/-- The time filter of the query that a querier for `mint` to `maxt` sends. -/
def timeFilter (metric : String) (mint maxt : Int) : MetricTimeRangeFilter :=
  { metric, startTime := toRFC3339Nano mint, endTime := toRFC3339Nano maxt }

/-- The filter under which every selector of a statement reads. -/
def stmtFilter (lookbackDelta : Int) (s : EvalStmt) (metric : String) :
    MetricTimeRangeFilter :=
  timeFilter metric (fromTime (findMinTime lookbackDelta s)) (fromTime s.stop)

end TimescalePrometheus.Promql.Selection
