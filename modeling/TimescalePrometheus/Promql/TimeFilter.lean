import TimescalePrometheus.Promql.Gapfill
import TimescalePrometheus.Promql.Selection

/-!
The rows that a pushed-down query feeds to the aggregate.
-/

namespace TimescalePrometheus.Promql.TimeFilter

open Lib.GoTime Query.ReadPaths Promql.Syntax Promql.Selection Promql.Gapfill

/-- The range of the matrix selector around a vector selector, zero if there is none. -/
def rangeOf (path : List Expr) : Int :=
  match path.getLast? with
  | some (.matrixSelector _ range) => range
  | _ => 0

/-- The vector selectors of an expression in the order of the walk, each with its path. -/
def selectors (path : List Expr) (expr : Expr) : List (VectorSelector × List Expr) :=
  (walk (fun _ => true) path expr).filterMap fun visit =>
    match visit.1 with
    | .vectorSelector n => some (n, visit.2)
    | _ => none

theorem mem_walk_of_mem_selectors {path : List Expr} {expr : Expr} {n : VectorSelector}
    {path' : List Expr} (h : (n, path') ∈ selectors path expr) :
    (Expr.vectorSelector n, path') ∈ walk (fun _ => true) path expr := by
  obtain ⟨⟨node, path''⟩, hvisit, hnode⟩ := List.mem_filterMap.mp h
  cases node with
  | vectorSelector n' =>
    simp only [Option.some.injEq, Prod.mk.injEq] at hnode
    rw [← hnode.1, ← hnode.2]
    exact hvisit
  | _ => simp at hnode

theorem selectors_eq_flatMap {expr : Expr} (h : ∀ n, expr ≠ .vectorSelector n)
    (path : List Expr) :
    selectors path expr = expr.children.flatMap (selectors (path ++ [expr])) := by
  unfold selectors
  rw [walk_eq, if_pos rfl, List.filterMap_cons_none, List.filterMap_flatMap]
  cases expr with
  | vectorSelector n => exact absurd rfl (h n)
  | _ => rfl

section Selected

variable {σ : Type} (lookbackDelta : Int) (s : EvalStmt) (storage : Nat → Select σ)

/-- The visit of a selector that is given its own range. -/
def selectOwn (st : Populating σ) (call : VectorSelector × List Expr) : Populating σ :=
  if st.stopped then st
  else visitSeries lookbackDelta s (storage st.selected.length)
    { st with evalRange := rangeOf call.2 } (.vectorSelector call.1, call.2)

/-- Between two subtrees no range is left for a selector to come. -/
def Idle (st : Populating σ) : Prop := st.stopped = true ∨ st.evalRange = 0

/-- The walk over the expression calls `Select` for its selectors, each with its own range. -/
def SelectsOwn (expr : Expr) : Prop :=
  ∀ (path : List Expr) (st : Populating σ), rangeOf path = 0 → Idle st →
    (walk (fun _ => true) path expr).foldl
        (fun st visit => visitSeries lookbackDelta s (storage st.selected.length) st visit) st =
      (selectors path expr).foldl (selectOwn lookbackDelta s storage) st ∧
    Idle ((selectors path expr).foldl (selectOwn lookbackDelta s storage) st)

variable {lookbackDelta s storage}

theorem idle_selectOwn (st : Populating σ) (call : VectorSelector × List Expr) :
    Idle (selectOwn lookbackDelta s storage st call) := by
  unfold selectOwn
  split
  · exact .inl ‹_›
  · unfold visitSeries
    split
    · exact .inl ‹_›
    · dsimp only
      split
      · exact .inl rfl
      · split
        · exact .inl rfl
        · exact .inr rfl

theorem visitSeries_eq_selectOwn {st : Populating σ} {n : VectorSelector} {path : List Expr}
    (h : st.stopped = true ∨ st.evalRange = rangeOf path) :
    visitSeries lookbackDelta s (storage st.selected.length) st (.vectorSelector n, path) =
      selectOwn lookbackDelta s storage st (n, path) := by
  unfold selectOwn
  split
  · simp [visitSeries, *]
  · rw [← h.resolve_left ‹_›]

theorem selectsOwn_of_children {expr : Expr} (hselector : ∀ n, expr ≠ .vectorSelector n)
    (hskip : ∀ (st : Populating σ) select path,
      visitSeries lookbackDelta s select st (expr, path) = st)
    (hrange : ∀ path, rangeOf (path ++ [expr]) = 0)
    (ih : ∀ child ∈ expr.children, SelectsOwn lookbackDelta s storage child) :
    SelectsOwn lookbackDelta s storage expr := by
  intro path st _ hst
  rw [walk_eq, if_pos rfl, List.foldl_cons, hskip, selectors_eq_flatMap hselector]
  generalize expr.children = children at ih
  induction children generalizing st with
  | nil => exact ⟨rfl, hst⟩
  | cons child children ihc =>
    rw [List.flatMap_cons, List.flatMap_cons, List.foldl_append, List.foldl_append]
    obtain ⟨hchild, hidle⟩ := ih child List.mem_cons_self _ st (hrange path) hst
    rw [hchild]
    exact ihc _ hidle fun c hc => ih c (List.mem_cons_of_mem _ hc)

theorem selectsOwn (expr : Expr) : SelectsOwn lookbackDelta s storage expr := by
  induction expr using Expr.childInduction with
  | node expr ih =>
    cases expr with
    | vectorSelector n =>
      intro path st hpath hst
      exact ⟨visitSeries_eq_selectOwn (hpath ▸ hst), idle_selectOwn st (n, path)⟩
    | matrixSelector n range =>
      intro path st hpath hst
      refine ⟨?_, idle_selectOwn st _⟩
      -- the range set here is the one that the selector inside takes
      by_cases hstopped : st.stopped = true
      · simp [walk, selectors, visitSeries, selectOwn, hstopped]
      · simp [walk, selectors, visitSeries, selectOwn, hstopped, rangeOf]
    | _ =>
      refine selectsOwn_of_children (by simp) ?_ ?_ ih
      · intro st select path
        exact ite_self _
      · intro path
        simp [rangeOf]

theorem populateSeriesFrom_eq : populateSeriesFrom lookbackDelta s storage =
    (selectors [] s.expr).foldl (selectOwn lookbackDelta s storage) {} :=
  (selectsOwn s.expr [] {} rfl (.inr rfl)).1

/-- Every selection so far was for a visited selector, with its own hints. -/
def Own (lookbackDelta : Int) (s : EvalStmt) (visits : List Visit) (st : Populating σ) : Prop :=
  ∀ call ∈ st.selected, (Expr.vectorSelector call.selector, call.path) ∈ visits ∧
    call.hints = selectHints lookbackDelta s (rangeOf call.path) call.selector call.path

theorem own_selectOwn {visits : List Visit} {st : Populating σ} {n : VectorSelector}
    {path : List Expr} (hown : Own lookbackDelta s visits st)
    (hvisit : (Expr.vectorSelector n, path) ∈ visits) :
    Own lookbackDelta s visits (selectOwn lookbackDelta s storage st (n, path)) := by
  unfold selectOwn
  split
  · exact hown
  · unfold visitSeries
    split
    · exact hown
    · dsimp only
      split
      · exact hown
      · split
        · exact hown
        · exact List.forall_mem_append.mpr ⟨hown, List.forall_mem_singleton.mpr ⟨hvisit, rfl⟩⟩

theorem own_populateSeries {select : Select σ} :
    Own lookbackDelta s (walk (fun _ => true) [] s.expr)
      (populateSeries lookbackDelta s select) := by
  rw [← populateSeriesFrom_const, populateSeriesFrom_eq]
  refine List.foldlRecOn (motive := Own lookbackDelta s _) _ _ (List.forall_mem_nil _) ?_
  rintro st hown ⟨n, path⟩ hcall
  exact own_selectOwn hown (mem_walk_of_mem_selectors hcall)

end Selected

/-- What the parser has checked at a node, as far as it matters here. No function returns
a range vector. -/
def nodeChecked : Expr → Bool
  | .call func args =>
    func.returnType ≠ .matrix ∧ (func.name = "delta" → args.map Expr.type = [.matrix])
  | .matrixSelector _ range => 0 < range ∧ range < 2 ^ 63
  | _ => true

/-- A statement as the query endpoints build it: a parsed expression, and times whose
nanoseconds an `int64` can hold. -/
structure Valid (s : EvalStmt) : Prop where
  checked : (walk (fun _ => true) [] s.expr).all (fun visit => nodeChecked visit.1) = true
  start_le_stop : s.start ≤ s.stop
  start_ge : -2 ^ 63 ≤ s.start
  stop_lt : s.stop < 2 ^ 63

theorem Valid.nodeChecked_ancestor {s : EvalStmt} (h : Valid s) {visit : Visit}
    (hvisit : visit ∈ walk (fun _ => true) [] s.expr) (node : Expr) (hnode : node ∈ visit.2) :
    nodeChecked node = true := by
  rcases ancestor_mem_walk hvisit hnode with hnil | ⟨p, hp⟩
  · exact absurd hnil List.not_mem_nil
  · exact List.all_eq_true.mp h.checked _ hp

theorem eq_matrixSelector {parent : Expr} {n : VectorSelector}
    (hchild : Expr.vectorSelector n ∈ parent.children) (htype : parent.type = .matrix)
    (hchecked : nodeChecked parent = true)
    (hsub : ∀ expr range offset step, parent ≠ .subqueryExpr expr range offset step) :
    ∃ range, parent = .matrixSelector n range := by
  cases parent with
  | matrixSelector selector range =>
    simp only [Expr.children, List.mem_singleton, Expr.vectorSelector.injEq] at hchild
    exact ⟨range, by rw [hchild]⟩
  | subqueryExpr expr range offset step => exact absurd rfl (hsub expr range offset step)
  | call func args =>
    simp only [nodeChecked, decide_eq_true_eq] at hchecked
    exact absurd htype hchecked.1
  | binaryExpr op lhs rhs =>
    simp only [Expr.type] at htype
    split at htype <;> cases htype
  | parenExpr expr =>
    rw [← List.mem_singleton.mp hchild] at htype
    cases htype
  | unaryExpr op expr =>
    rw [← List.mem_singleton.mp hchild] at htype
    cases htype
  | _ => cases htype

/-- The path of a selector that `getQueryFinalizer` turns into a call of `prom_delta`. -/
structure DeltaPath (path : List Expr) : Prop where
  noSubquery : hasSubquery path = false
  range_pos : 0 < rangeOf path
  range_lt : rangeOf path < 2 ^ 63

theorem deltaPath_of_call {s : EvalStmt} (h : Valid s) {n : VectorSelector} {path : List Expr}
    (hvisit : (Expr.vectorSelector n, path) ∈ walk (fun _ => true) [] s.expr) {func : Func}
    {args : List Expr} (hcall : path.dropLast.getLast? = some (.call func args))
    (hdelta : func.name = "delta") (hsub : hasSubquery path = false) : DeltaPath path := by
  obtain ⟨init, hinit⟩ := List.getLast?_eq_some_iff.mp hcall
  have hne : path ≠ [] := by
    rintro rfl
    simp at hcall
  have hsplit : path = init ++ [.call func args] ++ [path.getLast hne] := by
    rw [← hinit, List.dropLast_append_getLast]
  generalize path.getLast hne = parent at hsplit
  subst hsplit
  have hpath : IsPath (init ++ [.call func args] ++ [parent] ++ [.vectorSelector n]) :=
    isPath_of_mem_walk hvisit (List.isChain_singleton _)
  have hchild : Expr.vectorSelector n ∈ parent.children := by
    have := (List.isChain_append.mp hpath).2.2
    simpa using this
  have harg : parent ∈ args := by
    have := (List.isChain_append.mp hpath.left_of_append).2.2
    simpa [Expr.children] using this
  have hcallChecked := h.nodeChecked_ancestor hvisit (.call func args) (by simp)
  have hparentChecked := h.nodeChecked_ancestor hvisit parent (by simp)
  simp only [nodeChecked, decide_eq_true_eq] at hcallChecked
  have htype : parent.type = .matrix := by
    have := List.mem_map_of_mem (f := Expr.type) harg
    rw [hcallChecked.2 hdelta] at this
    exact List.mem_singleton.mp this
  obtain ⟨range, rfl⟩ := eq_matrixSelector hchild htype hparentChecked (by
    rintro expr range offset step rfl
    simp [hasSubquery] at hsub)
  simp only [nodeChecked, decide_eq_true_eq] at hparentChecked
  exact ⟨hsub, by simpa [rangeOf] using hparentChecked.1, by simpa [rangeOf] using hparentChecked.2⟩

theorem cumulativeSubqueryOffset_eq_zero {path : List Expr} (h : hasSubquery path = false) :
    cumulativeSubqueryOffset path = 0 := by
  unfold cumulativeSubqueryOffset
  induction path with
  | nil => rfl
  | cons node path ih =>
    rw [hasSubquery, List.any_cons, Bool.or_eq_false_iff] at h
    rw [List.foldl_cons]
    cases node with
    | subqueryExpr expr range offset step => exact absurd h.1 nofun
    | _ => exact ih h.2

theorem selectHints_delta (lookbackDelta : Int) (s : EvalStmt) (n : VectorSelector)
    {path : List Expr} (h : DeltaPath path) :
    let hints := selectHints lookbackDelta s (rangeOf path) n path
    let offset := if n.offset > 0 then durationMilliseconds n.offset else 0
    hints.start = fromTime s.start - durationMilliseconds (rangeOf path) - offset ∧
      hints.stop = fromTime s.stop - offset := by
  have hrange : rangeOf path ≠ 0 := h.range_pos.ne'
  simp only [selectHints, cumulativeSubqueryOffset_eq_zero h.noSubquery, if_neg hrange]
  split <;> simp [durationMilliseconds]

theorem getQueryFinalizer_promDelta {s : EvalStmt} (hvalid : Valid s) {n : VectorSelector}
    {path : List Expr} (hvisit : (Expr.vectorSelector n, path) ∈ walk (fun _ => true) [] s.expr)
    {hints : SelectHints} {qf : QueryFinalizer} {topNode : Option Expr}
    {lowestTime greatestTime stepSize range : Int}
    (h : getQueryFinalizer true (some hints) path = .ok (qf, topNode))
    (hvalue : qf.valueClause = .promDelta lowestTime greatestTime stepSize range) :
    DeltaPath path ∧ lowestTime = hints.start ∧ greatestTime = hints.stop := by
  unfold getQueryFinalizer at h
  split at h
  · rename_i func args hsome hcall
    cases hsome
    split at h
    · rename_i hcond
      obtain ⟨-, -, hsub, hdelta⟩ := hcond
      refine ⟨deltaPath_of_call hvalid hvisit hcall hdelta (by simpa using hsub), ?_⟩
      unfold deltaFinalizer at h
      dsimp only at h
      split at h
      · cases h
        cases hvalue
        exact ⟨rfl, rfl⟩
      · split at h
        · cases h
        · cases h
          cases hvalue
          exact ⟨rfl, rfl⟩
    · cases h
      cases hvalue
  · cases h
    cases hvalue

/-- The greater of the two sums that `findMinTime` compares for a selector. -/
def durationReach (width offset subqOffset : Int) : Int :=
  max (int64 (width + subqOffset)) (int64 (offset + width + subqOffset))

/-- How far before an evaluation time a selector reads, by the sums of durations. -/
def reach (lookbackDelta : Int) (visit : Visit) : Int :=
  match visit.1 with
  | .vectorSelector n => durationReach lookbackDelta n.offset (cumulativeSubqueryOffset visit.2)
  | .matrixSelector n range => durationReach range n.offset (cumulativeSubqueryOffset visit.2)
  | _ => 0

theorem raiseMaxOffset_eq (maxOffset width offset subqOffset : Int) :
    raiseMaxOffset maxOffset width offset subqOffset =
      max maxOffset (durationReach width offset subqOffset) := by
  unfold raiseMaxOffset durationReach
  rw [int64_int64_add]
  dsimp only
  split <;> split <;> omega

theorem visitMinTime_eq (lookbackDelta : Int) {maxOffset : Int} (h : 0 ≤ maxOffset)
    (visit : Visit) :
    visitMinTime lookbackDelta maxOffset visit = max maxOffset (reach lookbackDelta visit) := by
  obtain ⟨expr, path⟩ := visit
  cases expr with
  | vectorSelector n => exact raiseMaxOffset_eq ..
  | matrixSelector n range => exact raiseMaxOffset_eq ..
  | _ => exact (max_eq_left h).symm

theorem foldl_visitMinTime (lookbackDelta : Int) (visits : List Visit)
    {maxOffset : Int} (h : 0 ≤ maxOffset) :
    0 ≤ visits.foldl (visitMinTime lookbackDelta) maxOffset ∧
      ∀ bound, visits.foldl (visitMinTime lookbackDelta) maxOffset ≤ bound ↔
        maxOffset ≤ bound ∧ ∀ visit ∈ visits, reach lookbackDelta visit ≤ bound := by
  induction visits generalizing maxOffset with
  | nil => simp [h]
  | cons visit visits ih =>
    rw [List.foldl_cons, visitMinTime_eq lookbackDelta h]
    obtain ⟨hnonneg, hbound⟩ := ih (h.trans (le_max_left maxOffset (reach lookbackDelta visit)))
    refine ⟨hnonneg, ?_⟩
    intro bound
    rw [hbound, max_le_iff, List.forall_mem_cons, and_assoc]

/-- The rows that pass the filter are within the bounds of the aggregate. Rows have their
times in microseconds, the bounds come in milliseconds. -/
def FeedsOnly (filter : MetricTimeRangeFilter) (lowestTime greatestTime : Int) : Prop :=
  ∀ time, filter.covers time = true → lowestTime * 1000 ≤ time ∧ time ≤ greatestTime * 1000

theorem feedsOnly_iff_accepted (filter : MetricTimeRangeFilter)
    (lowestTime greatestTime stepSize range : Int) :
    FeedsOnly filter lowestTime greatestTime ↔
      ∀ state time val, filter.covers time = true →
        gapfillDeltaTransition state (lowestTime * 1000) (greatestTime * 1000) stepSize range
          time val ≠ .error .inputTimeLessThanLowestTime := by
  constructor
  · intro h state time val hcovers
    rw [ne_eq, gapfillDeltaTransition_inputTime_iff, not_not]
    exact h time hcovers
  · intro h time hcovers
    have haccepted := h none time none hcovers
    rwa [ne_eq, gapfillDeltaTransition_inputTime_iff, not_not] at haccepted

theorem feedsOnly_timeFilter_iff (metric : String) {mint maxt : Int} (hle : mint ≤ maxt)
    (hmin : minTime < maxt) (hmax : maxt < maxTime) (lowestTime greatestTime : Int) :
    FeedsOnly (timeFilter metric mint maxt) lowestTime greatestTime ↔
      mint ≠ minTime ∧ lowestTime ≤ mint ∧ maxt ≤ greatestTime := by
  have hstop : toRFC3339Nano maxt = .finite (maxt * 1000) := by
    rw [toRFC3339Nano, if_neg hmin.ne', if_neg hmax.ne]
  have hcovers : ∀ time, (timeFilter metric mint maxt).covers time = true ↔
      (toRFC3339Nano mint).le time = true ∧ time ≤ maxt * 1000 := by
    intro time
    simp [MetricTimeRangeFilter.covers, timeFilter, hstop, TimeBound.ge]
  unfold FeedsOnly
  simp only [hcovers]
  constructor
  · intro h
    have hfinite : mint ≠ minTime := by
      rintro rfl
      have := h (min (lowestTime * 1000 - 1) (maxt * 1000))
        ⟨by simp [toRFC3339Nano, TimeBound.le], min_le_right _ _⟩
      omega
    have hstart : toRFC3339Nano mint = .finite (mint * 1000) := by
      rw [toRFC3339Nano, if_neg hfinite, if_neg (by omega)]
    simp only [hstart, TimeBound.le, decide_eq_true_eq] at h
    have hfirst := h (mint * 1000) ⟨le_rfl, by omega⟩
    have hlast := h (maxt * 1000) ⟨by omega, le_rfl⟩
    exact ⟨hfinite, by omega, by omega⟩
  · rintro ⟨hfinite, hlowest, hgreatest⟩ time ⟨hfrom, hto⟩
    rw [toRFC3339Nano, if_neg hfinite, if_neg (by omega)] at hfrom
    simp only [TimeBound.le, decide_eq_true_eq] at hfrom
    omega

/-- A selector has no offset, to the millisecond, and no selector of the statement reads
further back than its range, by the sums of durations. -/
structure Fits (lookbackDelta : Int) (s : EvalStmt) (n : VectorSelector) (path : List Expr) :
    Prop where
  offset_lt : n.offset < millisecond
  reach_le : ∀ visit ∈ walk entersForMinTime [] s.expr, reach lookbackDelta visit ≤
    durationMilliseconds (rangeOf path) * millisecond + s.start % millisecond

theorem durationMilliseconds_of_nonneg {d : Int} (h : 0 ≤ d) :
    durationMilliseconds d = d / 1000000 :=
  Int.tdiv_eq_ediv_of_nonneg h

theorem feedsOnly_hints_iff {s : EvalStmt} (hvalid : Valid s) (lookbackDelta : Int)
    (metric : String) (n : VectorSelector) {path : List Expr} (hpath : DeltaPath path) :
    let hints := selectHints lookbackDelta s (rangeOf path) n path
    FeedsOnly (stmtFilter lookbackDelta s metric) hints.start hints.stop ↔
      Fits lookbackDelta s n path := by
  intro hints
  obtain ⟨hstart, hstop⟩ := selectHints_delta lookbackDelta s n hpath
  obtain ⟨hnonneg, hbound⟩ := foldl_visitMinTime lookbackDelta
    (walk entersForMinTime [] s.expr) (le_refl (0 : Int))
  have hrange := durationMilliseconds_of_nonneg hpath.range_pos.le
  have hpos := hpath.range_pos
  have hlt := hpath.range_lt
  have hfirst := hvalid.start_ge
  have hlast := hvalid.stop_lt
  have hordered := hvalid.start_le_stop
  have hmint : fromTime (findMinTime lookbackDelta s) ≤ fromTime s.stop :=
    Int.ediv_le_ediv (by decide) (by unfold findMinTime; omega)
  have hoffset : 0 ≤ (if n.offset > 0 then durationMilliseconds n.offset else 0) ∧
      ((if n.offset > 0 then durationMilliseconds n.offset else 0) ≤ 0 ↔
        n.offset < millisecond) := by
    unfold millisecond
    split
    · rw [durationMilliseconds_of_nonneg (by omega)]
      omega
    · omega
  rw [stmtFilter, feedsOnly_timeFilter_iff metric hmint
    (by unfold fromTime minTime millisecond; omega)
    (by unfold fromTime maxTime millisecond; omega)]
  change _ ∧ hints.start ≤ _ ∧ _ ≤ hints.stop ↔ _
  rw [hstart, hstop]
  generalize (if n.offset > 0 then durationMilliseconds n.offset else 0) = offset at hoffset
  rw [hrange]
  have hreach := hbound (rangeOf path / 1000000 * millisecond + s.start % millisecond)
  constructor
  · rintro ⟨-, hlowest, hgreatest⟩
    refine ⟨hoffset.2.mp (by omega), ?_⟩
    rw [hrange]
    refine (hreach.mp ?_).2
    unfold fromTime findMinTime millisecond at hlowest
    unfold millisecond
    omega
  · rintro ⟨hoffset_lt, hreach_le⟩
    rw [hrange] at hreach_le
    have hzero := hoffset.2.mpr hoffset_lt
    have hmax := hreach.mpr ⟨by unfold millisecond; omega, hreach_le⟩
    unfold fromTime findMinTime minTime
    unfold millisecond at hmax ⊢
    omega

/-- A pushed-down query feeds the aggregate only rows that it accepts if and only if the
selector fits. -/
theorem feedsOnly_iff_fits {σ : Type} {lookbackDelta : Int} {s : EvalStmt} {select : Select σ}
    (hvalid : Valid s) {call : Selected σ}
    (hcall : call ∈ (populateSeries lookbackDelta s select).selected) {qf : QueryFinalizer}
    {topNode : Option Expr} {lowestTime greatestTime stepSize range : Int}
    (hqf : getQueryFinalizer true (some call.hints) call.path = .ok (qf, topNode))
    (hvalue : qf.valueClause = .promDelta lowestTime greatestTime stepSize range)
    (metric : String) :
    (FeedsOnly (stmtFilter lookbackDelta s metric) lowestTime greatestTime ↔
        Fits lookbackDelta s call.selector call.path) ∧
      (FeedsOnly (stmtFilter lookbackDelta s metric) lowestTime greatestTime ↔
        ∀ state time val, (stmtFilter lookbackDelta s metric).covers time = true →
          gapfillDeltaTransition state (lowestTime * 1000) (greatestTime * 1000) stepSize range
            time val ≠ .error .inputTimeLessThanLowestTime) := by
  obtain ⟨hvisit, hhints⟩ := own_populateSeries call hcall
  obtain ⟨hpath, rfl, rfl⟩ := getQueryFinalizer_promDelta hvalid hvisit hqf hvalue
  refine ⟨?_, feedsOnly_iff_accepted _ _ _ _ _⟩
  rw [hhints]
  exact feedsOnly_hints_iff hvalid lookbackDelta metric call.selector hpath

/-- The storage, for matchers that name one metric. -/
def selectOne : Select Unit := fun hints path _ =>
  (getQueryFinalizer true (some hints) path).map fun (_, topNode) => ((), topNode)

def metricSelector (metric : String) (offset : Int) : VectorSelector :=
  ⟨[⟨.matchEqual, "__name__", metric⟩], offset⟩

def deltaCall (selector : VectorSelector) (range : Int) : Expr :=
  .call ⟨"delta", .vector⟩ [.matrixSelector selector range]

/-- The instant query `delta(cpu[5m])`. -/
def deltaStmt : EvalStmt :=
  ⟨deltaCall (metricSelector "cpu" 0) 300000000000, 1600000000000000000, 1600000000000000000, 0⟩

theorem feedsOnly_deltaStmt :
    FeedsOnly (stmtFilter 300000000000 deltaStmt "cpu") 1599999700000 1600000000000 := by
  have hcall : (⟨metricSelector "cpu" 0, _, _, ()⟩ : Selected Unit) ∈
      (populateSeries 300000000000 deltaStmt selectOne).selected := List.mem_singleton.mpr rfl
  have hvalid : Valid deltaStmt := ⟨by decide, by decide, by decide, by decide⟩
  refine (feedsOnly_iff_fits hvalid hcall rfl rfl "cpu").1.mpr ⟨by decide, ?_⟩
  decide

/-- The instant query `limit + delta(cpu[1m])`. With a lookback of five minutes the filter
reaches back four minutes further than the aggregate accepts. -/
def sumStmt : EvalStmt :=
  ⟨.binaryExpr "+" (.vectorSelector (metricSelector "limit" 0))
      (deltaCall (metricSelector "cpu" 0) 60000000000),
    1600000000000000000, 1600000000000000000, 0⟩

theorem not_feedsOnly_sumStmt : Valid sumStmt ∧
    ∃ call ∈ (populateSeries 300000000000 sumStmt selectOne).selected,
      (getQueryFinalizer true (some call.hints) call.path).map (·.1.valueClause) =
          .ok (.promDelta 1599999940000 1600000000000 1000 60000) ∧
        (stmtFilter 300000000000 sumStmt "cpu").covers 1599999800000000 = true ∧
        gapfillDeltaTransition none (1599999940000 * 1000) (1600000000000 * 1000) 1000 60000
          1599999800000000 (some 1) = .error .inputTimeLessThanLowestTime := by
  refine ⟨⟨by decide, by decide, by decide, by decide⟩, _,
    List.mem_cons_of_mem _ (List.mem_singleton.mpr rfl), rfl, by decide, ?_⟩
  exact gapfillDeltaTransition_inputTime_iff.mpr (by decide)

end TimescalePrometheus.Promql.TimeFilter
