import TimescalePrometheus.Promql.TimeFilter

/-!
Which selectors of an expression have their data when the preparation of a query reports success.
-/

namespace TimescalePrometheus.Promql.SelectorData

open Promql.Syntax Promql.Selection Promql.TimeFilter

variable {σ : Type}

/-- The field `UnexpandedSeriesSet` of the `k`-th selector, which is nil until `Select` has
answered for it. -/
def unexpandedSeriesSet (st : Populating σ) (k : Nat) : Option σ :=
  st.selected[k]?.map (·.unexpandedSeriesSet)

section Calls

variable (lookbackDelta : Int) (s : EvalStmt) (storage : Nat → Select σ)

/-- The hints of the selector itself. -/
def ownHints (call : VectorSelector × List Expr) : SelectHints :=
  selectHints lookbackDelta s (rangeOf call.2) call.1 call.2

/-- The answers of the storage to the calls for the given selectors, after `k` other calls. -/
def answers : Nat → List (VectorSelector × List Expr) → List (Except String (σ × Option Expr))
  | _, [] => []
  | k, call :: rest =>
    storage k (ownHints lookbackDelta s call) call.2 call.1.labelMatchers ::
      answers (k + 1) rest

/-- Every selector of the expression was asked for with its own hints and has its set. -/
structure Served (st : Populating σ) : Prop where
  calls : st.selected.map (fun call => ((call.selector, call.path), call.hints)) =
    (selectors [] s.expr).map fun call => (call, ownHints lookbackDelta s call)
  nonNil : ∀ k < (selectors [] s.expr).length, unexpandedSeriesSet st k ≠ none

end Calls

/-- Before any call fails, the storage processes a node for a selector that is not the
last one. -/
def pushesEarly : List (Except String (σ × Option Expr)) → Bool
  | [] => false
  | .error _ :: _ => false
  | .ok (_, some _) :: rest => !rest.isEmpty
  | .ok (_, none) :: rest => pushesEarly rest

variable {lookbackDelta : Int} {s : EvalStmt} {storage : Nat → Select σ}

theorem foldl_selectOwn_of_stopped {st : Populating σ} (h : st.stopped = true)
    (calls : List (VectorSelector × List Expr)) :
    calls.foldl (selectOwn lookbackDelta s storage) st = st := by
  induction calls with
  | nil => rfl
  | cons call calls ih =>
    have hskip : selectOwn lookbackDelta s storage st call = st := if_pos h
    rw [List.foldl_cons, hskip, ih]

theorem selectOwn_of_topNode {st : Populating σ} (hrunning : st.stopped = false) {node : Expr}
    (htop : st.topNode = some node) (call : VectorSelector × List Expr) :
    selectOwn lookbackDelta s storage st call = { st with evalRange := 0, stopped := true } := by
  simp [selectOwn, visitSeries, hrunning, htop]

theorem selectOwn_error {st : Populating σ} (hrunning : st.stopped = false)
    (htop : st.topNode = none) {call : VectorSelector × List Expr} {err : String}
    (h : storage st.selected.length (ownHints lookbackDelta s call) call.2 call.1.labelMatchers =
      .error err) :
    selectOwn lookbackDelta s storage st call =
      { st with evalRange := 0, err := some err, stopped := true } := by
  simp only [ownHints] at h
  simp [selectOwn, visitSeries, hrunning, htop, h]

/-- The state after `Select` has answered for a selector. -/
def received (lookbackDelta : Int) (s : EvalStmt) (st : Populating σ)
    (call : VectorSelector × List Expr) (set : σ) (topNode : Option Expr) : Populating σ :=
  { st with
    evalRange := 0, topNode
    selected := st.selected ++ [⟨call.1, call.2, ownHints lookbackDelta s call, set⟩] }

theorem selectOwn_ok {st : Populating σ} (hrunning : st.stopped = false)
    (htop : st.topNode = none) {call : VectorSelector × List Expr} {set : σ}
    {topNode : Option Expr}
    (h : storage st.selected.length (ownHints lookbackDelta s call) call.2 call.1.labelMatchers =
      .ok (set, topNode)) :
    selectOwn lookbackDelta s storage st call = received lookbackDelta s st call set topNode := by
  simp only [ownHints] at h
  simp [selectOwn, visitSeries, hrunning, htop, h, received, ownHints]

/-- The calls made for a list of selectors, from a state in which no node has been processed:
all of them succeed or an error is reported, unless a node is processed too early. -/
theorem served_foldl_iff (calls : List (VectorSelector × List Expr)) {st : Populating σ}
    (hrunning : st.stopped = false) (htop : st.topNode = none) (herr : st.err = none) :
    ((calls.foldl (selectOwn lookbackDelta s storage) st).err = none →
      (calls.foldl (selectOwn lookbackDelta s storage) st).selected.map
          (fun call => ((call.selector, call.path), call.hints)) =
        st.selected.map (fun call => ((call.selector, call.path), call.hints)) ++
          calls.map fun call => (call, ownHints lookbackDelta s call)) ↔
      pushesEarly (answers lookbackDelta s storage st.selected.length calls) = false := by
  induction calls generalizing st with
  | nil => simp [answers, pushesEarly]
  | cons call calls ih =>
    rw [List.foldl_cons]
    unfold answers
    cases hanswer : storage st.selected.length (ownHints lookbackDelta s call) call.2
        call.1.labelMatchers with
    | error err =>
      rw [selectOwn_error hrunning htop hanswer, foldl_selectOwn_of_stopped rfl]
      simp [pushesEarly]
    | ok answer =>
      obtain ⟨set, topNode⟩ := answer
      rw [selectOwn_ok hrunning htop hanswer]
      cases topNode with
      | none =>
        have hnext := @ih (received lookbackDelta s st call set none) hrunning rfl herr
        simpa [pushesEarly, received] using hnext
      | some node =>
        cases calls with
        | nil => simp [answers, pushesEarly, received]
        | cons next rest =>
          -- the walk ends here without an error, one selector short
          have hrunning' :
              (received lookbackDelta s st call set (some node)).stopped = false :=
            hrunning
          rw [List.foldl_cons, selectOwn_of_topNode hrunning' rfl,
            foldl_selectOwn_of_stopped rfl]
          simp [answers, pushesEarly, received, herr]

theorem served_iff (st : Populating σ) : Served lookbackDelta s st ↔
    st.selected.map (fun call => ((call.selector, call.path), call.hints)) =
      (selectors [] s.expr).map fun call => (call, ownHints lookbackDelta s call) := by
  refine ⟨fun h => h.calls, fun h => ⟨h, ?_⟩⟩
  intro k hk
  have hlength := congrArg List.length h
  simp only [List.length_map] at hlength
  simpa [unexpandedSeriesSet, hlength] using hk

/-- A nil error of `populateSeries` means that every selector has its data exactly if the
storage does not process a node for a selector that another selector follows. -/
theorem served_of_success_iff (lookbackDelta : Int) (s : EvalStmt) (storage : Nat → Select σ) :
    ((populateSeriesFrom lookbackDelta s storage).err = none →
      Served lookbackDelta s (populateSeriesFrom lookbackDelta s storage)) ↔
      pushesEarly (answers lookbackDelta s storage 0 (selectors [] s.expr)) = false := by
  rw [served_iff, populateSeriesFrom_eq]
  exact served_foldl_iff (selectors [] s.expr) rfl rfl rfl

/-- The instant query `delta(cpu[1m]) + limit`. -/
def deltaFirstStmt : EvalStmt :=
  ⟨.binaryExpr "+" (deltaCall (metricSelector "cpu" 0) 60000000000)
      (.vectorSelector (metricSelector "limit" 0)),
    1600000000000000000, 1600000000000000000, 0⟩

/-- The selector of `limit` is left with a nil set, and no error is reported. -/
theorem not_served_deltaFirstStmt :
    (populateSeriesFrom 300000000000 deltaFirstStmt fun _ => selectOne).err = none ∧
      (selectors [] deltaFirstStmt.expr)[1]?.map (·.1) = some (metricSelector "limit" 0) ∧
      unexpandedSeriesSet
        (populateSeriesFrom 300000000000 deltaFirstStmt fun _ => selectOne) 1 = none ∧
      ¬ ((populateSeriesFrom 300000000000 deltaFirstStmt fun _ => selectOne).err = none →
        Served 300000000000 deltaFirstStmt
          (populateSeriesFrom 300000000000 deltaFirstStmt fun _ => selectOne)) := by
  have herr : (populateSeriesFrom 300000000000 deltaFirstStmt fun _ => selectOne).err = none :=
    rfl
  have hnil : unexpandedSeriesSet
      (populateSeriesFrom 300000000000 deltaFirstStmt fun _ => selectOne) 1 = none := rfl
  refine ⟨herr, rfl, hnil, ?_⟩
  intro hserved
  exact (hserved herr).nonNil 1 (by decide) hnil

end TimescalePrometheus.Promql.SelectorData
