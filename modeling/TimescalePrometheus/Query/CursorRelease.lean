import TimescalePrometheus.Query.CompleteReads

/-!
The cursors that `getResultRows` opens for matchers that name no metric, and those it closes.
-/

namespace TimescalePrometheus.Query.CursorRelease

open Query.Cursors
open Query.CompleteReads (Answer Lookup TableError getSeriesPerMetric)
open Lib.Transactions (ok_bind)

/-- The cursors are numbered in the order in which they are opened; `live` are those that have not
been closed. -/
structure Ledger where
  opened : Nat
  live : List Nat
  live_lt : ∀ cursor ∈ live, cursor < opened

namespace Ledger

/-- No cursor was opened. -/
def empty : Ledger := ⟨0, [], fun _ h => nomatch h⟩

/-- A call of `conn.Query` that returns a cursor. -/
def query (l : Ledger) : Nat × Ledger :=
  (l.opened, {
    opened := l.opened + 1
    live := l.live ++ [l.opened]
    live_lt := fun cursor h => by
      rcases List.mem_append.mp h with hold | hnew
      · exact Nat.lt_succ_of_lt (l.live_lt cursor hold)
      · exact (List.mem_singleton.mp hnew).symm ▸ Nat.lt_succ_self _ })

def close (l : Ledger) (cursor : Nat) : Ledger where
  opened := l.opened
  live := l.live.erase cursor
  live_lt := fun cursor' h => l.live_lt cursor' (List.mem_of_mem_erase h)

theorem live_query (l : Ledger) : l.query.2.live = l.live ++ [l.query.1] := rfl

theorem live_close_query (l : Ledger) : (l.query.2.close l.query.1).live = l.live := by
  have hnew : l.opened ∉ l.live := fun h => Nat.lt_irrefl _ (l.live_lt _ h)
  change (l.live ++ [l.opened]).erase l.opened = l.live
  rw [List.erase_append_right _ hnew, List.erase_cons_head, List.append_nil]

end Ledger

variable {D : Type}

def queryMetricTableName (answer : Answer String) (l : Ledger) :
    Except TableError String × Ledger :=
  match answer with
  | .error err => (.error (.other err), l)
  | .ok res =>
    let (cursor, l) := l.query
    let tableName :=
      match res.next with
      | (false, _) => .error .errMissingTableName
      | (true, res) =>
        match res.scan with
        | .error err => .error (.other err)
        | .ok tableName => .ok tableName
    -- `defer res.Close()`
    (tableName, l.close cursor)

def getMetricTableName (lookup : Lookup D) (l : Ledger) : Except TableError String × Ledger :=
  match lookup.cached with
  | .hit tableName => (.ok tableName, l)
  | .failed err => (.error (.other err), l)
  | .notFound =>
    match queryMetricTableName lookup.table l with
    | (.error err, l) => (.error err, l)
    | (.ok tableName, l) =>
      match lookup.stored with
      | some err => (.error (.other err), l)
      | none => (.ok tableName, l)

/-- The loop over the metrics. `results` holds the cursors of the metrics so far, each with what
will be read from it. -/
def metricRows (lookups : Nat → Lookup D) : List ((String × List Int) × Nat) →
    List (Nat × D) → Ledger → Except String (List (Nat × D)) × Ledger
  | [], results, l => (.ok results, l)
  | (_, i) :: metrics, results, l =>
    match getMetricTableName (lookups i) l with
    | (.error .errMissingTableName, l) => metricRows lookups metrics results l
    | (.error (.other err), l) => (.error err, l)
    | (.ok _, l) =>
      match (lookups i).data with
      | .error err => (.error err, l)
      | .ok data =>
        let (rows, l) := l.query
        metricRows lookups metrics (results ++ [(rows, data)]) l

def getResultRows (series : Answer (String × List Int)) (lookups : Nat → Lookup D) :
    Except String (List (Nat × D)) × Ledger :=
  match series with
  | .error err => (.error err, Ledger.empty)
  | .ok answer =>
    let (rows, l) := Ledger.empty.query
    let outcome : Except String (List (Nat × D)) × Ledger :=
      match getSeriesPerMetric answer with
      | .error err => (.error err, l)
      | .ok metrics => metricRows lookups metrics.zipIdx [] l
    -- `defer rows.Close()`
    (outcome.1, outcome.2.close rows)

theorem queryMetricTableName_eq (answer : Answer String) (l : Ledger) :
    (queryMetricTableName answer l).1 = CompleteReads.queryMetricTableName answer ∧
      (queryMetricTableName answer l).2.live = l.live := by
  cases answer with
  | error err => exact ⟨rfl, rfl⟩
  | ok res => exact ⟨rfl, l.live_close_query⟩

theorem getMetricTableName_eq (lookup : Lookup D) (l : Ledger) :
    (getMetricTableName lookup l).1 = CompleteReads.getMetricTableName lookup ∧
      (getMetricTableName lookup l).2.live = l.live := by
  obtain ⟨htable, hlive⟩ := queryMetricTableName_eq lookup.table l
  unfold getMetricTableName CompleteReads.getMetricTableName
  cases lookup.cached with
  | hit tableName => exact ⟨rfl, rfl⟩
  | failed err => exact ⟨rfl, rfl⟩
  | notFound =>
    simp only
    rw [← htable]
    generalize queryMetricTableName lookup.table l = answer at hlive ⊢
    obtain ⟨tableName | err, l'⟩ := answer
    · exact ⟨rfl, hlive⟩
    · cases lookup.stored with
      | some err => exact ⟨rfl, hlive⟩
      | none => exact ⟨rfl, hlive⟩

/-- The metric gets a cursor for its samples. -/
def opensData (lookup : Lookup D) : Bool :=
  match CompleteReads.getMetricTableName lookup, lookup.data with
  | .ok _, .ok _ => true
  | _, _ => false

/-- The loop goes on after the metric, with a cursor for it or because it has no table. -/
def goesOn (lookup : Lookup D) : Bool :=
  match CompleteReads.getMetricTableName lookup with
  | .error .errMissingTableName => true
  | _ => opensData lookup

/-- Some metric got a cursor before the loop ended. -/
def opensBeforeEnd (lookups : Nat → Lookup D) (metrics : List ((String × List Int) × Nat)) : Bool :=
  (metrics.takeWhile fun m => goesOn (lookups m.2)).any fun m => opensData (lookups m.2)

theorem metricRows_cons (lookups : Nat → Lookup D) (metric : (String × List Int) × Nat)
    (metrics : List ((String × List Int) × Nat)) (results : List (Nat × D)) (l : Ledger) :
    ∃ l' : Ledger, l'.live = l.live ∧
      ((goesOn (lookups metric.2) = false ∧
          ∃ err, metricRows lookups (metric :: metrics) results l = (.error err, l')) ∨
        (goesOn (lookups metric.2) = true ∧ opensData (lookups metric.2) = false ∧
          metricRows lookups (metric :: metrics) results l =
            metricRows lookups metrics results l') ∨
        (goesOn (lookups metric.2) = true ∧ opensData (lookups metric.2) = true ∧
          ∃ data, metricRows lookups (metric :: metrics) results l =
            metricRows lookups metrics (results ++ [(l'.query.1, data)]) l'.query.2)) := by
  obtain ⟨name, i⟩ := metric
  obtain ⟨htable, hlive⟩ := getMetricTableName_eq (lookups i) l
  refine ⟨(getMetricTableName (lookups i) l).2, hlive, ?_⟩
  rw [metricRows]
  unfold goesOn opensData
  dsimp only
  rw [← htable]
  obtain ⟨answer, l'⟩ := getMetricTableName (lookups i) l
  rcases answer with (_ | err) | tableName
  · exact .inr (.inl ⟨rfl, rfl, rfl⟩)
  · exact .inl ⟨rfl, err, rfl⟩
  · cases (lookups i).data with
    | error err => exact .inl ⟨rfl, err, rfl⟩
    | ok data => exact .inr (.inr ⟨rfl, rfl, data, rfl⟩)

theorem metricRows_live (lookups : Nat → Lookup D) (metrics : List ((String × List Int) × Nat))
    (results : List (Nat × D)) (l : Ledger) : ∃ new : List (Nat × D),
      (metricRows lookups metrics results l).2.live = l.live ++ new.map Prod.fst ∧
      (opensBeforeEnd lookups metrics = true ↔ new ≠ []) ∧
      ∀ returned, (metricRows lookups metrics results l).1 = .ok returned →
        returned = results ++ new := by
  induction metrics generalizing results l with
  | nil =>
    refine ⟨[], (List.append_nil _).symm, by simp [opensBeforeEnd], ?_⟩
    intro returned h
    cases h
    exact (List.append_nil _).symm
  | cons metric metrics ih =>
    obtain ⟨l', hlive, ⟨hstop, err, hrun⟩ | ⟨hon, hopens, hrun⟩ | ⟨hon, hopens, data, hrun⟩⟩ :=
      metricRows_cons lookups metric metrics results l
    · refine ⟨[], ?_, by simp [opensBeforeEnd, hstop], ?_⟩
      · rw [hrun, List.map_nil, List.append_nil, hlive]
      · intro returned h
        rw [hrun] at h
        cases h
    · obtain ⟨new, hnew, hopened, hreturned⟩ := ih results l'
      rw [hrun]
      refine ⟨new, hnew.trans (by rw [hlive]), ?_, hreturned⟩
      rw [← hopened]
      simp [opensBeforeEnd, hon, hopens]
    · obtain ⟨new, hnew, -, hreturned⟩ := ih (results ++ [(l'.query.1, data)]) l'.query.2
      rw [hrun]
      refine ⟨(l'.query.1, data) :: new, ?_, by simp [opensBeforeEnd, hon, hopens], ?_⟩
      · rw [hnew, l'.live_query, hlive, List.append_assoc]
        rfl
      · intro returned h
        rw [hreturned returned h, List.append_assoc]
        rfl

theorem metricRows_refines (lookups : Nat → Lookup D) (metrics : List ((String × List Int) × Nat))
    (results : List (Nat × D)) (l : Ledger) :
    (metricRows lookups metrics results l).1.map (List.map Prod.snd) =
      (CompleteReads.metricRows lookups metrics).map (results.map Prod.snd ++ ·) := by
  induction metrics generalizing results l with
  | nil =>
    exact congrArg Except.ok (List.append_nil _).symm
  | cons metric metrics ih =>
    obtain ⟨name, i⟩ := metric
    have htable := (getMetricTableName_eq (lookups i) l).1
    rw [metricRows, CompleteReads.metricRows, ← htable]
    obtain ⟨answer, l'⟩ := getMetricTableName (lookups i) l
    rcases answer with (_ | err) | tableName
    · exact ih results l'
    · rfl
    · cases (lookups i).data with
      | error err => rfl
      | ok data =>
        dsimp only
        rw [ih]
        cases CompleteReads.metricRows lookups metrics with
        | error err => rfl
        | ok rows =>
          change Except.ok _ = Except.ok _
          simp

/-- Apart from the numbers of the cursors, a run returns what the run without them returns. -/
theorem getResultRows_refines (series : Answer (String × List Int)) (lookups : Nat → Lookup D) :
    (getResultRows series lookups).1.map (List.map Prod.snd) =
      CompleteReads.getResultRows series lookups := by
  cases series with
  | error err => rfl
  | ok rows =>
    unfold getResultRows CompleteReads.getResultRows
    dsimp only
    rw [ok_bind]
    cases hmetrics : getSeriesPerMetric rows with
    | error err => rfl
    | ok metrics =>
      rw [ok_bind]
      refine (metricRows_refines lookups metrics.zipIdx [] _).trans ?_
      cases CompleteReads.metricRows lookups metrics.zipIdx with
      | error err => rfl
      | ok rows => rfl

/-- A run that returns leaves open exactly the cursors that it returns. A run that fails leaves
none open, unless it had opened the cursor of a metric: those stay open. -/
theorem getResultRows_live (series : Answer (String × List Int)) (lookups : Nat → Lookup D) :
    (∀ results, (getResultRows series lookups).1 = .ok results →
      (getResultRows series lookups).2.live = results.map Prod.fst) ∧
    (∀ err, (getResultRows series lookups).1 = .error err →
      ((getResultRows series lookups).2.live = [] ↔
        ∀ rows metrics, series = .ok rows → getSeriesPerMetric rows = .ok metrics →
          opensBeforeEnd lookups metrics.zipIdx = false)) := by
  cases series with
  | error err =>
    constructor
    · intro results h
      cases h
    · intro err' _
      refine iff_of_true rfl ?_
      intro rows metrics h
      cases h
  | ok rows =>
    unfold getResultRows
    dsimp only
    cases hmetrics : getSeriesPerMetric rows with
    | error err =>
      constructor
      · intro results h
        cases h
      · intro err' _
        refine iff_of_true Ledger.empty.live_close_query ?_
        intro rows' metrics hrows h
        cases hrows
        rw [hmetrics] at h
        cases h
    | ok metrics =>
      obtain ⟨new, hlive, hopened, hreturned⟩ :=
        metricRows_live lookups metrics.zipIdx [] Ledger.empty.query.2
      -- The cursor of the series ids is the first one and the only one that is closed.
      have hclosed : ((metricRows lookups metrics.zipIdx [] Ledger.empty.query.2).2.close
          Ledger.empty.query.1).live = new.map Prod.fst := by
        change (metricRows lookups metrics.zipIdx [] Ledger.empty.query.2).2.live.erase 0 = _
        rw [hlive]
        exact List.erase_cons_head ..
      dsimp only
      rw [hclosed]
      constructor
      · intro results h
        rw [hreturned results h, List.nil_append]
      · intro err _
        rw [List.map_eq_nil_iff]
        constructor
        · intro hnew rows' metrics' hrows h
          cases hrows
          rw [hmetrics] at h
          cases h
          rw [← Bool.not_eq_true, hopened, not_ne_iff]
          exact hnew
        · intro hnone
          by_contra hne
          rw [← ne_eq, ← hopened, hnone rows metrics rfl hmetrics] at hne
          cases hne

/-- Two metrics that are both in the cache; the query for the samples of the second one fails. -/
def secondFails : Nat → Lookup Unit
  | 0 => ⟨.hit "cpu", .error "", none, .ok ()⟩
  | _ => ⟨.hit "mem", .error "", none, .error "timeout"⟩

/-- The cursor of the first metric stays open, and nothing refers to it any more. -/
theorem getResultRows_leak :
    (getResultRows (.ok { rest := [.ok ("cpu", [1]), .ok ("mem", [2])] }) secondFails).1 =
        .error "timeout" ∧
      (getResultRows (.ok { rest := [.ok ("cpu", [1]), .ok ("mem", [2])] }) secondFails).2.live =
        [1] :=
  ⟨rfl, rfl⟩

end TimescalePrometheus.Query.CursorRelease
