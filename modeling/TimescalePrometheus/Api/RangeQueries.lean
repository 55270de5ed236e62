import TimescalePrometheus.Lib.GoTime
import TimescalePrometheus.Promql.ReadRange

/-!
The checks of `queryRange` and the evaluator of an accepted request.
-/

namespace TimescalePrometheus.Api.RangeQueries

open Lib.GoTime Lib.Windows Promql.Syntax Promql.Selection Promql.ReadRange
open Promql.TimeFilter (metricSelector)

/-- A time of the years 1678 to 2262. -/
def InYears (t : Time) : Prop := -9214560000 ≤ t.sec ∧ t.sec < 9246182400

instance (t : Time) : Decidable (InYears t) := inferInstanceAs (Decidable (_ ∧ _))

/-- The parameters of a request. -/
structure RangeRequest where
  start : Time
  stop : Time
  step : Int
  start_inYears : InYears start
  stop_inYears : InYears stop
  step_fits : FitsInt64 step

/-- The checks of `queryRange`. -/
def queryRange (q : RangeRequest) : Except String Unit :=
  if q.stop.before q.start then
    .error "end timestamp must not be before start time"
  else if q.step ≤ 0 then
    .error "zero or negative query resolution step widths are not accepted. Try a positive integer"
  else if (q.stop.sub q.start).tdiv q.step > 11000 then
    .error ("exceeded maximum resolution of 11,000 points per timeseries. " ++
      "Try decreasing the query resolution (?step=XX)")
  else .ok ()

/-- The statement of the query. Its times are only looked at through `UnixNano`. -/
def RangeRequest.stmt (q : RangeRequest) (expr : Expr) : EvalStmt where
  expr := expr
  start := q.start.unixNano
  stop := q.stop.unixNano
  interval := q.step

/-- `numSteps` of `rangeEval`. -/
def numSteps (ev : Evaluator) : Int :=
  (ev.endTimestamp - ev.startTimestamp).tdiv ev.interval + 1

theorem queryRange_eq_ok {q : RangeRequest} : queryRange q = .ok () ↔
    q.start.nanoseconds ≤ q.stop.nanoseconds ∧ 0 < q.step ∧
      (q.stop.sub q.start).tdiv q.step ≤ 11000 := by
  unfold queryRange Time.before
  simp only [decide_eq_true_eq, gt_iff_lt]
  split
  · simp only [reduceCtorEq, false_iff]
    omega
  · split
    · simp only [reduceCtorEq, false_iff]
      omega
    · split
      · simp only [reduceCtorEq, false_iff]
        omega
      · simp only [true_iff]
        omega

/-- The milliseconds that the evaluator takes from a time. They are cut off towards zero, and in
the last months of 2262 the nanoseconds wrap. -/
def millis (t : Time) : Int :=
  (if t.nanoseconds < 2 ^ 63 then t.nanoseconds else t.nanoseconds - 2 ^ 64).tdiv millisecond

theorem timeMilliseconds_unixNano {t : Time} (h : InYears t) :
    timeMilliseconds t.unixNano = millis t := by
  obtain ⟨hlo, hhi⟩ := h
  have hnonneg := t.nsec_nonneg
  have hlt := t.nsec_lt
  rw [Time.unixNano_eq, timeMilliseconds, millis, int64, Int.bmod_def]
  congr 1
  unfold Time.nanoseconds
  split <;> split <;> omega

theorem stmtEvaluator_eq {q : RangeRequest} (hstep : 0 < q.step)
    (lookbackDelta defaultEvalInterval : Int) (expr : Expr) :
    stmtEvaluator lookbackDelta defaultEvalInterval (q.stmt expr) =
      { startTimestamp := millis q.start
        endTimestamp := millis q.stop
        interval := q.step / millisecond
        defaultEvalInterval, lookbackDelta } := by
  rw [stmtEvaluator, if_neg fun h => absurd h.2 (Int.ne_of_gt hstep), ← timeMilliseconds_unixNano
    q.start_inYears, ← timeMilliseconds_unixNano q.stop_inYears,
    ← Int.tdiv_eq_ediv_of_nonneg hstep.le]
  rfl

theorem millis_sub_le {q : RangeRequest} {first last : Int}
    (hstart : q.start.nanoseconds = first * millisecond)
    (hstop : q.stop.nanoseconds = last * millisecond)
    (hle : q.start.nanoseconds ≤ q.stop.nanoseconds) :
    millis q.stop - millis q.start ≤ last - first := by
  have hfits : ∀ m : Int, (m * millisecond).tdiv millisecond = m := fun m =>
    Int.mul_tdiv_cancel m (by decide)
  have hwrapped : ∀ m : Int, 2 ^ 63 ≤ m * millisecond → m * millisecond < 2 ^ 64 →
      (m * millisecond - 2 ^ 64).tdiv millisecond = m - 18446744073709 := by
    intro m hlo hhi
    rw [← Int.neg_sub, Int.neg_tdiv, Int.tdiv_eq_ediv_of_nonneg (by omega)]
    unfold millisecond at *
    omega
  have hhi : q.stop.nanoseconds < 2 ^ 64 := by
    have hyears := q.stop_inYears.2
    have hlt := q.stop.nsec_lt
    unfold Time.nanoseconds
    omega
  unfold millis
  rw [hstart, hstop] at *
  split
  · rw [hfits, if_pos (by omega), hfits]
  · rw [hwrapped last (by omega) hhi]
    split
    · -- only the end wraps, which makes it come before the start
      rw [hfits]
      omega
    · rw [hwrapped first (by omega) (by omega)]
      omega

theorem numSteps_le_iff {ev : Evaluator} (h : 1 ≤ ev.interval) (bound : Nat) :
    numSteps ev ≤ bound + 1 ↔
      ev.endTimestamp - ev.startTimestamp < (bound + 1) * ev.interval := by
  unfold numSteps
  rcases Int.le_total 0 (ev.endTimestamp - ev.startTimestamp) with hnonneg | hneg
  · rw [Int.tdiv_eq_ediv_of_nonneg hnonneg, ← Int.ediv_lt_iff_lt_mul (by omega)]
    omega
  · have hquotient : (ev.endTimestamp - ev.startTimestamp).tdiv ev.interval ≤ 0 := by
      rw [← Int.neg_neg (ev.endTimestamp - ev.startTimestamp), Int.neg_tdiv]
      exact Int.neg_nonpos_of_nonneg (Int.tdiv_nonneg (by omega) (by omega))
    have hpos : 0 < ((bound : Int) + 1) * ev.interval := Int.mul_pos (by omega) (by omega)
    omega

theorem length_steps_le {ev : Evaluator} (h : 1 ≤ ev.interval) {bound : Nat}
    (hsteps : numSteps ev ≤ bound) : ev.steps.length ≤ bound := by
  rw [Evaluator.steps, if_neg (by omega), length_ticks]
  split
  · exact Nat.zero_le _
  · rename_i hle
    rw [numSteps, Int.tdiv_eq_ediv_of_nonneg (by omega)] at hsteps
    have hnonneg : 0 ≤ (ev.endTimestamp - ev.startTimestamp) / ev.interval :=
      Int.ediv_nonneg (by omega) (by omega)
    generalize (ev.endTimestamp - ev.startTimestamp) / ev.interval = k at hsteps hnonneg ⊢
    omega

/-- In milliseconds, as the evaluator has them, a step is positive and less than 11001 steps go by
from the start to the end. -/
def MillisBounded (q : RangeRequest) : Prop :=
  millisecond ≤ q.step ∧ millis q.stop - millis q.start < 11001 * (q.step / millisecond)

theorem millisBounded_of_whole {q : RangeRequest} (haccepted : queryRange q = .ok ())
    (hstart : millisecond ∣ q.start.nanoseconds) (hstop : millisecond ∣ q.stop.nanoseconds)
    (hstep : millisecond ∣ q.step)
    (hspan : q.stop.nanoseconds - q.start.nanoseconds < 2 ^ 63) : MillisBounded q := by
  obtain ⟨hle, hpos, hcount⟩ := queryRange_eq_ok.mp haccepted
  obtain ⟨first, hfirst⟩ := hstart
  obtain ⟨last, hlast⟩ := hstop
  obtain ⟨k, hk⟩ := hstep
  have hmillis := millis_sub_le (hfirst.trans (mul_comm _ _)) (hlast.trans (mul_comm _ _)) hle
  have hquotient : q.step / millisecond = k := by
    rw [hk, Int.mul_ediv_cancel_left _ (by decide)]
  have hk_pos : 0 < k := by
    unfold millisecond at hk
    omega
  rw [Time.sub_of_fits _ _ ⟨by omega, hspan⟩, hfirst, hlast, hk, ← mul_sub,
    Int.mul_tdiv_mul_of_pos _ _ (by decide),
    Int.tdiv_eq_ediv_of_nonneg (by unfold millisecond at *; omega)] at hcount
  have hlt := (Int.ediv_lt_iff_lt_mul hk_pos).mp (Int.lt_add_one_of_le hcount)
  refine ⟨Int.le_of_dvd hpos ⟨k, hk⟩, ?_⟩
  rw [hquotient]
  omega

/-- The evaluator of an accepted request has an interval of at least a millisecond and at most
11001 steps exactly if its milliseconds are bounded. The loops then go over at most 11001 times in
ascending order. Whole milliseconds are enough, if the span of the request is a duration. -/
theorem queryRange_bounded {q : RangeRequest} (haccepted : queryRange q = .ok ())
    (lookbackDelta defaultEvalInterval : Int) (expr : Expr) :
    let ev := stmtEvaluator lookbackDelta defaultEvalInterval (q.stmt expr)
    (1 ≤ ev.interval ∧ numSteps ev ≤ 11001 ↔ MillisBounded q) ∧
      (MillisBounded q → ev.steps.length ≤ 11001 ∧ ev.steps.Pairwise (· < ·)) ∧
      (millisecond ∣ q.start.nanoseconds → millisecond ∣ q.stop.nanoseconds →
        millisecond ∣ q.step → q.stop.nanoseconds - q.start.nanoseconds < 2 ^ 63 →
        MillisBounded q) := by
  intro ev
  obtain ⟨-, hpos, -⟩ := queryRange_eq_ok.mp haccepted
  have hev : ev = _ := stmtEvaluator_eq hpos lookbackDelta defaultEvalInterval expr
  have hinterval_iff : 1 ≤ ev.interval ↔ millisecond ≤ q.step := by
    rw [hev, Int.le_ediv_iff_mul_le (by decide), one_mul]
  have hiff : 1 ≤ ev.interval ∧ numSteps ev ≤ 11001 ↔ MillisBounded q := by
    unfold MillisBounded
    rw [← hinterval_iff]
    refine and_congr_right fun hinterval => ?_
    rw [show (11001 : Int) = (11000 : Nat) + 1 from rfl, numSteps_le_iff hinterval, hev]
  refine ⟨hiff, ?_, millisBounded_of_whole haccepted⟩
  intro hbounded
  obtain ⟨hinterval, hsteps⟩ := hiff.mpr hbounded
  exact ⟨length_steps_le hinterval hsteps,
    steps_pairwise (Int.le_trans Int.one_nonneg hinterval)⟩

/-- An hour from a time between two milliseconds, in steps of 15 seconds. -/
def hour : RangeRequest :=
  ⟨unix 0 123456000, unix 3600 123456000, 15000000000, by decide, by decide, by decide⟩

theorem queryRange_bounded_hour :
    let ev := stmtEvaluator 300000000000 60000 (hour.stmt (.vectorSelector (metricSelector "up" 0)))
    queryRange hour = .ok () ∧ MillisBounded hour ∧ 1 ≤ ev.interval ∧ numSteps ev ≤ 11001 ∧
      ev.steps.length ≤ 11001 ∧ ev.steps.Pairwise (· < ·) := by
  intro ev
  have haccepted : queryRange hour = .ok () := by decide
  obtain ⟨hiff, hsteps, -⟩ := queryRange_bounded haccepted 300000000000 60000
    (.vectorSelector (metricSelector "up" 0))
  have hbounded : MillisBounded hour := ⟨by decide, by decide⟩
  exact ⟨haccepted, hbounded, (hiff.mpr hbounded).1, (hiff.mpr hbounded).2, hsteps hbounded⟩

/-- One time, with a step of a nanosecond. -/
def nanosecondStep : RangeRequest :=
  ⟨unix 0 0, unix 0 0, 1, by decide, by decide, by decide⟩

/-- Steps of almost two milliseconds, of which the evaluator keeps one. -/
def fractionalStep : RangeRequest :=
  ⟨unix 0 0, unix 21 999000000, 1999900, by decide, by decide, by decide⟩

/-- From 1700 to 2250, in steps of which the greatest duration has less than 11000. -/
def longSpan : RangeRequest :=
  ⟨unix (-8520336000) 0, unix 8835955200 0, 838489000000000, by decide, by decide, by decide⟩

/-- A start whose fraction of a millisecond is cut off. -/
def fractionalStart : RangeRequest :=
  ⟨unix 0 900000, unix 11 1000000, 1000000, by decide, by decide, by decide⟩

/-- The checks accept requests that make an interval of zero or more than 11001 steps. -/
theorem queryRange_unbounded :
    let ev := fun q : RangeRequest =>
      stmtEvaluator 300000000000 60000 (q.stmt (.vectorSelector (metricSelector "up" 0)))
    (queryRange nanosecondStep = .ok () ∧ (ev nanosecondStep).interval = 0) ∧
    (queryRange fractionalStep = .ok () ∧ numSteps (ev fractionalStep) = 22000) ∧
    (queryRange longSpan = .ok () ∧ numSteps (ev longSpan) = 20700) ∧
    (queryRange fractionalStart = .ok () ∧ numSteps (ev fractionalStart) = 11002) := by
  intro ev
  have hev : ∀ {q : RangeRequest}, 0 < q.step → ev q = _ := fun hstep =>
    stmtEvaluator_eq hstep _ _ _
  refine ⟨⟨by decide, ?_⟩, ⟨by decide, ?_⟩, ⟨by decide, ?_⟩, ⟨by decide, ?_⟩⟩
  · rw [hev (by decide)]
    dsimp only
    decide
  · rw [hev (by decide), numSteps]
    dsimp only
    decide
  · rw [hev (by decide), numSteps]
    dsimp only
    decide
  · rw [hev (by decide), numSteps]
    dsimp only
    decide

end TimescalePrometheus.Api.RangeQueries
