import TimescalePrometheus.Lib.Windows
import TimescalePrometheus.Promql.Functions

/-!
The aggregates of the PostgreSQL extension, and what they return: one value for each
window, computed from exactly the points of that window. Times are in microseconds.
-/

namespace TimescalePrometheus.Promql.Gapfill

open Lib.Windows Promql.Syntax Promql.Functions

/-- The errors of the aggregate. -/
inductive AggregateError where
  | inputTimeLessThanLowestTime
  | inputsMustBeAscending
  deriving DecidableEq

/-- The state of the aggregate. -/
structure GapfillDeltaTransition where
  window : List Point
  /-- The values of the windows passed so far, none for NULL. -/
  deltas : List (Option ℚ)
  currentWindowMax : Int
  currentWindowMin : Int
  stepSize : Int
  range : Int
  greatestTime : Int
  isCounter : Bool
  isRate : Bool
  deriving DecidableEq

namespace GapfillDeltaTransition

/-- The range and the step are given in milliseconds. -/
def new (lowestTime greatestTime range stepSize : Int) (isCounter isRate : Bool) :
    GapfillDeltaTransition where
  window := []
  deltas := []
  currentWindowMax := lowestTime + range * 1000
  currentWindowMin := lowestTime
  stepSize := stepSize * 1000
  range := range * 1000
  greatestTime
  isCounter
  isRate

/-- The value of a window; none, for NULL, if it has fewer than two points. -/
def windowDelta (isCounter isRate : Bool) (range windowMin windowMax : Int)
    (window : List Point) : Option ℚ :=
  match window.head?, window.getLast? with
  | some earliest, some latest =>
    if window.length < 2 then none
    else
      let correction := if isCounter then (counterCorrection true window).1 else 0
      let resultVal := extrapolate isCounter (latest.v - earliest.v + correction) earliest.v
        ((earliest.t - windowMin : Int) / 1000000) ((windowMax - latest.t : Int) / 1000000)
        ((latest.t - earliest.t : Int) / 1000000) window.length
      some (if isRate then resultVal / range else resultVal)
  | _, _ => none

def addDeltaForCurrentWindow (s : GapfillDeltaTransition) : GapfillDeltaTransition :=
  { s with
    deltas := s.deltas ++
      [windowDelta s.isCounter s.isRate s.range s.currentWindowMin s.currentWindowMax s.window] }

/-- On to the next window. -/
def flushCurrentWindow (s : GapfillDeltaTransition) : GapfillDeltaTransition :=
  let s := s.addDeltaForCurrentWindow
  { s with
    currentWindowMin := s.currentWindowMin + s.stepSize
    currentWindowMax := s.currentWindowMax + s.stepSize
    window := s.window.dropWhile fun p => p.t < s.currentWindowMin + s.stepSize }

/-- The loops around `flushCurrentWindow`. -/
def flushWhile (more : GapfillDeltaTransition → Bool) :
    Nat → GapfillDeltaTransition → GapfillDeltaTransition
  | 0, s => s
  | fuel + 1, s => if more s then flushWhile more fuel s.flushCurrentWindow else s

/-- Enough rounds to move the end of the window beyond a time. -/
def rounds (s : GapfillDeltaTransition) (time : Int) : Nat :=
  ((time - s.currentWindowMax) / s.stepSize).toNat + 1

def inCurrentWindow (s : GapfillDeltaTransition) (time : Int) : Bool :=
  time ≤ s.currentWindowMax

/-- The transition for a row. -/
def addDataPoint (s : GapfillDeltaTransition) (time : Int) (val : Option ℚ) :
    Except AggregateError GapfillDeltaTransition :=
  match val with
  | none => .ok s
  | some val =>
    let s := flushWhile (fun s => !s.inCurrentWindow time) (s.rounds time) s
    if s.window.getLast?.any fun prev => prev.t > time then .error .inputsMustBeAscending
    else if time ≥ s.currentWindowMin then .ok { s with window := s.window ++ [⟨time, val⟩] }
    else .ok s

/-- The windows that are left are flushed. -/
def toPgArray (s : GapfillDeltaTransition) : List (Option ℚ) :=
  (flushWhile (fun s => s.currentWindowMax ≤ s.greatestTime) (s.rounds s.greatestTime) s).deltas

end GapfillDeltaTransition

open GapfillDeltaTransition

/-- The transition function of the three aggregates. -/
def gapfillTransition (isCounter isRate : Bool) (state : Option GapfillDeltaTransition)
    (lowestTime greatestTime stepSize range time : Int) (val : Option ℚ) :
    Except AggregateError (Option GapfillDeltaTransition) :=
  if time < lowestTime ∨ time > greatestTime then .error .inputTimeLessThanLowestTime
  else
    let state := state.getD (new lowestTime greatestTime range stepSize isCounter isRate)
    (state.addDataPoint time val).map some

def gapfillDeltaTransition := gapfillTransition false false

def gapfillRateTransition := gapfillTransition true true

def gapfillIncreaseTransition := gapfillTransition true false

def gapfillDeltaFinal (state : Option GapfillDeltaTransition) : Option (List (Option ℚ)) :=
  state.map toPgArray

/-- An aggregate over the rows of a group; none is the SQL NULL of an empty group. -/
def gapfill (isCounter isRate : Bool) (lowestTime greatestTime stepSize range : Int)
    (rows : List Sample) : Except AggregateError (Option (List (Option ℚ))) :=
  (rows.foldlM (fun state row => gapfillTransition isCounter isRate state lowestTime greatestTime
    stepSize range row.t row.v) none).map gapfillDeltaFinal

def promDelta := gapfill false false

theorem windowDelta_scaled (isCounter : Bool) (range windowMin windowMax : Int)
    (pts : List Point) (ts : Int) (rangeNs offsetNs : Int)
    (hmin : windowMin = ts - durationMilliseconds (rangeNs + offsetNs))
    (hmax : windowMax = ts - durationMilliseconds offsetNs) :
    windowDelta isCounter false range (windowMin * 1000) (windowMax * 1000)
        (pts.map fun p => ⟨p.t * 1000, p.v⟩) =
      extrapolatedRate pts rangeNs offsetNs ts isCounter false := by
  have hscale : ∀ a b : Int, ((a * 1000 - b * 1000 : Int) : ℚ) / 1000000 =
      ((a - b : Int) : ℚ) / 1000 := by
    intro a b
    push_cast
    ring
  unfold windowDelta extrapolatedRate
  rw [List.head?_map, List.getLast?_map, ← hmin, ← hmax]
  cases hfirst : pts.head? with
  | none => rfl
  | some first =>
    cases hlast : pts.getLast? with
    | none => rfl
    | some last =>
      have hcorrection : (if isCounter then (counterCorrection true pts).1 else 0) =
          (counterCorrection isCounter pts).1 := by
        cases isCounter with
        | false => exact (fst_counterCorrection_false pts).symm
        | true => rfl
      simp only [Option.map_some, List.length_map, hscale, counterCorrection_map, hcorrection,
        snd_counterCorrection isCounter pts hlast, Bool.false_eq_true, if_false]

theorem windowDelta_eq_none_iff {isCounter isRate : Bool} {range windowMin windowMax : Int}
    {window : List Point} :
    windowDelta isCounter isRate range windowMin windowMax window = none ↔
      window.length < 2 := by
  cases hhead : window.head? with
  | none => simp [windowDelta, List.head?_eq_none_iff.mp hhead]
  | some first =>
    cases hlast : window.getLast? with
    | none => simp [List.getLast?_eq_none_iff.mp hlast] at hhead
    | some last =>
      simp only [windowDelta, hhead, hlast]
      split <;> simp [*]

theorem windowDelta_rate (isCounter : Bool) (range windowMin windowMax : Int)
    (window : List Point) :
    windowDelta isCounter true range windowMin windowMax window =
      (windowDelta isCounter false range windowMin windowMax window).map
        fun increase => increase / (range : ℚ) := by
  unfold windowDelta
  cases window.head? with
  | none => rfl
  | some first =>
    cases window.getLast? with
    | none => rfl
    | some last =>
      dsimp only
      split <;> rfl

theorem addDataPoint_ne_inputTime (s : GapfillDeltaTransition) (time : Int) (val : Option ℚ) :
    s.addDataPoint time val ≠ .error .inputTimeLessThanLowestTime := by
  unfold addDataPoint
  split
  · exact nofun
  · dsimp only
    split
    · exact nofun
    · split <;> exact nofun

theorem gapfillDeltaTransition_inputTime_iff {state : Option GapfillDeltaTransition}
    {lowestTime greatestTime stepSize range time : Int} {val : Option ℚ} :
    gapfillDeltaTransition state lowestTime greatestTime stepSize range time val =
        .error .inputTimeLessThanLowestTime ↔
      ¬(lowestTime ≤ time ∧ time ≤ greatestTime) := by
  unfold gapfillDeltaTransition gapfillTransition
  split
  · rename_i hout
    simp only [true_iff]
    omega
  · rename_i hin
    have hadd := addDataPoint_ne_inputTime
      (state.getD (new lowestTime greatestTime range stepSize false false)) time val
    constructor
    · intro herror
      cases hs : (state.getD (new lowestTime greatestTime range stepSize false false)).addDataPoint
          time val with
      | ok s => simp [hs, Except.map] at herror
      | error e =>
        simp only [hs, Except.map, Except.error.injEq] at herror
        exact absurd (hs.trans (congrArg _ herror)) hadd
    · intro hout
      omega

end TimescalePrometheus.Promql.Gapfill
