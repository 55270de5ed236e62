import Mathlib.Algebra.Order.Field.Rat
import TimescalePrometheus.Promql.Syntax

/-!
The engine's rate functions, over exact rationals.
-/

namespace TimescalePrometheus.Promql.Functions

open Promql.Syntax

/-- A stored sample. A value of none is the staleness marker. -/
structure Sample where
  t : Int
  v : Option ℚ
  deriving DecidableEq

/-- `promql.Point`. -/
structure Point where
  t : Int
  v : ℚ
  deriving DecidableEq

/-- None for a stale marker. -/
def Sample.point (sample : Sample) : Option Point :=
  sample.v.map fun v => ⟨sample.t, v⟩

/-- The samples that are not staleness markers. -/
def points (samples : List Sample) : List Point :=
  samples.filterMap Sample.point

theorem mem_points {samples : List Sample} {p : Point} (h : p ∈ points samples) :
    ∃ sample ∈ samples, sample.t = p.t := by
  obtain ⟨sample, hmem, hpoint⟩ := List.mem_filterMap.mp h
  obtain ⟨v, -, rfl⟩ := Option.map_eq_some_iff.mp hpoint
  exact ⟨sample, hmem, rfl⟩

theorem pairwise_points {r : Int → Int → Prop} {samples : List Sample}
    (h : samples.Pairwise fun a b => r a.t b.t) :
    (points samples).Pairwise fun p q => r p.t q.t := by
  refine h.filterMap Sample.point ?_
  intro a b hab p hp q hq
  obtain ⟨v, -, rfl⟩ := Option.map_eq_some_iff.mp hp
  obtain ⟨w, -, rfl⟩ := Option.map_eq_some_iff.mp hq
  exact hab

/-- The correction for counter resets and the last value, over the points in order. -/
def counterCorrection (isCounter : Bool) (window : List Point) : ℚ × ℚ :=
  window.foldl (fun (correction, lastValue) sample =>
    (if isCounter ∧ sample.v < lastValue then correction + lastValue else correction,
      sample.v)) (0, 0)

/-- The steps that `extrapolatedRate` and the aggregate have in common: from the increase
over the sampled interval to the increase over the whole window. Durations are in
seconds. -/
def extrapolate (isCounter : Bool) (resultValue firstValue durationToStart durationToEnd
    sampledInterval : ℚ) (count : Nat) : ℚ :=
  let averageDurationBetweenSamples := sampledInterval / ((count : ℚ) - 1)
  let durationToZero := sampledInterval * (firstValue / resultValue)
  -- counters cannot be negative: the zero point bounds the extrapolation
  let durationToStart :=
    if isCounter ∧ resultValue > 0 ∧ firstValue ≥ 0 ∧ durationToZero < durationToStart then
      durationToZero
    else durationToStart
  let extrapolationThreshold := averageDurationBetweenSamples * (11 / 10)
  let extrapolateToInterval := sampledInterval +
    (if durationToStart < extrapolationThreshold then durationToStart
      else averageDurationBetweenSamples / 2)
  let extrapolateToInterval := extrapolateToInterval +
    (if durationToEnd < extrapolationThreshold then durationToEnd
      else averageDurationBetweenSamples / 2)
  resultValue * (extrapolateToInterval / sampledInterval)

/-- The value at `ts` of a function over the points of a matrix selector; none if there are
fewer than two. -/
def extrapolatedRate (samples : List Point) (range offset : Int) (ts : Int)
    (isCounter isRate : Bool) : Option ℚ :=
  let rangeStart := ts - durationMilliseconds (range + offset)
  let rangeEnd := ts - durationMilliseconds offset
  match samples.head?, samples.getLast? with
  | some first, some last =>
    if samples.length < 2 then none
    else
      let (correction, lastValue) := counterCorrection isCounter samples
      let resultValue := extrapolate isCounter (lastValue - first.v + correction) first.v
        ((first.t - rangeStart : Int) / 1000) ((rangeEnd - last.t : Int) / 1000)
        ((last.t - first.t : Int) / 1000) samples.length
      some (if isRate then resultValue / (range / (1000 * millisecond)) else resultValue)
  | _, _ => none

def funcDelta (samples : List Point) (range offset : Int) (ts : Int) : Option ℚ :=
  extrapolatedRate samples range offset ts false false

def funcRate (samples : List Point) (range offset : Int) (ts : Int) : Option ℚ :=
  extrapolatedRate samples range offset ts true true

def funcIncrease (samples : List Point) (range offset : Int) (ts : Int) : Option ℚ :=
  extrapolatedRate samples range offset ts true false

theorem extrapolatedRate_rate (samples : List Point) (range offset ts : Int)
    (isCounter : Bool) :
    extrapolatedRate samples range offset ts isCounter true =
      (extrapolatedRate samples range offset ts isCounter false).map
        fun increase : ℚ => increase / (range / (1000 * millisecond)) := by
  unfold extrapolatedRate
  cases samples.head? with
  | none => rfl
  | some first =>
    cases samples.getLast? with
    | none => rfl
    | some last =>
      dsimp only
      split <;> rfl

theorem fst_counterCorrection_false (window : List Point) :
    (counterCorrection false window).1 = 0 := by
  have hfold : ∀ (l : List Point) (acc : ℚ × ℚ), (l.foldl (fun (correction, lastValue) sample =>
      (if (false : Bool) ∧ sample.v < lastValue then correction + lastValue else correction,
        sample.v)) acc).1 = acc.1 := by
    intro l
    induction l with
    | nil => exact fun _ => rfl
    | cons p l ih =>
      intro acc
      rw [List.foldl_cons, ih]
      simp
  exact hfold window (0, 0)

theorem snd_counterCorrection (isCounter : Bool) (window : List Point) {last : Point}
    (h : window.getLast? = some last) : (counterCorrection isCounter window).2 = last.v := by
  obtain ⟨init, rfl⟩ := List.getLast?_eq_some_iff.mp h
  simp [counterCorrection]

theorem counterCorrection_map (isCounter : Bool) (window : List Point) (time : Point → Int) :
    counterCorrection isCounter (window.map fun p => ⟨time p, p.v⟩) =
      counterCorrection isCounter window := by
  rw [counterCorrection, List.foldl_map]
  rfl

end TimescalePrometheus.Promql.Functions
