import TimescalePrometheus.Promql.Gapfill

/-!
The three aggregates against the engine's functions delta, increase and rate, on the same samples
and the same window.
-/

namespace TimescalePrometheus.Promql.Rates

open Promql.Syntax Promql.Functions Promql.Gapfill Promql.Gapfill.GapfillDeltaTransition

/-- The value that `add_delta_for_current_window` pushes, none for NULL. This follows the
statements of the extension one by one, where `windowDelta` refers to the engine's. -/
def pushedDelta (s : GapfillDeltaTransition) : Option ℚ :=
  match s.window.head?, s.window.getLast? with
  | some earliest, some latest =>
    if s.window.length < 2 then none
    else
      let counterCorrection : ℚ :=
        if s.isCounter then
          (s.window.foldl (fun (counterCorrection, lastValue) sample =>
            if sample.v < lastValue then (counterCorrection + lastValue, sample.v)
            else (counterCorrection, sample.v)) (0, 0)).1
        else 0
      let resultVal := latest.v - earliest.v + counterCorrection
      let durationToStart : ℚ := (earliest.t - s.currentWindowMin : Int) / 1000000
      let durationToEnd : ℚ := (s.currentWindowMax - latest.t : Int) / 1000000
      let sampledInterval : ℚ := (latest.t - earliest.t : Int) / 1000000
      let avgDurationBetweenSamples := sampledInterval / (s.window.length - 1 : Nat)
      let durationToStart :=
        if s.isCounter ∧ resultVal > 0 ∧ earliest.v ≥ 0 then
          let durationToZero := sampledInterval * (earliest.v / resultVal)
          if durationToZero < durationToStart then durationToZero else durationToStart
        else durationToStart
      let extrapolationThreshold := avgDurationBetweenSamples * (11 / 10)
      let extrapolateToInterval :=
        if durationToStart < extrapolationThreshold then sampledInterval + durationToStart
        else sampledInterval + avgDurationBetweenSamples / 2
      let extrapolateToInterval :=
        if durationToEnd < extrapolationThreshold then extrapolateToInterval + durationToEnd
        else extrapolateToInterval + avgDurationBetweenSamples / 2
      let resultVal := resultVal * (extrapolateToInterval / sampledInterval)
      some (if s.isRate then resultVal / s.range else resultVal)
  | _, _ => none

theorem extrapolate_eq (isCounter : Bool) (resultVal earliestVal durationToStart durationToEnd
    sampledInterval : ℚ) {count : Nat} (hcount : 1 ≤ count) :
    extrapolate isCounter resultVal earliestVal durationToStart durationToEnd sampledInterval
        count =
      (let avgDurationBetweenSamples := sampledInterval / (count - 1 : Nat)
      let durationToStart :=
        if isCounter ∧ resultVal > 0 ∧ earliestVal ≥ 0 then
          let durationToZero := sampledInterval * (earliestVal / resultVal)
          if durationToZero < durationToStart then durationToZero else durationToStart
        else durationToStart
      let extrapolationThreshold := avgDurationBetweenSamples * (11 / 10)
      let extrapolateToInterval :=
        if durationToStart < extrapolationThreshold then sampledInterval + durationToStart
        else sampledInterval + avgDurationBetweenSamples / 2
      let extrapolateToInterval :=
        if durationToEnd < extrapolationThreshold then extrapolateToInterval + durationToEnd
        else extrapolateToInterval + avgDurationBetweenSamples / 2
      resultVal * (extrapolateToInterval / sampledInterval)) := by
  have hclamp : ∀ (P Q : Prop) [Decidable P] [Decidable Q] (a b : ℚ),
      (if P then if Q then a else b else b) = if P ∧ Q then a else b := by
    intro P Q _ _ a b
    by_cases hP : P <;> simp [hP]
  have hadd : ∀ (P : Prop) [Decidable P] (a b c : ℚ),
      (if P then a + b else a + c) = a + if P then b else c := by
    intro P _ a b c
    by_cases hP : P <;> simp [hP]
  have hpred : ((count - 1 : Nat) : ℚ) = (count : ℚ) - 1 := Nat.cast_pred hcount
  simp only [extrapolate, hpred, hclamp, hadd, and_assoc]

theorem foldl_counterCorrection (window : List Point) :
    window.foldl (fun (counterCorrection, lastValue) sample =>
      if sample.v < lastValue then (counterCorrection + lastValue, sample.v)
      else (counterCorrection, sample.v)) (0, 0) = counterCorrection true window := by
  unfold counterCorrection
  congr 1
  funext acc sample
  by_cases hreset : sample.v < acc.2 <;> simp [hreset]

theorem pushedDelta_eq_windowDelta (s : GapfillDeltaTransition) :
    pushedDelta s = windowDelta s.isCounter s.isRate s.range s.currentWindowMin
      s.currentWindowMax s.window := by
  unfold pushedDelta windowDelta
  rw [foldl_counterCorrection]
  cases s.window.head? with
  | none => rfl
  | some earliest =>
    cases s.window.getLast? with
    | none => rfl
    | some latest =>
      by_cases hcount : s.window.length < 2
      · exact (if_pos hcount).trans (if_pos hcount).symm
      · refine (if_neg hcount).trans (Eq.trans ?_ (if_neg hcount).symm)
        dsimp only
        rw [extrapolate_eq _ _ _ _ _ _ (by omega : 1 ≤ s.window.length)]

/-- A window of a query with the samples in it, in milliseconds. -/
structure SampledWindow where
  start : Int
  range : Int
  range_pos : 0 < range
  samples : List Point
  two_le : 2 ≤ samples.length
  increasing : samples.Pairwise fun p q => p.t < q.t
  inside : ∀ p ∈ samples, start ≤ p.t ∧ p.t ≤ start + range

namespace SampledWindow

variable (w : SampledWindow)

/-- An aggregate that has the window as its current one. Of its other parameters neither the
greatest time nor the step matter here. -/
def state (greatestTime stepSize : Int) (isCounter isRate : Bool) : GapfillDeltaTransition :=
  { new (w.start * 1000) greatestTime w.range stepSize isCounter isRate with
    window := w.samples.map fun p => ⟨p.t * 1000, p.v⟩ }

/-- A function of the engine at the time for which the window is the selected one. -/
def engine (func : List Point → Int → Int → Int → Option ℚ) (offset : Int) : Option ℚ :=
  func w.samples (w.range * millisecond) (offset * millisecond) (w.start + w.range + offset)

variable {w} (greatestTime stepSize offset : Int)

theorem pushedDelta_state (isCounter : Bool) :
    pushedDelta (w.state greatestTime stepSize isCounter false) =
      w.engine (fun samples range offset ts =>
        extrapolatedRate samples range offset ts isCounter false) offset := by
  have hmax : (w.state greatestTime stepSize isCounter false).currentWindowMax =
      (w.start + w.range) * 1000 := by
    change w.start * 1000 + w.range * 1000 = _
    ring
  rw [pushedDelta_eq_windowDelta, hmax]
  refine windowDelta_scaled isCounter _ _ _ w.samples _ _ _ ?_ ?_
  · rw [← add_mul, durationMilliseconds_mul]
    ring
  · rw [durationMilliseconds_mul]
    ring

theorem pushedDelta_rate (isCounter : Bool) :
    pushedDelta (w.state greatestTime stepSize isCounter true) =
      (pushedDelta (w.state greatestTime stepSize isCounter false)).map
        fun increase => increase / ((w.range * 1000 : Int) : ℚ) := by
  rw [pushedDelta_eq_windowDelta, pushedDelta_eq_windowDelta]
  exact windowDelta_rate isCounter (w.range * 1000) (w.start * 1000)
    (w.start * 1000 + w.range * 1000) (w.samples.map fun p => ⟨p.t * 1000, p.v⟩)

theorem engine_rate : w.engine funcRate offset =
    (w.engine funcIncrease offset).map fun increase => increase / ((w.range : ℚ) / 1000) := by
  have hseconds : ((w.range * millisecond : Int) : ℚ) / ((1000 * millisecond : Int) : ℚ) =
      (w.range : ℚ) / 1000 := by
    simp only [millisecond]
    push_cast
    ring
  simp only [engine, funcRate, funcIncrease, extrapolatedRate_rate]
  push_cast at hseconds ⊢
  rw [hseconds]

theorem exists_increase : ∃ increase, w.engine funcIncrease offset = some increase := by
  rw [← Option.isSome_iff_exists, Option.isSome_iff_ne_none]
  intro hnone
  have hpushed := (pushedDelta_state (w := w) 0 1 offset true).trans hnone
  rw [pushedDelta_eq_windowDelta, windowDelta_eq_none_iff] at hpushed
  have hlength : (w.samples.map fun p => (⟨p.t * 1000, p.v⟩ : Point)).length < 2 := hpushed
  rw [List.length_map] at hlength
  exact absurd w.two_le (by omega)

end SampledWindow

open SampledWindow

/-- A counter at 0 and then at 2 within one second. -/
def risingCounter : SampledWindow where
  start := 0
  range := 1000
  range_pos := by decide
  samples := [⟨0, 0⟩, ⟨1000, 2⟩]
  two_le := by decide
  increasing := by decide
  inside := by decide

end TimescalePrometheus.Promql.Rates
