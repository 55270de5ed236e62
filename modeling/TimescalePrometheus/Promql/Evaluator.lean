import TimescalePrometheus.Lib.Windows
import TimescalePrometheus.Promql.Functions

/-!
The branch of the evaluator for a function of one range vector, over the series of its
matrix selector. The limit on the number of samples is part of the model.
-/

namespace TimescalePrometheus.Promql.Evaluator

open Lib.Windows Promql.Syntax Promql.Functions

/-- Names and values. -/
abbrev Labels := List (String × String)

/-- A series of the storage. -/
structure StorageSeries where
  labels : Labels
  samples : List Sample
  deriving DecidableEq

/-- A series of a result. -/
structure Series where
  metric : Labels
  points : List Point
  deriving DecidableEq

abbrev Matrix := List Series

/-- The errors that the evaluator throws. -/
inductive EvalError where
  | tooManySamples
  | sameLabelset
  deriving DecidableEq

/-- `dropMetricName`. -/
def dropMetricName (labels : Labels) : Labels :=
  labels.filter fun label => label.1 ≠ "__name__"

def containsSameLabelset (mat : Matrix) : Bool :=
  ¬(mat.map (·.metric)).Nodup

/-- The look-back iterator of Prometheus over the samples of a series, which is not part of
the repository. `Positioned it samples delta last` says that `it` runs over `samples`,
looks back by `delta` and was last moved to `last`, if at all. -/
structure BufferedSeriesIterator where
  State : Type
  reset : Int → List Sample → State
  seek : State → Int → Bool × State
  buffer : State → List Sample
  values : State → Sample
  reduceDelta : State → Int → State
  Positioned : State → List Sample → Int → Option Int → Prop
  positioned_reset : ∀ delta samples, Positioned (reset delta samples) samples delta none
  positioned_reduceDelta : ∀ {it samples delta last delta'}, Positioned it samples delta last →
    delta' ≤ delta → Positioned (reduceDelta it delta') samples delta' last
  positioned_seek : ∀ {it samples delta last t}, Positioned it samples delta last →
    (∀ t₀ ∈ last, t₀ ≤ t) → Positioned (seek it t).2 samples delta (some t)
  /-- The current sample is the first one that is not earlier. -/
  seek_values : ∀ {it samples delta last t}, Positioned it samples delta last →
    (∀ t₀ ∈ last, t₀ ≤ t) → (samples.find? fun s => t ≤ s.t) =
      if (seek it t).1 then some (values (seek it t).2) else none
  /-- The buffer holds the earlier samples, at least as far back as `delta`. -/
  seek_buffer : ∀ {it samples delta last t}, Positioned it samples delta last →
    (∀ t₀ ∈ last, t₀ ≤ t) → ∃ lo ≤ t - delta,
      buffer (seek it t).2 = samples.filter fun s => lo ≤ s.t ∧ s.t < t

section Eval

variable (B : BufferedSeriesIterator) (maxSamples : Nat)

/-- Fails at the limit on samples. -/
def appendPoint (out : List Point × Nat) (p : Point) : Except EvalError (List Point × Nat) :=
  if out.2 ≥ maxSamples then .error .tooManySamples else .ok (out.1 ++ [p], out.2 + 1)

/-- The points of the last window that are also in the next one, and the earliest time of
a point to append. -/
def retainPoints (mint : Int) (out : List Point) : List Point × Int :=
  match out.getLast? with
  | none => ([], mint)
  | some last =>
    if last.t ≥ mint then (out.dropWhile fun p => p.t < mint, last.t + 1) else ([], mint)

/-- The points from `mint` to `maxt`, with the iterator and the number of samples so far. -/
def matrixIterSlice (it : B.State) (mint maxt : Int) (out : List Point) (currentSamples : Nat) :
    Except EvalError (List Point × B.State × Nat) := do
  let (out, mint) := retainPoints mint out
  let (ok, it) := B.seek it maxt
  let buffered := points ((B.buffer it).filter fun s => s.t ≥ mint)
  let (out, currentSamples) ← buffered.foldlM (appendPoint maxSamples) (out, currentSamples)
  -- the sample that the iterator stands at may also be in the range
  let current := if ok then points ([B.values it].filter fun s => s.t = maxt) else []
  let (out, currentSamples) ← current.foldlM (appendPoint maxSamples) (out, currentSamples)
  return (out, it, currentSamples)

/-- A call of a function over one matrix selector. Times are in milliseconds. -/
structure RangeCall where
  startTimestamp : Int
  endTimestamp : Int
  interval : Int
  selRange : Int
  offset : Int
  /-- The function, of the points of a window and the evaluation time. -/
  call : List Point → Int → Option ℚ

/-- The variables of the loop over the steps. -/
structure Stepping where
  it : B.State
  points : List Point
  out : List Point
  currentSamples : Nat

variable (c : RangeCall)

/-- One step of a series. -/
def evalStep (st : Stepping B) (ts : Int) : Except EvalError (Stepping B) := do
  let maxt := ts - c.offset
  let mint := maxt - c.selRange
  let (points, it, currentSamples) ←
    matrixIterSlice B maxSamples st.it mint maxt st.points st.currentSamples
  if points = [] then return { st with it, points, currentSamples }
  else
    let stepRange := if c.selRange > c.interval then c.interval else c.selRange
    let outVec := (c.call points ts).toList.map fun v => ⟨ts, v⟩
    return { it := B.reduceDelta it stepRange, points, out := st.out ++ outVec, currentSamples }

/-- All steps of a series. -/
def evalSeries (acc : Matrix × Nat) (series : StorageSeries) :
    Except EvalError (Matrix × Nat) := do
  let st ← (ticks c.startTimestamp c.endTimestamp c.interval).foldlM (evalStep B maxSamples c)
    { it := B.reset c.selRange series.samples, points := [], out := [], currentSamples := acc.2 }
  if st.out = [] then return (acc.1, st.currentSamples)
  else if st.currentSamples < maxSamples then
    return (acc.1 ++ [⟨dropMetricName series.labels, st.out⟩], st.currentSamples + st.out.length)
  else throw .tooManySamples

/-- A call over a matrix selector. -/
def evalCall (series : List StorageSeries) : Except EvalError Matrix := do
  let (mat, _) ← series.foldlM (evalSeries B maxSamples c) ([], 0)
  if containsSameLabelset mat then throw .sameLabelset else return mat

end Eval

end TimescalePrometheus.Promql.Evaluator
