import TimescalePrometheus.Lib.Budgets
import TimescalePrometheus.Promql.Evaluator

/-!
What the evaluator computes: at each step the function is called with exactly the points of
the step's window, whatever the iterator kept in its buffer.
-/

namespace TimescalePrometheus.Promql.EvaluatorWindows

open Lib.Budgets Lib.Windows Promql.Functions Promql.Evaluator

/-- Sample times increase strictly. -/
abbrev Increasing (samples : List Sample) : Prop :=
  samples.Pairwise fun a b => a.t < b.t

theorem points_filter (test : Int → Bool) (samples : List Sample) :
    points (samples.filter fun s => test s.t) = (points samples).filter fun p => test p.t := by
  unfold points
  rw [List.filterMap_filter, List.filter_filterMap]
  apply List.filterMap_congr
  rintro ⟨t, v⟩ -
  cases v <;> simp [Sample.point, Option.filter]

theorem ascending_points {samples : List Sample} (h : Increasing samples) :
    Ascending Point.t (points samples) :=
  (pairwise_points (r := (· < ·)) h).imp le_of_lt

theorem filter_eq_find? {samples : List Sample} (h : Increasing samples) (t : Int) :
    samples.filter (fun s => s.t = t) =
      (samples.find? fun s => t ≤ s.t).toList.filter fun s => s.t = t := by
  induction samples with
  | nil => rfl
  | cons s samples ih =>
    obtain ⟨hs, hrest⟩ := List.pairwise_cons.mp h
    rcases lt_or_ge s.t t with hlt | hge
    · rw [List.filter_cons_of_neg (by simpa using hlt.ne), ih hrest,
        List.find?_cons_of_neg (by simpa using hlt)]
    · have hnone : samples.filter (fun s' => s'.t = t) = [] := by
        simp only [List.filter_eq_nil_iff, decide_eq_true_eq]
        intro s' hs'
        exact (hge.trans_lt (hs s' hs')).ne'
      rw [List.find?_cons_of_pos (by simpa using hge), List.filter_cons, hnone,
        Option.toList_some, List.filter_cons, List.filter_nil]

theorem appendPoints_yields (new : List Point) (out : List Point) (currentSamples : Nat) :
    Yields (fun maxSamples => new.foldlM (appendPoint maxSamples) (out, currentSamples))
      fun r => r.1 = out ++ new := by
  refine (Yields.foldlM (fun rest acc => acc.1 ++ rest = out ++ new) ?_ new rfl).mono ?_
  · rintro p rest ⟨acc, n⟩ hacc
    refine ⟨?_, n + 1, (acc ++ [p], n + 1), ?_⟩
    · intro limit r hr
      unfold appendPoint at hr
      split at hr
      · cases hr
      · cases hr
        rw [← hacc, List.append_assoc, List.singleton_append]
    · intro limit hle
      exact if_neg (by omega)
  · intro r hr
    rw [← hr, List.append_nil]

/-- What `retainPoints` keeps of an earlier window is the part of the next one up to some
time `mid`, and no point lies between that time and the end of the earlier window. -/
theorem retainPoints_window {pts : List Point} (h : Ascending Point.t pts) {lo hi mint maxt : Int}
    (hlo : lo ≤ mint) (hhi : hi < maxt) (hle : mint ≤ maxt) :
    ∃ mid, retainPoints mint (window Point.t lo hi pts) =
        (window Point.t mint mid pts, mid + 1) ∧
      mint ≤ mid + 1 ∧ mid < maxt ∧ ∀ p ∈ pts, mid < p.t → hi < p.t := by
  unfold retainPoints
  split
  · rename_i hnone
    have hempty := List.getLast?_eq_none_iff.mp hnone
    refine ⟨mint - 1, ?_, by omega, by omega, ?_⟩
    · rw [window_eq_nil fun p _ => by omega, sub_add_cancel]
    · intro p hp hmid
      by_contra hin
      have : p ∈ window Point.t lo hi pts := mem_window.mpr ⟨hp, by omega, by omega⟩
      rw [hempty] at this
      exact absurd this List.not_mem_nil
  · rename_i last hlast
    have hmax : ∀ p ∈ pts, lo ≤ p.t → p.t ≤ hi → p.t ≤ last.t := fun p hp h₁ h₂ =>
      le_of_getLast? (ascending_window h lo hi) hlast (mem_window.mpr ⟨hp, h₁, h₂⟩)
    obtain ⟨-, hlastLo, hlastHi⟩ := mem_window.mp (List.mem_of_getLast? hlast)
    split
    · rename_i hge
      refine ⟨last.t, ?_, by omega, by omega, ?_⟩
      · rw [dropWhile_lt (ascending_window h lo hi)]
        congr 1
        unfold window
        rw [List.filter_filter]
        apply List.filter_congr
        intro p hp
        have := hmax p hp
        simp only [← Bool.decide_and, decide_eq_decide]
        omega
      · intro p hp hmid
        by_contra hin
        have := hmax p hp (by omega) (by omega)
        omega
    · rename_i hlt
      refine ⟨mint - 1, ?_, by omega, by omega, ?_⟩
      · rw [window_eq_nil fun p _ => by omega, sub_add_cancel]
      · intro p hp hmid
        by_contra hin
        have := hmax p hp (by omega) (by omega)
        omega

section Slice

variable {B : BufferedSeriesIterator} {it : B.State} {samples : List Sample} {delta : Int}
  {last : Option Int} {maxt : Int}

theorem buffered_eq_window (hpos : B.Positioned it samples delta last)
    (hlast : ∀ t₀ ∈ last, t₀ ≤ maxt) (mid : Int)
    (hcover : ∀ p ∈ points samples, mid < p.t → p.t < maxt → maxt - delta ≤ p.t) :
    points ((B.buffer (B.seek it maxt).2).filter fun s => s.t ≥ mid + 1) =
      window Point.t (mid + 1) (maxt - 1) (points samples) := by
  obtain ⟨lo, hlo, hbuffer⟩ := B.seek_buffer hpos hlast
  rw [hbuffer, points_filter fun t => decide (t ≥ mid + 1),
    points_filter fun t => decide (lo ≤ t ∧ t < maxt), List.filter_filter]
  apply List.filter_congr
  intro p hp
  have := hcover p hp
  simp only [← Bool.decide_and, decide_eq_decide]
  omega

theorem current_eq_window (hincreasing : Increasing samples)
    (hpos : B.Positioned it samples delta last) (hlast : ∀ t₀ ∈ last, t₀ ≤ maxt) :
    (if (B.seek it maxt).1 then
        points ([B.values (B.seek it maxt).2].filter fun s => s.t = maxt) else []) =
      window Point.t (maxt - 1 + 1) maxt (points samples) := by
  have hfind := B.seek_values hpos hlast
  have hwindow : window Point.t (maxt - 1 + 1) maxt (points samples) =
      points (samples.filter fun s => s.t = maxt) := by
    rw [points_filter fun t => decide (t = maxt)]
    apply List.filter_congr
    intro p _
    rw [decide_eq_decide]
    omega
  rw [hwindow, filter_eq_find? hincreasing, hfind]
  split <;> rfl

theorem matrixIterSlice_yields (hincreasing : Increasing samples)
    (hpos : B.Positioned it samples delta last) (hlast : ∀ t₀ ∈ last, t₀ ≤ maxt)
    {lo hi mint : Int} (hlo : lo ≤ mint) (hhi : hi < maxt) (hle : mint ≤ maxt)
    (hcover : ∀ p ∈ points samples, mint ≤ p.t → hi < p.t → p.t < maxt → maxt - delta ≤ p.t)
    (currentSamples : Nat) :
    Yields (fun maxSamples => matrixIterSlice B maxSamples it mint maxt
        (window Point.t lo hi (points samples)) currentSamples)
      fun r => r.1 = window Point.t mint maxt (points samples) ∧ r.2.1 = (B.seek it maxt).2 := by
  have hascending := ascending_points hincreasing
  obtain ⟨mid, hretain, hmint, hmid, hgap⟩ := retainPoints_window hascending hlo hhi hle
  have hbuffered := buffered_eq_window hpos hlast mid fun p hp hlt =>
    hcover p hp (by omega) (hgap p hp hlt)
  have hcurrent := current_eq_window hincreasing hpos hlast
  unfold matrixIterSlice
  rw [hretain]
  dsimp only
  rw [hbuffered, hcurrent]
  refine (appendPoints_yields _ _ _).bind ?_
  rintro ⟨out, n⟩ hout
  refine (appendPoints_yields _ _ _).bind ?_
  rintro ⟨out', n'⟩ hout'
  refine Yields.pure ⟨?_, rfl⟩
  dsimp only at hout hout' ⊢
  rw [hout', hout, ← window_split hascending hmint (by omega),
    ← window_split hascending (by omega) (by omega)]

end Slice

section Steps

variable (c : RangeCall)

/-- The points of the window of a step. -/
def stepWindow (samples : List Sample) (ts : Int) : List Point :=
  window Point.t (ts - c.offset - c.selRange) (ts - c.offset) (points samples)

/-- The point that a step adds to the result, if any. -/
def stepPoint (samples : List Sample) (ts : Int) : Option Point :=
  if stepWindow c samples ts = [] then none
  else (c.call (stepWindow c samples ts) ts).map fun v => ⟨ts, v⟩

/-- The points of a series. -/
def seriesPoints (samples : List Sample) : List Point :=
  (ticks c.startTimestamp c.endTimestamp c.interval).filterMap (stepPoint c samples)

/-- A series of the result, absent if it has no point. -/
def seriesResult (series : StorageSeries) : Option Series :=
  if seriesPoints c series.samples = [] then none
  else some ⟨dropMetricName series.labels, seriesPoints c series.samples⟩

/-- The state before the step at `ts`. The points kept and the reach of the buffer leave no
gap in the window of the step. -/
def Ready {B : BufferedSeriesIterator} (samples : List Sample) (ts : Int) (st : Stepping B) :
    Prop :=
  ∃ delta last lo hi, B.Positioned st.it samples delta last ∧
    (∀ t₀ ∈ last, t₀ ≤ ts - c.offset) ∧ st.points = window Point.t lo hi (points samples) ∧
    lo ≤ ts - c.offset - c.selRange ∧ hi < ts - c.offset ∧
    (if c.selRange > c.interval then c.interval else c.selRange) ≤ delta ∧
    ∀ p ∈ points samples, ts - c.offset - c.selRange ≤ p.t → hi < p.t → p.t < ts - c.offset →
      ts - c.offset - delta ≤ p.t

variable {c} {B : BufferedSeriesIterator} {samples : List Sample}

theorem ready_next (hinterval : 0 < c.interval) {ts delta : Int} {st : Stepping B}
    (hpos : B.Positioned st.it samples delta (some (ts - c.offset)))
    (hpoints : st.points = stepWindow c samples ts)
    (hdelta : (if c.selRange > c.interval then c.interval else c.selRange) ≤ delta) :
    Ready c samples (ts + c.interval) st := by
  refine ⟨delta, _, _, _, hpos, ?_, hpoints, by omega, by omega, hdelta, ?_⟩
  · rintro t₀ ⟨⟩
    omega
  · intro p _ hmint hhi _
    split at hdelta <;> omega

theorem evalStep_yields (hinterval : 0 < c.interval) (hrange : 0 ≤ c.selRange)
    (hincreasing : Increasing samples) {ts : Int} {st : Stepping B} (h : Ready c samples ts st) :
    Yields (fun maxSamples => evalStep B maxSamples c st ts) fun st' =>
      Ready c samples (ts + c.interval) st' ∧
        st'.out = st.out ++ (stepPoint c samples ts).toList := by
  obtain ⟨delta, last, lo, hi, hpos, hlast, hpoints, hlo, hhi, hdelta, hcover⟩ := h
  unfold evalStep
  dsimp only
  rw [hpoints]
  refine (matrixIterSlice_yields hincreasing hpos hlast hlo hhi (by omega) hcover
    st.currentSamples).bind ?_
  rintro ⟨pts, it, n⟩ ⟨hpts, hit⟩
  have hpos' := B.positioned_seek hpos hlast
  dsimp only at hpts hit ⊢
  subst hpts hit
  change Yields (fun _ => if stepWindow c samples ts = [] then _ else _) _
  unfold stepPoint
  split
  · refine Yields.pure ⟨ready_next hinterval hpos' rfl hdelta, ?_⟩
    exact (List.append_nil _).symm
  · refine Yields.pure
      ⟨ready_next hinterval (B.positioned_reduceDelta hpos' hdelta) rfl le_rfl, ?_⟩
    change st.out ++ (c.call (stepWindow c samples ts) ts).toList.map _ = _
    rw [Option.toList_map]

theorem evalSteps_yields (hinterval : 0 < c.interval) (hrange : 0 ≤ c.selRange)
    (hincreasing : Increasing samples) (currentSamples : Nat) :
    Yields (fun maxSamples => (ticks c.startTimestamp c.endTimestamp c.interval).foldlM
        (evalStep B maxSamples c)
        { it := B.reset c.selRange samples, points := [], out := [], currentSamples })
      fun st => st.out = seriesPoints c samples := by
  refine (Yields.foldlM (fun rest st => ∃ ts, rest = ticks ts c.endTimestamp c.interval ∧
    Ready c samples ts st ∧ st.out ++ rest.filterMap (stepPoint c samples) =
      seriesPoints c samples) ?_ _ ⟨_, rfl, ?_, rfl⟩).mono ?_
  · rintro t rest st ⟨ts, hticks, hready, hout⟩
    rcases lt_or_ge c.endTimestamp ts with hlt | hge
    · rw [ticks_of_lt _ hlt] at hticks
      exact absurd hticks (List.cons_ne_nil _ _)
    · rw [ticks_of_le hinterval hge] at hticks
      obtain ⟨rfl, rfl⟩ := List.cons.inj hticks
      refine (evalStep_yields hinterval hrange hincreasing hready).mono ?_
      rintro st' ⟨hready', hout'⟩
      refine ⟨t + c.interval, rfl, hready', ?_⟩
      rw [hout', ← hout, List.append_assoc]
      cases hpoint : stepPoint c samples t with
      | none => rw [List.filterMap_cons_none hpoint, Option.toList_none, List.nil_append]
      | some p => rw [List.filterMap_cons_some hpoint, Option.toList_some, List.singleton_append]
  · refine ⟨c.selRange, none, c.startTimestamp - c.offset - c.selRange,
      c.startTimestamp - c.offset - c.selRange - 1, B.positioned_reset _ _, nofun, ?_, le_rfl,
      by omega, ?_, ?_⟩
    · exact (window_eq_nil fun p _ => by omega).symm
    · split <;> omega
    · intro p _ hmint _ _
      exact hmint
  · rintro st ⟨ts, -, -, hout⟩
    rw [← hout, List.filterMap_nil, List.append_nil]

theorem evalSeries_yields (hinterval : 0 < c.interval) (hrange : 0 ≤ c.selRange)
    {series : StorageSeries} (hincreasing : Increasing series.samples) (acc : Matrix × Nat) :
    Yields (fun maxSamples => evalSeries B maxSamples c acc series) fun r =>
      r.1 = acc.1 ++ (seriesResult c series).toList := by
  refine (evalSteps_yields hinterval hrange hincreasing acc.2).bind ?_
  intro st hst
  unfold seriesResult
  rw [← hst]
  split
  · exact Yields.pure (List.append_nil _).symm
  · refine ⟨?_, st.currentSamples + 1, _, fun limit hle => if_pos (by omega)⟩
    intro limit r hr
    split at hr
    · cases hr
      rfl
    · cases hr

/-- The result of a call over series with distinct labels: for each series, at each step,
the value of the function on the points of the step's window. -/
theorem evalCall_yields (hinterval : 0 < c.interval) (hrange : 0 ≤ c.selRange)
    {series : List StorageSeries} (hincreasing : ∀ s ∈ series, Increasing s.samples)
    (hdistinct : (series.map fun s => dropMetricName s.labels).Nodup) :
    Yields (fun maxSamples => evalCall B maxSamples c series) fun mat =>
      mat = series.filterMap (seriesResult c) := by
  refine (Yields.bind (P := fun r => r.1 = series.filterMap (seriesResult c)) ?_ ?_)
  · refine (Yields.foldlM (fun rest acc => (∀ s ∈ rest, Increasing s.samples) ∧
      acc.1 ++ rest.filterMap (seriesResult c) = series.filterMap (seriesResult c)) ?_ _
      ⟨hincreasing, rfl⟩).mono ?_
    · rintro s rest acc ⟨hrest, hacc⟩
      obtain ⟨hs, hrest⟩ := List.forall_mem_cons.mp hrest
      refine (evalSeries_yields hinterval hrange hs acc).mono ?_
      intro r hr
      refine ⟨hrest, ?_⟩
      rw [hr, ← hacc, List.append_assoc]
      cases hresult : seriesResult c s with
      | none => rw [List.filterMap_cons_none hresult, Option.toList_none, List.nil_append]
      | some m => rw [List.filterMap_cons_some hresult, Option.toList_some, List.singleton_append]
    · rintro r ⟨-, hr⟩
      rw [← hr, List.filterMap_nil, List.append_nil]
  · rintro ⟨mat, n⟩ hmat
    dsimp only at hmat ⊢
    have hsublist : (mat.map (·.metric)).Sublist (series.map fun s => dropMetricName s.labels) := by
      rw [hmat]
      clear hmat hdistinct hincreasing
      induction series with
      | nil => exact List.Sublist.slnil
      | cons s series ih =>
        unfold seriesResult at ih ⊢
        rw [List.filterMap_cons, List.map_cons]
        split
        · exact ih.cons _
        · rename_i m hm
          split at hm
          · cases hm
          · cases hm
            exact ih.cons_cons _
    have hnodup : (mat.map (·.metric)).Nodup := hdistinct.sublist hsublist
    have hsame : containsSameLabelset mat = false := by
      simpa [containsSameLabelset] using hnodup
    rw [hsame]
    exact Yields.pure hmat

end Steps

end TimescalePrometheus.Promql.EvaluatorWindows
