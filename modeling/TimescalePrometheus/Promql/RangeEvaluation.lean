import TimescalePrometheus.Lib.Grouping
import TimescalePrometheus.Lib.Transactions
import TimescalePrometheus.Promql.ReadRange

/-!
`rangeEval`, the loop behind operators, aggregations and functions of vectors: it walks the series
of the arguments in step and collects the results of each step into series.
-/

namespace TimescalePrometheus.Promql.RangeEvaluation

open Lib.Grouping Lib.Transactions Lib.Windows Promql.Syntax Promql.Functions Promql.Evaluator
open Promql.ReadRange Promql.TimeFilter

/-- The samples of one step. -/
abbrev Vector := List (Labels × ℚ)

/-- What is called at each step, with a vector for each argument. -/
abbrev StepFunction := List Vector → Int → Except EvalError Vector

/-- Only the first point that is left of a series is looked at, and it is passed once used. -/
def gatherSeries (ts : Int) (series : Series) : Option (Labels × ℚ) × Series :=
  match series.points with
  | [] => (none, series)
  | point :: points =>
    if point.t = ts then (some (series.metric, point.v), { series with points })
    else (none, series)

def gather (ts : Int) (mat : Matrix) : Vector := mat.filterMap fun s => (gatherSeries ts s).1

def advance (ts : Int) (mat : Matrix) : Matrix := mat.map fun s => (gatherSeries ts s).2

/-- The call of one step, and the check of its result. -/
def callStep (f : StepFunction) (ts : Int) (vectors : List Vector) : Except EvalError Vector := do
  let result ← f vectors ts
  if (result.map Prod.fst).Nodup then return result else throw .sameLabelset

/-- The steps of a range; `seriess` is the map of the output series. -/
def evalSteps (f : StepFunction) :
    List Int → List Matrix → Groups Labels Point → Except EvalError (Groups Labels Point)
  | [], _, seriess => .ok seriess
  | ts :: rest, matrixes, seriess => do
    let result ← callStep f ts (matrixes.map (gather ts))
    evalSteps f rest (matrixes.map (advance ts))
      (seriess.collect Prod.fst (fun sample => ⟨ts, sample.2⟩) result)

/-- The values of the arguments are given. `order` is the order in which Go walks the map; a query
for one time keeps the order of its result. -/
def rangeEval (order : Matrix → Matrix) (ev : Evaluator) (f : StepFunction)
    (matrixes : List Matrix) : Except EvalError Matrix :=
  if ev.endTimestamp = ev.startTimestamp then do
    let result ← callStep f ev.startTimestamp (matrixes.map (gather ev.startTimestamp))
    return result.map fun sample => ⟨sample.1, [⟨ev.startTimestamp, sample.2⟩]⟩
  else do
    let seriess ← evalSteps f ev.steps matrixes (Groups.empty Labels Point)
    return order (seriess.entries.map fun entry => ⟨entry.1, entry.2⟩)

/-- The samples of a matrix at a time. -/
def column (ts : Int) (mat : Matrix) : Vector :=
  mat.filterMap fun s => (s.points.find? fun p => p.t = ts).map fun p => (s.metric, p.v)

/-- Each label set has one series, whose points are at some of the steps, in their order. -/
structure Within (steps : List Int) (mat : Matrix) : Prop where
  nodup : (mat.map (·.metric)).Nodup
  points : ∀ s ∈ mat, (s.points.map (·.t)).Sublist steps

theorem gatherSeries_spec {ts : Int} {rest : List Int} (hts : ts ∉ rest) {s : Series}
    (hs : (s.points.map (·.t)).Sublist (ts :: rest)) :
    (gatherSeries ts s).1 = (s.points.find? fun p => p.t = ts).map (fun p => (s.metric, p.v)) ∧
      (gatherSeries ts s).2.metric = s.metric ∧
      ((gatherSeries ts s).2.points.map (·.t)).Sublist rest ∧
      ∀ ts' ∈ rest, ((gatherSeries ts s).2.points.find? fun p => p.t = ts') =
        s.points.find? fun p => p.t = ts' := by
  obtain ⟨metric, points⟩ := s
  cases points with
  | nil => simp [gatherSeries]
  | cons point points =>
    by_cases hpoint : point.t = ts
    · subst hpoint
      have hne : ∀ ts' ∈ rest, point.t ≠ ts' := fun ts' h heq => hts (heq ▸ h)
      simpa +contextual [gatherSeries, hne] using hs
    · have hrest : ((point :: points).map (·.t)).Sublist rest := by
        cases hs with
        | cons _ h => exact h
        | cons_cons => exact absurd rfl hpoint
      have hfind : ((point :: points).find? fun p => p.t = ts) = none := by
        rw [List.find?_eq_none]
        intro p hp
        simpa using fun heq : p.t = ts =>
          hts (heq ▸ hrest.subset (List.mem_map_of_mem hp))
      simpa [gatherSeries, hpoint, hfind] using hrest

variable {steps rest : List Int} {ts : Int} {mat : Matrix}

theorem Within.advance (hts : ts ∉ rest) (h : Within (ts :: rest) mat) :
    Within rest (advance ts mat) where
  nodup := by
    have hmetric : (RangeEvaluation.advance ts mat).map (·.metric) = mat.map (·.metric) := by
      rw [RangeEvaluation.advance, List.map_map]
      exact List.map_congr_left fun s hs => (gatherSeries_spec hts (h.points s hs)).2.1
    exact hmetric ▸ h.nodup
  points := by
    rw [RangeEvaluation.advance, List.forall_mem_map]
    exact fun s hs => (gatherSeries_spec hts (h.points s hs)).2.2.1

theorem column_advance (hts : ts ∉ rest) (h : Within (ts :: rest) mat) {ts' : Int}
    (hts' : ts' ∈ rest) : column ts' (advance ts mat) = column ts' mat := by
  rw [column, advance, List.filterMap_map]
  refine List.filterMap_congr fun s hs => ?_
  obtain ⟨-, hmetric, -, hfind⟩ := gatherSeries_spec hts (h.points s hs)
  simp only [Function.comp, hmetric, hfind ts' hts']

/-- The output series of a label set: its samples in the results, step by step. -/
def outputPoints (results : Int → Vector) (steps : List Int) (metric : Labels) : List Point :=
  steps.flatMap fun ts =>
    ((results ts).filter fun sample => sample.1 = metric).map fun sample => ⟨ts, sample.2⟩

theorem map_gather (hts : ts ∉ rest) {matrixes : List Matrix}
    (h : ∀ m ∈ matrixes, Within (ts :: rest) m) :
    matrixes.map (gather ts) = matrixes.map (column ts) :=
  List.map_congr_left fun m hm =>
    List.filterMap_congr fun s hs => (gatherSeries_spec hts ((h m hm).points s hs)).1

theorem callStep_eq_ok {f : StepFunction} {vectors : List Vector} {result : Vector} :
    callStep f ts vectors = .ok result ↔
      f vectors ts = .ok result ∧ (result.map Prod.fst).Nodup := by
  rw [callStep, except_bind_eq_ok]
  constructor
  · rintro ⟨r, hf, h⟩
    split at h
    · rename_i hnodup
      cases h
      exact ⟨hf, hnodup⟩
    · cases h
  · rintro ⟨hf, hnodup⟩
    exact ⟨result, hf, if_pos hnodup⟩

theorem evalSteps_spec {f : StepFunction} {matrixes : List Matrix} (hsteps : steps.Nodup)
    (h : ∀ m ∈ matrixes, Within steps m) (g : Groups Labels Point) :
    (∀ g', evalSteps f steps matrixes g = .ok g' →
      ∀ ts ∈ steps, ∃ result, callStep f ts (matrixes.map (column ts)) = .ok result) ∧
    ∀ results, (∀ ts ∈ steps, callStep f ts (matrixes.map (column ts)) = .ok (results ts)) →
      ∃ g', evalSteps f steps matrixes g = .ok g' ∧
        ∀ metric, g'.get metric = g.get metric ++ outputPoints results steps metric := by
  induction steps generalizing matrixes g with
  | nil => exact ⟨by simp, fun _ _ => ⟨g, rfl, by simp [outputPoints]⟩⟩
  | cons ts rest ih =>
    obtain ⟨hts, hrest⟩ := List.nodup_cons.mp hsteps
    have hsame : ∀ ts' ∈ rest, (matrixes.map (advance ts)).map (column ts') =
        matrixes.map (column ts') := by
      intro ts' hts'
      rw [List.map_map]
      exact List.map_congr_left fun m hm => column_advance hts (h m hm) hts'
    have hadvance : ∀ m ∈ matrixes.map (advance ts), Within rest m :=
      List.forall_mem_map.mpr fun m hm => (h m hm).advance hts
    simp only [evalSteps, map_gather hts h, except_bind_eq_ok, List.forall_mem_cons]
    constructor
    · rintro g' ⟨result, hresult, hrun⟩
      refine ⟨⟨result, hresult⟩, fun ts' hts' => ?_⟩
      exact hsame ts' hts' ▸ (ih hrest hadvance _).1 g' hrun ts' hts'
    · rintro results ⟨hresult, hresults⟩
      obtain ⟨g', hrun, hget⟩ := (ih hrest hadvance _).2 results fun ts' hts' =>
        (hsame ts' hts').symm ▸ hresults ts' hts'
      refine ⟨g', ⟨_, hresult, hrun⟩, fun metric => ?_⟩
      rw [hget, Groups.get_collect, List.append_assoc]
      rfl

theorem mem_column (h : Within steps mat) (hsteps : steps.Nodup) {metric : Labels} {v : ℚ} :
    (metric, v) ∈ column ts mat ↔ ∃ s ∈ mat, s.metric = metric ∧ ⟨ts, v⟩ ∈ s.points := by
  simp only [column, List.mem_filterMap, Option.map_eq_some_iff, Prod.mk.injEq]
  constructor
  · rintro ⟨s, hs, ⟨t, v⟩, hfind, rfl, rfl⟩
    obtain rfl : t = ts := by simpa using List.find?_some hfind
    exact ⟨s, hs, rfl, List.mem_of_find?_eq_some hfind⟩
  · rintro ⟨s, hs, rfl, hp⟩
    cases hfind : s.points.find? fun p => p.t = ts with
    | none => simpa using List.find?_eq_none.mp hfind _ hp
    | some p =>
      have ht : p.t = ts := by simpa using List.find?_some hfind
      have heq := List.inj_on_of_nodup_map ((h.points s hs).nodup hsteps)
        (List.mem_of_find?_eq_some hfind) hp ht
      exact ⟨s, hs, p, hfind, rfl, by rw [heq]⟩

theorem column_sublist (ts : Int) (mat : Matrix) :
    ((column ts mat).map Prod.fst).Sublist (mat.map (·.metric)) := by
  induction mat with
  | nil => exact List.Sublist.refl _
  | cons s mat ih =>
    simp only [column, List.filterMap_cons]
    cases s.points.find? fun p => p.t = ts with
    | none => exact ih.cons _
    | some p => exact ih.cons_cons _

theorem column_perm (h : Within steps mat) (hsteps : steps.Nodup) {result : Vector}
    (hresult : (result.map Prod.fst).Nodup) (hmem : ∀ metric v,
      (∃ s ∈ mat, s.metric = metric ∧ ⟨ts, v⟩ ∈ s.points) ↔ (metric, v) ∈ result) :
    (column ts mat).Perm result := by
  rw [List.perm_ext_iff_of_nodup (((column_sublist ts mat).nodup h.nodup).of_map _)
    (hresult.of_map _)]
  rintro ⟨metric, v⟩
  rw [mem_column h hsteps, hmem]

section Output

variable {results : Int → Vector}

theorem mem_outputPoints {metric : Labels} {v : ℚ} :
    ⟨ts, v⟩ ∈ outputPoints results steps metric ↔ ts ∈ steps ∧ (metric, v) ∈ results ts := by
  simp only [outputPoints, List.mem_flatMap, List.mem_map, List.mem_filter, decide_eq_true_eq,
    Point.mk.injEq, Prod.exists]
  constructor
  · rintro ⟨ts, hts, metric, v, ⟨hmem, rfl⟩, rfl, rfl⟩
    exact ⟨hts, hmem⟩
  · rintro ⟨hts, hmem⟩
    exact ⟨ts, hts, metric, v, ⟨hmem, rfl⟩, rfl, rfl⟩

theorem outputPoints_sublist (hresults : ∀ ts ∈ steps, ((results ts).map Prod.fst).Nodup)
    (metric : Labels) : ((outputPoints results steps metric).map (·.t)).Sublist steps := by
  induction steps with
  | nil => exact List.Sublist.refl _
  | cons ts rest ih =>
    rw [List.forall_mem_cons] at hresults
    rw [outputPoints, List.flatMap_cons, List.map_append]
    refine @List.Sublist.append _ _ [ts] _ _ ?_ (ih hresults.2)
    -- a label set has at most one sample in a result
    have hblock : ((results ts).filter fun sample => sample.1 = metric).map Prod.fst =
        List.replicate ((results ts).filter fun sample => sample.1 = metric).length metric := by
      rw [List.eq_replicate_iff]
      simp
    have hlen : (((results ts).filter fun sample => sample.1 = metric).map Prod.fst).Nodup :=
      (List.filter_sublist.map Prod.fst).nodup hresults.1
    rw [hblock, List.nodup_replicate] at hlen
    rw [List.map_map]
    change (List.map (fun _ => ts) _).Sublist (List.replicate 1 ts)
    rw [List.map_const', List.replicate_sublist_replicate]
    exact hlen

theorem within_output (hresults : ∀ ts ∈ steps, ((results ts).map Prod.fst).Nodup)
    {g : Groups Labels Point} (hg : ∀ metric, g.get metric = outputPoints results steps metric)
    (hmat : mat.Perm (g.entries.map fun entry => ⟨entry.1, entry.2⟩)) :
    Within steps mat ∧ ∀ ts ∈ steps, ∀ metric v,
      (∃ s ∈ mat, s.metric = metric ∧ ⟨ts, v⟩ ∈ s.points) ↔ (metric, v) ∈ results ts := by
  have hmem : ∀ s, s ∈ mat ↔ ∃ entry ∈ g.entries, (⟨entry.1, entry.2⟩ : Series) = s := by
    intro s
    rw [hmat.mem_iff, List.mem_map]
  have hentry : ∀ entry ∈ g.entries, entry.2 = outputPoints results steps entry.1 :=
    fun entry h => (Groups.get_of_mem h).symm.trans (hg entry.1)
  refine ⟨⟨?_, ?_⟩, fun ts hts metric v => ?_⟩
  · rw [(hmat.map _).nodup_iff, List.map_map]
    exact g.nodup
  · intro s hs
    obtain ⟨entry, he, rfl⟩ := (hmem s).mp hs
    exact hentry entry he ▸ outputPoints_sublist hresults entry.1
  · constructor
    · rintro ⟨s, hs, rfl, hp⟩
      obtain ⟨entry, he, rfl⟩ := (hmem s).mp hs
      exact (mem_outputPoints.mp (hentry entry he ▸ hp)).2
    · intro hv
      obtain ⟨entry, he, rfl, hp⟩ := Groups.exists_entry_of_mem_elementsOf
        (hg metric ▸ mem_outputPoints.mpr ⟨hts, hv⟩ : _ ∈ g.get metric)
      exact ⟨_, (hmem _).mpr ⟨entry, he, rfl⟩, rfl, hp⟩

end Output

theorem rangeEval_spec {order : Matrix → Matrix} (horder : ∀ mat, (order mat).Perm mat)
    {ev : Evaluator} (hinterval : 0 < ev.interval) {f : StepFunction} {matrixes : List Matrix}
    (h : ∀ m ∈ matrixes, Within ev.steps m) :
    ((∃ out, rangeEval order ev f matrixes = .ok out) ↔
      ∀ ts ∈ ev.steps, ∃ result, callStep f ts (matrixes.map (column ts)) = .ok result) ∧
    ∀ out, rangeEval order ev f matrixes = .ok out → Within ev.steps out ∧
      ∀ ts ∈ ev.steps, ∀ result, callStep f ts (matrixes.map (column ts)) = .ok result →
        (column ts out).Perm result := by
  have hsteps : ev.steps.Nodup := (steps_pairwise hinterval.le).imp ne_of_lt
  unfold rangeEval
  split
  · rename_i hinstant
    have hone : ev.steps = [ev.startTimestamp] := by
      rw [Evaluator.steps, if_neg hinterval.ne', hinstant, ticks_self]
    rw [hone] at h ⊢
    rw [map_gather List.not_mem_nil h]
    cases hresult : callStep f ev.startTimestamp (matrixes.map (column ev.startTimestamp)) with
    | error err => simp [Bind.bind, Except.bind, hresult]
    | ok result =>
      have hnodup := (callStep_eq_ok.mp hresult).2
      have hwithin : Within [ev.startTimestamp] (result.map fun sample =>
          ⟨sample.1, [⟨ev.startTimestamp, sample.2⟩]⟩) :=
        ⟨by simpa [Function.comp_def] using hnodup,
          List.forall_mem_map.mpr fun _ _ => List.Sublist.refl _⟩
      refine ⟨by simp [Bind.bind, Except.bind, Pure.pure, Except.pure, hresult], ?_⟩
      rintro out ⟨⟩
      refine ⟨hwithin, ?_⟩
      simp only [List.mem_singleton]
      rintro ts rfl result' hresult'
      obtain rfl := Except.ok.inj (hresult.symm.trans hresult')
      exact column_perm hwithin (List.nodup_singleton _) hnodup (by simp)
  · obtain ⟨hall, hreturns⟩ := evalSteps_spec (f := f) hsteps h (Groups.empty Labels Point)
    cases hrun : evalSteps f ev.steps matrixes (Groups.empty Labels Point) with
    | error err =>
      refine ⟨⟨nofun, fun hall => ?_⟩, nofun⟩
      choose! results hresults using hall
      obtain ⟨g, hg, -⟩ := hreturns results hresults
      cases hrun.symm.trans hg
    | ok g =>
      choose! results hresults using hall g hrun
      obtain ⟨_, hg, hget⟩ := hreturns results hresults
      obtain rfl := Except.ok.inj (hrun.symm.trans hg)
      have hnodup := fun ts hts => (callStep_eq_ok.mp (hresults ts hts)).2
      refine ⟨⟨fun _ ts hts => ⟨_, hresults ts hts⟩, fun _ => ⟨_, rfl⟩⟩, ?_⟩
      rintro out ⟨⟩
      obtain ⟨hwithin, hmem⟩ := within_output hnodup hget (horder _)
      refine ⟨hwithin, fun ts hts result hresult => ?_⟩
      obtain rfl := Except.ok.inj ((hresults ts hts).symm.trans hresult)
      exact column_perm hwithin hsteps (hnodup ts hts) (hmem ts hts)

/-- The evaluator of an instant query. -/
def instant (ev : Evaluator) (ts : Int) : Evaluator :=
  { ev with startTimestamp := ts, endTimestamp := ts }

/-- The order of the samples in the arguments matters only for the order of those in the result. -/
def OrderFree (f : StepFunction) : Prop :=
  ∀ ts args args' result, List.Forall₂ List.Perm args args' → f args ts = .ok result →
    ∃ result', f args' ts = .ok result' ∧ result.Perm result'

theorem OrderFree.callStep {f : StepFunction} (hf : OrderFree f) {args args' : List Vector}
    (h : List.Forall₂ List.Perm args args') {result : Vector}
    (hresult : RangeEvaluation.callStep f ts args = .ok result) :
    ∃ result', RangeEvaluation.callStep f ts args' = .ok result' ∧ result.Perm result' := by
  obtain ⟨hf₁, hnodup⟩ := callStep_eq_ok.mp hresult
  obtain ⟨result', hf₂, hperm⟩ := hf ts args args' result h hf₁
  exact ⟨result', callStep_eq_ok.mpr ⟨hf₂, ((hperm.map _).nodup_iff).mp hnodup⟩, hperm⟩

/-- What an expression has over a range agrees at a time with what an instant query returns for it:
the same samples, in some order. -/
abbrev Agree (ts : Int) (mat mat' : Matrix) : Prop := (column ts mat).Perm (column ts mat')

/-- If the arguments agree with those of instant queries at each step, so do the results, and the
range query fails exactly if one of the instant queries fails. -/
theorem rangeEval_agrees {order : Matrix → Matrix} (horder : ∀ mat, (order mat).Perm mat)
    {ev : Evaluator} (hinterval : 0 < ev.interval) {f : StepFunction} (hf : OrderFree f)
    {matrixes : List Matrix} (h : ∀ m ∈ matrixes, Within ev.steps m) {instants : Int → List Matrix}
    (hwithin : ∀ ts ∈ ev.steps, ∀ m ∈ instants ts, Within [ts] m)
    (hagree : ∀ ts ∈ ev.steps, List.Forall₂ (Agree ts) matrixes (instants ts)) :
    ((∃ out, rangeEval order ev f matrixes = .ok out) ↔
      ∀ ts ∈ ev.steps, ∃ out, rangeEval order (instant ev ts) f (instants ts) = .ok out) ∧
    ∀ out, rangeEval order ev f matrixes = .ok out → Within ev.steps out ∧
      ∀ ts ∈ ev.steps, ∀ out', rangeEval order (instant ev ts) f (instants ts) = .ok out' →
        Within [ts] out' ∧ Agree ts out out' := by
  obtain ⟨hreturns, hout⟩ := rangeEval_spec horder hinterval (f := f) h
  have hone : ∀ ts, (instant ev ts).steps = [ts] := fun ts =>
    (if_neg hinterval.ne').trans (ticks_self ts ev.interval)
  -- an instant query makes the call of its step on the same samples
  have hinstant : ∀ ts ∈ ev.steps, _ := fun ts hts => rangeEval_spec horder
    (show 0 < (instant ev ts).interval from hinterval) (f := f) (hone ts ▸ hwithin ts hts)
  simp only [hone, List.mem_singleton, forall_eq] at hinstant
  have hcolumns : ∀ ts ∈ ev.steps, List.Forall₂ List.Perm (matrixes.map (column ts))
      ((instants ts).map (column ts)) := fun ts hts =>
    List.forall₂_map_left_iff.mpr (List.forall₂_map_right_iff.mpr (hagree ts hts))
  constructor
  · rw [hreturns]
    refine forall₂_congr fun ts hts => ?_
    rw [(hinstant ts hts).1]
    constructor
    · rintro ⟨result, hresult⟩
      obtain ⟨result', hresult', -⟩ := hf.callStep (hcolumns ts hts) hresult
      exact ⟨result', hresult'⟩
    · rintro ⟨result', hresult'⟩
      obtain ⟨result, hresult, -⟩ := hf.callStep
        ((hcolumns ts hts).flip.imp fun _ _ => List.Perm.symm) hresult'
      exact ⟨result, hresult⟩
  · intro out hrange
    obtain ⟨hwithin', hperm⟩ := hout out hrange
    refine ⟨hwithin', fun ts hts out' hout' => ?_⟩
    obtain ⟨hwithin'', hperm'⟩ := (hinstant ts hts).2 out' hout'
    obtain ⟨result, hresult⟩ := hreturns.mp ⟨out, hrange⟩ ts hts
    obtain ⟨result', hresult', hsame⟩ := hf.callStep (hcolumns ts hts) hresult
    exact ⟨hwithin'', ((hperm ts hts result hresult).trans hsame).trans
      (hperm' result' hresult').symm⟩

theorem rangeEval_agrees_constant :
    let ev : Evaluator := ⟨0, 1, 1, 0, 0⟩
    let f : StepFunction := fun args _ => .ok args.flatten
    let constant (steps : List Int) : List Matrix := [[⟨[], steps.map (⟨·, 5⟩)⟩]]
    (∃ out, rangeEval id ev f (constant [0, 1]) = .ok out) ∧
    ∀ out, rangeEval id ev f (constant [0, 1]) = .ok out → Within ev.steps out ∧
      ∀ ts ∈ ev.steps, ∀ out', rangeEval id (instant ev ts) f (constant [ts]) = .ok out' →
        Within [ts] out' ∧ Agree ts out out' := by
  intro ev f constant
  have hsteps : ev.steps = [0, 1] := by decide
  have hwithin : ∀ steps, ∀ m ∈ constant steps, Within steps m := by
    intro steps m hm
    cases List.mem_singleton.mp hm
    exact ⟨by simp, by simp [Function.comp_def]⟩
  refine ⟨⟨_, rfl⟩, (rangeEval_agrees (fun _ => .refl _) (by decide)
    (fun _ _ _ _ h hf => ⟨_, rfl, Except.ok.inj hf ▸ .flatten_congr h⟩) (hsteps ▸ hwithin _)
    (fun ts _ => hwithin [ts]) ?_).2⟩
  simp [hsteps, constant, Agree, column]

end TimescalePrometheus.Promql.RangeEvaluation
