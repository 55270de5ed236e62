import TimescalePrometheus.Promql.Gapfill

/-!
What an aggregate returns. The values already computed together with those still owed for
the points to come are conserved by every step, so that the final array holds one value
for each window.
-/

namespace TimescalePrometheus.Promql.GapfillWindows

open Lib.Windows Promql.Functions Promql.Gapfill Promql.Gapfill.GapfillDeltaTransition

/-- The state of an aggregate between two rows. -/
structure Inv (s : GapfillDeltaTransition) : Prop where
  step_pos : 0 < s.stepSize
  min_eq : s.currentWindowMin = s.currentWindowMax - s.range
  mem : ∀ p ∈ s.window, s.currentWindowMin ≤ p.t ∧ p.t ≤ s.currentWindowMax
  ascending : Ascending Point.t s.window

/-- The value of the window that ends at `windowEnd`. -/
def valueAt (s : GapfillDeltaTransition) (all : List Point) (windowEnd : Int) : Option ℚ :=
  windowDelta s.isCounter s.isRate s.range (windowEnd - s.range) windowEnd
    (window Point.t (windowEnd - s.range) windowEnd all)

/-- The values computed so far, and those of the windows still to come if the points of
`rest` are added. -/
def total (s : GapfillDeltaTransition) (rest : List Point) : List (Option ℚ) :=
  s.deltas ++
    (ticks s.currentWindowMax s.greatestTime s.stepSize).map (valueAt s (s.window ++ rest))

theorem flush_window {s : GapfillDeltaTransition} (h : Inv s) :
    s.flushCurrentWindow.window =
      s.window.filter fun p => s.currentWindowMin + s.stepSize ≤ p.t :=
  dropWhile_lt h.ascending _

theorem flush_inv {s : GapfillDeltaTransition} (h : Inv s) : Inv s.flushCurrentWindow where
  step_pos := h.step_pos
  min_eq := by
    change s.currentWindowMin + s.stepSize = s.currentWindowMax + s.stepSize - s.range
    rw [h.min_eq]
    ring
  mem := by
    intro p hp
    rw [flush_window h, List.mem_filter, decide_eq_true_eq] at hp
    have hmax := (h.mem p hp.1).2
    have hstep := h.step_pos
    exact ⟨hp.2, show p.t ≤ s.currentWindowMax + s.stepSize by omega⟩
  ascending := h.ascending.sublist (List.dropWhile_sublist _)

theorem flush_total {s : GapfillDeltaTransition} (h : Inv s)
    (hmax : s.currentWindowMax ≤ s.greatestTime) {rest : List Point}
    (hrest : ∀ p ∈ rest, s.currentWindowMax < p.t) :
    total s.flushCurrentWindow rest = total s rest := by
  have hcurrent : valueAt s (s.window ++ rest) s.currentWindowMax =
      windowDelta s.isCounter s.isRate s.range s.currentWindowMin s.currentWindowMax
        s.window := by
    unfold valueAt
    rw [window_append, window_eq_nil fun p hp => .inr (hrest p hp), List.append_nil, ← h.min_eq,
      window_eq_self h.mem]
  have hlater : ∀ windowEnd ∈ ticks (s.currentWindowMax + s.stepSize) s.greatestTime s.stepSize,
      valueAt s.flushCurrentWindow (s.flushCurrentWindow.window ++ rest) windowEnd =
        valueAt s (s.window ++ rest) windowEnd := by
    intro windowEnd hmem
    have hle := first_le_of_mem_ticks h.step_pos hmem
    have hmin := h.min_eq
    change valueAt s (s.flushCurrentWindow.window ++ rest) windowEnd = _
    unfold valueAt
    rw [flush_window h, window_append, window_append, window_filter_le (by omega)]
  calc total s.flushCurrentWindow rest
      = (s.deltas ++ [valueAt s (s.window ++ rest) s.currentWindowMax]) ++
          (ticks (s.currentWindowMax + s.stepSize) s.greatestTime s.stepSize).map
            (valueAt s.flushCurrentWindow (s.flushCurrentWindow.window ++ rest)) := by
        rw [hcurrent]
        rfl
    _ = total s rest := by
        rw [List.map_congr_left hlater, total, ticks_of_le h.step_pos hmax, List.map_cons,
          List.append_assoc, List.singleton_append]

/-- A loop of flushes that runs as long as the window ends before a time, and with enough
rounds, ends there. -/
structure Flushed (more : GapfillDeltaTransition → Bool) (rest : List Point)
    (s s' : GapfillDeltaTransition) : Prop where
  inv : Inv s'
  total_eq : total s' rest = total s rest
  greatest_eq : s'.greatestTime = s.greatestTime
  sublist : s'.window.Sublist s.window
  done : more s' = false

theorem flushWhile_flushed {more : GapfillDeltaTransition → Bool} {rest : List Point}
    {bound : Int} (fuel : Nat) (s : GapfillDeltaTransition) (h : Inv s)
    (hmore : ∀ s' : GapfillDeltaTransition, s'.greatestTime = s.greatestTime → more s' = true →
      s'.currentWindowMax ≤ bound ∧ s'.currentWindowMax ≤ s'.greatestTime ∧
        ∀ p ∈ rest, s'.currentWindowMax < p.t)
    (hfuel : bound < s.currentWindowMax + fuel * s.stepSize) :
    Flushed more rest s (flushWhile more fuel s) := by
  induction fuel generalizing s with
  | zero =>
    refine ⟨h, rfl, rfl, List.Sublist.refl _, ?_⟩
    rw [flushWhile, Bool.eq_false_iff]
    intro hcontinues
    have := (hmore s rfl hcontinues).1
    simp only [Nat.cast_zero, zero_mul, add_zero] at hfuel
    omega
  | succ fuel ih =>
    unfold flushWhile
    split
    · rename_i hcontinues
      obtain ⟨-, hmax, hrest⟩ := hmore s rfl hcontinues
      have hfuel' : bound < s.flushCurrentWindow.currentWindowMax +
          fuel * s.flushCurrentWindow.stepSize := by
        change bound < s.currentWindowMax + s.stepSize + fuel * s.stepSize
        rw [Nat.cast_succ, add_mul, one_mul] at hfuel
        omega
      have hflushed := ih s.flushCurrentWindow (flush_inv h) hmore hfuel'
      exact ⟨hflushed.inv, hflushed.total_eq.trans (flush_total h hmax hrest),
        hflushed.greatest_eq, hflushed.sublist.trans (List.dropWhile_sublist _),
        hflushed.done⟩
    · rename_i hdone
      exact ⟨h, rfl, rfl, List.Sublist.refl _, by simpa using hdone⟩

theorem lt_add_rounds {s : GapfillDeltaTransition} (h : Inv s) (time : Int) :
    time < s.currentWindowMax + (s.rounds time : Int) * s.stepSize := by
  have hlt : time - s.currentWindowMax < ((time - s.currentWindowMax) / s.stepSize + 1) *
      s.stepSize := Int.lt_ediv_add_one_mul_self _ h.step_pos
  have hle : (time - s.currentWindowMax) / s.stepSize + 1 ≤ (s.rounds time : Int) := by
    unfold rounds
    omega
  have := Int.mul_le_mul_of_nonneg_right hle h.step_pos.le
  omega

theorem total_cons_of_lt {s : GapfillDeltaTransition} (h : Inv s) {p : Point}
    (hp : p.t < s.currentWindowMin) (rest : List Point) : total s (p :: rest) = total s rest := by
  unfold total
  congr 1
  apply List.map_congr_left
  intro windowEnd hmem
  have hle := first_le_of_mem_ticks h.step_pos hmem
  have hmin := h.min_eq
  have hout : window Point.t (windowEnd - s.range) windowEnd [p] = [] :=
    window_eq_nil (List.forall_mem_singleton.mpr (.inl (by omega)))
  rw [valueAt, valueAt, ← List.singleton_append, window_append, window_append, hout,
    List.nil_append, window_append]

theorem push_inv {s : GapfillDeltaTransition} (h : Inv s) {p : Point}
    (hp : s.currentWindowMin ≤ p.t ∧ p.t ≤ s.currentWindowMax)
    (hseen : ∀ q ∈ s.window, q.t ≤ p.t) : Inv { s with window := s.window ++ [p] } where
  step_pos := h.step_pos
  min_eq := h.min_eq
  mem := List.forall_mem_append.mpr ⟨h.mem, List.forall_mem_singleton.mpr hp⟩
  ascending := by
    refine List.pairwise_append.mpr ⟨h.ascending, List.pairwise_singleton _ _, ?_⟩
    intro q hq
    exact List.forall_mem_singleton.mpr (hseen q hq)

theorem addDataPoint_total {s : GapfillDeltaTransition} (h : Inv s) {time : Int} (val : ℚ)
    {rest : List Point} (htime : time ≤ s.greatestTime) (hseen : ∀ p ∈ s.window, p.t ≤ time)
    (hrest : ∀ p ∈ rest, time ≤ p.t) :
    ∃ s', s.addDataPoint time (some val) = .ok s' ∧ Inv s' ∧
      total s' rest = total s (⟨time, val⟩ :: rest) ∧ s'.greatestTime = s.greatestTime ∧
      ∀ p ∈ s'.window, p.t ≤ time := by
  have hflushed : Flushed (fun s => !s.inCurrentWindow time) (⟨time, val⟩ :: rest) s
      (flushWhile (fun s => !s.inCurrentWindow time) (s.rounds time) s) := by
    refine flushWhile_flushed _ s h ?_ (lt_add_rounds h time)
    intro s' hgreatest hmore
    simp only [inCurrentWindow, Bool.not_eq_true', decide_eq_false_iff_not, not_le] at hmore
    refine ⟨hmore.le, by omega, ?_⟩
    intro p hp
    rcases List.mem_cons.mp hp with rfl | hp
    · exact hmore
    · exact hmore.trans_le (hrest p hp)
  unfold addDataPoint
  dsimp only
  generalize flushWhile _ _ s = s₁ at hflushed
  have hseen₁ : ∀ p ∈ s₁.window, p.t ≤ time := fun p hp => hseen p (hflushed.sublist.subset hp)
  have hin : time ≤ s₁.currentWindowMax := by
    simpa [inCurrentWindow] using hflushed.done
  rw [if_neg]
  · split
    · rename_i hmin
      refine ⟨_, rfl, push_inv hflushed.inv ⟨hmin, hin⟩ hseen₁, ?_, hflushed.greatest_eq, ?_⟩
      · rw [← hflushed.total_eq]
        unfold total
        rw [List.append_assoc, List.singleton_append]
        rfl
      · exact List.forall_mem_append.mpr ⟨hseen₁, List.forall_mem_singleton.mpr le_rfl⟩
    · rename_i hmin
      refine ⟨s₁, rfl, hflushed.inv, ?_, hflushed.greatest_eq, hseen₁⟩
      rw [← hflushed.total_eq, total_cons_of_lt hflushed.inv (not_le.mp hmin)]
  · simp only [Option.any_eq_true, decide_eq_true_eq, not_exists, not_and, not_lt]
    intro p hp
    exact hseen₁ p (List.mem_of_getLast? hp)

theorem toPgArray_eq_total {s : GapfillDeltaTransition} (h : Inv s) :
    s.toPgArray = total s [] := by
  have hflushed : Flushed (fun s => s.currentWindowMax ≤ s.greatestTime) [] s
      (flushWhile (fun s => s.currentWindowMax ≤ s.greatestTime) (s.rounds s.greatestTime) s) := by
    refine flushWhile_flushed _ s h ?_ (lt_add_rounds h _)
    intro s' hgreatest hmore
    rw [decide_eq_true_eq] at hmore
    exact ⟨hgreatest ▸ hmore, hmore, List.forall_mem_nil _⟩
  rw [toPgArray, ← hflushed.total_eq, total, ticks_of_lt, List.map_nil, List.append_nil]
  simpa using hflushed.done

/-- The points of a group, added one after the other. -/
def addDataPoints (s : GapfillDeltaTransition) (points : List Point) :
    Except AggregateError GapfillDeltaTransition :=
  points.foldlM (fun s p => s.addDataPoint p.t (some p.v)) s

theorem addDataPoints_total {s : GapfillDeltaTransition} (h : Inv s) {points : List Point}
    (hpoints : ∀ p ∈ points, p.t ≤ s.greatestTime) (hascending : Ascending Point.t points)
    (hseen : ∀ p ∈ s.window, ∀ q ∈ points, p.t ≤ q.t) :
    ∃ s', addDataPoints s points = .ok s' ∧ Inv s' ∧ total s' [] = total s points := by
  induction points generalizing s with
  | nil => exact ⟨s, rfl, h, rfl⟩
  | cons p points ih =>
    obtain ⟨hp, hlater⟩ := List.pairwise_cons.mp hascending
    obtain ⟨s₁, hadd, hinv₁, htotal₁, hgreatest₁, hseen₁⟩ := addDataPoint_total h p.v
      (hpoints p List.mem_cons_self) (fun q hq => hseen q hq p List.mem_cons_self) hp
    obtain ⟨s', hfold, hinv, htotal⟩ := ih hinv₁
      (fun q hq => hgreatest₁ ▸ hpoints q (List.mem_cons_of_mem _ hq)) hlater
      fun q hq q' hq' => (hseen₁ q hq).trans (hp q' hq')
    refine ⟨s', ?_, hinv, htotal.trans htotal₁⟩
    rw [addDataPoints, List.foldlM_cons, hadd]
    exact hfold

theorem addRows_eq (isCounter isRate : Bool) {lowestTime greatestTime : Int}
    (stepSize range : Int) (rows : List Sample) (s : GapfillDeltaTransition)
    (hrows : ∀ row ∈ rows, lowestTime ≤ row.t ∧ row.t ≤ greatestTime) :
    rows.foldlM (fun state row => gapfillTransition isCounter isRate state lowestTime
      greatestTime stepSize range row.t row.v) (some s) =
        (addDataPoints s (points rows)).map some := by
  induction rows generalizing s with
  | nil => rfl
  | cons row rows ih =>
    obtain ⟨hlowest, hle⟩ := hrows row List.mem_cons_self
    have hrows' := fun row' hmem => hrows row' (List.mem_cons_of_mem _ hmem)
    rw [List.foldlM_cons, gapfillTransition, if_neg (by omega), Option.getD_some]
    cases hv : row.v with
    | none =>
      rw [points, List.filterMap_cons_none (by simp [Sample.point, hv])]
      exact ih s hrows'
    | some val =>
      have hpoint : row.point = some ⟨row.t, val⟩ := by simp [Sample.point, hv]
      rw [points, List.filterMap_cons_some hpoint, addDataPoints, List.foldlM_cons]
      dsimp only
      cases s.addDataPoint row.t (some val) with
      | error e => rfl
      | ok s₁ => exact ih s₁ hrows'

theorem new_inv (lowestTime greatestTime range : Int) {stepSize : Int} (isCounter isRate : Bool)
    (hstep : 0 < stepSize) :
    Inv (new lowestTime greatestTime range stepSize isCounter isRate) where
  step_pos := by
    change 0 < stepSize * 1000
    omega
  min_eq := by
    change lowestTime = lowestTime + range * 1000 - range * 1000
    ring
  mem := List.forall_mem_nil _
  ascending := List.Pairwise.nil

theorem gapfill_eq (isCounter isRate : Bool) (lowestTime greatestTime range : Int)
    {stepSize : Int} (hstep : 0 < stepSize) {rows : List Sample} (hne : rows ≠ [])
    (hrows : ∀ row ∈ rows, lowestTime ≤ row.t ∧ row.t ≤ greatestTime)
    (hascending : Ascending Sample.t rows) :
    gapfill isCounter isRate lowestTime greatestTime stepSize range rows =
      .ok (some ((ticks (lowestTime + range * 1000) greatestTime (stepSize * 1000)).map
        fun windowEnd => windowDelta isCounter isRate (range * 1000)
          (windowEnd - range * 1000) windowEnd
            (window Point.t (windowEnd - range * 1000) windowEnd (points rows)))) := by
  have hinv := new_inv lowestTime greatestTime range isCounter isRate hstep
  have hle : ∀ p ∈ points rows, p.t ≤ greatestTime := by
    intro p hp
    obtain ⟨row, hrow, heq⟩ := mem_points hp
    exact heq ▸ (hrows row hrow).2
  obtain ⟨s', hadd, hinv', htotal⟩ := addDataPoints_total hinv hle
    (pairwise_points (r := (· ≤ ·)) hascending) (List.forall_mem_nil _)
  -- the first row builds the state that the fold starts from
  have hstart : rows.foldlM (fun state row => gapfillTransition isCounter isRate state lowestTime
      greatestTime stepSize range row.t row.v) none = .ok (some s') := by
    have hfold := addRows_eq isCounter isRate stepSize range rows
      (new lowestTime greatestTime range stepSize isCounter isRate) hrows
    rw [hadd] at hfold
    obtain ⟨row, rest, rfl⟩ := List.exists_cons_of_ne_nil hne
    exact hfold
  rw [gapfill, hstart]
  change Except.ok (some s'.toPgArray) = _
  rw [toPgArray_eq_total hinv', htotal]
  rfl

/-- The array has one output for each step of `generate_series` from the end of the first
window to the greatest time, and the output of a step is computed from the points in its
closed window, whether the windows overlap or leave gaps. -/
theorem toPgArray_by_windows (isCounter isRate : Bool) (lowestTime greatestTime range : Int)
    {stepSize : Int} (hstep : 0 < stepSize) {points : List Point}
    (hpoints : ∀ p ∈ points, lowestTime ≤ p.t ∧ p.t ≤ greatestTime)
    (hascending : Ascending Point.t points) :
    ∃ s, addDataPoints (new lowestTime greatestTime range stepSize isCounter isRate) points =
        .ok s ∧
      s.toPgArray.length =
        (ticks (lowestTime + range * 1000) greatestTime (stepSize * 1000)).length ∧
      (∀ k : Nat, k < s.toPgArray.length ↔
        lowestTime + range * 1000 + k * (stepSize * 1000) ≤ greatestTime) ∧
      ∀ (k : Nat) (output : Option ℚ), s.toPgArray[k]? = some output →
        let windowMin := lowestTime + k * (stepSize * 1000)
        let windowMax := lowestTime + range * 1000 + k * (stepSize * 1000)
        let samples := window Point.t windowMin windowMax points
        (output = none ↔ samples.length < 2) ∧
          output = windowDelta isCounter isRate (range * 1000) windowMin windowMax samples := by
  have hstep' : 0 < stepSize * 1000 := by omega
  have hinv := new_inv lowestTime greatestTime range isCounter isRate hstep
  obtain ⟨s, hadd, hinv', htotal⟩ := addDataPoints_total hinv (fun p hp => (hpoints p hp).2)
    hascending (List.forall_mem_nil _)
  have harray : s.toPgArray =
      (ticks (lowestTime + range * 1000) greatestTime (stepSize * 1000)).map
        (valueAt (new lowestTime greatestTime range stepSize isCounter isRate) points) :=
    (toPgArray_eq_total hinv').trans htotal
  have hlength := congrArg List.length harray
  rw [List.length_map] at hlength
  refine ⟨s, hadd, hlength, ?_, ?_⟩
  · intro k
    rw [hlength, lt_length_ticks_iff hstep']
  · intro k output houtput
    dsimp only
    rw [harray, List.getElem?_map, getElem?_ticks hstep'] at houtput
    split at houtput
    · have hmin : lowestTime + range * 1000 + k * (stepSize * 1000) - range * 1000 =
          lowestTime + k * (stepSize * 1000) := by ring
      obtain rfl := Option.some.inj houtput
      change (windowDelta _ _ (range * 1000) (_ - range * 1000) _ (window _ (_ - range * 1000) _ _)
        = none ↔ _) ∧ windowDelta _ _ (range * 1000) (_ - range * 1000) _
          (window _ (_ - range * 1000) _ _) = _
      rw [hmin]
      exact ⟨windowDelta_eq_none_iff, rfl⟩
    · cases houtput

theorem toPgArray_by_windows_gap :
    ∃ s, addDataPoints (new 0 5000 1 2 false false) [⟨0, 1⟩, ⟨500, 2⟩, ⟨1500, 7⟩, ⟨2500, 4⟩] =
        .ok s ∧
      ∀ k : Nat, k < s.toPgArray.length ↔ (0 : Int) + 1 * 1000 + k * (2 * 1000) ≤ 5000 := by
  have hin : ∀ p ∈ ([⟨0, 1⟩, ⟨500, 2⟩, ⟨1500, 7⟩, ⟨2500, 4⟩] : List Point),
      0 ≤ p.t ∧ p.t ≤ 5000 := by decide
  have hascending : Ascending Point.t [⟨0, 1⟩, ⟨500, 2⟩, ⟨1500, 7⟩, ⟨2500, 4⟩] := by
    unfold Ascending
    decide
  obtain ⟨s, hadd, -, hlength, -⟩ := toPgArray_by_windows false false 0 5000 1
    (by decide : (0 : Int) < 2) hin hascending
  exact ⟨s, hadd, hlength⟩

end TimescalePrometheus.Promql.GapfillWindows
