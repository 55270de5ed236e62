import Mathlib.Algebra.GroupWithZero.Nat
import Mathlib.Data.List.Induction
import TimescalePrometheus.Query.Cursors

/-!
The series set of `pgmodel/series_set.go` and the loop of `expandSeriesSet` that drains it.
-/

namespace TimescalePrometheus.Query.SeriesSet

open Query.Cursors

variable {T V Q : Type}

/-- A series of the set. -/
structure PgxSeries (T V : Type) where
  labels : List Label
  times : List T
  values : List V
deriving DecidableEq

/-- `labelQuerier` with its state, which a lookup may change. -/
abbrev LabelQuerier (Q : Type) := Q → List Int → Except String (List Label) × Q

/-- `rows` are the cursors from `rowIdx` on. -/
structure PgxSeriesSet (T V Q : Type) where
  rows : List (Rows (Row T V))
  err : Option String := none
  querier : Q

def errInvalidData : String := "invalid row data"

/-- The loop of `Next`: a cursor that has ended leaves its error where there is none yet. -/
def nextRows (err : Option String) :
    List (Rows (Row T V)) → Bool × List (Rows (Row T V)) × Option String
  | [] => (false, [], err)
  | r :: rs =>
    match r.next with
    | (true, r) => (true, r :: rs, err)
    | (false, r) => nextRows (err.or r.err) rs

/-- `Next`. -/
def PgxSeriesSet.next (p : PgxSeriesSet T V Q) : Bool × PgxSeriesSet T V Q :=
  match nextRows p.err p.rows with
  | (more, rows, err) => (more, { p with rows := rows, err := err })

/-- The series of a row, if the row can be read: it scans, it has a value for every time, and
its labels are found. -/
def readRow (lq : LabelQuerier Q) (q : Q) : Except String (Row T V) → Option (PgxSeries T V) × Q
  | .error _ => (none, q)
  | .ok row =>
    if row.times.length ≠ row.values.length then (none, q)
    else if row.labelIds = [] then
      (some { labels := [], times := row.times, values := row.values }, q)
    else
      match lq q row.labelIds with
      | (.error _, q) => (none, q)
      | (.ok lls, q) =>
        (some { labels := sortLabels lls, times := row.times, values := row.values }, q)

/-- `At` sets the error before it reads the row, and clears it once the row has been read. -/
def PgxSeriesSet.at (lq : LabelQuerier Q) (p : PgxSeriesSet T V Q) :
    Option (PgxSeries T V) × PgxSeriesSet T V Q :=
  match p.rows with
  | [] => (none, p)
  | r :: _ =>
    match readRow lq p.querier r.scan with
    | (none, q) => (none, { p with err := some errInvalidData, querier := q })
    | (some ps, q) => (some ps, { p with err := none, querier := q })

/-- `Err`. -/
def PgxSeriesSet.getErr (p : PgxSeriesSet T V Q) : Option String :=
  p.err.map fun err => "Error retrieving series set: " ++ err

def buildSeriesSet (rows : List (Rows (Row T V))) (querier : Q) : PgxSeriesSet T V Q where
  rows := rows
  querier := querier

/-- The rows that are left. -/
def remaining (rows : List (Rows (Row T V))) : Nat :=
  (rows.map fun r => r.rest.length).sum

/-- `for it.Next() { res = append(res, it.At()) }` with `n` rows to come; `Next` is called once
more than there are rows. -/
def expandLoop (lq : LabelQuerier Q) :
    Nat → PgxSeriesSet T V Q → List (Option (PgxSeries T V)) × PgxSeriesSet T V Q
  | 0, p => ([], p.next.2)
  | n + 1, p =>
    match p.next with
    | (false, p) => ([], p)
    | (true, p) =>
      let (series, p) := p.at lq
      let (res, p) := expandLoop lq n p
      (series :: res, p)

/-- The loop of the engine. -/
def expandSeriesSet (lq : LabelQuerier Q) (it : PgxSeriesSet T V Q) :
    List (Option (PgxSeries T V)) × Option String :=
  let (res, it) := expandLoop lq (remaining it.rows) it
  (res, it.getErr)

/-- A row has been read, or not; a cursor has ended, with an error or without one. -/
inductive Outcome (T V : Type) where
  | row (series : Option (PgxSeries T V))
  | ended (err : Option String)

def Outcome.IsError : Outcome T V → Prop
  | .row series => series = none
  | .ended err => err ≠ none

def Outcome.IsSeries : Outcome T V → Prop
  | .row series => series ≠ none
  | .ended _ => False

def Outcome.series? : Outcome T V → Option (Option (PgxSeries T V))
  | .row series => some series
  | .ended _ => none

/-- The rows of one cursor, then its end, then the other cursors. -/
def outcomesFrom (lq : LabelQuerier Q) (after : Q → List (Outcome T V)) (err : Option String)
    (q : Q) : List (Except String (Row T V)) → List (Outcome T V)
  | [] => .ended err :: after q
  | row :: rows =>
    match readRow lq q row with
    | (series, q) => .row series :: outcomesFrom lq after err q rows

def outcomes (lq : LabelQuerier Q) : List (Rows (Row T V)) → Q → List (Outcome T V)
  | [], _ => []
  | r :: rs, q => outcomesFrom lq (outcomes lq rs) r.err q r.rest

def errAfter (err : Option String) : Outcome T V → Option String
  | .row none => some errInvalidData
  | .row (some _) => none
  | .ended e => err.or e

theorem expandLoop_skip (lq : LabelQuerier Q) (n : Nat) {r : Rows (Row T V)} (hr : r.rest = [])
    (rs : List (Rows (Row T V))) (err : Option String) (q : Q) :
    expandLoop lq n { rows := r :: rs, err := err, querier := q } =
      expandLoop lq n { rows := rs, err := err.or r.err, querier := q } := by
  have hnext : PgxSeriesSet.next { rows := r :: rs, err := err, querier := q } =
      PgxSeriesSet.next { rows := rs, err := err.or r.err, querier := q } := by
    simp [PgxSeriesSet.next, nextRows, Rows.next, hr]
  cases n with
  | zero => simp only [expandLoop, hnext]
  | succ n => simp only [expandLoop, hnext]

theorem expandLoop_row (lq : LabelQuerier Q) (n : Nat) (current : Option (Except String (Row T V)))
    (row : Except String (Row T V)) (rest : List (Except String (Row T V)))
    (rowErr err : Option String) (rs : List (Rows (Row T V))) (q : Q) :
    expandLoop lq (n + 1)
        { rows := ⟨current, row :: rest, rowErr⟩ :: rs, err := err, querier := q } =
      ((readRow lq q row).1 ::
          (expandLoop lq n
            { rows := ⟨some row, rest, rowErr⟩ :: rs
              err := errAfter err (.row (readRow lq q row).1)
              querier := (readRow lq q row).2 }).1,
        (expandLoop lq n
          { rows := ⟨some row, rest, rowErr⟩ :: rs
            err := errAfter err (.row (readRow lq q row).1)
            querier := (readRow lq q row).2 }).2) := by
  simp only [expandLoop, PgxSeriesSet.next, nextRows, Rows.next, PgxSeriesSet.at, Rows.scan,
    Option.getD_some]
  cases hread : readRow lq q row with
  | mk series q' => cases series <;> rfl

theorem expandLoop_eq (lq : LabelQuerier Q) (rows : List (Rows (Row T V))) (err : Option String)
    (q : Q) :
    (expandLoop lq (remaining rows) { rows := rows, err := err, querier := q }).1 =
        (outcomes lq rows q).filterMap Outcome.series? ∧
      (expandLoop lq (remaining rows) { rows := rows, err := err, querier := q }).2.err =
        (outcomes lq rows q).foldl errAfter err := by
  induction rows generalizing err q with
  | nil => exact ⟨rfl, rfl⟩
  | cons r rs ih =>
    obtain ⟨current, rest, rowErr⟩ := r
    induction rest generalizing current err q with
    | nil =>
      have hrem : remaining (⟨current, [], rowErr⟩ :: rs) = remaining rs := by
        simp [remaining]
      rw [expandLoop_skip lq _ rfl, hrem]
      exact ih (err.or rowErr) q
    | cons row rest ihrest =>
      have hrem : remaining (⟨current, row :: rest, rowErr⟩ :: rs) =
          remaining (⟨some row, rest, rowErr⟩ :: rs) + 1 := by
        simp only [remaining, List.map_cons, List.sum_cons, List.length_cons]
        omega
      obtain ⟨hres, herr⟩ := ihrest (errAfter err (.row (readRow lq q row).1))
        (readRow lq q row).2 (some row)
      rw [hrem, expandLoop_row]
      exact ⟨congrArg ((readRow lq q row).1 :: ·) hres, herr⟩

/-- Some error comes after which no row is read. -/
def EndsInError (l : List (Outcome T V)) : Prop :=
  ∃ before o after, l = before ++ o :: after ∧ o.IsError ∧ ∀ x ∈ after, ¬x.IsSeries

theorem endsInError_concat (l : List (Outcome T V)) (o : Outcome T V) :
    EndsInError (l ++ [o]) ↔ o.IsError ∨ (¬o.IsSeries ∧ EndsInError l) := by
  constructor
  · rintro ⟨before, x, after, heq, hx, hafter⟩
    rcases List.eq_nil_or_concat after with rfl | ⟨after, y, rfl⟩
    · obtain ⟨_, hlast⟩ := List.append_inj' heq rfl
      cases hlast
      exact Or.inl hx
    · right
      have hsplit : l ++ [o] = (before ++ x :: after) ++ [y] := by simpa using heq
      obtain ⟨rfl, hy⟩ := List.append_inj' hsplit rfl
      cases hy
      exact ⟨hafter o (by simp), before, x, after, rfl, hx, fun z hz => hafter z (by simp [hz])⟩
  · rintro (ho | ⟨ho, before, x, after, rfl, hx, hafter⟩)
    · exact ⟨l, o, [], rfl, ho, fun x hx => absurd hx List.not_mem_nil⟩
    · refine ⟨before, x, after ++ [o], by simp, hx, ?_⟩
      intro z hz
      rcases List.mem_append.mp hz with hmem | hmem
      · exact hafter z hmem
      · rw [List.mem_singleton.mp hmem]
        exact ho

theorem errAfter_ne_none (err : Option String) (o : Outcome T V) :
    errAfter err o ≠ none ↔ o.IsError ∨ (¬o.IsSeries ∧ err ≠ none) := by
  cases o with
  | row series => cases series <;> simp [errAfter, Outcome.IsError, Outcome.IsSeries]
  | ended e => cases err <;> cases e <;> simp [errAfter, Outcome.IsError, Outcome.IsSeries]

theorem foldl_errAfter_ne_none (l : List (Outcome T V)) :
    l.foldl errAfter none ≠ none ↔ EndsInError l := by
  induction l using List.reverseRecOn with
  | nil =>
    refine iff_of_false (fun h => h rfl) ?_
    rintro ⟨before, o, after, heq, _⟩
    simp at heq
  | append_singleton l o ih =>
    rw [List.foldl_concat, errAfter_ne_none, endsInError_concat, ih]

def Carries (row : Except String (Row T V)) (series : PgxSeries T V) : Prop :=
  ∃ r, row = .ok r ∧ series.times = r.times ∧ series.values = r.values

theorem carries_of_readRow {lq : LabelQuerier Q} {q : Q} {row : Except String (Row T V)}
    {series : PgxSeries T V} (h : (readRow lq q row).1 = some series) : Carries row series := by
  cases row with
  | error err => cases h
  | ok r =>
    refine ⟨r, rfl, ?_⟩
    simp only [readRow] at h
    split at h
    · cases h
    split at h
    · cases h
      exact ⟨rfl, rfl⟩
    split at h
    · cases h
    · cases h
      exact ⟨rfl, rfl⟩

theorem series_of_no_error (lq : LabelQuerier Q) (rows : List (Rows (Row T V))) (q : Q)
    (h : ∀ o ∈ outcomes lq rows q, ¬o.IsError) :
    ∃ series, (outcomes lq rows q).filterMap Outcome.series? = series.map some ∧
      List.Forall₂ Carries (rows.flatMap Rows.rest) series := by
  induction rows generalizing q with
  | nil => exact ⟨[], rfl, .nil⟩
  | cons r rs ih =>
    obtain ⟨current, rest, rowErr⟩ := r
    induction rest generalizing current q with
    | nil => exact ih q fun o ho => h o (List.mem_cons_of_mem _ ho)
    | cons row rest ihrest =>
      have hread : (readRow lq q row).1 ≠ none := h (.row (readRow lq q row).1) (by
        simp [outcomes, outcomesFrom])
      obtain ⟨ps, hps⟩ := Option.ne_none_iff_exists'.mp hread
      obtain ⟨series, hseries, hcarries⟩ := ihrest (readRow lq q row).2 current fun o ho =>
        h o (List.mem_cons_of_mem _ ho)
      refine ⟨ps :: series, ?_, .cons (carries_of_readRow hps) hcarries⟩
      change Option.toList (some (readRow lq q row).1) ++ _ = _
      rw [hps]
      exact congrArg (some ps :: ·) hseries

/-- The error that the loop leaves is never lost, and without an error there is one series
for each row, exactly if an error among the cursors and rows is always followed by one after
which no row is read: a row that is read clears whatever went wrong before it. -/
theorem errors_kept_iff (lq : LabelQuerier Q) (rows : List (Rows (Row T V))) (q : Q) :
    (((∃ o ∈ outcomes lq rows q, o.IsError) →
        (expandSeriesSet lq (buildSeriesSet rows q)).2 ≠ none) ∧
      ((∀ o ∈ outcomes lq rows q, ¬o.IsError) →
        (expandSeriesSet lq (buildSeriesSet rows q)).2 = none ∧
          ∃ series, (expandSeriesSet lq (buildSeriesSet rows q)).1 = series.map some ∧
            List.Forall₂ Carries (rows.flatMap Rows.rest) series)) ↔
      ((∃ o ∈ outcomes lq rows q, o.IsError) → EndsInError (outcomes lq rows q)) := by
  obtain ⟨hres, herr⟩ := expandLoop_eq lq rows none q
  have herr' : (expandSeriesSet lq (buildSeriesSet rows q)).2 ≠ none ↔
      EndsInError (outcomes lq rows q) := by
    rw [← foldl_errAfter_ne_none, ← herr]
    simp [expandSeriesSet, buildSeriesSet, PgxSeriesSet.getErr]
  rw [herr', and_iff_left_iff_imp]
  intro _ hnone
  refine ⟨?_, ?_⟩
  · by_contra hsome
    obtain ⟨before, o, after, heq, ho, _⟩ := herr'.mp hsome
    exact hnone o (heq ▸ List.mem_append_right _ List.mem_cons_self) ho
  · obtain ⟨series, hseries, hcarries⟩ := series_of_no_error lq rows q hnone
    exact ⟨series, hres.trans hseries, hcarries⟩

/-- The first cursor breaks, the second delivers a row: the loop yields that row and no
error. -/
def brokenThenGood : List (Rows (Row Nat Nat)) :=
  [{ rest := [], err := some "unexpected EOF" },
    { rest := [.ok { labelIds := [], times := [1], values := [1] }] }]

theorem broken_cursor_forgotten :
    (expandSeriesSet (fun (_ : Unit) _ => (.ok [], ())) (buildSeriesSet brokenThenGood ())).1 =
        [some { labels := [], times := [1], values := [1] }] ∧
      (expandSeriesSet (fun (_ : Unit) _ => (.ok [], ())) (buildSeriesSet brokenThenGood ())).2 =
        none := by
  decide

end TimescalePrometheus.Query.SeriesSet
