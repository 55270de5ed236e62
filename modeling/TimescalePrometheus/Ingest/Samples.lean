import Mathlib.Algebra.Group.Int.Defs
import Mathlib.Algebra.GroupWithZero.Nat
import TimescalePrometheus.Sql.Series

/-!
The samples of a write request, and the iterator that turns a batch of them into the
rows of an insert.
-/

namespace TimescalePrometheus.Ingest.Samples

open Sql.Series

/-- A sample; the timestamp is in milliseconds. -/
structure Sample where
  timestamp : Int
  value : UInt64
  deriving DecidableEq

/-- An interned label set, with the text it is compared and cached by. -/
structure Labels where
  metricName : String
  pairs : LabelSet
  str : String
  deriving DecidableEq

/-- Samples of one series. The id is -1 as long as it is not known; `parseData` makes
none of these without samples. -/
structure SamplesInfo where
  labels : Labels
  seriesID : Int
  samples : List Sample
  nonempty : samples ≠ []
  deriving DecidableEq

def SamplesInfo.withID (info : SamplesInfo) (id : Int) : SamplesInfo := { info with seriesID := id }

/-- What the id does not touch. -/
def SamplesInfo.content (info : SamplesInfo) : Labels × List Sample := (info.labels, info.samples)

@[simp] theorem content_withID (info : SamplesInfo) (id : Int) :
    (info.withID id).content = info.content := rfl

/-- A row for the data table of a metric. -/
structure Row where
  timestamp : Int
  value : UInt64
  seriesID : Int
  deriving DecidableEq

/-- The rows of a series. -/
def SamplesInfo.rows (info : SamplesInfo) : List Row :=
  info.samples.map fun sample => ⟨sample.timestamp, sample.value, info.seriesID⟩

/-- A batch, and where the iterator is. -/
structure SampleInfoIterator where
  sampleInfos : List SamplesInfo
  sampleInfoIndex : Nat := 0
  sampleIndex : Int := -1
  minSeen : Int := 2 ^ 63 - 1
  deriving DecidableEq

namespace SampleInfoIterator

def resetPosition (t : SampleInfoIterator) : SampleInfoIterator :=
  { sampleInfos := t.sampleInfos }

/-- On to the next sample, or series. -/
def next (t : SampleInfoIterator) : Bool × SampleInfoIterator :=
  let sampleIndex := t.sampleIndex + 1
  let t :=
    match t.sampleInfos[t.sampleInfoIndex]? with
    | some info =>
      if sampleIndex ≥ info.samples.length then
        { t with sampleInfoIndex := t.sampleInfoIndex + 1, sampleIndex := 0 }
      else { t with sampleIndex }
    | none => { t with sampleIndex }
  (t.sampleInfoIndex < t.sampleInfos.length, t)

/-- The current row, none if an index is out of range. -/
def values (t : SampleInfoIterator) : Option (Row × SampleInfoIterator) := do
  let info ← t.sampleInfos[t.sampleInfoIndex]?
  let sample ← if t.sampleIndex < 0 then none else info.samples[t.sampleIndex.toNat]?
  return (⟨sample.timestamp, sample.value, info.seriesID⟩,
    { t with minSeen := min t.minSeen sample.timestamp })

/-- The loop `for Next() { Values() }`, for at most the given number of calls of `Next`. -/
def drain : Nat → SampleInfoIterator → Option (List Row × SampleInfoIterator)
  | 0, _ => none
  | fuel + 1, t =>
    if t.next.1 then do
      let (row, u) ← t.next.2.values
      let (rows, v) ← drain fuel u
      return (row :: rows, v)
    else some ([], t.next.2)

/-- `numRows` of `doInsert`. -/
def numRows (t : SampleInfoIterator) : Nat := (t.sampleInfos.map (·.samples.length)).sum

/-- The rows that `doInsert` sends. It calls `Next` once for each row and once more. -/
def batchRows (t : SampleInfoIterator) : Option (List Row × SampleInfoIterator) :=
  drain (t.numRows + 1) t

end SampleInfoIterator

open SampleInfoIterator

/-- The rows from sample `j` of element `i` on. -/
def rowsFrom (infos : List SamplesInfo) (i j : Nat) : List Row :=
  ((infos[i]?.map fun info => info.rows.drop j).getD []) ++ (infos.drop (i + 1)).flatMap (·.rows)

theorem rowsFrom_nil {infos : List SamplesInfo} {i : Nat} (h : infos[i]? = none) (j : Nat) :
    rowsFrom infos i j = [] := by
  have hlength := List.getElem?_eq_none_iff.mp h
  rw [rowsFrom, h, List.drop_of_length_le (by omega)]
  rfl

theorem rowsFrom_cons {infos : List SamplesInfo} {i j : Nat} {info : SamplesInfo}
    {sample : Sample} (h : infos[i]? = some info) (hsample : info.samples[j]? = some sample) :
    rowsFrom infos i j =
      ⟨sample.timestamp, sample.value, info.seriesID⟩ :: rowsFrom infos i (j + 1) := by
  obtain ⟨hj, rfl⟩ := List.getElem?_eq_some_iff.mp hsample
  have hrow : j < info.rows.length := by simpa [SamplesInfo.rows] using hj
  have hget : info.rows[j] =
      ⟨info.samples[j].timestamp, info.samples[j].value, info.seriesID⟩ := by
    simp [SamplesInfo.rows]
  simp only [rowsFrom, h, Option.map_some, Option.getD_some]
  rw [List.drop_eq_getElem_cons hrow, hget, List.cons_append]

theorem rowsFrom_next {infos : List SamplesInfo} {i j : Nat} {info : SamplesInfo}
    (h : infos[i]? = some info) (hj : info.samples.length ≤ j) :
    rowsFrom infos i j = rowsFrom infos (i + 1) 0 := by
  have hdrop : info.rows.drop j = [] :=
    List.drop_of_length_le (by simpa [SamplesInfo.rows] using hj)
  simp only [rowsFrom, h, Option.map_some, Option.getD_some, hdrop, List.nil_append]
  cases hnext : infos[i + 1]? with
  | none =>
    have hlength := List.getElem?_eq_none_iff.mp hnext
    rw [List.drop_of_length_le hlength, List.drop_of_length_le (by omega)]
    rfl
  | some info' =>
    obtain ⟨hi, rfl⟩ := List.getElem?_eq_some_iff.mp hnext
    rw [List.drop_eq_getElem_cons hi, List.flatMap_cons]
    rfl

@[simp] theorem next_sampleInfos (t : SampleInfoIterator) :
    t.next.2.sampleInfos = t.sampleInfos := by
  simp only [next]
  split
  · split <;> rfl
  · rfl

theorem next_cases (t : SampleInfoIterator) (hindex : -1 ≤ t.sampleIndex) :
    (rowsFrom t.sampleInfos t.sampleInfoIndex (t.sampleIndex + 1).toNat = [] ∧
      t.next.1 = false) ∨
    ∃ info sample, t.next.1 = true ∧ 0 ≤ t.next.2.sampleIndex ∧
      t.sampleInfos[t.next.2.sampleInfoIndex]? = some info ∧
      info.samples[t.next.2.sampleIndex.toNat]? = some sample ∧
      rowsFrom t.sampleInfos t.sampleInfoIndex (t.sampleIndex + 1).toNat =
        rowsFrom t.sampleInfos t.next.2.sampleInfoIndex t.next.2.sampleIndex.toNat := by
  have hnat : ((t.sampleIndex + 1).toNat : Int) = t.sampleIndex + 1 :=
    Int.toNat_of_nonneg (by omega)
  cases hinfo : t.sampleInfos[t.sampleInfoIndex]? with
  | none =>
    refine .inl ⟨rowsFrom_nil hinfo _, ?_⟩
    have hlength := List.getElem?_eq_none_iff.mp hinfo
    simp only [next, hinfo, decide_eq_false_iff_not, not_lt]
    exact hlength
  | some info =>
    by_cases hmore : t.sampleIndex + 1 ≥ info.samples.length
    · rw [rowsFrom_next hinfo (by omega)]
      cases hnext : t.sampleInfos[t.sampleInfoIndex + 1]? with
      | none =>
        refine .inl ⟨rowsFrom_nil hnext 0, ?_⟩
        have hlength := List.getElem?_eq_none_iff.mp hnext
        simp only [next, hinfo, if_pos hmore, decide_eq_false_iff_not, not_lt]
        exact hlength
      | some info' =>
        have hi := (List.getElem?_eq_some_iff.mp hnext).1
        obtain ⟨sample, hsample⟩ : ∃ sample, info'.samples[0]? = some sample :=
          ⟨_, List.getElem?_eq_getElem (List.length_pos_of_ne_nil info'.nonempty)⟩
        refine .inr ⟨info', sample, ?_⟩
        simp only [next, hinfo, if_pos hmore, decide_eq_true_eq]
        exact ⟨hi, le_rfl, hnext, hsample, rfl⟩
    · have hi := (List.getElem?_eq_some_iff.mp hinfo).1
      have hj : (t.sampleIndex + 1).toNat < info.samples.length := by omega
      refine .inr ⟨info, info.samples[(t.sampleIndex + 1).toNat], ?_⟩
      simp only [next, hinfo, if_neg hmore, decide_eq_true_eq]
      exact ⟨hi, by omega, trivial, List.getElem?_eq_getElem hj, trivial⟩

theorem drain_eq {fuel : Nat} {t : SampleInfoIterator} (hindex : -1 ≤ t.sampleIndex)
    (hfuel : (rowsFrom t.sampleInfos t.sampleInfoIndex (t.sampleIndex + 1).toNat).length < fuel) :
    ∃ u, drain fuel t =
      some (rowsFrom t.sampleInfos t.sampleInfoIndex (t.sampleIndex + 1).toNat, u) ∧
        u.sampleInfos = t.sampleInfos := by
  induction fuel generalizing t with
  | zero => simp at hfuel
  | succ fuel ih =>
    rcases next_cases t hindex with
      ⟨hnil, hnext⟩ | ⟨info, sample, hnext, hnonneg, hinfo, hsample, hrows⟩
    · refine ⟨t.next.2, ?_, next_sampleInfos t⟩
      simp [drain, hnil, hnext]
    · have hvalues : t.next.2.values =
          some (⟨sample.timestamp, sample.value, info.seriesID⟩,
            { t.next.2 with minSeen := min t.next.2.minSeen sample.timestamp }) := by
        simp [values, hinfo, if_neg (not_lt.mpr hnonneg), hsample]
      have hcons := hrows.trans (rowsFrom_cons hinfo hsample)
      have hnat : (t.next.2.sampleIndex + 1).toNat = t.next.2.sampleIndex.toNat + 1 :=
        Int.toNat_add hnonneg (by decide)
      rw [hcons, List.length_cons] at hfuel
      obtain ⟨u, hdrain, hu⟩ := ih (t :=
        { t.next.2 with minSeen := min t.next.2.minSeen sample.timestamp })
        (show -1 ≤ t.next.2.sampleIndex by omega)
        (by simpa only [next_sampleInfos, hnat] using Nat.lt_of_succ_lt_succ hfuel)
      simp only [next_sampleInfos, hnat] at hdrain hu
      refine ⟨u, ?_, hu⟩
      simp [drain, hnext, hvalues, hdrain, hcons]

theorem rowsFrom_zero (infos : List SamplesInfo) : rowsFrom infos 0 0 = infos.flatMap (·.rows) := by
  cases infos with
  | nil => rfl
  | cons info infos => simp [rowsFrom]

theorem length_flatMap_rows (t : SampleInfoIterator) :
    (t.sampleInfos.flatMap (·.rows)).length = t.numRows := by
  simp [List.length_flatMap, numRows, SamplesInfo.rows]

/-- An iterator at the start of its batch: one that `ResetPosition` leaves as it is. -/
def AtStart (t : SampleInfoIterator) : Prop := t.resetPosition = t

theorem AtStart.withInfos {t : SampleInfoIterator} (h : AtStart t) (infos : List SamplesInfo) :
    AtStart { t with sampleInfos := infos } := by
  unfold AtStart at h ⊢
  rw [← h]
  rfl

theorem batchRows_eq {t : SampleInfoIterator} (h : AtStart t) :
    ∃ u, t.batchRows = some (t.sampleInfos.flatMap (·.rows), u) ∧
      u.sampleInfos = t.sampleInfos := by
  have hrows : rowsFrom t.sampleInfos t.sampleInfoIndex (t.sampleIndex + 1).toNat =
      t.sampleInfos.flatMap (·.rows) := by
    rw [← h]
    exact rowsFrom_zero _
  have hindex : -1 ≤ t.sampleIndex := by
    rw [← h]
    exact le_rfl
  rw [← hrows]
  refine drain_eq hindex ?_
  rw [hrows, length_flatMap_rows]
  exact Nat.lt_succ_self _

end TimescalePrometheus.Ingest.Samples
