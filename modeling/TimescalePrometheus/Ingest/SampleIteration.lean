import TimescalePrometheus.Ingest.Acknowledgement
import TimescalePrometheus.Ingest.Recovery

/-!
The iterator over a batch goes through all its samples after each `ResetPosition`, and every
buffer that a copier is given has been reset: by the constructor or by `reportResults` before the
first insert, by `tryRecovery` before the second one.
-/

namespace TimescalePrometheus.Ingest.SampleIteration

open Ingest.Samples Ingest.Samples.SampleInfoIterator Ingest.Pipeline Ingest.Custody
open Ingest.CopierSteps Ingest.Acknowledgement Ingest.Recovery Lib.Runs

/-- The fields of a `SampleInfoIterator` that are not given are zero before its position is
reset. -/
def newSampleInfoIterator : SampleInfoIterator :=
  resetPosition ⟨[], 0, 0, 0⟩

def AtEnd (t : SampleInfoIterator) : Prop := t.sampleInfos.length ≤ t.sampleInfoIndex

theorem AtEnd.next {t : SampleInfoIterator} (h : AtEnd t) :
    t.next.1 = false ∧ AtEnd t.next.2 := by
  have hnone : t.sampleInfos[t.sampleInfoIndex]? = none := List.getElem?_eq_none h
  constructor
  · simp only [SampleInfoIterator.next, hnone, decide_eq_false_iff_not, not_lt]
    exact h
  · simp only [SampleInfoIterator.next, hnone]
    exact h

theorem atEnd_of_next {t : SampleInfoIterator} (h : t.next.1 = false) : AtEnd t.next.2 := by
  apply not_lt.mp
  exact of_decide_eq_false h

theorem AtEnd.iterate {t : SampleInfoIterator} (h : AtEnd t) (n : Nat) :
    ((fun t => t.next.2)^[n] t).next.1 = false := by
  induction n generalizing t with
  | zero => exact h.next.1
  | succ n ih =>
    rw [Function.iterate_succ_apply]
    exact ih h.next.2

theorem drain_atEnd {fuel : Nat} {t u : SampleInfoIterator} {rows : List Row}
    (h : drain fuel t = some (rows, u)) : AtEnd u := by
  induction fuel generalizing t rows with
  | zero => contradiction
  | succ fuel ih =>
    rw [drain] at h
    split at h
    · simp only [Option.bind_eq_bind, Option.bind_eq_some_iff, Option.pure_def,
        Option.some.injEq, Prod.mk.injEq, Prod.exists] at h
      obtain ⟨row, v, -, rest, w, hrest, -, rfl⟩ := h
      exact ih hrest
    · rename_i hnext
      rw [Option.some.injEq, Prod.mk.injEq] at h
      rw [← h.2]
      exact atEnd_of_next (Bool.eq_false_iff.mpr hnext)

theorem drain_mono {fuel fuel' : Nat} {t : SampleInfoIterator}
    {result : List Row × SampleInfoIterator} (h : drain fuel t = some result)
    (hle : fuel ≤ fuel') : drain fuel' t = some result := by
  induction fuel generalizing fuel' t result with
  | zero => contradiction
  | succ fuel ih =>
    obtain ⟨fuel', rfl⟩ := Nat.exists_eq_add_of_lt (Nat.lt_of_succ_le hle)
    rw [drain] at h ⊢
    split at h
    · rename_i hnext
      rw [if_pos hnext]
      simp only [Option.bind_eq_bind, Option.bind_eq_some_iff, Option.pure_def,
        Option.some.injEq, Prod.exists] at h ⊢
      obtain ⟨row, v, hvalues, rest, w, hrest, hresult⟩ := h
      exact ⟨row, v, hvalues, rest, w, ih hrest (Nat.le_add_right _ _), hresult⟩
    · rename_i hnext
      rw [if_neg hnext]
      exact h

/-- The elements of an iterator. Their timestamps are of type `int64`. -/
structure Batch where
  sampleInfos : List SamplesInfo
  int64 : ∀ info ∈ sampleInfos, ∀ sample ∈ info.samples, sample.timestamp < 2 ^ 63

namespace Batch

/-- The samples one after the other, each with the id of its series. -/
def rows (b : Batch) : List Row := b.sampleInfos.flatMap (·.rows)

/-- The smallest timestamp, and the greatest number of the type if there is none. -/
def minTime (b : Batch) : Int := ((b.rows.map (·.timestamp)).min?).getD (2 ^ 63 - 1)

theorem timestamp_lt (b : Batch) : ∀ time ∈ b.rows.map (·.timestamp), time < 2 ^ 63 := by
  intro time htime
  simp only [rows, SamplesInfo.rows, List.map_flatMap, List.mem_flatMap, List.mem_map] at htime
  obtain ⟨info, hinfo, _, ⟨sample, hsample, rfl⟩, rfl⟩ := htime
  exact b.int64 info hinfo sample hsample

theorem foldl_min_eq {times : List Int} {start : Int} (h : ∀ time ∈ times, time ≤ start) :
    times.foldl min start = times.min?.getD start := by
  cases times with
  | nil => rfl
  | cons time times =>
    rw [List.foldl_cons, min_eq_right (h time List.mem_cons_self), List.min?_cons']
    rfl

theorem drain_resetPosition (b : Batch) {t : SampleInfoIterator}
    (ht : t.sampleInfos = b.sampleInfos) : ∃ u : SampleInfoIterator,
      (∀ fuel, b.rows.length < fuel → drain fuel t.resetPosition = some (b.rows, u)) ∧
      AtEnd u ∧ u.minSeen = b.minTime ∧ u.resetPosition = t.resetPosition := by
  have hstart : AtStart t.resetPosition := rfl
  obtain ⟨u, hdrain, hinfos⟩ := batchRows_eq hstart
  have hrows : t.resetPosition.sampleInfos.flatMap (·.rows) = b.rows := by
    rw [rows, ← ht]
    rfl
  rw [batchRows, ← length_flatMap_rows, hrows] at hdrain
  refine ⟨u, ?_, drain_atEnd hdrain, ?_, ?_⟩
  · intro fuel hfuel
    exact drain_mono hdrain hfuel
  · rw [minSeen_drain hdrain, minTime]
    apply foldl_min_eq
    intro time htime
    exact Int.le_sub_one_of_lt (b.timestamp_lt time htime)
  · rw [resetPosition, hinfos]
    rfl

end Batch

/-- The buffers in the pool are as new, and both attempts of a copier send the whole batch. -/
structure SentWhole (s : State) : Prop where
  panic : s.panic = none
  pool : ∀ b ∈ s.pool, b.batch = newSampleInfoIterator
  attempts : ∀ req : CopyRequest, .inserting req ∈ s.copiers ∨ .retrying req ∈ s.copiers →
    ∃ req', rowsOf req = .ok (req.data.batch.sampleInfos.flatMap (·.rows), req')

theorem sentWhole_of_inv {s : State} (h : Inv [] s) : SentWhole s where
  panic := h.panic
  pool := by
    intro b hb
    rw [h.pool b hb]
    rfl
  attempts := by
    rintro req (hreq | hreq)
    · obtain ⟨req', hrows, -⟩ := rowsOf_eq (h.copiers _ hreq).2
      exact ⟨req', hrows⟩
    · obtain ⟨req', hrows, -⟩ := rowsOf_eq (h.copiers _ hreq).2
      exact ⟨req', hrows⟩

/-- From `ResetPosition` on, and after it again, the loop of `Next` and `Values` yields the rows of
the batch, after which `Next` stays false and `minSeen` is the smallest timestamp; and in no run
of the pipeline does a `doInsert` find another number of rows than it has counted. -/
theorem sampleInfoIterator_enumerates :
    (∀ (b : Batch) (t : SampleInfoIterator), t.sampleInfos = b.sampleInfos →
      ∃ u : SampleInfoIterator,
        (∀ fuel, b.rows.length < fuel → drain fuel t.resetPosition = some (b.rows, u)) ∧
        (∀ n, ((fun t => t.next.2)^[n] u).next.1 = false) ∧ u.minSeen = b.minTime ∧
        ∀ fuel, b.rows.length < fuel → drain fuel u.resetPosition = some (b.rows, u)) ∧
    ∀ (numCopiers : Nat) (actions : List Action),
      SentWhole (run step (State.initial numCopiers) actions) := by
  constructor
  · intro b t ht
    obtain ⟨u, hdrain, hend, hmin, hreset⟩ := b.drain_resetPosition ht
    refine ⟨u, hdrain, hend.iterate, hmin, ?_⟩
    rw [hreset]
    exact hdrain
  · intro numCopiers actions
    apply sentWhole_of_inv
    exact run_invariant (Inv []) (fun _ a hinv => step_inv hinv a) (initial_inv numCopiers) actions

def cpuBatch : Batch where
  sampleInfos := [⟨⟨"cpu", [], ""⟩, 1, [⟨1000, 0⟩, ⟨500, 0⟩], by decide⟩]
  int64 := by decide

theorem sampleInfoIterator_enumerates_cpu : ∃ u,
    drain 3 { newSampleInfoIterator with sampleInfos := cpuBatch.sampleInfos }.resetPosition =
      some ([⟨1000, 0, 1⟩, ⟨500, 0, 1⟩], u) ∧ u.minSeen = 500 := by
  obtain ⟨u, hdrain, -, hmin, -⟩ := sampleInfoIterator_enumerates.1 cpuBatch
    { newSampleInfoIterator with sampleInfos := cpuBatch.sampleInfos } rfl
  exact ⟨u, hdrain 3 (by decide), hmin⟩

end TimescalePrometheus.Ingest.SampleIteration
