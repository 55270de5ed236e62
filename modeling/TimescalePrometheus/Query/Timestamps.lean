import TimescalePrometheus.Lib.GoTime
import TimescalePrometheus.Promql.Pushdown
import TimescalePrometheus.Query.CompleteReads

/-!
The way of a timestamp through the database. It is written as seconds and nanoseconds, and both
read paths ask for the nanoseconds since 1970, which an `int64` can hold for the years 1678 to
2261 only.
-/

namespace TimescalePrometheus.Query.Timestamps

open Lib.GoTime Promql

/-- `model.Time.Time`, with which `SampleInfoIterator.Values` makes a time of milliseconds. -/
def sampleTime (timestamp : Int) : Time :=
  unix (timestamp.tdiv 1000) (int64 (timestamp.tmod 1000 * 1000000))

/-- A value of a `timestamptz` column as the driver hands it out. -/
inductive Timestamptz where
  | negativeInfinity
  | time (t : Time)
  | infinity

def toMilis (t : Time) : Int := CompleteReads.toMilis t.unixNano

/-- `getTs`. -/
def getTs : Timestamptz → Int
  | .negativeInfinity => -2 ^ 63
  | .infinity => 2 ^ 63 - 1
  | .time t => t.unixNano.tdiv 1000000

/-- A timestamp in milliseconds that is a finite value of a `timestamptz` column: not before the
first day that the type has, in 4714 BC, and before the year 294277. -/
structure StoredTimestamp where
  millis : Int
  first_le : -210866803200000 ≤ millis
  lt_end : millis < 9224318016000000

theorem nanoseconds_sampleTime {timestamp : Int} (h : FitsInt64 timestamp) :
    (sampleTime timestamp).nanoseconds = timestamp * 1000000 := by
  obtain ⟨hlo, hhi⟩ := h
  obtain ⟨hrest, hrest'⟩ := tdiv_bounds timestamp (show (0 : Int) < 1000 by decide)
  have hmod := Int.tmod_def timestamp 1000
  have hnsec : FitsInt64 (timestamp.tmod 1000 * 1000000) := by
    unfold FitsInt64
    omega
  rw [sampleTime, int64_of_fits hnsec, nanoseconds_unix]
  · omega
  · unfold FitsInt64
    omega

theorem int64_tdiv_eq_iff (timestamp : Int) :
    (int64 (timestamp * 1000000)).tdiv 1000000 = timestamp ↔
      FitsInt64 (timestamp * 1000000) := by
  constructor
  · intro h
    obtain ⟨hlo, hhi⟩ := fitsInt64_int64 (timestamp * 1000000)
    have hdiv := Int.natAbs_tdiv (int64 (timestamp * 1000000)) 1000000
    have hle := Nat.div_mul_le_self (int64 (timestamp * 1000000)).natAbs 1000000
    rw [h] at hdiv
    change timestamp.natAbs = (int64 (timestamp * 1000000)).natAbs / 1000000 at hdiv
    rw [← hdiv] at hle
    unfold FitsInt64
    omega
  · intro h
    rw [int64_of_fits h, Int.mul_tdiv_cancel _ (by decide)]

theorem toMilis_sampleTime (ts : StoredTimestamp) :
    toMilis (sampleTime ts.millis) = (int64 (ts.millis * 1000000)).tdiv 1000000 := by
  have hfits : FitsInt64 ts.millis := by
    have hlo := ts.first_le
    have hhi := ts.lt_end
    unfold FitsInt64
    omega
  rw [toMilis, Time.unixNano_eq, nanoseconds_sampleTime hfits]
  rfl

theorem getTs_eq_pushdown {t : Time} {micros : Int} (h : t.nanoseconds = micros * 1000)
    (hfits : FitsInt64 t.nanoseconds) : getTs (.time t) = Pushdown.getTs micros := by
  rw [getTs, t.unixNano_of_fits hfits, h]
  rfl

/-- Both read paths give the timestamps of a series back exactly if none of them is further from
1970 than an `int64` counts nanoseconds, and then they come in the order in which they were
written. -/
theorem timestamps_roundTrip (written : List StoredTimestamp) :
    (written.map (fun ts => toMilis (sampleTime ts.millis)) = written.map (·.millis) ↔
      ∀ ts ∈ written, FitsInt64 (ts.millis * 1000000)) ∧
    (written.map (fun ts => getTs (.time (sampleTime ts.millis))) = written.map (·.millis) ↔
      ∀ ts ∈ written, FitsInt64 (ts.millis * 1000000)) ∧
    ((∀ ts ∈ written, FitsInt64 (ts.millis * 1000000)) →
      written.Pairwise (fun ts ts' => ts.millis < ts'.millis) →
        (written.map fun ts => toMilis (sampleTime ts.millis)).Pairwise (· < ·)) := by
  have hread : written.map (fun ts => toMilis (sampleTime ts.millis)) = written.map (·.millis) ↔
      ∀ ts ∈ written, FitsInt64 (ts.millis * 1000000) := by
    rw [List.map_inj_left]
    refine forall₂_congr fun ts _ => ?_
    rw [toMilis_sampleTime, int64_tdiv_eq_iff]
  refine ⟨hread, hread, ?_⟩
  intro hfits hsorted
  rw [hread.mpr hfits, List.pairwise_map]
  exact hsorted

/-- A time ten days after the last one whose nanoseconds fit is read back as one of the year 1677,
before the time that was written before it. -/
theorem timestamps_wrap :
    [(⟨0, by decide, by decide⟩ : StoredTimestamp),
      ⟨9224236036854, by decide, by decide⟩].map
        (fun ts => toMilis (sampleTime ts.millis)) = [0, -9222508036855] := by
  decide +kernel

end TimescalePrometheus.Query.Timestamps
