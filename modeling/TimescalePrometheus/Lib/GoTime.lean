import Mathlib.Tactic.Common
import Mathlib.Algebra.Order.Ring.Int

/-!
Instants and durations as Go's package `time` has them. An instant is a number of seconds and a
number of nanoseconds; a duration and a count of nanoseconds since 1970 are `int64`s, which can
hold some 292 years.
-/

namespace TimescalePrometheus.Lib.GoTime

/-- What an `int64` holds when the exact result of an operation is `n`. -/
def int64 (n : Int) : Int := n.bmod (2 ^ 64)

/-- The number is an int64. -/
def FitsInt64 (n : Int) : Prop := -2 ^ 63 ≤ n ∧ n < 2 ^ 63

instance (n : Int) : Decidable (FitsInt64 n) := inferInstanceAs (Decidable (_ ∧ _))

theorem fitsInt64_int64 (n : Int) : FitsInt64 (int64 n) := by
  have hlo := @Int.le_bmod n (2 ^ 64) (by decide)
  have hhi := @Int.bmod_lt n (2 ^ 64) (by decide)
  simp only [FitsInt64, int64] at *
  omega

theorem int64_of_fits {n : Int} (h : FitsInt64 n) : int64 n = n := by
  obtain ⟨hlo, hhi⟩ := h
  rw [int64, Int.bmod_def]
  split <;> omega

theorem int64_int64_add (m n : Int) : int64 (int64 m + n) = int64 (m + n) :=
  Int.bmod_add_bmod

theorem tdiv_bounds (n : Int) {d : Int} (h : 0 < d) :
    -d < n - d * n.tdiv d ∧ n - d * n.tdiv d < d := by
  rw [← Int.tmod_def]
  exact ⟨Int.lt_tmod_of_pos n h, Int.tmod_lt_of_pos n h⟩

/-- An instant; the seconds count from 1970. -/
structure Time where
  sec : Int
  nsec : Int
  nsec_nonneg : 0 ≤ nsec
  nsec_lt : nsec < 10 ^ 9
deriving DecidableEq

/-- `time.Unix`: whole seconds among the nanoseconds are moved to the seconds. -/
def unix (sec nsec : Int) : Time where
  sec := int64 (sec + nsec / 10 ^ 9)
  nsec := nsec % 10 ^ 9
  nsec_nonneg := Int.emod_nonneg _ (by decide)
  nsec_lt := Int.emod_lt_of_pos _ (by decide)

namespace Time

variable (t u : Time)

/-- The exact number of nanoseconds since 1970. -/
def nanoseconds : Int := t.sec * 10 ^ 9 + t.nsec

/-- `UnixNano`, with the wrap-around of its product and of its sum. -/
def unixNano : Int := int64 (int64 (t.sec * 10 ^ 9) + t.nsec)

/-- `Before`. -/
def before : Bool := t.nanoseconds < u.nanoseconds

/-- `Sub`: a difference that no duration can hold becomes the greatest or the least one. -/
def sub : Int := max (-2 ^ 63) (min (t.nanoseconds - u.nanoseconds) (2 ^ 63 - 1))

theorem unixNano_eq : t.unixNano = int64 t.nanoseconds :=
  int64_int64_add _ _

theorem unixNano_of_fits (h : FitsInt64 t.nanoseconds) : t.unixNano = t.nanoseconds := by
  rw [unixNano_eq, int64_of_fits h]

theorem sub_of_fits (h : FitsInt64 (t.nanoseconds - u.nanoseconds)) :
    t.sub u = t.nanoseconds - u.nanoseconds := by
  obtain ⟨hlo, hhi⟩ := h
  unfold sub
  omega

end Time

theorem nanoseconds_unix {sec nsec : Int} (h : FitsInt64 (sec + nsec / 10 ^ 9)) :
    (unix sec nsec).nanoseconds = sec * 10 ^ 9 + nsec := by
  rw [Time.nanoseconds, unix, int64_of_fits h]
  simp only
  omega

end TimescalePrometheus.Lib.GoTime
