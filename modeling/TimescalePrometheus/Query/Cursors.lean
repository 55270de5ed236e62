import Mathlib.Data.List.Basic

/-!
The cursors that `pgx` hands out: rows that arrive one after the other, and an end that is either
the end of the data or an error.
-/

namespace TimescalePrometheus.Query.Cursors

/-- `current` is the row that `Scan` reads, `rest` the rows to come, each with what `Scan`
makes of it, and `err` the error with which the stream ends, if it is not its normal end. -/
structure Rows (α : Type) where
  current : Option (Except String α) := none
  rest : List (Except String α)
  err : Option String := none

variable {α : Type}

/-- `Next`. -/
def Rows.next (r : Rows α) : Bool × Rows α :=
  match r.rest with
  | [] => (false, { r with current := none })
  | row :: rest => (true, { r with current := some row, rest := rest })

/-- `Scan`. -/
def Rows.scan (r : Rows α) : Except String α :=
  r.current.getD (.error "no row to scan")

/-- A row of a time series query. -/
structure Row (T V : Type) where
  labelIds : List Int
  times : List T
  values : List V

/-- `prompb.Label`. -/
structure Label where
  name : String
  value : String
deriving DecidableEq

/-- `labels.Labels` and `prompb.Label`s sort by their names. -/
def sortLabels (lls : List Label) : List Label :=
  lls.mergeSort fun a b => decide (a.name ≤ b.name)

end TimescalePrometheus.Query.Cursors
