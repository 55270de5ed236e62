import Mathlib.Tactic.Common

/-!
Slices over an array that is used again and again: behind its elements a slice keeps the
slots up to its capacity, with whatever was left in them.
-/

namespace TimescalePrometheus.Lib.Slices

variable {α β γ : Type}

structure Slice (α : Type) where
  elems : List α := []
  /-- The slots between the length and the capacity. -/
  spare : List α := []
  deriving DecidableEq

namespace Slice

/-- `s[:0]`. -/
def truncate (s : Slice α) : Slice α := { spare := s.elems ++ s.spare }

/-- Extends the slice by one slot and fills the slot in place. A slot within the capacity
is reset, otherwise `zero` is appended; `grow` gives the number of new slots that a larger
array has behind it. -/
def extend (grow : Nat → Nat) (zero : α) (reset : α → α) (fill : α → α × β) (s : Slice α) :
    Slice α × β :=
  match s.spare with
  | slot :: spare =>
    let (x, result) := fill (reset slot)
    (⟨s.elems ++ [x], spare⟩, result)
  | [] =>
    let (x, result) := fill zero
    (⟨s.elems ++ [x], List.replicate (grow s.elems.length) zero⟩, result)

/-- If a reset slot looks like a new one and `fill` goes by what is seen of a slot, the
extension does not depend on what the slot held. -/
theorem extend_view (grow : Nat → Nat) (zero : α) {reset : α → α} {fill : α → α × β}
    (view : α → γ) (hreset : ∀ x, view (reset x) = view zero) {fill' : γ → γ × β}
    (hfill : ∀ x, Prod.map view id (fill x) = fill' (view x)) (s : Slice α) :
    (s.extend grow zero reset fill).1.elems.map view =
        s.elems.map view ++ [(fill' (view zero)).1] ∧
      (s.extend grow zero reset fill).2 = (fill' (view zero)).2 := by
  unfold extend
  split
  · rename_i slot spare _
    rw [← hreset slot, ← hfill (reset slot)]
    simp
  · rw [← hfill zero]
    simp

theorem extend_zero (grow : Nat → Nat) (zero : α) {reset : α → α} (hreset : ∀ x, reset x = zero)
    (fill : α → α × β) (s : Slice α) :
    (s.extend grow zero reset fill).1.elems = s.elems ++ [(fill zero).1] ∧
      (s.extend grow zero reset fill).2 = (fill zero).2 := by
  have hfill : ∀ x, Prod.map id id (fill x) = fill (id x) := fun x => rfl
  simpa using extend_view grow zero id hreset hfill s

end Slice

end TimescalePrometheus.Lib.Slices
