import Mathlib.Tactic.Common

/-!
Loops that are given by one round: the state after it, or nothing once the loop is over.
-/

namespace TimescalePrometheus.Lib.Loops

variable {σ : Type*} {round : σ → Option σ} {s t u : σ}

/-- The loop that is entered in the first state is left in the second one. -/
inductive Exits (round : σ → Option σ) : σ → σ → Prop
  | done {s : σ} (h : round s = none) : Exits round s s
  | more {s s' t : σ} (h : round s = some s') (hrest : Exits round s' t) : Exits round s t

theorem Exits.unique (ht : Exits round s t) (hu : Exits round s u) : t = u := by
  induction ht with
  | done h =>
    cases hu with
    | done => rfl
    | more h' => rw [h] at h'; contradiction
  | more h _ ih =>
    cases hu with
    | done h' => rw [h] at h'; contradiction
    | more h' hrest =>
      rw [h, Option.some.injEq] at h'
      exact ih (h' ▸ hrest)

/-- A loop whose rounds keep an invariant and lower a number is left, with the invariant and at
a point where it is over. -/
theorem exits_of_variant (inv : σ → Prop) (variant : σ → Nat)
    (hround : ∀ s s', inv s → round s = some s' → inv s' ∧ variant s' < variant s) (hs : inv s) :
    ∃ t, Exits round s t ∧ inv t ∧ round t = none := by
  induction hn : variant s using Nat.strongRecOn generalizing s with
  | _ n ih =>
    cases h : round s with
    | none => exact ⟨s, .done h, hs, h⟩
    | some s' =>
      obtain ⟨hs', hlt⟩ := hround s s' hs h
      obtain ⟨t, hexits, ht⟩ := ih _ (hn ▸ hlt) hs' rfl
      exact ⟨t, .more h hexits, ht⟩

end TimescalePrometheus.Lib.Loops
