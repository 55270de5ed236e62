import Mathlib.Data.Nat.Notation

/-!
Computations under a limit, which fail if the limit is too low for them.
-/

namespace TimescalePrometheus.Lib.Budgets

universe u v

variable {ε : Type u} {α β : Type v}

/-- Under every limit a result has the property, and from some limit on there is one and
the same result. -/
structure Yields (f : Nat → Except ε α) (P : α → Prop) : Prop where
  sound : ∀ limit a, f limit = .ok a → P a
  total : ∃ bound a, ∀ limit, bound ≤ limit → f limit = .ok a

theorem Yields.pure {a : α} {P : α → Prop} (h : P a) :
    Yields (fun _ => (.ok a : Except ε α)) P where
  sound := by
    rintro _ _ ⟨⟩
    exact h
  total := ⟨0, a, fun _ _ => rfl⟩

theorem Yields.mono {f : Nat → Except ε α} {P Q : α → Prop} (h : Yields f P)
    (hPQ : ∀ a, P a → Q a) : Yields f Q where
  sound := fun limit a ha => hPQ a (h.sound limit a ha)
  total := h.total

theorem Yields.bind {f : Nat → Except ε α} {g : Nat → α → Except ε β} {P : α → Prop}
    {Q : β → Prop} (hf : Yields f P) (hg : ∀ a, P a → Yields (fun limit => g limit a) Q) :
    Yields (fun limit => f limit >>= g limit) Q where
  sound := by
    intro limit b h
    cases hfl : f limit with
    | error e => simp [hfl, Bind.bind, Except.bind] at h
    | ok a =>
      simp only [hfl, Bind.bind, Except.bind] at h
      exact (hg a (hf.sound limit a hfl)).sound limit b h
  total := by
    obtain ⟨bound, a, ha⟩ := hf.total
    obtain ⟨bound', b, hb⟩ := (hg a (hf.sound bound a (ha bound (Nat.le_refl _)))).total
    refine ⟨max bound bound', b, ?_⟩
    intro limit hle
    rw [ha limit (Nat.le_trans (Nat.le_max_left _ _) hle)]
    exact hb limit (Nat.le_trans (Nat.le_max_right _ _) hle)

theorem Yields.foldlM {f : Nat → β → α → Except ε β} (inv : List α → β → Prop)
    (hstep : ∀ a l b, inv (a :: l) b → Yields (fun limit => f limit b a) (inv l))
    (l : List α) {b : β} (hb : inv l b) :
    Yields (fun limit => l.foldlM (f limit) b) (inv []) := by
  induction l generalizing b with
  | nil => exact Yields.pure hb
  | cons a l ih => exact (hstep a l b hb).bind fun _ hb' => ih hb'

end TimescalePrometheus.Lib.Budgets
