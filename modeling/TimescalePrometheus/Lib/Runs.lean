import Mathlib.Tactic.Common

/-!
Runs of a machine given by a total step function.
-/

namespace TimescalePrometheus.Lib.Runs

variable {σ α : Type*}

/-- The state reached from `s` by the listed actions, first action first. -/
def run (step : σ → α → σ) (s : σ) (actions : List α) : σ :=
  actions.foldl step s

@[simp] theorem run_nil (step : σ → α → σ) (s : σ) : run step s [] = s := rfl

@[simp] theorem run_cons (step : σ → α → σ) (s : σ) (a : α) (actions : List α) :
    run step s (a :: actions) = run step (step s a) actions := rfl

theorem run_append (step : σ → α → σ) (s : σ) (first second : List α) :
    run step s (first ++ second) = run step (run step s first) second := by
  simp [run]

theorem run_concat (step : σ → α → σ) (s : σ) (actions : List α) (a : α) :
    run step s (actions ++ [a]) = step (run step s actions) a := by
  simp [run]

theorem run_invariant {step : σ → α → σ} (inv : σ → Prop)
    (hstep : ∀ s a, inv s → inv (step s a)) {s : σ} (hs : inv s)
    (actions : List α) : inv (run step s actions) := by
  induction actions generalizing s with
  | nil => exact hs
  | cons a actions ih => exact ih (hstep s a hs)

/-- `P` holds in every state the run goes through, both ends included. -/
def Always (step : σ → α → σ) (P : σ → Prop) : σ → List α → Prop
  | s, [] => P s
  | s, a :: actions => P s ∧ Always step P (step s a) actions

/-- Every action of the run meets the condition `ok` in the state it is taken in. -/
def Throughout (step : σ → α → σ) (ok : σ → α → Prop) : σ → List α → Prop
  | _, [] => True
  | s, a :: actions => ok s a ∧ Throughout step ok (step s a) actions

instance decidableThroughout (step : σ → α → σ) (ok : σ → α → Prop)
    [∀ s a, Decidable (ok s a)] :
    ∀ s actions, Decidable (Throughout step ok s actions)
  | _, [] => inferInstanceAs (Decidable True)
  | s, a :: actions =>
    have := decidableThroughout step ok (step s a) actions
    inferInstanceAs (Decidable (ok s a ∧ Throughout step ok (step s a) actions))

theorem Always.last {step : σ → α → σ} {P : σ → Prop} {s : σ} {actions : List α}
    (h : Always step P s actions) : P (run step s actions) := by
  induction actions generalizing s with
  | nil => exact h
  | cons a actions ih => exact ih h.2

/-- If the condition is what a step needs to keep `P`, then it is enough for `P`
to hold along every run that meets it. -/
theorem always_of_throughout {step : σ → α → σ} {P : σ → Prop}
    {ok : σ → α → Prop} (hstep : ∀ s a, P s → ok s a → P (step s a))
    {s : σ} (hs : P s) {actions : List α} (h : Throughout step ok s actions) :
    Always step P s actions := by
  induction actions generalizing s with
  | nil => exact hs
  | cons a actions ih => exact ⟨hs, ih (hstep s a hs h.1) h.2⟩

/-- If the condition is what a step needs to keep an invariant, then along every run that
meets it each action does what the invariant says of it. -/
theorem throughout_of_invariant {step : σ → α → σ} (inv : σ → Prop) {ok does : σ → α → Prop}
    (hstep : ∀ s a, inv s → ok s a → inv (step s a)) (hdoes : ∀ s a, inv s → does s a)
    {s : σ} (hs : inv s) {actions : List α} (h : Throughout step ok s actions) :
    Throughout step does s actions := by
  induction actions generalizing s with
  | nil => trivial
  | cons a actions ih => exact ⟨hdoes s a hs, ih (hstep s a hs h.1) h.2⟩

theorem Always.mono {step : σ → α → σ} {P Q : σ → Prop} (hPQ : ∀ s, P s → Q s) {s : σ}
    {actions : List α} (h : Always step P s actions) : Always step Q s actions := by
  induction actions generalizing s with
  | nil => exact hPQ s h
  | cons a actions ih => exact ⟨hPQ s h.1, ih h.2⟩

theorem throughout_of_always {step : σ → α → σ} {P : σ → Prop} {does : σ → α → Prop}
    (hdoes : ∀ s a, P s → does s a) {s : σ} {actions : List α} (h : Always step P s actions) :
    Throughout step does s actions := by
  induction actions generalizing s with
  | nil => trivial
  | cons a actions ih => exact ⟨hdoes s a h.1, ih h.2⟩

theorem throughout_congr {step : σ → α → σ} (inv : σ → Prop) {does ok : σ → α → Prop}
    (hstep : ∀ s a, inv s → ok s a → inv (step s a))
    (hiff : ∀ s a, inv s → (does s a ↔ ok s a)) {s : σ} (hs : inv s) (actions : List α) :
    Throughout step does s actions ↔ Throughout step ok s actions := by
  induction actions generalizing s with
  | nil => exact Iff.rfl
  | cons a actions ih =>
    unfold Throughout
    rw [hiff s a hs]
    exact and_congr_right fun hok => ih (hstep s a hs hok)

/-- If, under an invariant, a step keeps `P` exactly when it meets the condition,
then `P` holds along a run exactly when all its steps meet the condition. -/
theorem always_iff_throughout {step : σ → α → σ} (inv : σ → Prop) {P : σ → Prop}
    {ok : σ → α → Prop} (hinv : ∀ s a, inv s → inv (step s a))
    (hstep : ∀ s a, inv s → P s → (P (step s a) ↔ ok s a))
    {s : σ} (hi : inv s) (hs : P s) (actions : List α) :
    Always step P s actions ↔ Throughout step ok s actions := by
  induction actions generalizing s with
  | nil => exact iff_of_true hs trivial
  | cons a actions ih =>
    constructor
    · rintro ⟨_, hrest⟩
      have hnext : P (step s a) := by
        cases actions with
        | nil => exact hrest
        | cons b actions => exact hrest.1
      exact ⟨(hstep s a hi hs).mp hnext, (ih (hinv s a hi) hnext).mp hrest⟩
    · rintro ⟨hok, hrest⟩
      have hnext : P (step s a) := (hstep s a hi hs).mpr hok
      exact ⟨hs, (ih (hinv s a hi) hnext).mpr hrest⟩

/-- How many actions of the run meet the condition in the state they are taken in. -/
def countSteps (step : σ → α → σ) (p : σ → α → Bool) : σ → List α → Nat
  | _, [] => 0
  | s, a :: actions => (p s a).toNat + countSteps step p (step s a) actions

theorem countSteps_le {step : σ → α → σ} {p : σ → α → Bool} (inv : σ → Prop) (rank : σ → Nat)
    (hstep : ∀ s a, inv s → inv (step s a) ∧ (p s a).toNat + rank (step s a) ≤ rank s)
    {s : σ} (hs : inv s) (actions : List α) : countSteps step p s actions ≤ rank s := by
  induction actions generalizing s with
  | nil => exact Nat.zero_le _
  | cons a actions ih =>
    obtain ⟨hinv, hrank⟩ := hstep s a hs
    exact Nat.le_trans (Nat.add_le_add_left (ih hinv) _) hrank

end TimescalePrometheus.Lib.Runs
