import Mathlib.Tactic.Common

/-!
Rules for programs that pass a state along and may abort.
-/

namespace TimescalePrometheus.Lib.Transactions

open EStateM

variable {ε σ α β : Type}

@[simp] theorem bind_eq_ok (x : EStateM ε σ α) (f : α → EStateM ε σ β) (s t : σ) (b : β) :
    (x >>= f) s = .ok b t ↔ ∃ a u, x s = .ok a u ∧ f a u = .ok b t := by
  change EStateM.bind x f s = .ok b t ↔ _
  unfold EStateM.bind
  cases hx : x s with
  | ok a u => simp
  | error e u => simp

@[simp] theorem pure_eq_ok (a b : α) (s t : σ) :
    (pure a : EStateM ε σ α) s = .ok b t ↔ a = b ∧ s = t := by
  change EStateM.Result.ok a s = .ok b t ↔ _
  simp

@[simp] theorem get_eq_ok (s t u : σ) :
    (get : EStateM ε σ σ) s = .ok t u ↔ s = t ∧ s = u := by
  change EStateM.Result.ok s s = .ok t u ↔ _
  simp

@[simp] theorem set_eq_ok (s t u : σ) (a : PUnit) :
    (set u : EStateM ε σ PUnit) s = .ok a t ↔ u = t := by
  change EStateM.Result.ok PUnit.unit u = .ok a t ↔ _
  simp

@[simp] theorem throw_ne_ok (e : ε) (s t : σ) (a : α) :
    (throw e : EStateM ε σ α) s ≠ .ok a t := by
  change EStateM.Result.error e s ≠ .ok a t
  simp

@[simp] theorem pure_ne_error (a : α) (e : ε) (s t : σ) :
    (pure a : EStateM ε σ α) s ≠ .error e t := by
  change EStateM.Result.ok a s ≠ .error e t
  simp

@[simp] theorem get_ne_error (e : ε) (s t : σ) : (get : EStateM ε σ σ) s ≠ .error e t := by
  change EStateM.Result.ok s s ≠ .error e t
  simp

@[simp] theorem set_ne_error (e : ε) (s t u : σ) :
    (set u : EStateM ε σ PUnit) s ≠ .error e t := by
  change EStateM.Result.ok PUnit.unit u ≠ .error e t
  simp

@[simp] theorem throw_eq_error (e e' : ε) (s t : σ) :
    (throw e : EStateM ε σ α) s = .error e' t ↔ e = e' ∧ s = t := by
  change EStateM.Result.error e s = .error e' t ↔ _
  simp

theorem bind_of_ok {x : EStateM ε σ α} {s t : σ} {a : α} (h : x s = .ok a t)
    (f : α → EStateM ε σ β) : (x >>= f) s = f a t := by
  change EStateM.bind x f s = f a t
  unfold EStateM.bind
  rw [h]

theorem get_bind (f : σ → EStateM ε σ β) (s : σ) : (get >>= f) s = f s s := rfl

@[simp] theorem bind_eq_error (x : EStateM ε σ α) (f : α → EStateM ε σ β) (s t : σ) (e : ε) :
    (x >>= f) s = .error e t ↔
      x s = .error e t ∨ ∃ a u, x s = .ok a u ∧ f a u = .error e t := by
  change EStateM.bind x f s = .error e t ↔ _
  unfold EStateM.bind
  cases hx : x s with
  | ok a u => simp
  | error e' u => simp

theorem ok_bind (a : α) (f : α → Except ε β) : (Except.ok a >>= f) = f a := rfl

theorem except_bind_eq_ok {x : Except ε α} {f : α → Except ε β} {b : β} :
    (x >>= f) = .ok b ↔ ∃ a, x = .ok a ∧ f a = .ok b := by
  cases x with
  | ok a => simp [ok_bind]
  | error e => exact iff_of_false (fun h => nomatch h) (fun ⟨_, h, _⟩ => nomatch h)

@[simp] theorem ofExcept_ok (a : α) (s : σ) :
    (ofExcept (.ok a : Except ε α) : EStateM ε σ α) s = .ok a s := rfl

/-- Started in `s`, `x` returns, and its result and last state meet `post`. -/
def Returns (x : EStateM ε σ α) (s : σ) (post : α → σ → Prop) : Prop :=
  ∃ a t, x s = .ok a t ∧ post a t

section Returns

variable {x : EStateM ε σ α} {s : σ} {post : α → σ → Prop}

theorem returns_pure {a : α} (h : post a s) : Returns (pure a : EStateM ε σ α) s post :=
  ⟨a, s, rfl, h⟩

theorem returns_get_bind {f : σ → EStateM ε σ α} (h : Returns (f s) s post) :
    Returns (get >>= f) s post := h

theorem Returns.bind {f : α → EStateM ε σ β} {last : β → σ → Prop} (hx : Returns x s post)
    (hf : ∀ a t, post a t → Returns (f a) t last) : Returns (x >>= f) s last := by
  obtain ⟨a, t, hok, hpost⟩ := hx
  obtain ⟨b, u, hok', hlast⟩ := hf a t hpost
  exact ⟨b, u, (bind_of_ok hok f).trans hok', hlast⟩

theorem Returns.of_ok {a : α} {t : σ} (hx : Returns x s post) (h : x s = .ok a t) : post a t := by
  obtain ⟨b, u, hok, hpost⟩ := hx
  rw [hok] at h
  cases h
  exact hpost

end Returns

/-- Started in `s`, whether it returns or aborts, `x` stops in a state that `R`
relates to `s`. -/
def Respects (R : σ → σ → Prop) (x : EStateM ε σ α) (s : σ) : Prop :=
  match x s with
  | .ok _ t => R s t
  | .error _ t => R s t

section Rules

variable {R : σ → σ → Prop} {s t : σ}

theorem Respects.of_ok {x : EStateM ε σ α} {a : α} (hx : Respects R x s)
    (h : x s = .ok a t) : R s t := by
  unfold Respects at hx
  rw [h] at hx
  exact hx

theorem Respects.of_error {x : EStateM ε σ α} {e : ε} (hx : Respects R x s)
    (h : x s = .error e t) : R s t := by
  unfold Respects at hx
  rw [h] at hx
  exact hx

theorem respects_pure (hrefl : R s s) (a : α) : Respects R (pure a : EStateM ε σ α) s :=
  hrefl

theorem respects_throw (hrefl : R s s) (e : ε) : Respects R (throw e : EStateM ε σ α) s :=
  hrefl

theorem respects_set (h : R s t) : Respects R (set t : EStateM ε σ PUnit) s := h

theorem respects_get_bind {f : σ → EStateM ε σ α} (hf : Respects R (f s) s) :
    Respects R (get >>= f) s := hf

theorem respects_bind (htrans : ∀ s t u, R s t → R t u → R s u)
    {x : EStateM ε σ α} {f : α → EStateM ε σ β} (hx : Respects R x s)
    (hf : ∀ a t, x s = .ok a t → Respects R (f a) t) : Respects R (x >>= f) s := by
  unfold Respects at hx ⊢
  change match EStateM.bind x f s with
    | .ok _ t => R s t
    | .error _ t => R s t
  unfold EStateM.bind
  cases hrun : x s with
  | ok a t =>
    rw [hrun] at hx
    have hnext := hf a t hrun
    unfold Respects at hnext
    simp only
    cases hfa : f a t with
    | ok b u =>
      rw [hfa] at hnext
      exact htrans _ _ _ hx hnext
    | error e u =>
      rw [hfa] at hnext
      exact htrans _ _ _ hx hnext
  | error e t =>
    rw [hrun] at hx
    exact hx

theorem respects_ofExcept (hrefl : R s s) (x : Except ε α) :
    Respects R (ofExcept x : EStateM ε σ α) s := by
  cases x with
  | ok a => exact hrefl
  | error e => exact hrefl

theorem respects_forM (hrefl : ∀ s, R s s) (htrans : ∀ s t u, R s t → R t u → R s u)
    {f : β → EStateM ε σ PUnit} {l : List β} (hf : ∀ b ∈ l, ∀ s, Respects R (f b) s) (s : σ) :
    Respects R (l.forM f) s := by
  induction l generalizing s with
  | nil => exact hrefl s
  | cons b l ih =>
    exact respects_bind htrans (hf b List.mem_cons_self s) fun _ t _ =>
      ih (fun c hc => hf c (List.mem_cons_of_mem _ hc)) t

theorem Respects.mono {R' : σ → σ → Prop} {x : EStateM ε σ α} (hx : Respects R x s)
    (h : ∀ s t, R s t → R' s t) : Respects R' x s := by
  unfold Respects at hx ⊢
  cases hrun : x s with
  | ok a t =>
    rw [hrun] at hx
    exact h _ _ hx
  | error e t =>
    rw [hrun] at hx
    exact h _ _ hx

end Rules

theorem foldlM_ok_invariant {f : α → β → Except ε α} (inv : α → Prop) {l : List β}
    (hf : ∀ b ∈ l, ∀ a a', inv a → f a b = .ok a' → inv a') {a r : α} (ha : inv a)
    (h : l.foldlM f a = .ok r) : inv r := by
  induction l generalizing a with
  | nil =>
    cases h
    exact ha
  | cons b l ih =>
    rw [List.foldlM_cons, except_bind_eq_ok] at h
    obtain ⟨a', hb, hrest⟩ := h
    exact ih (fun c hc => hf c (List.mem_cons_of_mem _ hc))
      (hf b List.mem_cons_self a a' ha hb) hrest

end TimescalePrometheus.Lib.Transactions
