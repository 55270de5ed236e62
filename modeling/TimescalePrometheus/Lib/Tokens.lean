import Mathlib.Data.List.Perm.Basic
import Mathlib.Data.List.Count
import Mathlib.Tactic.Common

/-!
Tokens that are handed around between places and answered one by one.
-/

namespace TimescalePrometheus.Lib.Tokens

variable {α τ : Type*}

theorem getElem?_set_cases {l : List α} {k i : Nat} {a b : α} (h : (l.set k a)[i]? = some b) :
    (i = k ∧ b = a) ∨ (i ≠ k ∧ l[i]? = some b) := by
  rw [List.getElem?_set] at h
  split at h
  · rename_i hk
    split at h
    · exact .inl ⟨hk.symm, (Option.some.inj h).symm⟩
    · exact absurd h (by simp)
  · exact .inr ⟨by omega, h⟩

theorem getElem?_concat_cases {l : List α} {i : Nat} {a b : α} (h : (l ++ [a])[i]? = some b) :
    (i = l.length ∧ b = a) ∨ l[i]? = some b := by
  rcases Nat.lt_trichotomy i l.length with hi | rfl | hi
  · rw [List.getElem?_append_left hi] at h
    exact .inr h
  · rw [List.getElem?_concat_length] at h
    exact .inl ⟨rfl, (Option.some.inj h).symm⟩
  · rw [List.getElem?_eq_none (by simpa using Nat.succ_le_of_lt hi)] at h
    exact absurd h (by simp)

theorem flatMap_set_of_eq {β : Type*} (f : α → List β) {l : List α} {k : Nat} {a b : α}
    (h : l[k]? = some a) (hb : f b = f a) : (l.set k b).flatMap f = l.flatMap f := by
  induction l generalizing k with
  | nil => rfl
  | cons x l ih =>
    cases k with
    | zero =>
      have hx : x = a := by simpa using h
      rw [List.set_cons_zero, List.flatMap_cons, List.flatMap_cons, hx, hb]
    | succ k =>
      rw [List.set_cons_succ, List.flatMap_cons, List.flatMap_cons, ih (by simpa using h)]

section Counting

variable [DecidableEq τ]

theorem count_flatMap_set (f : α → List τ) {l : List α} {k : Nat} {a : α} (h : l[k]? = some a)
    (b : α) (t : τ) :
    ((l.set k b).flatMap f).count t + (f a).count t =
      (l.flatMap f).count t + (f b).count t := by
  induction l generalizing k with
  | nil => simp at h
  | cons x l ih =>
    cases k with
    | zero =>
      have hx : x = a := by simpa using h
      rw [List.set_cons_zero, List.flatMap_cons, List.flatMap_cons, List.count_append,
        List.count_append, hx]
      omega
    | succ k =>
      have hrest := ih (by simpa using h)
      rw [List.set_cons_succ, List.flatMap_cons, List.flatMap_cons, List.count_append,
        List.count_append]
      omega

theorem mem_flatMap_set (f : α → List τ) {l : List α} {k : Nat} {a : α} (h : l[k]? = some a)
    (b : α) {t : τ} (ht : t ∈ l.flatMap f) : t ∈ (l.set k b).flatMap f ∨ t ∈ f a := by
  have hcount := count_flatMap_set f h b t
  have hpos := List.count_pos_iff.mpr ht
  rcases Nat.eq_zero_or_pos ((f a).count t) with hzero | ha
  · exact .inl (List.count_pos_iff.mp (by omega))
  · exact .inr (List.count_pos_iff.mp ha)

/-- No token is issued twice, and each is in one of the places or answered. -/
structure Balanced (issued held answered : List τ) : Prop where
  nodup : issued.Nodup
  count : ∀ t, held.count t + answered.count t = issued.count t

namespace Balanced

variable {issued held answered : List τ}

theorem perm (h : Balanced issued held answered) : (held ++ answered).Perm issued := by
  rw [List.perm_iff_count]
  intro t
  rw [List.count_append]
  exact h.count t

theorem nodup_answered (h : Balanced issued held answered) : answered.Nodup :=
  (List.nodup_append.mp (h.perm.nodup_iff.mpr h.nodup)).2.1

theorem mem_issued (h : Balanced issued held answered) {t : τ} (ht : t ∈ held) : t ∈ issued :=
  h.perm.mem_iff.mp (List.mem_append_left _ ht)

theorem mem_issued_of_answered (h : Balanced issued held answered) {t : τ} (ht : t ∈ answered) :
    t ∈ issued :=
  h.perm.mem_iff.mp (List.mem_append_right _ ht)

theorem countP_lt (h : Balanced issued held answered) {p : τ → Bool} {t : τ} (ht : t ∈ held)
    (hp : p t) : answered.countP p < issued.countP p := by
  have hheld : 0 < held.countP p := List.countP_pos_iff.mpr ⟨t, ht, hp⟩
  rw [← h.perm.countP_eq, List.countP_append]
  omega

theorem mem_answered (h : Balanced issued held answered) {p : τ → Bool}
    (hp : answered.countP p = issued.countP p) {t : τ} (ht : t ∈ issued) (htp : p t) :
    t ∈ answered := by
  rcases List.mem_append.mp (h.perm.mem_iff.mpr ht) with hheld | hanswered
  · exact absurd (h.countP_lt hheld htp) (by omega)
  · exact hanswered

theorem move (h : Balanced issued held answered) {held' : List τ}
    (hmove : ∀ t, held'.count t = held.count t) : Balanced issued held' answered :=
  ⟨h.nodup, fun t => by rw [hmove t]; exact h.count t⟩

theorem answer (h : Balanced issued held answered) {held' : List τ} {t : τ}
    (hanswer : ∀ x, held'.count x + [t].count x = held.count x) :
    Balanced issued held' (t :: answered) :=
  ⟨h.nodup, fun x => by
    rw [← h.count x, ← hanswer x, ← List.singleton_append, List.count_append]
    omega⟩

theorem issue (h : Balanced issued held answered) {new held' : List τ} (hnew : new.Nodup)
    (hfresh : ∀ t ∈ new, t ∉ issued) (hheld : ∀ x, held'.count x = held.count x + new.count x) :
    Balanced (issued ++ new) held' answered :=
  ⟨List.nodup_append.mpr ⟨h.nodup, hnew, fun t ht t' ht' heq => hfresh t' ht' (heq ▸ ht)⟩,
    fun x => by
      rw [List.count_append, ← h.count x, hheld x]
      omega⟩

end Balanced

end Counting

end TimescalePrometheus.Lib.Tokens
