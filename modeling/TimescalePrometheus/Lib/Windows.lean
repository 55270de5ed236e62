import Mathlib.Algebra.Order.Group.Int
import Mathlib.Data.List.Basic
import Mathlib.Tactic.Linarith
import Mathlib.Tactic.Ring

/-!
Arithmetic progressions and the closed windows that end at their members: what a loop
`for t := first; t <= last; t += step` visits, and the elements of a list with keys in
an interval.
-/

namespace TimescalePrometheus.Lib.Windows

variable {α β : Type*}

/-- The numbers `first`, `first + step`, ... up to and including `last`. -/
def ticks (first last step : Int) : List Int :=
  if last < first then []
  else (List.range (((last - first) / step).toNat + 1)).map fun k : Nat => first + k * step

theorem length_ticks (first last step : Int) : (ticks first last step).length =
    if last < first then 0 else ((last - first) / step).toNat + 1 := by
  unfold ticks
  split
  · rfl
  · rw [List.length_map, List.length_range]

theorem ticks_of_lt {first last : Int} (step : Int) (h : last < first) :
    ticks first last step = [] :=
  if_pos h

theorem ticks_of_le {first last step : Int} (hstep : 0 < step) (h : first ≤ last) :
    ticks first last step = first :: ticks (first + step) last step := by
  rw [ticks, if_neg (not_lt.mpr h), List.range_succ_eq_map, List.map_cons, List.map_map]
  simp only [Nat.cast_zero, zero_mul, add_zero]
  congr 1
  rcases lt_or_ge last (first + step) with hlt | hge
  · rw [ticks_of_lt step hlt, Int.ediv_eq_zero_of_lt (by omega) (by omega)]
    rfl
  · have hdiv : (last - first) / step = (last - (first + step)) / step + 1 := by
      rw [← Int.ediv_self hstep.ne', ← Int.add_ediv_of_dvd_right (dvd_refl step)]
      congr 1
      omega
    have hnonneg : 0 ≤ (last - (first + step)) / step :=
      Int.ediv_nonneg (by omega) hstep.le
    rw [ticks, if_neg (not_lt.mpr hge), hdiv, Int.toNat_add hnonneg (by decide)]
    apply List.map_congr_left
    intro k _
    simp only [Function.comp_apply, Nat.cast_succ]
    ring

theorem ticks_self (first step : Int) : ticks first first step = [first] := by
  simp [ticks]

theorem ticks_add (first last step shift : Int) :
    ticks (first + shift) (last + shift) step = (ticks first last step).map (· + shift) := by
  unfold ticks
  rw [add_sub_add_right_eq_sub]
  simp only [add_lt_add_iff_right]
  split
  · rfl
  · rw [List.map_map]
    apply List.map_congr_left
    intro k _
    simp only [Function.comp_apply]
    ring

theorem ticks_mul {scale : Int} (hscale : 0 < scale) (first last step : Int) :
    ticks (scale * first) (scale * last) (scale * step) =
      (ticks first last step).map (scale * ·) := by
  unfold ticks
  rw [← mul_sub, Int.mul_ediv_mul_of_pos _ _ hscale]
  simp only [mul_lt_mul_iff_right₀ hscale]
  split
  · rfl
  · rw [List.map_map]
    apply List.map_congr_left
    intro k _
    simp only [Function.comp_apply]
    ring

theorem first_le_of_mem_ticks {first last step t : Int} (hstep : 0 < step)
    (h : t ∈ ticks first last step) : first ≤ t := by
  unfold ticks at h
  split at h
  · exact absurd h List.not_mem_nil
  · obtain ⟨k, -, rfl⟩ := List.mem_map.mp h
    have : 0 ≤ (k : Int) * step := mul_nonneg (Int.natCast_nonneg k) hstep.le
    omega

theorem le_last_of_mem_ticks {first last step t : Int} (hstep : 0 < step)
    (h : t ∈ ticks first last step) : t ≤ last := by
  unfold ticks at h
  split at h
  · exact absurd h List.not_mem_nil
  · rename_i hle
    obtain ⟨k, hk, rfl⟩ := List.mem_map.mp h
    have hquot : (k : Int) ≤ (last - first) / step := by
      have hnonneg : 0 ≤ (last - first) / step := Int.ediv_nonneg (by omega) hstep.le
      have := List.mem_range.mp hk
      omega
    have := (Int.mul_le_mul_of_nonneg_right hquot hstep.le).trans
      (Int.ediv_mul_le (last - first) hstep.ne')
    omega

theorem pairwise_ticks {first last step : Int} (hstep : 0 < step) :
    (ticks first last step).Pairwise (· < ·) := by
  unfold ticks
  split
  · exact List.Pairwise.nil
  · refine List.pairwise_map.2 (List.pairwise_lt_range.imp ?_)
    intro j k hlt
    have hmul := mul_lt_mul_of_pos_right (Int.ofNat_lt.mpr hlt) hstep
    omega

theorem getElem?_ticks {first last step : Int} (hstep : 0 < step) (k : Nat) :
    (ticks first last step)[k]? =
      if first + k * step ≤ last then some (first + k * step) else none := by
  have hmul : 0 ≤ (k : Int) * step := mul_nonneg (Int.natCast_nonneg k) hstep.le
  rcases lt_or_ge last first with hlt | hge
  · rw [ticks_of_lt step hlt, if_neg (by omega), List.getElem?_nil]
  · have hiff : k < ((last - first) / step).toNat + 1 ↔ first + k * step ≤ last := by
      have hdiv : (k : Int) ≤ (last - first) / step ↔ k * step ≤ last - first :=
        Int.le_ediv_iff_mul_le hstep
      have hnonneg : 0 ≤ (last - first) / step := Int.ediv_nonneg (by omega) hstep.le
      omega
    rw [ticks, if_neg (not_lt.mpr hge), List.getElem?_map]
    split
    · rename_i hk
      rw [List.getElem?_range (hiff.mpr hk), Option.map_some]
    · rename_i hk
      rw [← hiff, not_lt] at hk
      rw [List.getElem?_eq_none (by rwa [List.length_range]), Option.map_none]

theorem lt_length_ticks_iff {first last step : Int} (hstep : 0 < step) (k : Nat) :
    k < (ticks first last step).length ↔ first + k * step ≤ last := by
  rw [← not_le, ← List.getElem?_eq_none_iff, getElem?_ticks hstep]
  split <;> simp [*]

section Window

variable (key : α → Int)

/-- The elements with keys from `lo` to `hi`, both included. -/
def window (lo hi : Int) (l : List α) : List α :=
  l.filter fun x => lo ≤ key x ∧ key x ≤ hi

/-- The keys never decrease. -/
def Ascending (l : List α) : Prop :=
  l.Pairwise fun a b => key a ≤ key b

variable {key}

theorem mem_window {lo hi : Int} {l : List α} {x : α} :
    x ∈ window key lo hi l ↔ x ∈ l ∧ lo ≤ key x ∧ key x ≤ hi := by
  simp [window]

@[simp]
theorem window_append (lo hi : Int) (l l' : List α) :
    window key lo hi (l ++ l') = window key lo hi l ++ window key lo hi l' :=
  List.filter_append ..

theorem window_eq_nil {lo hi : Int} {l : List α}
    (h : ∀ x ∈ l, key x < lo ∨ hi < key x) : window key lo hi l = [] := by
  simp only [window, List.filter_eq_nil_iff, decide_eq_true_eq]
  intro x hx
  rcases h x hx with hlt | hlt <;> omega

theorem window_eq_self {lo hi : Int} {l : List α}
    (h : ∀ x ∈ l, lo ≤ key x ∧ key x ≤ hi) : window key lo hi l = l := by
  simpa [window] using h

theorem dropWhile_lt {l : List α} (h : Ascending key l) (lo : Int) :
    l.dropWhile (fun x => key x < lo) = l.filter fun x => lo ≤ key x := by
  induction l with
  | nil => rfl
  | cons x l ih =>
    obtain ⟨hx, hl⟩ := List.pairwise_cons.mp h
    rcases lt_or_ge (key x) lo with hlt | hge
    · rw [List.dropWhile_cons_of_pos (by simpa using hlt), ih hl,
        List.filter_cons_of_neg (by simpa using hlt)]
    · rw [List.dropWhile_cons_of_neg (by simpa using hge)]
      symm
      rw [List.filter_eq_self]
      intro y hy
      rw [decide_eq_true_eq]
      rcases List.mem_cons.mp hy with rfl | hy
      · exact hge
      · exact hge.trans (hx y hy)

theorem window_filter_le {lo lo' hi : Int} (h : lo' ≤ lo) (l : List α) :
    window key lo hi (l.filter fun x => lo' ≤ key x) = window key lo hi l := by
  unfold window
  rw [List.filter_filter]
  apply List.filter_congr
  intro x _
  grind

theorem window_split {l : List α} (h : Ascending key l) {lo mid hi : Int} (hlo : lo ≤ mid + 1)
    (hhi : mid ≤ hi) :
    window key lo hi l = window key lo mid l ++ window key (mid + 1) hi l := by
  induction l with
  | nil => rfl
  | cons x l ih =>
    obtain ⟨hx, hl⟩ := List.pairwise_cons.mp h
    rcases le_or_gt (key x) mid with hle | hgt
    · have hright : window key (mid + 1) hi (x :: l) = window key (mid + 1) hi l :=
        List.filter_cons_of_neg (by simp; omega)
      rw [hright]
      unfold window at ih ⊢
      rw [List.filter_cons, List.filter_cons, ih hl]
      grind
    · have hleft : window key lo mid (x :: l) = [] := by
        refine window_eq_nil (List.forall_mem_cons.mpr ⟨.inr hgt, ?_⟩)
        intro y hy
        exact .inr (hgt.trans_le (hx y hy))
      rw [hleft, List.nil_append]
      unfold window
      apply List.filter_congr
      intro y hy
      have hmid : mid < key y := by
        rcases List.mem_cons.mp hy with rfl | hy
        · exact hgt
        · exact hgt.trans_le (hx y hy)
      rw [decide_eq_decide]
      omega

theorem ascending_window {l : List α} (h : Ascending key l) (lo hi : Int) :
    Ascending key (window key lo hi l) :=
  h.sublist List.filter_sublist

theorem le_of_getLast? {l : List α} (h : Ascending key l) {last : α}
    (hlast : l.getLast? = some last) {x : α} (hx : x ∈ l) : key x ≤ key last := by
  obtain ⟨init, rfl⟩ := List.getLast?_eq_some_iff.mp hlast
  rcases List.mem_append.mp hx with hx | hx
  · exact (List.pairwise_append.mp h).2.2 x hx last (List.mem_singleton.mpr rfl)
  · rw [List.mem_singleton.mp hx]

theorem window_window {lo hi lo' hi' : Int} (hlo : lo ≤ lo') (hhi : hi' ≤ hi) (l : List α) :
    window key lo' hi' (window key lo hi l) = window key lo' hi' l := by
  unfold window
  rw [List.filter_filter]
  apply List.filter_congr
  intro x _
  simp only [← Bool.decide_and, decide_eq_decide]
  omega

theorem getLast?_window {l : List α} (h : Ascending key l) {lo mid hi : Int} (hle : lo ≤ mid) :
    (window key mid hi l).getLast? =
      (window key lo hi l).getLast?.filter fun x => mid ≤ key x := by
  rcases lt_or_ge hi mid with hempty | hhi
  · rw [window_eq_nil fun x _ => by omega, List.getLast?_nil, eq_comm, Option.filter_eq_none_iff]
    intro x hx
    have := (mem_window.mp (List.mem_of_getLast? hx)).2
    simp only [decide_eq_true_eq]
    omega
  · have hsplit : window key lo hi l = window key lo (mid - 1) l ++ window key (mid - 1 + 1) hi l :=
      window_split h (by omega) (by omega)
    rw [hsplit, sub_add_cancel, List.getLast?_append]
    cases hlast : (window key mid hi l).getLast? with
    | some x =>
      have := (mem_window.mp (List.mem_of_getLast? hlast)).2
      simpa [Option.filter] using this.1
    | none =>
      rw [Option.none_or, eq_comm, Option.filter_eq_none_iff]
      intro x hx
      have := (mem_window.mp (List.mem_of_getLast? hx)).2
      simp only [decide_eq_true_eq]
      omega

end Window

end TimescalePrometheus.Lib.Windows
