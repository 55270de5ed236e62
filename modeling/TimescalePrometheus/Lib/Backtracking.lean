import Mathlib.Data.List.TakeWhile
import Mathlib.Logic.Function.Basic
import Mathlib.Tactic.Common

/-!
Regular expressions as a backtracking search finds them: the alternatives are tried in order, and
a lazy repetition tries to end before it goes on.
-/

namespace TimescalePrometheus.Lib.Backtracking

variable {α : Type}

theorem take_length_sub_dropWhile (p : α → Bool) (t : List α) :
    t.take (t.length - (t.dropWhile p).length) = t.takeWhile p := by
  have h := List.takeWhile_append_dropWhile (p := p) (l := t)
  have hlen : t.length - (t.dropWhile p).length = (t.takeWhile p).length := by
    have := congrArg List.length h
    rw [List.length_append] at this
    omega
  rw [hlen]
  exact (List.prefix_iff_eq_take.mp (List.takeWhile_prefix p)).symm

theorem dropWhile_append_cons {p : α → Bool} {c : α} (hc : p c = false) (before rest : List α) :
    (before ++ c :: rest).dropWhile p = before.dropWhile p ++ c :: rest := by
  induction before with
  | nil => exact List.dropWhile_cons_of_neg (by simp [hc])
  | cons b before ih =>
    rw [List.cons_append]
    by_cases hb : p b = true
    · rw [List.dropWhile_cons_of_pos hb, List.dropWhile_cons_of_pos hb, ih]
    · rw [List.dropWhile_cons_of_neg hb, List.dropWhile_cons_of_neg hb, List.cons_append]

theorem takeWhile_append_cons {p : α → Bool} {c : α} (hc : p c = false) (before rest : List α) :
    (before ++ c :: rest).takeWhile p = before.takeWhile p := by
  induction before with
  | nil => exact List.takeWhile_cons_of_neg (by simp [hc])
  | cons b before ih =>
    rw [List.cons_append]
    by_cases hb : p b = true
    · rw [List.takeWhile_cons_of_pos hb, List.takeWhile_cons_of_pos hb, ih]
    · rw [List.takeWhile_cons_of_neg hb, List.takeWhile_cons_of_neg hb]

theorem while_append_of_dropWhile {p : α → Bool} {before before' : List α} {c : α}
    (h : before.dropWhile p = c :: before') (rest : List α) :
    (before ++ rest).takeWhile p = before.takeWhile p ∧
      (before ++ rest).dropWhile p = c :: (before' ++ rest) := by
  have hc : p c = false := by
    have hhead := List.head?_dropWhile_not p before
    rw [h] at hhead
    simpa using hhead
  have hsplit : before ++ rest = before.takeWhile p ++ c :: (before' ++ rest) := by
    rw [← List.cons_append, ← h, ← List.append_assoc, List.takeWhile_append_dropWhile]
  rw [hsplit, takeWhile_append_cons hc, dropWhile_append_cons hc]
  simpa using fun x hx => List.mem_takeWhile_imp hx

theorem length_lt_of_dropWhile {p : α → Bool} {l l' : List α} {c : α}
    (h : l.dropWhile p = c :: l') : l'.length < l.length := by
  have hle := (List.dropWhile_sublist p (l := l)).length_le
  rw [h] at hle
  exact hle

theorem prefix_of_not_mem {l before rest : List α} {c : α} (h : l <+: before ++ c :: rest)
    (hc : c ∉ l) : l <+: before := by
  rcases List.prefix_or_prefix_of_prefix h (List.prefix_append before _) with h' | ⟨m, rfl⟩
  · exact h'
  · rw [List.prefix_append_right_inj] at h
    cases m with
    | nil => exact ⟨[], by simp⟩
    | cons d m =>
      obtain ⟨rfl, -⟩ := List.cons_prefix_cons.mp h
      exact absurd (by simp) hc

/-- A key that ends in a character which is not in the word before it does not begin in front of
that word, unless it also ends there. -/
theorem key_prefix_append_iff {w before rest : List α} {c : α} (hc : c ∉ w) (hne : before ≠ []) :
    w ++ [c] <+: before ++ (w ++ rest) ↔ w ++ [c] <+: before := by
  constructor
  · intro h
    rcases List.prefix_or_prefix_of_prefix h (List.prefix_append before (w ++ rest)) with h' | h'
    · exact h'
    · obtain ⟨m, hm⟩ := h'
      rw [← hm, List.prefix_append_right_inj] at h
      have hlen := congrArg List.length hm
      have hpos := List.length_pos_iff.mpr hne
      simp only [List.length_append, List.length_singleton] at hlen
      have hmw : m <+: w := List.prefix_of_prefix_length_le h (List.prefix_append w rest) (by omega)
      rcases List.eq_nil_or_concat m with rfl | ⟨m', d, rfl⟩
      · exact ⟨[], by simpa using hm.symm⟩
      · rw [List.concat_eq_append, ← List.append_assoc] at hm
        obtain ⟨-, hd⟩ := List.append_inj' hm rfl
        cases hd
        exact absurd (hmw.subset (by simp)) hc
  · intro h
    exact h.trans (List.prefix_append _ _)

/-- A regular expression with groups. -/
inductive Re (α : Type) where
  | literal (l : List α)
  | one (p : α → Bool)
  | seq (r s : Re α)
  | alt (r s : Re α)
  | lazyStar (r : Re α)
  | group (n : Nat) (r : Re α)
  | endText

/-- `r+?` -/
def Re.lazyPlus (r : Re α) : Re α := .seq r (.lazyStar r)

/-- What each group has matched. -/
abbrev Groups (α : Type) := Nat → List α

/-- What is tried on the text behind a match. -/
abbrev Continuation (α : Type) := List α → Groups α → Option (List α × Groups α)

/-- At most `n` rounds, none of which is empty. -/
def star (step : Continuation α → Continuation α) (k : Continuation α) : Nat → Continuation α
  | 0, t, g => k t g
  | n + 1, t, g =>
    match k t g with
    | some found => some found
    | none => step (fun t' g' => if t'.length < t.length then star step k n t' g' else none) t g

theorem exists_of_star {f : Continuation α → Continuation α} {k : Continuation α}
    {found : List α × Groups α}
    (hf : ∀ k t g, f k t g = some found → ∃ t' g', t' <:+ t ∧ k t' g' = some found) {n : Nat}
    {t : List α} {g : Groups α} (h : star f k n t g = some found) :
    ∃ t' g', t' <:+ t ∧ k t' g' = some found := by
  induction n generalizing t g with
  | zero => exact ⟨t, g, List.suffix_refl t, h⟩
  | succ n ih =>
    rw [star] at h
    split at h
    · next hk => exact ⟨t, g, List.suffix_refl t, hk.trans h⟩
    · obtain ⟨t', g', hsuffix, hround⟩ := hf _ _ _ h
      split at hround
      · obtain ⟨t'', g'', hsuffix', hk⟩ := ih hround
        exact ⟨t'', g'', hsuffix'.trans hsuffix, hk⟩
      · cases hround

variable [DecidableEq α]

/-- The alternatives are tried in their order. -/
def run : Re α → Continuation α → Continuation α
  | .literal l, k, t, g => if l <+: t then k (t.drop l.length) g else none
  | .one p, k, t, g =>
    match t with
    | [] => none
    | c :: t => if p c then k t g else none
  | .seq r s, k, t, g => run r (run s k) t g
  | .alt r s, k, t, g =>
    match run r k t g with
    | some found => some found
    | none => run s k t g
  | .lazyStar r, k, t, g => star (run r) k t.length t g
  | .group n r, k, t, g =>
    run r (fun t' g' => k t' (Function.update g' n (t.take (t.length - t'.length)))) t g
  | .endText, k, t, g => if t.isEmpty then k t g else none

/-- The text behind the match at the beginning of the text, and the groups. -/
def matchAt (r : Re α) (t : List α) : Option (List α × Groups α) :=
  run r (fun t g => some (t, g)) t fun _ => []

/-- A part of a replacement. -/
inductive Piece (α : Type) where
  | text (s : List α)
  | group (n : Nat)

/-- The replacement of a match. -/
def expand (template : List (Piece α)) (g : Groups α) : List α :=
  template.flatMap fun
    | .text s => s
    | .group n => g n

/-- What a match at the beginning is replaced by, and the text behind it. Empty matches are not
looked at. -/
def step (r : Re α) (template : List (Piece α)) (t : List α) : Option (List α × List α) :=
  match matchAt r t with
  | some (rest, g) => if rest.length < t.length then some (expand template g, rest) else none
  | none => none

def replaceLoop (r : Re α) (template : List (Piece α)) : Nat → List α → List α
  | 0, t => t
  | _ + 1, [] => []
  | n + 1, c :: t =>
    match step r template (c :: t) with
    | some (new, rest) => new ++ replaceLoop r template n rest
    | none => c :: replaceLoop r template n t

/-- `ReplaceAllString`. -/
def replaceAll (r : Re α) (template : List (Piece α)) (t : List α) : List α :=
  replaceLoop r template t.length t

theorem exists_of_run {found : List α × Groups α} (r : Re α) (k : Continuation α) (t : List α)
    (g : Groups α) (h : run r k t g = some found) :
    ∃ t' g', t' <:+ t ∧ k t' g' = some found := by
  induction r generalizing k t g with
  | literal l =>
    rw [run] at h
    split at h
    · exact ⟨_, g, List.drop_suffix _ _, h⟩
    · cases h
  | one p =>
    cases t with
    | nil => cases h
    | cons c t =>
      rw [run] at h
      split at h
      · exact ⟨t, g, List.suffix_cons c t, h⟩
      · cases h
  | seq r s ihr ihs =>
    obtain ⟨t', g', hsuffix, h'⟩ := ihr _ _ _ h
    obtain ⟨t'', g'', hsuffix', hk⟩ := ihs _ _ _ h'
    exact ⟨t'', g'', hsuffix'.trans hsuffix, hk⟩
  | alt r s ihr ihs =>
    rw [run] at h
    split at h
    · next hr => exact ihr _ _ _ (hr.trans h)
    · exact ihs _ _ _ h
  | lazyStar r ih => exact exists_of_star ih h
  | group n r ih =>
    obtain ⟨t', g', hsuffix, hk⟩ := ih _ _ _ h
    exact ⟨t', _, hsuffix, hk⟩
  | endText =>
    rw [run] at h
    split at h
    · exact ⟨t, g, List.suffix_refl t, h⟩
    · cases h

theorem step_literal_append {l : List α} (hl : l ≠ []) (s : Re α) (template : List (Piece α))
    (t : List α) :
    step (.seq (.literal l) s) template (l ++ t) =
      (run s (fun t g => some (t, g)) t fun _ => []).map fun found =>
        (expand template found.2, found.1) := by
  have hmatch : matchAt (.seq (.literal l) s) (l ++ t) =
      run s (fun t g => some (t, g)) t fun _ => [] := by
    rw [matchAt, run, run, if_pos (List.prefix_append l t), List.drop_left]
  rw [step, hmatch]
  cases hrun : run s (fun t g => some (t, g)) t fun _ => [] with
  | none => rfl
  | some found =>
    obtain ⟨t', g', hsuffix, hfound⟩ := exists_of_run _ _ _ _ hrun
    cases hfound
    have hlt : t'.length < (l ++ t).length := by
      have := hsuffix.length_le
      have := List.length_pos_iff.mpr hl
      rw [List.length_append]
      omega
    exact if_pos hlt

theorem step_literal_of_not_prefix {l t : List α} (h : ¬l <+: t) (s : Re α)
    (template : List (Piece α)) : step (.seq (.literal l) s) template t = none := by
  rw [step, matchAt, run, run, if_neg h]

section Classes

variable {p : α → Bool} {k : Continuation α} {n : Nat}

theorem star_one (hk : ∀ c t g, p c = true → k (c :: t) g = none) (t : List α) (g : Groups α)
    (hn : t.length ≤ n) : star (run (.one p)) k n t g = k (t.dropWhile p) g := by
  induction n generalizing t with
  | zero =>
    rw [List.length_eq_zero_iff.mp (Nat.le_zero.mp hn)]
    rfl
  | succ n ih =>
    cases t with
    | nil =>
      rw [star, List.dropWhile_nil]
      cases k [] g <;> rfl
    | cons c t =>
      rw [star]
      by_cases hc : p c = true
      · rw [hk c t g hc, List.dropWhile_cons_of_pos hc, run, if_pos hc,
          if_pos (by simp)]
        exact ih t (Nat.le_of_succ_le_succ hn)
      · rw [List.dropWhile_cons_of_neg hc, run, if_neg hc]
        cases k (c :: t) g <;> rfl

/-- What comes behind the repetition does not take a character of the class, so that the
repetition has to take them all. -/
theorem run_group_lazyStar (hk : ∀ c t g, p c = true → k (c :: t) g = none) (t : List α)
    (g : Groups α) :
    run (.group n (.lazyStar (.one p))) k t g =
      k (t.dropWhile p) (Function.update g n (t.takeWhile p)) := by
  rw [← take_length_sub_dropWhile p t]
  exact star_one (k := fun t' g' => k t' (Function.update g' n (t.take (t.length - t'.length))))
    (fun c t g hc => hk c t _ hc) t g le_rfl

theorem run_group_lazyPlus (hk : ∀ c t g, p c = true → k (c :: t) g = none) (t : List α)
    (g : Groups α) :
    run (.group n (.lazyPlus (.one p))) k t g =
      if (t.takeWhile p).isEmpty then none
      else k (t.dropWhile p) (Function.update g n (t.takeWhile p)) := by
  cases t with
  | nil => rfl
  | cons c t =>
    by_cases hc : p c = true
    · have htake := take_length_sub_dropWhile p (c :: t)
      rw [List.takeWhile_cons_of_pos hc, List.dropWhile_cons_of_pos hc] at htake ⊢
      rw [List.isEmpty_cons, if_neg Bool.false_ne_true, ← htake]
      refine (if_pos hc).trans ?_
      exact star_one (k := fun t' g' =>
          k t' (Function.update g' n ((c :: t).take ((c :: t).length - t'.length))))
        (fun c t g hc => hk c t _ hc) t g le_rfl
    · rw [List.takeWhile_cons_of_neg hc]
      exact if_neg hc

end Classes

section Replace

variable {r : Re α} {template : List (Piece α)}

theorem step_length_lt {t new rest : List α} (h : step r template t = some (new, rest)) :
    rest.length < t.length := by
  unfold step at h
  split at h
  · split at h
    · cases h
      assumption
    · cases h
  · cases h

theorem replaceLoop_nil (n : Nat) : replaceLoop r template n [] = [] := by
  cases n <;> rfl

theorem replaceLoop_stable {n m : Nat} {t : List α} (hn : t.length ≤ n) (hm : t.length ≤ m) :
    replaceLoop r template n t = replaceLoop r template m t := by
  induction n generalizing m t with
  | zero => rw [List.length_eq_zero_iff.mp (Nat.le_zero.mp hn), replaceLoop_nil, replaceLoop_nil]
  | succ n ih =>
    cases t with
    | nil => rw [replaceLoop_nil, replaceLoop_nil]
    | cons c t =>
      obtain ⟨m, rfl⟩ := Nat.exists_eq_add_one_of_ne_zero (Nat.ne_zero_of_lt hm)
      rw [List.length_cons] at hn hm
      rw [replaceLoop, replaceLoop]
      split
      · next new rest hstep =>
          have hlt := step_length_lt hstep
          rw [List.length_cons] at hlt
          exact congrArg (new ++ ·) (ih (by omega) (by omega))
      · exact congrArg (c :: ·)
          (ih (Nat.le_of_succ_le_succ hn) (Nat.le_of_succ_le_succ hm))

theorem replaceAll_of_step {t new rest : List α} (h : step r template t = some (new, rest)) :
    replaceAll r template t = new ++ replaceAll r template rest := by
  have hlt := step_length_lt h
  cases t with
  | nil => exact absurd hlt (Nat.not_lt_zero _)
  | cons c t =>
    rw [replaceAll, List.length_cons, replaceLoop, h]
    exact congrArg (new ++ ·) (replaceLoop_stable (Nat.le_of_lt_succ hlt) le_rfl)

theorem replaceAll_cons {c : α} {t : List α} (h : step r template (c :: t) = none) :
    replaceAll r template (c :: t) = c :: replaceAll r template t := by
  rw [replaceAll, List.length_cons, replaceLoop, h]
  rfl

/-- With every text of a family behind it, the first step is the same. -/
def Uniform {ι : Type} (r : Re α) (template : List (Piece α)) (behind : ι → List α)
    (before : List α) : Prop :=
  (∀ i, step r template (before ++ behind i) = none) ∨
    (∃ new before', before'.length < before.length ∧
      ∀ i, step r template (before ++ behind i) = some (new, before' ++ behind i)) ∨
    ∃ new rest, ∀ i, step r template (before ++ behind i) = some (new, rest)

theorem replaceAll_uniform {ι : Type} {behind : ι → List α}
    (h : ∀ before, before ≠ [] → Uniform r template behind before) (before : List α) :
    (∃ new, ∀ i, replaceAll r template (before ++ behind i) =
        new ++ replaceAll r template (behind i)) ∨
      ∃ new, ∀ i, replaceAll r template (before ++ behind i) = new := by
  induction hlen : before.length using Nat.strongRecOn generalizing before with
  | _ n ih =>
    cases before with
    | nil => exact .inl ⟨[], fun i => rfl⟩
    | cons c before =>
      rcases h (c :: before) (List.cons_ne_nil _ _) with
        hnone | ⟨new, before', hlt, hstep⟩ | ⟨new, rest, hstep⟩
      · rcases ih _ (hlen ▸ Nat.lt_succ_self _) before rfl with ⟨new, hnew⟩ | ⟨new, hnew⟩
        · refine .inl ⟨c :: new, fun i => ?_⟩
          exact (replaceAll_cons (hnone i)).trans (congrArg (c :: ·) (hnew i))
        · refine .inr ⟨c :: new, fun i => ?_⟩
          exact (replaceAll_cons (hnone i)).trans (congrArg (c :: ·) (hnew i))
      · rcases ih _ (hlen ▸ hlt) before' rfl with ⟨new', hnew⟩ | ⟨new', hnew⟩
        · refine .inl ⟨new ++ new', fun i => ?_⟩
          rw [replaceAll_of_step (hstep i), hnew i, List.append_assoc]
        · refine .inr ⟨new ++ new', fun i => ?_⟩
          rw [replaceAll_of_step (hstep i), hnew i]
      · exact .inr ⟨_, fun i => replaceAll_of_step (hstep i)⟩

end Replace

-- From here on a replacement is only seen through the lemmas on its steps.
attribute [irreducible] replaceAll

end TimescalePrometheus.Lib.Backtracking
