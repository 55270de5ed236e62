import TimescalePrometheus.Clockcache.Eviction

/-!
The eviction against the CLOCK algorithm. The walk is split in two slices, and the hand
that it leaves is counted from the beginning of the slice where the victim was found.
-/

namespace TimescalePrometheus.Clockcache

open Lib.Clock Lib.Runs

variable {K V : Type*}

/-- `evict` turns the clock. -/
def ClockEviction (c : Cache K V) : Prop :=
  ∃ victim, c.evict.victim = some victim ∧
    Turn c.marks c.next victim c.evict.cache.marks c.evict.cache.next

/-- The hand is at the beginning of the storage, or has only marks before it and comes to
the victim after the wrap. -/
def HandAgrees (c : Cache K V) : Prop :=
  c.next % c.storage.length = 0 ∨ (false ∉ c.marks.drop c.next ∧ false ∈ c.marks.take c.next)

instance (c : Cache K V) : Decidable (HandAgrees c) :=
  inferInstanceAs (Decidable (_ ∨ _))

theorem mod_eq_add_mod_iff {n a b : Nat} : a % n = (b + a) % n ↔ b % n = 0 := by
  constructor
  · intro heq
    have hmod : 0 + a ≡ b + a [MOD n] := by simpa [Nat.ModEq] using heq
    simpa [Nat.ModEq, eq_comm] using Nat.ModEq.add_right_cancel' a hmod
  · intro hzero
    rw [Nat.add_mod, hzero, Nat.zero_add, Nat.mod_mod]

theorem Outcome.hand_iff {c : Cache K V} {e : Eviction K V} {count : Nat} (h : Rep c)
    (o : Outcome c e count) :
    e.cache.next % c.storage.length =
        ((c.next + count) % c.storage.length + 1) % c.storage.length ↔ HandAgrees c := by
  have hnext := h.next_le_len
  unfold HandAgrees
  rw [Nat.mod_add_mod]
  rcases o.hand with ⟨_, hhand, hclear⟩ | ⟨hle, hlt, hhand, hmarked, hclear⟩ |
      ⟨hcount, hhand, hmarked⟩
  · rw [hhand, Nat.add_assoc, mod_eq_add_mod_iff]
    simp [hclear]
  · refine iff_of_true ?_ (.inr ⟨hmarked, hclear⟩)
    rw [hhand]
    rw [show c.next + count + 1 = c.next + count - c.storage.length + 1 + c.storage.length by omega,
      Nat.add_mod_right]
  · rw [hhand, hcount, Nat.add_right_comm, Nat.add_mod_right, mod_eq_add_mod_iff]
    simp [hmarked]

theorem clockEviction_iff {c : Cache K V} (h : Rep c) (hne : c.storage ≠ []) :
    ClockEviction c ↔ HandAgrees c := by
  obtain ⟨count, o⟩ := exists_outcome h hne
  rw [← o.hand_iff h]
  constructor
  · rintro ⟨victim, hvictim, count', hsweeps, rfl, hhand⟩
    rw [o.sweeps.count_unique hsweeps]
    simpa using hhand
  · intro hhand
    exact ⟨_, o.victim, count, o.sweeps, by simp, by simpa using hhand⟩

/-- An insertion, or what may come between two of them. -/
inductive Access (K V : Type*)
  | insert (key : K) (value : V)
  | get (key : K)
  | unmark (key : K)

/-- A cache of `n` slots, all in use. -/
structure Full (n : Nat) (c : Cache K V) : Prop where
  rep : Rep c
  length : c.storage.length = n
  full : c.capacity ≤ n
  pos : 0 < n

theorem Full.ne_nil {n : Nat} {c : Cache K V} (h : Full n c) : c.storage ≠ [] := by
  intro hempty
  have hlength := h.length
  have hpos := h.pos
  simp [hempty] at hlength
  omega

section Runs

variable [DecidableEq K]

def access (c : Cache K V) : Access K V → Cache K V
  | .insert key value => (c.insert key value).cache
  | .get key => (c.get key).2
  | .unmark key => (c.unmark key).2

/-- The access calls `evict`. -/
def Evicts (c : Cache K V) : Access K V → Prop
  | .insert key _ => c.lookup key = none ∧ c.capacity ≤ c.storage.length
  | _ => False

instance (c : Cache K V) : DecidablePred (Evicts c)
  | .insert key _ =>
    have : Decidable (c.lookup key = none) := decidable_of_iff _ Option.isNone_iff_eq_none
    inferInstanceAs (Decidable (_ ∧ _))
  | .get _ => inferInstanceAs (Decidable False)
  | .unmark _ => inferInstanceAs (Decidable False)

/-- The access reports that its key is not in the cache. -/
def Refused (c : Cache K V) : Access K V → Prop
  | .insert key value => (c.insert key value).inserted = false
  | _ => False

/-- The slots that the run examines, in order. -/
def trace : Cache K V → List (Access K V) → List Nat
  | _, [] => []
  | c, a :: accesses =>
    (if Evicts c a then c.evict.examined else []) ++ trace (access c a) accesses

/-- The run is one of the CLOCK algorithm. -/
structure ClockRun (c : Cache K V) (accesses : List (Access K V)) : Prop where
  evictions : Throughout access (fun c a => Evicts c a → ClockEviction c) c accesses
  spaced : Spaced c.storage.length (trace c accesses)
  accepted : Throughout access (fun c a => ¬ Refused c a) c accesses

theorem Full.step {n : Nat} {c : Cache K V} (h : Full n c) (a : Access K V) :
    Full n (access c a) ∧
      (access c a).next = if Evicts c a then c.evict.cache.next else c.next := by
  have hremarked : ∀ {c' : Cache K V}, Remarked c c' → c'.next = c.next → Full n c' := by
    intro c' hc hnext
    refine ⟨hc.rep h.rep ?_, hc.length.trans h.length, hc.capacity ▸ h.full, h.pos⟩
    rw [hnext, hc.length]
    exact h.rep.next_le_len
  cases a with
  | insert key value =>
    have hrep := rep_insert h.rep key value
    rcases insert_cases h.rep key value with ⟨hmem, hc, _⟩ | ⟨_, hroom, _⟩ |
        ⟨habsent, hfull, hne, slot, _, hslot, hc, _⟩ | ⟨hempty, _⟩
    · have hstays : ¬ Evicts c (.insert key value) := fun hevicts =>
        (Cache.lookup_eq_none h.rep).mp hevicts.1 hmem
      have hsame : access c (.insert key value) = c := hc
      rw [if_neg hstays, hsame]
      exact ⟨h, rfl⟩
    · have hlength := h.length
      have hfull := h.full
      omega
    · obtain ⟨count, o⟩ := exists_outcome h.rep hne
      have hevicts : Evicts c (.insert key value) :=
        ⟨(Cache.lookup_eq_none h.rep).mpr habsent, hfull⟩
      rw [if_pos hevicts]
      simp only [access, hc] at hrep ⊢
      refine ⟨⟨hrep, ?_, ?_, h.pos⟩, Cache.next_overwrite _ _ _ _⟩
      · rw [Cache.storage_overwrite (o.remarked.length ▸ hslot), List.length_set,
          o.remarked.length, h.length]
      · rw [Cache.capacity_overwrite, o.remarked.capacity]
        exact h.full
    · exact absurd hempty h.ne_nil
  | get key =>
    have hstays : ¬ Evicts c (.get key) := id
    rw [if_neg hstays]
    exact ⟨hremarked (c.remarked_get key) (c.next_get key), c.next_get key⟩
  | unmark key =>
    have hstays : ¬ Evicts c (.unmark key) := id
    rw [if_neg hstays]
    exact ⟨hremarked (c.remarked_unmark key) (c.next_unmark key), c.next_unmark key⟩

theorem Full.not_refused {n : Nat} {c : Cache K V} (h : Full n c) (a : Access K V) :
    ¬ Refused c a := by
  cases a with
  | insert key value =>
    intro hrefused
    simp only [Refused] at hrefused
    rcases insert_cases h.rep key value with ⟨_, _, hin⟩ | ⟨_, _, _, hin⟩ |
        ⟨_, _, _, slot, _, _, _, hin⟩ | ⟨hempty, _⟩
    · simp [hin] at hrefused
    · simp [hin] at hrefused
    · simp [hin] at hrefused
    · exact h.ne_nil hempty
  | get key => exact id
  | unmark key => exact id

theorem Full.trace_eq_ring {n : Nat} {c : Cache K V} (h : Full n c) {accesses : List (Access K V)}
    (hagrees : Throughout access (fun c a => Evicts c a → HandAgrees c) c accesses) :
    ∃ count, trace c accesses = ring n c.next count := by
  induction accesses generalizing c with
  | nil => exact ⟨0, rfl⟩
  | cons a accesses ih =>
    obtain ⟨hfull, hnext⟩ := h.step a
    obtain ⟨total, htotal⟩ := ih hfull hagrees.2
    rw [trace, htotal]
    by_cases hevicts : Evicts c a
    · rw [if_pos hevicts] at hnext ⊢
      obtain ⟨count, o⟩ := exists_outcome h.rep h.ne_nil
      have hhand := (o.hand_iff h.rep).mpr (hagrees.1 hevicts)
      rw [h.length, Nat.mod_add_mod, Nat.add_assoc, ← hnext] at hhand
      exact ⟨count + 1 + total, by rw [o.examined, h.length, ring_add _ _ _ hhand]⟩
    · rw [if_neg hevicts] at hnext ⊢
      exact ⟨total, by rw [hnext, List.nil_append]⟩

theorem Full.clockRun_iff {n : Nat} {c : Cache K V} (h : Full n c)
    (accesses : List (Access K V)) :
    ClockRun c accesses ↔
      Throughout access (fun c a => Evicts c a → HandAgrees c) c accesses := by
  have hevictions : Throughout access (fun c a => Evicts c a → ClockEviction c) c accesses ↔
      Throughout access (fun c a => Evicts c a → HandAgrees c) c accesses :=
    throughout_congr (Full n) (fun c a hc _ => (hc.step a).1)
      (fun c a hc => imp_congr_right fun _ => clockEviction_iff hc.rep hc.ne_nil) h accesses
  rw [← hevictions]
  constructor
  · exact fun hrun => hrun.evictions
  · intro hrun
    obtain ⟨count, hring⟩ := h.trace_eq_ring (hevictions.mp hrun)
    refine ⟨hrun, ?_, ?_⟩
    · rw [hring, h.length]
      exact spaced_ring n c.next count
    · exact throughout_of_invariant (Full n) (fun c a hc _ => (hc.step a).1)
        (fun c a hc => hc.not_refused a) h hrun

end Runs

/-- An eviction of a full cache turns the clock exactly if the hand agrees, and a run of
insertions is one of the CLOCK algorithm exactly if the hand agrees at all its evictions. -/
theorem evict_turns_clock_iff [DecidableEq K] (max : Nat) (calls : List (Call K V))
    (hfull : (run call (withMax max) calls).capacity ≤
      (run call (withMax max) calls).storage.length)
    (hne : (run call (withMax max) calls).storage ≠ []) :
    (ClockEviction (run call (withMax max) calls) ↔ HandAgrees (run call (withMax max) calls)) ∧
      ∀ accesses, ClockRun (run call (withMax max) calls) accesses ↔
        Throughout access (fun c a => Evicts c a → HandAgrees c)
          (run call (withMax max) calls) accesses := by
  have hrep := rep_run max calls
  have h : Full (run call (withMax max) calls).storage.length (run call (withMax max) calls) :=
    ⟨hrep, rfl, hfull, List.length_pos_iff.mpr hne⟩
  exact ⟨clockEviction_iff hrep hne, h.clockRun_iff⟩

/-- Three entries that nobody has asked for. -/
def threeSlots : List (Call Nat Nat) := [.insert 1 10, .insert 2 20, .insert 3 30]

theorem clockRun_threeSlots :
    ClockRun (run call (withMax 3) threeSlots) [.get 1, .insert 4 40] :=
  ((evict_turns_clock_iff 3 threeSlots (by decide) (by decide)).2 _).mpr (by decide)

/-- Once the hand has left the first slot it stays on the second: each insertion takes the
place of the one before it, and the third slot is never looked at. -/
theorem hand_stays_threeSlots :
    ¬ ClockEviction (run call (withMax 3) (threeSlots ++ [.insert 4 40])) ∧
      trace (run call (withMax 3) threeSlots) [.insert 4 40, .insert 5 50, .insert 6 60] =
        [0, 1, 1] ∧
      ¬ ClockRun (run call (withMax 3) threeSlots)
        [.insert 4 40, .insert 5 50, .insert 6 60] := by
  have htrace : trace (run call (withMax 3) threeSlots)
      [.insert 4 40, .insert 5 50, .insert 6 60] = [0, 1, 1] := by decide
  refine ⟨?_, htrace, ?_⟩
  · rw [clockEviction_iff (rep_run 3 _) (by decide)]
    decide
  · intro hrun
    have hspaced := hrun.spaced
    rw [htrace] at hspaced
    obtain ⟨k, hk, hlt, hslot⟩ := hspaced 1 2 (by decide) (by decide) rfl 2 (by decide)
    obtain rfl : k = 1 := by omega
    cases hslot

end TimescalePrometheus.Clockcache
