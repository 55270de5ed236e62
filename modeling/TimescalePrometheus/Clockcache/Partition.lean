import TimescalePrometheus.Clockcache.Agreement
import TimescalePrometheus.Lib.Loops

/-!
`GetValues` with the two bounds of its loop. A key that is found moves the lower one up, a key
that is not found is swapped to the end and moves the upper one down, so that they meet.
-/

namespace TimescalePrometheus.Clockcache

open Lib.Loops

variable {K V : Type*}

/-- The variables of `GetValues`. -/
structure Scan (K V : Type*) where
  cache : Cache K V
  keys : List K
  valuesOut : List (Option V)
  idx : Nat
  n : Nat

namespace Scan

/-- One round of the loop. It is entered with `idx < n` only, so the test for `n == 0` that it
makes for a key that is not found never succeeds. -/
def round (s : Scan K V) : Option (Scan K V) :=
  if s.idx < s.n then
    s.keys[s.idx]?.map fun key =>
      match s.cache.get key with
      | (none, cache) =>
        { s with cache, n := s.n - 1, keys := swap s.keys (s.n - 1) s.idx }
      | (some value, cache) =>
        { s with cache, valuesOut := s.valuesOut.set s.idx (some value), idx := s.idx + 1 }
  else none

variable {s s' : Scan K V}

theorem round_cases (h : s.round = some s') : s.idx < s.n ∧ ∃ key, s.keys[s.idx]? = some key ∧
    ((s.cache.view key = none ∧
        s' = { s with
          cache := (s.cache.get key).2, n := s.n - 1, keys := swap s.keys (s.n - 1) s.idx }) ∨
      ∃ value, s.cache.view key = some value ∧
        s' = { s with
          cache := (s.cache.get key).2
          valuesOut := s.valuesOut.set s.idx (some value), idx := s.idx + 1 }) := by
  unfold round at h
  split at h
  case isFalse => contradiction
  case isTrue hlt =>
    rw [Option.map_eq_some_iff] at h
    obtain ⟨key, hkey, rfl⟩ := h
    refine ⟨hlt, key, hkey, ?_⟩
    rw [← Cache.get_fst]
    rcases s.cache.get key with ⟨_ | value, cache⟩
    · exact .inl ⟨rfl, rfl⟩
    · exact .inr ⟨value, rfl, rfl⟩

end Scan

/-- What the loop has done: the first `idx` keys were found and those from `n` on were not, the
values from `idx` on are still there, and the cache differs by marks. -/
structure Scanned (c : Cache K V) (keys : List K) (valuesOut : List (Option V)) (s : Scan K V) :
    Prop where
  remarked : Remarked c s.cache
  next : s.cache.next = c.next
  idx_le : s.idx ≤ s.n
  n_le : s.n ≤ keys.length
  perm : s.keys.Perm keys
  length : s.valuesOut.length = valuesOut.length
  hits : HitsFirst c s.keys s.valuesOut s.idx s.n
  ahead : s.valuesOut.drop s.idx = valuesOut.drop s.idx

section Scanned

variable {c : Cache K V} {keys : List K} {valuesOut : List (Option V)} {s s' : Scan K V}

theorem scanned_start (c : Cache K V) (keys : List K) (valuesOut : List (Option V)) :
    Scanned c keys valuesOut ⟨c, keys, valuesOut, 0, keys.length⟩ where
  remarked := .refl c
  next := rfl
  idx_le := Nat.zero_le _
  n_le := le_rfl
  perm := .refl _
  length := rfl
  hits := ⟨rfl, by simp, by simp⟩
  ahead := rfl

theorem Scanned.round (h : Scanned c keys valuesOut s) (hlen : keys.length = valuesOut.length)
    (hround : s.round = some s') :
    Scanned c keys valuesOut s' ∧ s'.n - s'.idx < s.n - s.idx := by
  obtain ⟨hlt, key, hkey, hcases⟩ := Scan.round_cases hround
  have hkeys := h.perm.length_eq
  have hn := h.n_le
  obtain ⟨hidx, rfl⟩ := List.getElem?_eq_some_iff.mp hkey
  have hremarked := h.remarked.trans (s.cache.remarked_get s.keys[s.idx])
  have hnext : (s.cache.get s.keys[s.idx]).2.next = c.next := by rw [Cache.next_get, h.next]
  rw [h.remarked.view] at hcases
  rcases hcases with ⟨hnone, rfl⟩ | ⟨value, hsome, rfl⟩
  · have hlast : s.n - 1 < s.keys.length := by omega
    have hmiss : HitsFirst c (swap s.keys (s.n - 1) s.idx) s.valuesOut s.idx (s.n - 1) := by
      apply HitsFirst.miss _ (by omega) hlast hnone
      rw [Nat.sub_add_cancel (by omega)]
      exact h.hits
    constructor
    · exact ⟨hremarked, hnext, Nat.le_sub_one_of_lt hlt, (Nat.sub_le _ _).trans hn,
        (perm_swap hlast hidx).trans h.perm, h.length, hmiss, h.ahead⟩
    · dsimp only
      omega
  · constructor
    · refine ⟨hremarked, hnext, hlt, hn, h.perm, ?_, ?_, ?_⟩
      · rw [List.length_set, h.length]
      · exact h.hits.hit hidx (by rw [hkeys, h.length, hlen]) hsome
      · rw [List.drop_set_of_lt (Nat.lt_succ_self _), ← List.tail_drop, h.ahead, List.tail_drop]
    · dsimp only
      omega

theorem exits_getValuesLoop (c : Cache K V) {keys : List K} (valuesOut : List (Option V))
    {idx remaining : Nat} (hlen : idx + remaining ≤ keys.length) :
    let r := getValuesLoop c keys valuesOut idx remaining
    Exits Scan.round ⟨c, keys, valuesOut, idx, idx + remaining⟩
      ⟨r.cache, r.keys, r.valuesOut, r.numFound, r.numFound⟩ := by
  induction remaining generalizing c keys valuesOut idx with
  | zero =>
    apply Exits.done
    simp [Scan.round]
  | succ remaining ih =>
    have hidx : idx < keys.length := by omega
    have hswap := length_swap keys (idx + remaining) idx
    have hlt : idx < idx + (remaining + 1) := by omega
    rw [getValuesLoop, List.getElem?_eq_getElem hidx]
    dsimp only
    cases hget : c.get keys[idx] with
    | mk value c' =>
      cases value with
      | none =>
        have hrest := ih c' valuesOut
          (show idx + remaining ≤ (swap keys (idx + remaining) idx).length by omega)
        refine .more ?_ hrest
        simp [Scan.round, hlt, List.getElem?_eq_getElem hidx, hget]
      | some value =>
        have hrest := ih c' (valuesOut.set idx (some value))
          (show idx + 1 + remaining ≤ keys.length by omega)
        refine .more ?_ hrest
        simp [Scan.round, hlt, List.getElem?_eq_getElem hidx, hget, Nat.add_assoc,
          Nat.add_comm 1]

end Scanned

theorem view_eq_some_iff {c : Cache K V} (h : Rep c) {key : K} {value : V} :
    c.view key = some value ↔ (key, value) ∈ c.contents := by
  rw [List.mem_iff_getElem?]
  simp only [Cache.view, Option.bind_eq_some_iff, Option.map_eq_some_iff, Prod.exists,
    exists_eq_right, h.designates key, Cache.keys_eq_contents, List.getElem?_map]
  constructor
  · rintro ⟨slot, ⟨k, v, hslot, rfl⟩, k', hslot'⟩
    rw [hslot] at hslot'
    cases hslot'
    exact ⟨slot, hslot⟩
  · rintro ⟨slot, hslot⟩
    exact ⟨slot, ⟨key, value, hslot, rfl⟩, key, hslot⟩

/-- The keys are put in another order, with those that are in the cache first and their values at
the same places; the other values and the entries of the cache are what they were. -/
structure Partitioned (c : Cache K V) (keys : List K) (valuesOut : List (Option V))
    (r : Values K V) : Prop where
  numFound_le : r.numFound ≤ keys.length
  perm : r.keys.Perm keys
  length : r.valuesOut.length = valuesOut.length
  found : ∀ i < r.numFound, ∃ key value, r.keys[i]? = some key ∧ c.view key = some value ∧
    r.valuesOut[i]? = some (some value)
  missing : ∀ i key, r.numFound ≤ i → r.keys[i]? = some key → c.view key = none
  unchanged : ∀ i, r.numFound ≤ i → r.valuesOut[i]? = valuesOut[i]?
  remarked : Remarked c r.cache
  next : r.cache.next = c.next

theorem Scanned.partitioned {c : Cache K V} {keys : List K} {valuesOut : List (Option V)}
    {r : Values K V}
    (h : Scanned c keys valuesOut ⟨r.cache, r.keys, r.valuesOut, r.numFound, r.numFound⟩) :
    Partitioned c keys valuesOut r where
  numFound_le := h.n_le
  perm := h.perm
  length := h.length
  found := by
    intro i hi
    have hkeys : i < r.keys.length := by
      rw [h.perm.length_eq]
      exact hi.trans_le h.n_le
    have hmap : ((r.keys.take r.numFound).map c.view)[i]? = some (c.view r.keys[i]) := by
      rw [List.getElem?_map, List.getElem?_take_of_lt hi, List.getElem?_eq_getElem hkeys]
      rfl
    have hvalue : (r.valuesOut.take r.numFound)[i]? = some (c.view r.keys[i]) :=
      h.hits.found ▸ hmap
    obtain ⟨value, hview⟩ := Option.isSome_iff_exists.mp
      (h.hits.isSome _ (List.mem_of_getElem? hvalue))
    rw [List.getElem?_take_of_lt hi, hview] at hvalue
    exact ⟨_, value, List.getElem?_eq_getElem hkeys, hview, hvalue⟩
  missing := by
    intro i key hi hkey
    apply h.hits.missing
    apply List.mem_of_getElem?
    show (r.keys.drop r.numFound)[i - r.numFound]? = some key
    rw [List.getElem?_drop, Nat.add_sub_cancel' hi, hkey]
  unchanged := by
    intro i hi
    have hdrop := congrArg (·[i - r.numFound]?) h.ahead
    simpa only [List.getElem?_drop, Nat.add_sub_cancel' hi] using hdrop
  remarked := h.remarked
  next := h.next

/-- For slices of the same length the loop of `GetValues` is left, and with a partition of the
keys into those that are in the cache and those that are not. -/
theorem getValues_partitions (c : Cache K V) {keys : List K} {valuesOut : List (Option V)}
    (hlen : keys.length = valuesOut.length) :
    ∃ r, c.getValues keys valuesOut = some r ∧
      Exits Scan.round ⟨c, keys, valuesOut, 0, keys.length⟩
        ⟨r.cache, r.keys, r.valuesOut, r.numFound, r.numFound⟩ ∧
      Partitioned c keys valuesOut r ∧
      (Rep c → ∀ key value, c.view key = some value ↔ (key, value) ∈ c.contents) := by
  have hloop := exits_getValuesLoop c valuesOut (show 0 + keys.length ≤ keys.length by simp)
  rw [Nat.zero_add] at hloop
  obtain ⟨t, hexits, hscanned, -⟩ := exits_of_variant (Scanned c keys valuesOut)
    (fun s => s.n - s.idx) (fun s s' h => h.round hlen) (scanned_start c keys valuesOut)
  obtain rfl := hexits.unique hloop
  exact ⟨_, if_pos hlen, hloop, hscanned.partitioned, fun h _ _ => view_eq_some_iff h⟩

theorem getValues_partitions_pair :
    let c : Cache Nat Nat :=
      ⟨fun key => if key < 2 then some key else none, [⟨0, 10, false⟩, ⟨1, 11, true⟩], 2, 0⟩
    ∃ r, c.getValues [7, 1, 1] [some 3, none, some 4] = some r ∧ r.numFound = 2 ∧
      Partitioned c [7, 1, 1] [some 3, none, some 4] r := by
  intro c
  obtain ⟨r, hr, -, hpartitioned, -⟩ := getValues_partitions c
    (show [7, 1, 1].length = [some 3, none, some 4].length from rfl)
  have hnumFound : (c.getValues [7, 1, 1] [some 3, none, some 4]).map (·.numFound) = some 2 := by
    decide
  rw [hr] at hnumFound
  exact ⟨r, hr, Option.some.inj hnumFound, hpartitioned⟩

end TimescalePrometheus.Clockcache
