import TimescalePrometheus.Clockcache.Eviction
import TimescalePrometheus.Clockcache.Reads

/-!
Hits through the different operations. A read sets the mark of its entry; an insertion of a key
that is there is meant to do the same, but leaves the mark as it is.
-/

namespace TimescalePrometheus.Clockcache.Hits

open Lib.Clock Lib.Runs

variable {K V : Type*}

/-- For each slot, whether its entry has been hit since the hand last passed it. -/
structure State (K V : Type*) where
  cache : Cache K V
  hit : Nat → Bool

def State.initial (max : Nat) : State K V where
  cache := withMax max
  hit := fun _ => false

def State.get (s : State K V) (key : K) : State K V :=
  { cache := (s.cache.get key).2
    hit :=
      match s.cache.lookup key with
      | some (slot, _) => Function.update s.hit slot true
      | none => s.hit }

/-- `unmark` takes a hit back. -/
def State.unmark (s : State K V) (key : K) : State K V :=
  { cache := (s.cache.unmark key).2
    hit :=
      match s.cache.lookup key with
      | some (slot, _) => Function.update s.hit slot false
      | none => s.hit }

section Step

variable [DecidableEq K]

/-- An insertion of a key that is there is a hit; one that evicts moves the hand over the
slots that it examines. -/
def State.insert (s : State K V) (pair : K × V) : State K V :=
  { cache := (s.cache.insert pair.1 pair.2).cache
    hit :=
      match s.cache.lookup pair.1 with
      | some (slot, _) => Function.update s.hit slot true
      | none =>
        if s.cache.capacity ≤ s.cache.storage.length then
          fun slot => s.hit slot && decide (slot ∉ s.cache.evict.examined)
        else Function.update s.hit s.cache.storage.length false }

/-- A call, with the record of hits. -/
def step (s : State K V) (a : Call K V) : State K V :=
  { cache := call s.cache a
    hit :=
      match a with
      | .insert key value => (s.insert (key, value)).hit
      | .insertBatch keys values =>
        if keys.length = values.length then (run State.insert s (keys.zip values)).hit else s.hit
      | .get key => (s.get key).hit
      | .getValues keys valuesOut =>
        if keys.length = valuesOut.length then (run State.get s keys).hit else s.hit
      | .unmark key => (s.unmark key).hit
      | .expandTo _ => s.hit }

/-- An insertion of a key that is there leaves what `Get` leaves. An insertion that evicts
spares the entries that have been hit while there are others. -/
structure InsertAlike (s : State K V) (pair : K × V) : Prop where
  hit : pair.1 ∈ s.cache.keys → (s.cache.insert pair.1 pair.2).cache = (s.cache.get pair.1).2
  spares : pair.1 ∉ s.cache.keys → s.cache.capacity ≤ s.cache.storage.length →
    ∀ victim, s.cache.evict.victim = some victim →
      (∃ slot < s.cache.storage.length, s.hit slot = false) → s.hit victim = false

def Alike (s : State K V) : Call K V → Prop
  | .insert key value => InsertAlike s (key, value)
  | .insertBatch keys values =>
    keys.length = values.length →
      Throughout State.insert InsertAlike s (keys.zip values) ∧
        ((∀ key ∈ keys, key ∈ s.cache.keys) →
          call s.cache (.insertBatch keys values) =
            run (fun c key => (c.get key).2) s.cache keys)
  | .getValues keys valuesOut =>
    keys.length = valuesOut.length →
      call s.cache (.getValues keys valuesOut) =
        run (fun c key => (c.get key).2) s.cache keys
  | _ => True

/-- If the key is in the cache, then its entry has a mark. -/
def MarkedIfPresent (s : State K V) (pair : K × V) : Prop :=
  ∀ elem ∈ s.cache.storage, elem.key = pair.1 → elem.used = true

/-- No insertion finds its key in the cache without a mark. -/
def DoubleInsertsMarked (s : State K V) : Call K V → Prop
  | .insert key value => MarkedIfPresent s (key, value)
  | .insertBatch keys values =>
    keys.length = values.length → Throughout State.insert MarkedIfPresent s (keys.zip values)
  | _ => True

end Step

/-- The marks are on the entries that have been hit. -/
structure Inv (s : State K V) : Prop where
  rep : Rep s.cache
  hit_eq : ∀ slot elem, s.cache.storage[slot]? = some elem → s.hit slot = elem.used

theorem inv_initial (max : Nat) : Inv (.initial max : State K V) where
  rep := .withMax max
  hit_eq := fun slot elem h => by cases h

theorem Inv.setUsed {s : State K V} (h : Inv s) (slot : Nat) (used : Bool) :
    Inv { cache := s.cache.setUsed slot used, hit := Function.update s.hit slot used } where
  rep := Cache.rep_setUsed h.rep slot used
  hit_eq := by
    intro i elem hi
    rw [Cache.getElem?_setUsed, Option.map_eq_some_iff] at hi
    obtain ⟨old, hold, rfl⟩ := hi
    change Function.update s.hit slot used i = _
    by_cases heq : slot = i
    · subst heq
      simp
    · rw [Function.update_of_ne (Ne.symm heq), if_neg heq]
      exact h.hit_eq i old hold

theorem Inv.get {s : State K V} (h : Inv s) (key : K) : Inv (s.get key) := by
  unfold State.get
  cases hlookup : s.cache.lookup key with
  | none =>
    rw [Cache.get_snd_of_absent hlookup]
    exact h
  | some found =>
    rw [Cache.get_snd hlookup]
    exact h.setUsed _ _

theorem Inv.unmark {s : State K V} (h : Inv s) (key : K) : Inv (s.unmark key) := by
  unfold State.unmark
  cases hlookup : s.cache.lookup key with
  | none => simpa [Cache.unmark, hlookup] using h
  | some found =>
    have hcache : (s.cache.unmark key).2 = s.cache.setUsed found.1 false := by
      simp only [Cache.unmark, hlookup]
      split
      · rfl
      · rename_i hused
        rw [← Bool.eq_false_of_not_eq_true hused]
        exact (Cache.setUsed_self (Cache.getElem?_of_lookup hlookup)).symm
    rw [hcache]
    exact h.setUsed _ _

variable [DecidableEq K]

theorem Inv.evict {s : State K V} (h : Inv s) (hne : s.cache.storage ≠ []) {victim : Nat}
    (hvictim : s.cache.evict.victim = some victim) {key : K} (habsent : key ∉ s.cache.keys)
    (value : V) :
    Inv { cache := s.cache.evict.cache.overwrite victim key value
          hit := fun slot => s.hit slot && decide (slot ∉ s.cache.evict.examined) } := by
  obtain ⟨count, o⟩ := exists_outcome h.rep hne
  obtain rfl := Option.some.inj (o.victim.symm.trans hvictim)
  have hlt : (s.cache.next + count) % s.cache.storage.length < s.cache.evict.cache.storage.length :=
    by rw [o.remarked.length]; exact Nat.mod_lt _ (List.length_pos_iff.mpr hne)
  refine ⟨Cache.rep_overwrite (o.rep h.rep hne) hlt (o.remarked.keys ▸ habsent) value, ?_⟩
  intro i elem hi
  change (s.hit i && decide (i ∉ s.cache.evict.examined)) = _
  rw [Cache.storage_overwrite hlt, List.getElem?_set] at hi
  have hexamined : ∀ slot, slot ∈ s.cache.evict.examined ↔
      slot ∈ ring s.cache.storage.length s.cache.next count ∨
        slot = (s.cache.next + count) % s.cache.storage.length := by
    intro slot
    rw [o.examined, ring_add (s.cache.next + count) count 1 rfl, List.mem_append]
    simp [ring]
  split at hi
  · rename_i heq
    cases hi
    subst heq
    simp [hexamined]
  · rename_i hother
    have hcleared := o.sweeps.cleared i
    rw [Cache.marks, List.getElem?_map, hi, Cache.length_marks, Cache.marks, List.getElem?_map,
      Option.map_map] at hcleared
    obtain ⟨old, hold, hused⟩ := Option.map_eq_some_iff.mp hcleared.symm
    simp only [Function.comp_apply] at hused
    rw [h.hit_eq i old hold, ← hused]
    simp [hexamined, Ne.symm hother]

theorem Inv.insert {s : State K V} (h : Inv s) {pair : K × V} (hmarked : MarkedIfPresent s pair) :
    Inv (s.insert pair) := by
  unfold State.insert
  cases hlookup : s.cache.lookup pair.1 with
  | some found =>
    obtain ⟨slot, elem⟩ := found
    obtain ⟨hslot, hkey⟩ := (Cache.lookup_eq_some h.rep).mp hlookup
    have hused := hmarked elem (List.mem_of_getElem? hslot) hkey
    rw [Cache.insert_of_present hlookup]
    have hinv := h.setUsed slot true
    rw [← hused, Cache.setUsed_self hslot, hused] at hinv
    exact hinv
  | none =>
    have habsent := (Cache.lookup_eq_none h.rep).mp hlookup
    rcases insert_cases h.rep pair.1 pair.2 with ⟨hmem, _⟩ | ⟨_, hroom, hc, _⟩ |
        ⟨_, hfull, hne, victim, hvictim, _, hc, _⟩ | ⟨hempty, hcap, hc, _⟩
    · exact absurd hmem habsent
    · simp only [hc, if_neg (Nat.not_le.mpr hroom)]
      refine ⟨Cache.rep_append h.rep hroom habsent pair.2, ?_⟩
      intro i elem hi
      change Function.update s.hit s.cache.storage.length false i = _
      simp only [Cache.append] at hi
      by_cases heq : i = s.cache.storage.length
      · subst heq
        simp at hi
        subst hi
        simp
      · rw [Function.update_of_ne heq]
        have hlt : i < s.cache.storage.length := by
          have := (List.getElem?_eq_some_iff.mp hi).1
          simp only [List.length_append, List.length_singleton] at this
          omega
        rw [List.getElem?_append_left hlt] at hi
        exact h.hit_eq i elem hi
    · simp only [hc, if_pos hfull]
      exact h.evict hne hvictim habsent pair.2
    · rw [hc]
      refine ⟨h.rep, ?_⟩
      intro i elem hi
      rw [hempty] at hi
      cases hi

omit [DecidableEq K] in
theorem cache_run_get (s : State K V) (keys : List K) :
    (run State.get s keys).cache = run (fun c key => (c.get key).2) s.cache keys := by
  induction keys generalizing s with
  | nil => rfl
  | cons key keys ih => exact ih (s.get key)

theorem cache_run_insert_of_empty {s : State K V} (h : Rep s.cache) (hempty : s.cache.storage = [])
    (hcap : s.cache.capacity = 0) (pairs : List (K × V)) :
    (run State.insert s pairs).cache = s.cache := by
  induction pairs generalizing s with
  | nil => rfl
  | cons pair pairs ih =>
    have hsame : (s.insert pair).cache = s.cache := by
      rcases insert_cases h pair.1 pair.2 with ⟨_, hc, _⟩ | ⟨_, hroom, _⟩ | ⟨_, _, hne, _⟩ |
          ⟨_, _, hc, _⟩
      · exact hc
      · omega
      · exact absurd hempty hne
      · exact hc
    rw [run_cons, ih (hsame ▸ h) (hsame ▸ hempty) (hsame ▸ hcap), hsame]

theorem cache_run_insert {s : State K V} (h : Rep s.cache) (pairs : List (K × V)) :
    (run State.insert s pairs).cache = (insertLoop s.cache pairs).cache := by
  induction pairs generalizing s with
  | nil => rfl
  | cons pair pairs ih =>
    have hrest : (run State.insert (s.insert pair) pairs).cache =
        (insertLoop (s.cache.insert pair.1 pair.2).cache pairs).cache :=
      ih (rep_insert h pair.1 pair.2)
    rw [run_cons, insertLoop]
    rcases insert_cases h pair.1 pair.2 with ⟨_, _, hin⟩ | ⟨_, _, _, hin⟩ |
        ⟨_, _, _, _, _, _, _, hin⟩ | ⟨hempty, hcap, hc, hin⟩
    · simpa [hin] using hrest
    · simpa [hin] using hrest
    · simpa [hin] using hrest
    · have hsame : (s.insert pair).cache = s.cache := hc
      rw [cache_run_insert_of_empty (hsame ▸ h) (hsame ▸ hempty) (hsame ▸ hcap), hsame]
      simp [hin, hc]

theorem cache_insert_of_present {s : State K V} (h : Rep s.cache) {pair : K × V}
    (hpresent : pair.1 ∈ s.cache.keys) : (s.insert pair).cache = s.cache := by
  rcases insert_cases h pair.1 pair.2 with ⟨_, hc, _⟩ | ⟨habsent, _⟩ | ⟨habsent, _⟩ | ⟨_, _, hc, _⟩
  · exact hc
  · exact absurd hpresent habsent
  · exact absurd hpresent habsent
  · exact hc

theorem run_insert_of_present {s : State K V} (h : Rep s.cache) {pairs : List (K × V)}
    (hpresent : ∀ pair ∈ pairs, pair.1 ∈ s.cache.keys) :
    (run State.insert s pairs).cache = s.cache ∧
      (Throughout State.insert MarkedIfPresent s pairs →
        ∀ pair ∈ pairs, MarkedIfPresent s pair) := by
  induction pairs generalizing s with
  | nil => exact ⟨rfl, fun _ pair hmem => absurd hmem List.not_mem_nil⟩
  | cons pair pairs ih =>
    have hsame := cache_insert_of_present h (hpresent pair List.mem_cons_self)
    have hrest : ∀ p ∈ pairs, p.1 ∈ (s.insert pair).cache.keys := by
      intro p hp
      rw [hsame]
      exact hpresent p (List.mem_cons_of_mem _ hp)
    obtain ⟨hcache, hmarked⟩ := ih (hsame ▸ h) hrest
    refine ⟨hcache.trans hsame, ?_⟩
    intro hthroughout p hp
    rcases List.mem_cons.mp hp with rfl | hp
    · exact hthroughout.1
    · have hnext := hmarked hthroughout.2 p hp
      unfold MarkedIfPresent at hnext ⊢
      rwa [hsame] at hnext

theorem insertAlike_iff {s : State K V} (h : Inv s) (pair : K × V) :
    InsertAlike s pair ↔ MarkedIfPresent s pair := by
  constructor
  · intro halike elem hmem hkey
    obtain ⟨slot, hslot⟩ := List.mem_iff_getElem?.mp hmem
    have hlookup := (Cache.lookup_eq_some h.rep).mpr ⟨hslot, hkey⟩
    have hpresent : pair.1 ∈ s.cache.keys := hkey ▸ List.mem_map_of_mem hmem
    have hsame := halike.hit hpresent
    rw [Cache.insert_of_present hlookup, Cache.get_snd hlookup] at hsame
    have hafter := Cache.getElem?_setUsed s.cache slot slot true
    rw [← hsame, hslot] at hafter
    simp only [if_true, Option.map_some, Option.some.injEq] at hafter
    exact congrArg Element.used hafter
  · intro hmarked
    refine ⟨?_, ?_⟩
    · intro hpresent
      obtain ⟨elem, hmem, hkey⟩ := List.mem_map.mp hpresent
      obtain ⟨slot, hslot⟩ := List.mem_iff_getElem?.mp hmem
      have hlookup := (Cache.lookup_eq_some h.rep).mpr ⟨hslot, hkey⟩
      rw [Cache.insert_of_present hlookup, Cache.get_snd hlookup, ← hmarked elem hmem hkey]
      exact (Cache.setUsed_self hslot).symm
    · rintro - - victim hvictim ⟨slot, hslot, hclear⟩
      have hne : s.cache.storage ≠ [] := by
        rintro hempty
        simp [hempty] at hslot
      obtain ⟨count, o⟩ := exists_outcome h.rep hne
      obtain rfl := Option.some.inj (o.victim.symm.trans hvictim)
      have hmark : s.cache.marks[slot]? = some false := by
        rw [Cache.marks, List.getElem?_map, List.getElem?_eq_getElem hslot, Option.map_some,
          ← h.hit_eq slot _ (List.getElem?_eq_getElem hslot), hclear]
      have hend := o.sweeps.victim_clear hmark
      rw [Cache.length_marks, Cache.marks, List.getElem?_map, Option.map_eq_some_iff] at hend
      obtain ⟨elem, helem, hused⟩ := hend
      rw [h.hit_eq _ elem helem, hused]

theorem alike_iff {s : State K V} (h : Inv s) (a : Call K V) :
    Alike s a ↔ DoubleInsertsMarked s a := by
  cases a with
  | insert key value => exact insertAlike_iff h (key, value)
  | insertBatch keys values =>
    refine imp_congr_right fun hlen => ?_
    have hinserts : Throughout State.insert InsertAlike s (keys.zip values) ↔
        Throughout State.insert MarkedIfPresent s (keys.zip values) :=
      throughout_congr Inv (fun s pair hs hmarked => hs.insert hmarked)
        (fun s pair hs => insertAlike_iff hs pair) h _
    rw [hinserts]
    refine and_iff_left_of_imp fun hthroughout hpresent => ?_
    have hpairs : ∀ pair ∈ keys.zip values, pair.1 ∈ s.cache.keys := fun pair hmem =>
      hpresent _ (List.of_mem_zip hmem).1
    obtain ⟨hcache, hmarked⟩ := run_insert_of_present h.rep hpairs
    rw [cache_run_insert h.rep] at hcache
    have hall : ∀ elem ∈ s.cache.storage, elem.key ∈ keys → elem.used = true := by
      intro elem hmem hkey
      have hfst : elem.key ∈ (keys.zip values).map Prod.fst := by
        rwa [List.map_fst_zip (Nat.le_of_eq hlen)]
      obtain ⟨pair, hpair, heq⟩ := List.mem_map.mp hfst
      exact hmarked hthroughout pair hpair elem hmem heq.symm
    rw [Cache.run_get h.rep, Cache.markAll_of_marked hall]
    simpa [call, Cache.insertBatch, hlen] using hcache
  | get key => exact Iff.rfl
  | getValues keys valuesOut =>
    exact iff_of_true (fun hlen => getValues_eq_gets h.rep hlen) trivial
  | unmark key => exact Iff.rfl
  | expandTo newMax => exact Iff.rfl

theorem Inv.step {s : State K V} (h : Inv s) {a : Call K V} (hmarked : DoubleInsertsMarked s a) :
    Inv (step s a) := by
  have hrep := rep_call h.rep a
  cases a with
  | insert key value => exact Inv.insert h hmarked
  | insertBatch keys values =>
    by_cases hlen : keys.length = values.length
    · have halways : Always State.insert Inv s (keys.zip values) :=
        always_of_throughout (P := Inv) (fun _ _ hs hp => Inv.insert hs hp) h (hmarked hlen)
      have hrun := halways.last
      have hcache : call s.cache (.insertBatch keys values) =
          (run State.insert s (keys.zip values)).cache := by
        rw [cache_run_insert h.rep]
        simp [call, Cache.insertBatch, hlen]
      refine ⟨hrep, ?_⟩
      simp only [Hits.step, hcache, if_pos hlen]
      exact hrun.hit_eq
    · refine ⟨hrep, ?_⟩
      simp only [Hits.step, call, Cache.insertBatch, if_neg hlen]
      exact h.hit_eq
  | get key => exact h.get key
  | getValues keys valuesOut =>
    by_cases hlen : keys.length = valuesOut.length
    · have hrun : Inv (run State.get s keys) :=
        run_invariant Inv (fun s key hs => hs.get key) h keys
      have hcache : call s.cache (.getValues keys valuesOut) = (run State.get s keys).cache := by
        rw [cache_run_get]
        exact getValues_eq_gets h.rep hlen
      refine ⟨hrep, ?_⟩
      simp only [Hits.step, hcache, if_pos hlen]
      exact hrun.hit_eq
    · refine ⟨hrep, ?_⟩
      simp only [Hits.step, call, Cache.getValues, if_neg hlen]
      exact h.hit_eq
  | unmark key => exact h.unmark key
  | expandTo newMax =>
    refine ⟨hrep, ?_⟩
    have hstorage : (s.cache.expandTo newMax).storage = s.cache.storage := by
      unfold Cache.expandTo
      split <;> rfl
    simp only [Hits.step, call, hstorage]
    exact h.hit_eq

/-- All hits of a run count alike exactly if no insertion of the run finds its key in the
cache without a mark. -/
theorem hits_alike_iff_marked (max : Nat) (calls : List (Call K V)) :
    Throughout step Alike (.initial max) calls ↔
      Throughout step DoubleInsertsMarked (.initial max) calls :=
  throughout_congr Inv (fun _ _ hs hmarked => hs.step hmarked) (fun _ a hs => alike_iff hs a)
    (inv_initial max) calls

/-- The entry that has just been inserted again is evicted; asked for instead, it stays. -/
theorem double_insert_evicted :
    (run call (withMax 2)
        [.insert 1 10, .insert 2 20, .insert 1 10, .insert 3 30] : Cache Nat Nat).keys = [3, 2] ∧
      (run call (withMax 2)
        [.insert 1 10, .insert 2 20, .get 1, .insert 3 30] : Cache Nat Nat).keys = [1, 3] ∧
      ¬ Throughout step Alike (.initial 2 : State Nat Nat)
        [.insert 1 10, .insert 2 20, .insert 1 10, .insert 3 30] := by
  refine ⟨by decide, by decide, ?_⟩
  rintro ⟨_, _, _, halike, _⟩
  have hvictim := halike.spares (by decide) (by decide) 0 (by decide) ⟨1, by decide, by decide⟩
  revert hvictim
  decide

end TimescalePrometheus.Clockcache.Hits
