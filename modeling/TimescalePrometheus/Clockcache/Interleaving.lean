import TimescalePrometheus.Clockcache.Representation
import TimescalePrometheus.Lib.Runs

/-!
The cache under concurrent use. The holder of `insertLock` goes from one access of shared
memory to the next, and between any two of them readers come in, which take `elementsLock`
at most; so the marks change under an eviction in progress.
-/

namespace TimescalePrometheus.Clockcache.Interleaving

open Lib.Runs

variable {K V : Type*}

/-- The two slices of a round. -/
inductive Part
  | postStart
  | preStart
  deriving DecidableEq

/-- The variables of the loops of `evict`. -/
structure Scan where
  startLoc : Nat
  i : Nat
  part : Part
  next : Nat
  deriving DecidableEq

/-- The length of the slice that the inner loop ranges over. -/
def Scan.length (scan : Scan) (len : Nat) : Nat :=
  match scan.part with
  | .postStart => len - scan.startLoc
  | .preStart => scan.startLoc

/-- The slot of the storage that `elem` points to. -/
def Scan.slot (scan : Scan) : Nat :=
  match scan.part with
  | .postStart => scan.startLoc + scan.next
  | .preStart => scan.next

/-- Where the holder of `insertLock` is. An insertion carries the pairs of its batch that
come after it, and the contents of the cache when it began. -/
inductive Holder (K V : Type*)
  | free
  | inserting (todo : List (K × V))
  /-- In `evict`. -/
  | scanning (key : K) (value : V) (todo : List (K × V)) (scan : Scan) (before : List (K × V))
  /-- `evict` has returned a pointer to the slot; `elementsLock` is not taken yet. -/
  | found (key : K) (value : V) (todo : List (K × V)) (slot : Nat)
  /-- In `ExpandTo`, with the new storage filled. -/
  | copied (newMax : Nat) (newStorage : List (Element K V))

/-- What has happened to the entries; an insertion is recorded with what it reports. -/
inductive Event (K V : Type*)
  | inserted (key : K) (value : V)
  | evicted (key : K)
  | refused (key : K) (before after : List (K × V))

/-- The log has the latest event first. -/
structure State (K V : Type*) where
  cache : Cache K V
  insertLock : Holder K V
  log : List (Event K V)

def State.initial (max : Nat) : State K V where
  cache := withMax max
  insertLock := .free
  log := []

inductive Action (K V : Type*)
  | insert (key : K) (value : V)
  | insertBatch (keys : List K) (values : List V)
  | expandTo (newMax : Int)
  /-- The next step of the holder of `insertLock`. -/
  | proceed
  | get (key : K)
  | getValues (keys : List K) (valuesOut : List (Option V))
  | unmark (key : K)

section Step

variable [DecidableEq K]

/-- A step of the loops of `evict`: a swap, or the way from a slice to the next. -/
def State.scan (s : State K V) (key : K) (value : V) (todo : List (K × V)) (scan : Scan)
    (before : List (K × V)) : State K V :=
  if scan.next < scan.length s.cache.storage.length then
    match s.cache.storage[scan.slot]? with
    | none => s
    | some elem =>
      let cache := s.cache.setUsed scan.slot false
      if elem.used then
        { s with
          cache
          insertLock := .scanning key value todo { scan with next := scan.next + 1 } before }
      else
        { s with
          cache := { cache with next := scan.next + 1 }
          insertLock := .found key value todo scan.slot }
  else
    match scan.part with
    | .postStart =>
      { s with
        insertLock := .scanning key value todo { scan with part := .preStart, next := 0 } before }
    | .preStart =>
      if scan.i + 1 < 2 then
        { s with
          insertLock :=
            .scanning key value todo ⟨scan.startLoc, scan.i + 1, .postStart, 0⟩ before }
      else
        { s with
          insertLock := .free
          log := .refused key before s.cache.contents :: s.log }

/-- The beginning of `insert`, up to the eviction. -/
def State.begin (s : State K V) (key : K) (value : V) (todo : List (K × V)) : State K V :=
  match s.cache.lookup key with
  | some (slot, elem) =>
    { cache := if elem.used then s.cache.setUsed slot true else s.cache
      insertLock := .inserting todo
      log := .inserted key value :: s.log }
  | none =>
    if s.cache.capacity ≤ s.cache.storage.length then
      { s with
        insertLock :=
          .scanning key value todo ⟨s.cache.next, 0, .postStart, 0⟩ s.cache.contents }
    else
      { cache := s.cache.append key value
        insertLock := .inserting todo
        log := .inserted key value :: s.log }

/-- `insert` with the slot that `evict` has returned. -/
def State.replace (s : State K V) (key : K) (value : V) (todo : List (K × V)) (slot : Nat) :
    State K V :=
  match s.cache.storage[slot]? with
  | none => s
  | some old =>
    { cache := s.cache.overwrite slot key value
      insertLock := .inserting todo
      log := .inserted key value :: .evicted old.key :: s.log }

def State.proceed (s : State K V) : State K V :=
  match s.insertLock with
  | .free => s
  | .inserting [] => { s with insertLock := .free }
  | .inserting ((key, value) :: todo) => s.begin key value todo
  | .scanning key value todo scan before => s.scan key value todo scan before
  | .found key value todo slot => s.replace key value todo slot
  | .copied newMax newStorage =>
    { s with cache := s.cache.install newStorage newMax, insertLock := .free }

/-- A call that needs `insertLock` waits while somebody holds it. -/
def State.acquire (s : State K V) (holder : Holder K V) : State K V :=
  match s.insertLock with
  | .free => { s with insertLock := holder }
  | _ => s

/-- A call arrives, or the holder goes on. -/
def step (s : State K V) : Action K V → State K V
  | .insert key value => s.acquire (.inserting [(key, value)])
  | .insertBatch keys values =>
    if keys.length = values.length then s.acquire (.inserting (keys.zip values)) else s
  | .expandTo newMax =>
    if newMax ≤ s.cache.capacity then s
    else s.acquire (.copied newMax.toNat s.cache.storage)
  | .proceed => s.proceed
  | .get key => { s with cache := (s.cache.get key).2 }
  | .getValues keys valuesOut =>
    match s.cache.getValues keys valuesOut with
    | none => s
    | some values => { s with cache := values.cache }
  | .unmark key => { s with cache := (s.cache.unmark key).2 }

def Event.evicts (key : K) : Event K V → Bool
  | .evicted k => k = key
  | _ => false

def Event.inserts (key : K) : Event K V → Option V
  | .inserted k value => if k = key then some value else none
  | _ => none

/-- The value of the first insertion of the key since it was last absent. -/
def firstInsert (key : K) (log : List (Event K V)) : Option V :=
  (log.takeWhile fun event => !event.evicts key).reverse.findSome? (·.inserts key)

theorem firstInsert_inserted (key k : K) (value : V) (log : List (Event K V)) :
    firstInsert key (.inserted k value :: log) =
      (firstInsert key log).or (if k = key then some value else none) := by
  by_cases hk : k = key <;>
    simp [firstInsert, Event.evicts, Event.inserts, List.findSome?_append, hk]

theorem firstInsert_evicted (key k : K) (log : List (Event K V)) :
    firstInsert key (.evicted k :: log) = if k = key then none else firstInsert key log := by
  by_cases hk : k = key <;>
    simp [firstInsert, Event.evicts, Event.inserts, List.findSome?_append, hk]

theorem firstInsert_refused (key k : K) (before after : List (K × V)) (log : List (Event K V)) :
    firstInsert key (.refused k before after :: log) = firstInsert key log := by
  simp [firstInsert, Event.evicts, Event.inserts, List.findSome?_append]

end Step

def Holder.Fits (c : Cache K V) : Holder K V → Prop
  | .free => True
  | .inserting _ => True
  | .scanning key _ _ scan before =>
    key ∉ c.keys ∧ scan.startLoc ≤ c.storage.length ∧ c.contents = before
  | .found key _ _ slot => key ∉ c.keys ∧ slot < c.storage.length
  | .copied newMax newStorage =>
    c.capacity ≤ newMax ∧
      newStorage.map (fun elem => (elem.key, elem.value)) = c.contents

theorem Holder.Fits.remarked {c c' : Cache K V} {holder : Holder K V} (h : holder.Fits c)
    (hc : Remarked c c') : holder.Fits c' := by
  cases holder with
  | free => trivial
  | inserting todo => trivial
  | scanning key value todo scan before =>
    simpa only [Fits, hc.keys, hc.length, hc.contents] using h
  | found key value todo slot => simpa only [Fits, hc.keys, hc.length] using h
  | copied newMax newStorage => simpa only [Fits, hc.capacity, hc.contents] using h

theorem Scan.slot_lt {scan : Scan} {len : Nat} (hstart : scan.startLoc ≤ len)
    (h : scan.next < scan.length len) : scan.slot < len := by
  unfold length at h
  unfold slot
  cases hpart : scan.part <;> simp only [hpart] at h ⊢ <;> omega

theorem Scan.length_le {scan : Scan} {len : Nat} (hstart : scan.startLoc ≤ len) :
    scan.length len ≤ len := by
  unfold length
  cases scan.part
  · exact Nat.sub_le _ _
  · exact hstart

variable [DecidableEq K]

structure Inv (s : State K V) : Prop where
  rep : Rep s.cache
  view : ∀ key, s.cache.view key = firstInsert key s.log
  unchanged : ∀ key before after, .refused key before after ∈ s.log → after = before
  fits : s.insertLock.Fits s.cache

theorem inv_initial (max : Nat) : Inv (.initial max : State K V) where
  rep := .withMax max
  view := fun _ => rfl
  unchanged := fun _ _ _ hmem => absurd hmem (List.not_mem_nil)
  fits := trivial

theorem Inv.remarked {s : State K V} (h : Inv s) {c : Cache K V} (hc : Remarked s.cache c)
    (hnext : c.next ≤ c.storage.length) {holder : Holder K V} (hfits : holder.Fits c) :
    Inv { s with cache := c, insertLock := holder } where
  rep := hc.rep h.rep hnext
  view := fun key => by rw [hc.view]; exact h.view key
  unchanged := h.unchanged
  fits := hfits

theorem Inv.reader {s : State K V} (h : Inv s) {c : Cache K V} (hc : Remarked s.cache c)
    (hnext : c.next = s.cache.next) : Inv { s with cache := c } :=
  h.remarked hc (by rw [hnext, hc.length]; exact h.rep.next_le_len) (h.fits.remarked hc)

theorem Inv.acquire {s : State K V} (h : Inv s) {holder : Holder K V}
    (hfits : holder.Fits s.cache) : Inv (s.acquire holder) := by
  unfold State.acquire
  split
  · exact ⟨h.rep, h.view, h.unchanged, hfits⟩
  · exact h

theorem Inv.scan {s : State K V} (h : Inv s) {key : K} {value : V} {todo : List (K × V)}
    {scan : Scan} {before : List (K × V)}
    (hfits : (Holder.scanning key value todo scan before).Fits s.cache) :
    Inv (s.scan key value todo scan before) := by
  have ⟨habsent, hstart, hbefore⟩ := hfits
  unfold State.scan
  split
  · rename_i hnext
    have hslot := Scan.slot_lt hstart hnext
    have hmarked := s.cache.remarked_setUsed scan.slot false
    rw [List.getElem?_eq_getElem hslot]
    simp only
    split
    · exact h.remarked hmarked (by simpa using h.rep.next_le_len)
        (hfits.remarked hmarked : (Holder.scanning key value todo scan before).Fits _)
    · -- the hand is not past the end, whichever slice it is counted in
      have hlen : scan.next + 1 ≤ s.cache.storage.length :=
        Nat.le_trans hnext (Scan.length_le hstart)
      have hhand : Remarked s.cache
          { s.cache.setUsed scan.slot false with next := scan.next + 1 } :=
        ⟨hmarked.elements, hmarked.contents, hmarked.capacity⟩
      have hfound : (Holder.found key value todo scan.slot).Fits s.cache := ⟨habsent, hslot⟩
      exact h.remarked hhand (by simpa using hlen) (hfound.remarked hhand)
  · cases scan.part with
    | postStart => exact ⟨h.rep, h.view, h.unchanged, habsent, hstart, hbefore⟩
    | preStart =>
      simp only
      split
      · exact ⟨h.rep, h.view, h.unchanged, habsent, hstart, hbefore⟩
      · refine ⟨h.rep, ?_, ?_, trivial⟩
        · intro k
          rw [firstInsert_refused]
          exact h.view k
        · intro k b a hmem
          rcases List.mem_cons.mp hmem with heq | hmem
          · cases heq
            exact hbefore
          · exact h.unchanged k b a hmem

theorem Inv.begin {s : State K V} (h : Inv s) (key : K) (value : V) (todo : List (K × V)) :
    Inv (s.begin key value todo) := by
  unfold State.begin
  cases hlookup : s.cache.lookup key with
  | some found =>
    obtain ⟨slot, elem⟩ := found
    have hview : s.cache.view key = some elem.value := Cache.view_of_lookup hlookup
    have hcache : (if elem.used then s.cache.setUsed slot true else s.cache) = s.cache := by
      split
      · rename_i hused
        rw [← hused]
        exact Cache.setUsed_self (Cache.getElem?_of_lookup hlookup)
      · rfl
    simp only [hcache]
    refine ⟨h.rep, ?_, ?_, trivial⟩
    · intro k
      rw [firstInsert_inserted, ← h.view k]
      by_cases hk : key = k
      · -- the value that the key has stays
        subst hk
        rw [hview]
        rfl
      · simp [hk]
    · simpa using h.unchanged
  | none =>
    have habsent := (Cache.lookup_eq_none h.rep).mp hlookup
    simp only
    split
    · exact ⟨h.rep, h.view, h.unchanged, habsent, h.rep.next_le_len, rfl⟩
    · rename_i hroom
      refine ⟨Cache.rep_append h.rep (Nat.lt_of_not_le hroom) habsent value, ?_, ?_, trivial⟩
      · intro k
        rw [Cache.view_append h.rep, firstInsert_inserted, ← h.view k]
        by_cases hk : k = key
        · subst hk
          simp [Cache.view_eq_none h.rep habsent]
        · simp [hk, Ne.symm hk]
      · simpa using h.unchanged

theorem Inv.replace {s : State K V} (h : Inv s) {key : K} (value : V) (todo : List (K × V))
    {slot : Nat} (habsent : key ∉ s.cache.keys) (hslot : slot < s.cache.storage.length) :
    Inv (s.replace key value todo slot) := by
  unfold State.replace
  rw [List.getElem?_eq_getElem hslot]
  refine ⟨Cache.rep_overwrite h.rep hslot habsent value, ?_, ?_, trivial⟩
  · intro k
    rw [Cache.view_overwrite h.rep hslot, firstInsert_inserted, firstInsert_evicted, ← h.view k]
    by_cases hk : k = key
    · subst hk
      simp [Cache.view_eq_none h.rep habsent]
    · by_cases hold : k = s.cache.storage[slot].key
      · subst hold
        simp [hk, Ne.symm hk]
      · simp [hk, Ne.symm hk, hold, Ne.symm hold]
  · simpa using h.unchanged

theorem Inv.proceed {s : State K V} (h : Inv s) : Inv s.proceed := by
  have hfits := h.fits
  unfold State.proceed
  cases hholder : s.insertLock with
  | free => exact h
  | inserting todo =>
    cases todo with
    | nil => exact ⟨h.rep, h.view, h.unchanged, trivial⟩
    | cons pair todo => exact h.begin pair.1 pair.2 todo
  | scanning key value todo scan before => exact h.scan (hholder ▸ hfits)
  | found key value todo slot =>
    rw [hholder] at hfits
    exact h.replace value todo hfits.1 hfits.2
  | copied newMax newStorage =>
    rw [hholder] at hfits
    refine ⟨Cache.rep_install h.rep hfits.2 hfits.1, ?_, h.unchanged, trivial⟩
    intro key
    rw [Cache.view_install h.rep hfits.2 hfits.1]
    exact h.view key

theorem inv_step {s : State K V} (h : Inv s) (a : Action K V) : Inv (step s a) := by
  cases a with
  | insert key value => exact h.acquire trivial
  | insertBatch keys values =>
    simp only [step]
    split
    · exact h.acquire trivial
    · exact h
  | expandTo newMax =>
    simp only [step]
    split
    · exact h
    · rename_i hmax
      exact h.acquire ⟨by omega, rfl⟩
  | proceed => exact h.proceed
  | get key => exact h.reader (s.cache.remarked_get key) (s.cache.next_get key)
  | getValues keys valuesOut =>
    simp only [step, Cache.getValues]
    split
    · rename_i hpanic
      exact h
    · rename_i values hvalues
      split at hvalues
      · cases hvalues
        obtain ⟨hmarked, hnext⟩ := Cache.remarked_getValuesLoop s.cache keys valuesOut 0 keys.length
        exact h.reader hmarked hnext
      · cases hvalues
  | unmark key => exact h.reader (s.cache.remarked_unmark key) (s.cache.next_unmark key)

/-- What holds of the cache at every moment. -/
structure Sound (s : State K V) : Prop where
  len_le_cap : s.cache.storage.length ≤ s.cache.capacity
  next_le_len : s.cache.next ≤ s.cache.storage.length
  one_entry : ∀ slot < s.cache.storage.length, ∃! key, s.cache.elements key = some slot
  designates : ∀ key slot, s.cache.elements key = some slot →
    ∃ elem, s.cache.storage[slot]? = some elem ∧ elem.key = key
  distinct : s.cache.keys.Nodup
  get : ∀ key, (s.cache.get key).1 = firstInsert key s.log
  refused : ∀ key before after, .refused key before after ∈ s.log → after = before

/-- In every interleaving the map and the slice describe the same entries, a reader finds
the value that the key was first inserted with, and a refused insertion leaves no trace. -/
theorem map_and_slice_agree (max : Nat) (actions : List (Action K V)) :
    Sound (run step (.initial max) actions) := by
  have h : Inv (run step (.initial max) actions) :=
    run_invariant Inv (fun s a hs => inv_step hs a) (inv_initial max) actions
  refine ⟨h.rep.len_le_cap, h.rep.next_le_len, ?_, ?_, h.rep.designates.nodup, ?_, h.unchanged⟩
  · intro slot hslot
    have hkey := List.getElem?_eq_getElem (by simpa using hslot :
      slot < (run step (.initial max) actions).cache.keys.length)
    refine ⟨_, (h.rep.designates _ slot).mpr hkey, ?_⟩
    intro key hdesignates
    have hget := (h.rep.designates key slot).mp hdesignates
    exact Option.some.inj (hget.symm.trans hkey)
  · intro key slot hdesignates
    have hget := (h.rep.designates key slot).mp hdesignates
    rw [Cache.keys, List.getElem?_map, Option.map_eq_some_iff] at hget
    exact hget
  · intro key
    rw [Cache.get_fst]
    exact h.view key

end TimescalePrometheus.Clockcache.Interleaving
