import TimescalePrometheus.Clockcache.Eviction
import TimescalePrometheus.Clockcache.Reads

/-!
A cache in front of a table. Insertions of entries of the table keep the cache in agreement with
it and hand the entries back as they are, whatever they evict; `GetValues` puts the keys that it
finds before those that it does not find.
-/

namespace TimescalePrometheus.Clockcache

variable {K V : Type*}

/-- Every entry of the cache is one of the table. -/
def Agrees (c : Cache K V) (table : K → Option V) : Prop :=
  ∀ key value, c.view key = some value → table key = some value

theorem Remarked.agrees {c c' : Cache K V} (h : Remarked c c') {table : K → Option V}
    (hagrees : Agrees c table) : Agrees c' table := by
  intro key value hview
  rw [h.view] at hview
  exact hagrees key value hview

section Insertions

variable [DecidableEq K] {c : Cache K V} {table : K → Option V}

theorem insert_agrees (h : Rep c) (hagrees : Agrees c table) {key : K} {value : V}
    (hentry : table key = some value) : Agrees (c.insert key value).cache table := by
  rcases insert_cases h key value with ⟨-, hc, -⟩ | ⟨habsent, -, hc, -⟩ |
      ⟨habsent, -, hne, slot, -, hslot, hc, -⟩ | ⟨-, -, hc, -⟩
  · rwa [hc]
  · intro k v hview
    rw [hc, Cache.view_append h] at hview
    split at hview
    · rename_i hkey
      rw [hkey, hentry, hview]
    · exact hagrees k v hview
  · obtain ⟨count, o⟩ := exists_outcome h hne
    intro k v hview
    rw [hc, Cache.view_overwrite (o.rep h hne) (o.remarked.length ▸ hslot)] at hview
    split at hview
    · rename_i hkey
      rw [hkey, hentry, hview]
    · split at hview
      · cases hview
      · exact o.remarked.agrees hagrees k v hview
  · rwa [hc]

theorem length_pairs_insertLoop (c : Cache K V) (pairs : List (K × V)) :
    (insertLoop c pairs).pairs.length = pairs.length := by
  induction pairs generalizing c with
  | nil => rfl
  | cons pair pairs ih =>
    unfold insertLoop
    dsimp only
    split
    · rw [List.length_cons, ih, List.length_cons]
    · rfl

theorem insert_canonical (h : Rep c) (hagrees : Agrees c table) {key : K} {value : V}
    (hentry : table key = some value) :
    (c.insert key value).canonicalKey = key ∧ (c.insert key value).canonicalValue = value := by
  cases hlookup : c.lookup key with
  | some found =>
    obtain ⟨slot, elem⟩ := found
    have hvalue := hagrees key _ (Cache.view_of_lookup hlookup)
    rw [hentry, Option.some.injEq] at hvalue
    rw [Cache.insert_of_present hlookup]
    exact ⟨((Cache.lookup_eq_some h).mp hlookup).2, hvalue.symm⟩
  | none =>
    unfold Cache.insert
    rw [hlookup]
    dsimp only
    split
    · split
      · exact ⟨rfl, rfl⟩
      · exact ⟨rfl, rfl⟩
    · exact ⟨rfl, rfl⟩

theorem insertLoop_agrees (h : Rep c) (hagrees : Agrees c table) {pairs : List (K × V)}
    (hentries : ∀ pair ∈ pairs, table pair.1 = some pair.2) :
    Agrees (insertLoop c pairs).cache table ∧ (insertLoop c pairs).pairs = pairs := by
  induction pairs generalizing c with
  | nil => exact ⟨hagrees, rfl⟩
  | cons pair pairs ih =>
    obtain ⟨key, value⟩ := pair
    have hentry := hentries (key, value) List.mem_cons_self
    have hagrees' := insert_agrees h hagrees hentry
    obtain ⟨hkey, hvalue⟩ := insert_canonical h hagrees hentry
    obtain ⟨hrest, hpairs⟩ := ih (rep_insert h key value) hagrees'
      fun pair hpair => hentries pair (List.mem_cons_of_mem _ hpair)
    simp only [insertLoop, hkey, hvalue]
    split
    · exact ⟨hrest, by rw [hpairs]⟩
    · exact ⟨hagrees', rfl⟩

end Insertions

/-- What `GetValues` has done when `idx` keys were found and those from `n` on were not. -/
structure HitsFirst (c : Cache K V) (keys : List K) (valuesOut : List (Option V)) (idx n : Nat) :
    Prop where
  found : (keys.take idx).map c.view = valuesOut.take idx
  isSome : ∀ value ∈ valuesOut.take idx, value.isSome = true
  missing : ∀ key ∈ keys.drop n, c.view key = none

theorem perm_swap {l : List K} {i j : Nat} (hi : i < l.length) (hj : j < l.length) :
    (swap l i j).Perm l := by
  simp only [swap, List.getElem?_eq_getElem hi, List.getElem?_eq_getElem hj]
  exact List.set_set_perm hi hj

theorem take_swap {l : List K} {i j n : Nat} (hi : i < l.length) (hj : j < l.length) (hni : n ≤ i)
    (hnj : n ≤ j) : (swap l i j).take n = l.take n := by
  simp only [swap, List.getElem?_eq_getElem hi, List.getElem?_eq_getElem hj]
  rw [List.take_set_of_le hnj, List.take_set_of_le hni]

theorem length_swap (l : List K) (i j : Nat) : (swap l i j).length = l.length := by
  unfold swap
  split
  · rw [List.length_set, List.length_set]
  · rfl

section Rounds

variable {c : Cache K V} {keys : List K} {valuesOut : List (Option V)} {idx n : Nat}

theorem HitsFirst.miss (h : HitsFirst c keys valuesOut idx (n + 1)) (hidx : idx ≤ n)
    (hn : n < keys.length) (hnone : c.view (keys.get ⟨idx, by omega⟩) = none) :
    HitsFirst c (swap keys n idx) valuesOut idx n := by
  have hlt : idx < keys.length := by omega
  refine ⟨?_, h.isSome, ?_⟩
  · rw [take_swap hn hlt hidx le_rfl]
    exact h.found
  · intro key hkey
    obtain ⟨i, hi⟩ := List.mem_iff_getElem?.mp hkey
    rw [List.getElem?_drop, getElem?_swap hn hlt] at hi
    have hmoved : keys[idx]? = some key → c.view key = none := by
      intro hget
      rw [List.getElem?_eq_getElem hlt, Option.some.injEq] at hget
      rw [← hget]
      exact hnone
    split at hi
    · rename_i hfirst
      rw [show n = idx by omega] at hi
      exact hmoved hi
    · split at hi
      · exact hmoved hi
      · refine h.missing key (List.mem_iff_getElem?.mpr ⟨i - 1, ?_⟩)
        rw [List.getElem?_drop, show n + 1 + (i - 1) = n + i by omega]
        exact hi

theorem HitsFirst.hit (h : HitsFirst c keys valuesOut idx n) (hidx : idx < keys.length)
    (hvalues : keys.length = valuesOut.length) {value : V}
    (hsome : c.view (keys.get ⟨idx, hidx⟩) = some value) :
    HitsFirst c keys (valuesOut.set idx (some value)) (idx + 1) n := by
  have htake : (valuesOut.set idx (some value)).take (idx + 1) =
      valuesOut.take idx ++ [some value] := by
    rw [List.take_add_one, List.take_set_of_le le_rfl, List.getElem?_set_self (by omega)]
    rfl
  refine ⟨?_, ?_, h.missing⟩
  · rw [htake, List.take_add_one, List.getElem?_eq_getElem hidx, List.map_append, h.found]
    exact congrArg (fun v => _ ++ [v]) hsome
  · intro v hv
    rw [htake, List.mem_append, List.mem_singleton] at hv
    rcases hv with hv | rfl
    · exact h.isSome v hv
    · rfl

end Rounds

theorem getValuesLoop_hitsFirst {c₀ c : Cache K V} (hview : c.view = c₀.view) {keys : List K}
    {valuesOut : List (Option V)} {idx remaining : Nat}
    (hkeys : idx + remaining ≤ keys.length) (hvalues : keys.length = valuesOut.length)
    (h : HitsFirst c₀ keys valuesOut idx (idx + remaining)) :
    (getValuesLoop c keys valuesOut idx remaining).keys.Perm keys ∧
      (getValuesLoop c keys valuesOut idx remaining).valuesOut.length = valuesOut.length ∧
      HitsFirst c₀ (getValuesLoop c keys valuesOut idx remaining).keys
        (getValuesLoop c keys valuesOut idx remaining).valuesOut
        (getValuesLoop c keys valuesOut idx remaining).numFound
        (getValuesLoop c keys valuesOut idx remaining).numFound := by
  induction remaining generalizing c keys valuesOut idx with
  | zero => exact ⟨List.Perm.refl _, rfl, h⟩
  | succ remaining ih =>
    have hlt : idx < keys.length := by omega
    have hlast : idx + remaining < keys.length := by omega
    have hget := c.remarked_get keys[idx]
    have hfst := c.get_fst keys[idx]
    unfold getValuesLoop
    rw [List.getElem?_eq_getElem hlt]
    dsimp only
    generalize c.get keys[idx] = answer at hget hfst ⊢
    obtain ⟨value, c'⟩ := answer
    have hview' : c'.view = c₀.view := hget.view.trans hview
    rw [hview] at hfst
    cases value with
    | none =>
      have hlen := length_swap keys (idx + remaining) idx
      have hmiss : HitsFirst c₀ (swap keys (idx + remaining) idx) valuesOut idx
          (idx + remaining) := HitsFirst.miss h (Nat.le_add_right _ _) hlast hfst.symm
      obtain ⟨hperm, hrest⟩ := ih hview' (by omega) (by omega) hmiss
      exact ⟨hperm.trans (perm_swap hlast hlt), hrest⟩
    | some value =>
      rw [show idx + (remaining + 1) = idx + 1 + remaining by omega] at h
      have hhit := h.hit hlt hvalues hfst.symm
      have hlen : (valuesOut.set idx (some value)).length = valuesOut.length :=
        List.length_set
      obtain ⟨hperm, hlength, hfirst⟩ := ih hview' (by omega) (by omega) hhit
      exact ⟨hperm, hlength.trans hlen, hfirst⟩

theorem numFound_getValuesLoop_le (c : Cache K V) (keys : List K) (valuesOut : List (Option V))
    (idx remaining : Nat) :
    (getValuesLoop c keys valuesOut idx remaining).numFound ≤ idx + remaining := by
  induction remaining generalizing c keys valuesOut idx with
  | zero => exact le_rfl
  | succ remaining ih =>
    unfold getValuesLoop
    split
    · exact Nat.le_add_right _ _
    · split
      · exact (ih _ _ _ _).trans (Nat.le_succ _)
      · exact (ih _ _ _ _).trans (by omega)

end TimescalePrometheus.Clockcache
