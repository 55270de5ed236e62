import TimescalePrometheus.Clockcache.Representation
import TimescalePrometheus.Lib.Runs

/-!
What reads leave behind. `GetValues` looks its keys up in an order of its own, which the
cache does not depend on: a read sets the mark of an entry, and that is all.
-/

namespace TimescalePrometheus.Clockcache

open Lib.Runs

variable {K V : Type*} [DecidableEq K]

namespace Cache

/-- The cache with marks on the entries of the given keys. -/
def markAll (c : Cache K V) (keys : List K) : Cache K V :=
  { c with storage := c.storage.map fun elem => { elem with used := elem.used || elem.key ∈ keys } }

@[simp] theorem markAll_nil (c : Cache K V) : c.markAll [] = c := by
  simp [markAll]

theorem markAll_cons (c : Cache K V) (key : K) (keys : List K) :
    (c.markAll [key]).markAll keys = c.markAll (key :: keys) := by
  simp [markAll, Function.comp_def, Bool.or_assoc]

theorem markAll_congr (c : Cache K V) {keys keys' : List K} (h : ∀ key, key ∈ keys ↔ key ∈ keys') :
    c.markAll keys = c.markAll keys' := by
  simp only [markAll, h]

theorem markAll_of_marked {c : Cache K V} {keys : List K}
    (h : ∀ elem ∈ c.storage, elem.key ∈ keys → elem.used = true) : c.markAll keys = c := by
  have hstorage : (c.markAll keys).storage = c.storage := by
    unfold markAll
    conv_rhs => rw [← List.map_id c.storage]
    apply List.map_congr_left
    intro elem hmem
    have hused : (elem.used || decide (elem.key ∈ keys)) = elem.used := by
      by_cases hkey : elem.key ∈ keys
      · simp [h elem hmem hkey]
      · simp [hkey]
    rw [hused]
    rfl
  exact congrArg (fun storage => { c with storage }) hstorage

theorem get_eq_markAll {c : Cache K V} (h : Rep c) (key : K) : (c.get key).2 = c.markAll [key] := by
  have hstorage : (c.get key).2.storage = (c.markAll [key]).storage := by
    apply List.ext_getElem?
    intro i
    simp only [markAll, List.getElem?_map, List.mem_singleton]
    cases hlookup : c.lookup key with
    | none =>
      have habsent := (lookup_eq_none h).mp hlookup
      rw [get_snd_of_absent hlookup]
      cases hi : c.storage[i]? with
      | none => rfl
      | some elem =>
        have hkey : elem.key ≠ key := by
          rintro rfl
          exact habsent (List.mem_map_of_mem (List.mem_of_getElem? hi))
        simp [hkey]
    | some found =>
      obtain ⟨slot, elem⟩ := found
      rw [get_snd hlookup, getElem?_setUsed]
      cases hi : c.storage[i]? with
      | none => rfl
      | some other =>
        -- the key is that of one slot only
        have hslot : slot = i ↔ other.key = key := by
          constructor
          · rintro rfl
            have hsame := (getElem?_of_lookup hlookup).symm.trans hi
            cases hsame
            exact ((lookup_eq_some h).mp hlookup).2
          · rintro rfl
            have hsame := hlookup.symm.trans ((lookup_eq_some h).mpr ⟨hi, rfl⟩)
            cases hsame
            rfl
        by_cases hkey : other.key = key
        · simp [hslot.mpr hkey, hkey]
        · have hne : slot ≠ i := fun heq => hkey (hslot.mp heq)
          simp [hne, hkey]
  have hmarked := c.remarked_get key
  cases hget : (c.get key).2 with
  | mk elements storage capacity next =>
    have hnext := c.next_get key
    have helements := hmarked.elements
    have hcapacity := hmarked.capacity
    simp only [hget] at hstorage hnext helements hcapacity
    simp only [markAll] at hstorage ⊢
    rw [hstorage, hnext, helements, hcapacity]

theorem run_get {c : Cache K V} (h : Rep c) (keys : List K) :
    run (fun c key => (c.get key).2) c keys = c.markAll keys := by
  induction keys generalizing c with
  | nil => simp
  | cons key keys ih => rw [run_cons, ih (rep_get h key), get_eq_markAll h, markAll_cons]

end Cache

omit [DecidableEq K] in
theorem getElem?_swap {l : List K} {i j : Nat} (hi : i < l.length) (hj : j < l.length) (k : Nat) :
    (swap l i j)[k]? = if k = j then l[i]? else if k = i then l[j]? else l[k]? := by
  simp only [swap, List.getElem?_eq_getElem hi, List.getElem?_eq_getElem hj, List.getElem?_set]
  by_cases hkj : k = j
  · subst hkj
    simp [hj]
  · by_cases hki : k = i
    · subst hki
      simp [hkj, Ne.symm hkj, hi]
    · simp [hkj, hki, Ne.symm hkj, Ne.symm hki]

omit [DecidableEq K] in
theorem mem_segment {keys : List K} {idx remaining : Nat} {key : K} :
    key ∈ (keys.drop idx).take remaining ↔
      ∃ i, idx ≤ i ∧ i < idx + remaining ∧ keys[i]? = some key := by
  rw [List.mem_iff_getElem?]
  constructor
  · rintro ⟨i, hi⟩
    rw [List.getElem?_take] at hi
    split at hi
    · rw [List.getElem?_drop] at hi
      exact ⟨idx + i, by omega, by omega, hi⟩
    · cases hi
  · rintro ⟨i, hle, hlt, hi⟩
    refine ⟨i - idx, ?_⟩
    rw [List.getElem?_take_of_lt (by omega), List.getElem?_drop, Nat.add_sub_cancel' hle, hi]

omit [DecidableEq K] in
theorem mem_segment_swap {keys : List K} {idx remaining : Nat} {key k : K}
    (hlen : idx + (remaining + 1) ≤ keys.length) (hkey : keys[idx]? = some key) :
    (k = key ∨ k ∈ ((swap keys (idx + remaining) idx).drop idx).take remaining) ↔
      k ∈ (keys.drop idx).take (remaining + 1) := by
  simp only [mem_segment, getElem?_swap (by omega : idx + remaining < keys.length)
    (by omega : idx < keys.length)]
  constructor
  · rintro (rfl | ⟨i, hle, hlt, hi⟩)
    · exact ⟨idx, by omega, by omega, hkey⟩
    · by_cases heq : i = idx
      · rw [if_pos heq] at hi
        exact ⟨idx + remaining, by omega, by omega, hi⟩
      · rw [if_neg heq, if_neg (by omega)] at hi
        exact ⟨i, hle, by omega, hi⟩
  · rintro ⟨i, hle, hlt, hi⟩
    by_cases heq : i = idx
    · subst heq
      exact .inl (Option.some.inj (hi.symm.trans hkey))
    · right
      by_cases hlast : i = idx + remaining
      · subst hlast
        exact ⟨idx, by omega, by omega, by rw [if_pos rfl, hi]⟩
      · exact ⟨i, hle, by omega, by rw [if_neg heq, if_neg hlast, hi]⟩

theorem cache_getValuesLoop {c : Cache K V} (h : Rep c) {keys : List K}
    {valuesOut : List (Option V)} {idx remaining : Nat} (hlen : idx + remaining ≤ keys.length) :
    (getValuesLoop c keys valuesOut idx remaining).cache =
      c.markAll ((keys.drop idx).take remaining) := by
  induction remaining generalizing c keys valuesOut idx with
  | zero => simp [getValuesLoop]
  | succ remaining ih =>
    have hidx : keys[idx]? = some keys[idx] := List.getElem?_eq_getElem (by omega)
    have hrep := Cache.rep_get h keys[idx]
    have hmark := Cache.get_eq_markAll h keys[idx]
    unfold getValuesLoop
    rw [hidx]
    simp only
    cases hresult : c.get keys[idx] with
    | mk value c' =>
      rw [hresult] at hrep hmark
      simp only at hrep hmark
      subst hmark
      cases value with
      | none =>
        have hswap : (swap keys (idx + remaining) idx).length = keys.length := by
          unfold swap
          split <;> simp
        simp only
        rw [ih hrep (by omega), Cache.markAll_cons]
        apply Cache.markAll_congr
        intro k
        rw [List.mem_cons]
        exact mem_segment_swap hlen hidx
      | some value =>
        simp only
        rw [ih hrep (by omega), Cache.markAll_cons,
          List.drop_eq_getElem_cons (by omega : idx < keys.length), List.take_succ_cons]

theorem getValues_eq_gets {c : Cache K V} (h : Rep c) {keys : List K}
    {valuesOut : List (Option V)} (hlen : keys.length = valuesOut.length) :
    ((c.getValues keys valuesOut).map (·.cache)).getD c =
      run (fun c key => (c.get key).2) c keys := by
  rw [Cache.run_get h, Cache.getValues, if_pos hlen]
  simp [cache_getValuesLoop h (by simp : 0 + keys.length ≤ keys.length)]

end TimescalePrometheus.Clockcache
