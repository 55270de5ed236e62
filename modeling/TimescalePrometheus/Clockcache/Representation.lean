import TimescalePrometheus.Clockcache.Cache
import Mathlib.Data.List.Induction
import Mathlib.Data.List.Nodup
import Mathlib.Tactic.Common

/-!
The map and the slice of a cache are two views of the same entries.
-/

namespace TimescalePrometheus.Clockcache

variable {K V : Type*}

/-- The map has one entry for each slot of the slice, which goes from the key that the
slice has there to the slot. -/
def Designates (elements : K → Option Nat) (keys : List K) : Prop :=
  ∀ key slot, elements key = some slot ↔ keys[slot]? = some key

namespace Designates

variable {elements : K → Option Nat} {keys : List K}

theorem nodup (h : Designates elements keys) : keys.Nodup := by
  rw [List.nodup_iff_injective_get]
  intro i j hij
  have hi := (h _ i.val).mpr (List.getElem?_eq_getElem i.isLt)
  have hj := (h _ j.val).mpr (List.getElem?_eq_getElem j.isLt)
  have hkeys : keys[i.val] = keys[j.val] := hij
  rw [hkeys, hj] at hi
  exact Fin.ext (Option.some.inj hi).symm

variable [DecidableEq K]

theorem append (h : Designates elements keys) {key : K} (habsent : key ∉ keys) :
    Designates (Function.update elements key (some keys.length)) (keys ++ [key]) := by
  intro k i
  by_cases hkey : k = key
  · subst hkey
    rw [Function.update_self, Option.some.injEq]
    constructor
    · rintro rfl
      simp
    · intro hget
      rcases Nat.lt_trichotomy i keys.length with hi | hi | hi
      · rw [List.getElem?_append_left hi] at hget
        exact absurd (List.mem_of_getElem? hget) habsent
      · exact hi.symm
      · rw [List.getElem?_eq_none (by simpa using Nat.succ_le_of_lt hi)] at hget
        cases hget
  · rw [Function.update_of_ne hkey, h]
    by_cases hi : i < keys.length
    · rw [List.getElem?_append_left hi]
    · rw [List.getElem?_append_right (Nat.le_of_not_lt hi),
        List.getElem?_eq_none (Nat.le_of_not_lt hi)]
      cases i - keys.length <;> simp [Ne.symm hkey]

theorem set (h : Designates elements keys) {slot : Nat} {old : K}
    (hold : keys[slot]? = some old) {key : K} (habsent : key ∉ keys) :
    Designates (Function.update (Function.update elements old none) key (some slot))
      (keys.set slot key) := by
  intro k i
  have hslot : slot < keys.length := (List.getElem?_eq_some_iff.mp hold).1
  rw [List.getElem?_set]
  by_cases hkey : k = key
  · subst hkey
    rw [Function.update_self]
    by_cases hi : slot = i
    · subst hi
      simp [hslot]
    · -- nothing else in the slice has the new key
      have hnone : keys[i]? ≠ some k := fun hget => habsent (List.mem_of_getElem? hget)
      simp [hi, hnone]
  · rw [Function.update_of_ne hkey]
    by_cases hi : slot = i
    · subst hi
      by_cases hk : k = old
      · subst hk
        simp [hslot, Ne.symm hkey]
      · rw [Function.update_of_ne hk, h, hold]
        simp [hslot, Ne.symm hkey, Ne.symm hk]
    · rw [if_neg hi]
      by_cases hk : k = old
      · -- the old key had no other slot
        subst hk
        have hother : keys[i]? ≠ some k := by
          intro hget
          have hslots := ((h k slot).mpr hold).symm.trans ((h k i).mpr hget)
          exact hi (Option.some.inj hslots)
        simp [hother]
      · rw [Function.update_of_ne hk, h]

end Designates

/-- `elements` and `storage` agree, and the sizes are such that no slicing panics. -/
structure Rep (c : Cache K V) : Prop where
  len_le_cap : c.storage.length ≤ c.capacity
  next_le_len : c.next ≤ c.storage.length
  designates : Designates c.elements c.keys

theorem Rep.withMax (max : Nat) : Rep (withMax max : Cache K V) where
  len_le_cap := Nat.zero_le _
  next_le_len := Nat.le_refl _
  designates := fun key slot => by simp [Clockcache.withMax, Cache.keys]

namespace Cache

theorem keys_eq_contents (c : Cache K V) : c.keys = c.contents.map Prod.fst := by
  simp [keys, contents]

@[simp] theorem length_keys (c : Cache K V) : c.keys.length = c.storage.length := by
  simp [keys]

@[simp] theorem length_marks (c : Cache K V) : c.marks.length = c.storage.length := by
  simp [marks]

@[simp] theorem length_contents (c : Cache K V) : c.contents.length = c.storage.length := by
  simp [contents]

/-- The value that a reader finds for a key. -/
def view (c : Cache K V) (key : K) : Option V :=
  (c.elements key).bind fun slot => c.contents[slot]?.map Prod.snd

theorem get_fst (c : Cache K V) (key : K) : (c.get key).1 = c.view key := by
  unfold get view lookup contents
  cases c.elements key with
  | none => rfl
  | some slot => cases hslot : c.storage[slot]? <;> simp [hslot]

theorem getElem?_of_lookup {c : Cache K V} {key : K} {slot : Nat} {elem : Element K V}
    (hlookup : c.lookup key = some (slot, elem)) : c.storage[slot]? = some elem := by
  simp only [lookup, Option.bind_eq_some_iff, Option.map_eq_some_iff, Prod.mk.injEq] at hlookup
  obtain ⟨i, _, e, hstorage, rfl, rfl⟩ := hlookup
  exact hstorage

theorem lookup_eq_some {c : Cache K V} (h : Rep c) {key : K} {slot : Nat} {elem : Element K V} :
    c.lookup key = some (slot, elem) ↔ c.storage[slot]? = some elem ∧ elem.key = key := by
  constructor
  · intro hlookup
    simp only [lookup, Option.bind_eq_some_iff, Option.map_eq_some_iff, Prod.mk.injEq] at hlookup
    obtain ⟨i, helements, e, hstorage, rfl, rfl⟩ := hlookup
    have hkey := (h.designates key i).mp helements
    rw [keys, List.getElem?_map, hstorage] at hkey
    exact ⟨hstorage, Option.some.inj hkey⟩
  · rintro ⟨hstorage, rfl⟩
    have helements := (h.designates elem.key slot).mpr (by simp [keys, hstorage])
    simp [lookup, helements, hstorage]

theorem lookup_eq_none {c : Cache K V} (h : Rep c) {key : K} :
    c.lookup key = none ↔ key ∉ c.keys := by
  constructor
  · intro hlookup hmem
    obtain ⟨elem, helem, rfl⟩ := List.mem_map.mp hmem
    obtain ⟨slot, hslot⟩ := List.mem_iff_getElem?.mp helem
    rw [(lookup_eq_some h).mpr ⟨hslot, rfl⟩] at hlookup
    cases hlookup
  · intro hmem
    cases hlookup : c.lookup key with
    | none => rfl
    | some found =>
      obtain ⟨hslot, hkey⟩ := (lookup_eq_some h).mp hlookup
      exact absurd (hkey ▸ List.mem_map_of_mem (List.mem_of_getElem? hslot)) hmem

theorem view_eq_none {c : Cache K V} (h : Rep c) {key : K} (habsent : key ∉ c.keys) :
    c.view key = none := by
  cases helements : c.elements key with
  | none => simp [view, helements]
  | some slot => exact absurd (List.mem_of_getElem? ((h.designates key slot).mp helements)) habsent

theorem view_of_lookup {c : Cache K V} {key : K} {slot : Nat} {elem : Element K V}
    (hlookup : c.lookup key = some (slot, elem)) : c.view key = some elem.value := by
  rw [← c.get_fst]
  simp [get, hlookup]

end Cache

/-- The two caches differ in marks and in the position of the hand only. -/
structure Remarked (c c' : Cache K V) : Prop where
  elements : c'.elements = c.elements
  contents : c'.contents = c.contents
  capacity : c'.capacity = c.capacity

namespace Remarked

variable {c c' c'' : Cache K V}

theorem refl (c : Cache K V) : Remarked c c := ⟨rfl, rfl, rfl⟩

theorem trans (h : Remarked c c') (h' : Remarked c' c'') : Remarked c c'' :=
  ⟨h'.elements.trans h.elements, h'.contents.trans h.contents, h'.capacity.trans h.capacity⟩

theorem keys (h : Remarked c c') : c'.keys = c.keys := by
  rw [Cache.keys_eq_contents, h.contents, Cache.keys_eq_contents]

theorem length (h : Remarked c c') : c'.storage.length = c.storage.length := by
  simpa using congrArg List.length h.contents

theorem view (h : Remarked c c') : c'.view = c.view := by
  funext key
  simp [Cache.view, h.elements, h.contents]

theorem rep (h : Remarked c c') (hrep : Rep c) (hnext : c'.next ≤ c'.storage.length) :
    Rep c' where
  len_le_cap := by rw [h.length, h.capacity]; exact hrep.len_le_cap
  next_le_len := hnext
  designates := by
    rw [h.elements, h.keys]
    exact hrep.designates

end Remarked

namespace Cache

@[simp] theorem next_setUsed (c : Cache K V) (slot : Nat) (used : Bool) :
    (c.setUsed slot used).next = c.next := rfl

@[simp] theorem length_setUsed (c : Cache K V) (slot : Nat) (used : Bool) :
    (c.setUsed slot used).storage.length = c.storage.length := by
  simp [setUsed]

theorem getElem?_setUsed (c : Cache K V) (slot i : Nat) (used : Bool) :
    (c.setUsed slot used).storage[i]? =
      c.storage[i]?.map fun elem => if slot = i then { elem with used } else elem := by
  simp only [setUsed, List.getElem?_modify]
  rfl

theorem remarked_setUsed (c : Cache K V) (slot : Nat) (used : Bool) :
    Remarked c (c.setUsed slot used) where
  elements := rfl
  contents := by
    apply List.ext_getElem?
    intro i
    rw [contents, contents, List.getElem?_map, List.getElem?_map, getElem?_setUsed,
      Option.map_map]
    congr 1
    funext elem
    by_cases hslot : slot = i <;> simp [hslot]
  capacity := rfl

theorem rep_setUsed {c : Cache K V} (h : Rep c) (slot : Nat) (used : Bool) :
    Rep (c.setUsed slot used) :=
  (c.remarked_setUsed slot used).rep h (by simpa using h.next_le_len)

theorem setUsed_self {c : Cache K V} {slot : Nat} {elem : Element K V}
    (h : c.storage[slot]? = some elem) : c.setUsed slot elem.used = c := by
  have hstorage : (c.setUsed slot elem.used).storage = c.storage := by
    apply List.ext_getElem?
    intro i
    rw [getElem?_setUsed]
    by_cases hslot : slot = i
    · subst hslot
      simp [h]
    · simp [hslot]
  exact congrArg (fun storage => { c with storage }) hstorage

theorem get_snd {c : Cache K V} {key : K} {slot : Nat} {elem : Element K V}
    (hlookup : c.lookup key = some (slot, elem)) : (c.get key).2 = c.setUsed slot true := by
  simp only [get, hlookup]
  cases hused : elem.used with
  | true =>
    rw [if_pos rfl, ← hused]
    exact (setUsed_self (getElem?_of_lookup hlookup)).symm
  | false => rfl

theorem get_snd_of_absent {c : Cache K V} {key : K} (hlookup : c.lookup key = none) :
    (c.get key).2 = c := by
  simp [get, hlookup]

theorem remarked_get (c : Cache K V) (key : K) : Remarked c (c.get key).2 := by
  cases hlookup : c.lookup key with
  | none =>
    rw [get_snd_of_absent hlookup]
    exact .refl c
  | some found =>
    rw [get_snd hlookup]
    exact c.remarked_setUsed _ _

@[simp] theorem next_get (c : Cache K V) (key : K) : (c.get key).2.next = c.next := by
  cases hlookup : c.lookup key with
  | none => rw [get_snd_of_absent hlookup]
  | some found => rw [get_snd hlookup, next_setUsed]

theorem remarked_unmark (c : Cache K V) (key : K) : Remarked c (c.unmark key).2 := by
  cases hlookup : c.lookup key with
  | none => simpa [unmark, hlookup] using .refl c
  | some found =>
    simp only [unmark, hlookup]
    split
    · exact c.remarked_setUsed _ _
    · exact .refl c

@[simp] theorem next_unmark (c : Cache K V) (key : K) : (c.unmark key).2.next = c.next := by
  cases hlookup : c.lookup key with
  | none => simp [unmark, hlookup]
  | some found =>
    simp only [unmark, hlookup]
    split <;> rfl

theorem rep_get {c : Cache K V} (h : Rep c) (key : K) : Rep (c.get key).2 := by
  refine (c.remarked_get key).rep h ?_
  rw [next_get, (c.remarked_get key).length]
  exact h.next_le_len

theorem rep_unmark {c : Cache K V} (h : Rep c) (key : K) : Rep (c.unmark key).2 := by
  refine (c.remarked_unmark key).rep h ?_
  rw [next_unmark, (c.remarked_unmark key).length]
  exact h.next_le_len

theorem remarked_getValuesLoop (c : Cache K V) (keys : List K) (valuesOut : List (Option V))
    (idx remaining : Nat) :
    Remarked c (getValuesLoop c keys valuesOut idx remaining).cache ∧
      (getValuesLoop c keys valuesOut idx remaining).cache.next = c.next := by
  induction remaining generalizing c keys valuesOut idx with
  | zero => exact ⟨.refl c, rfl⟩
  | succ remaining ih =>
    unfold getValuesLoop
    cases keys[idx]? with
    | none => exact ⟨.refl c, rfl⟩
    | some key =>
      have hget := c.remarked_get key
      have hnext := c.next_get key
      cases hresult : c.get key with
      | mk value c' =>
        rw [hresult] at hget hnext
        simp only [hresult]
        cases value with
        | none =>
          obtain ⟨hrest, hn⟩ := ih c' (swap keys (idx + remaining) idx) valuesOut idx
          exact ⟨hget.trans hrest, hn.trans hnext⟩
        | some value =>
          obtain ⟨hrest, hn⟩ := ih c' keys (valuesOut.set idx (some value)) (idx + 1)
          exact ⟨hget.trans hrest, hn.trans hnext⟩

end Cache

namespace Cache

variable [DecidableEq K]

theorem storage_overwrite {c : Cache K V} {slot : Nat} (hslot : slot < c.storage.length)
    (key : K) (value : V) :
    (c.overwrite slot key value).storage = c.storage.set slot ⟨key, value, false⟩ := by
  simp [overwrite, List.getElem?_eq_getElem hslot]

theorem elements_overwrite {c : Cache K V} {slot : Nat} (hslot : slot < c.storage.length)
    (key : K) (value : V) :
    (c.overwrite slot key value).elements =
      Function.update (Function.update c.elements c.storage[slot].key none) key (some slot) := by
  simp [overwrite, List.getElem?_eq_getElem hslot]

theorem capacity_overwrite (c : Cache K V) (slot : Nat) (key : K) (value : V) :
    (c.overwrite slot key value).capacity = c.capacity := by
  unfold overwrite
  cases c.storage[slot]? <;> rfl

theorem next_overwrite (c : Cache K V) (slot : Nat) (key : K) (value : V) :
    (c.overwrite slot key value).next = c.next := by
  unfold overwrite
  cases c.storage[slot]? <;> rfl

theorem contents_overwrite {c : Cache K V} {slot : Nat} (hslot : slot < c.storage.length)
    (key : K) (value : V) :
    (c.overwrite slot key value).contents = c.contents.set slot (key, value) := by
  simp [contents, storage_overwrite hslot, List.map_set]

theorem rep_overwrite {c : Cache K V} (h : Rep c) {slot : Nat} (hslot : slot < c.storage.length)
    {key : K} (habsent : key ∉ c.keys) (value : V) : Rep (c.overwrite slot key value) where
  len_le_cap := by
    rw [storage_overwrite hslot, capacity_overwrite, List.length_set]
    exact h.len_le_cap
  next_le_len := by
    rw [storage_overwrite hslot, next_overwrite, List.length_set]
    exact h.next_le_len
  designates := by
    have hkeys : (c.overwrite slot key value).keys = c.keys.set slot key := by
      simp [keys, storage_overwrite hslot, List.map_set]
    rw [hkeys, elements_overwrite hslot]
    exact h.designates.set (by simp [keys, List.getElem?_eq_getElem hslot]) habsent

theorem view_overwrite {c : Cache K V} (h : Rep c) {slot : Nat} (hslot : slot < c.storage.length)
    (key : K) (value : V) (k : K) :
    (c.overwrite slot key value).view k =
      if k = key then some value
      else if k = c.storage[slot].key then none else c.view k := by
  unfold view
  rw [elements_overwrite hslot, contents_overwrite hslot]
  by_cases hkey : k = key
  · subst hkey
    simp [hslot]
  · rw [Function.update_of_ne hkey, if_neg hkey]
    by_cases hk : k = c.storage[slot].key
    · subst hk
      simp
    · rw [Function.update_of_ne hk, if_neg hk]
      cases helements : c.elements k with
      | none => rfl
      | some i =>
        have hi : slot ≠ i := by
          rintro rfl
          have hget := (h.designates k slot).mp helements
          rw [keys, List.getElem?_map, List.getElem?_eq_getElem hslot] at hget
          exact hk (Option.some.inj hget).symm
        simp [List.getElem?_set, hi]

theorem rep_append {c : Cache K V} (h : Rep c) (hroom : c.storage.length < c.capacity)
    {key : K} (habsent : key ∉ c.keys) (value : V) : Rep (c.append key value) where
  len_le_cap := by simpa [append] using Nat.succ_le_of_lt hroom
  next_le_len := by
    have hnext := h.next_le_len
    simp only [append, List.length_append, List.length_singleton]
    omega
  designates := by
    have hkeys : (c.append key value).keys = c.keys ++ [key] := by simp [keys, append]
    rw [hkeys]
    simpa [append] using h.designates.append habsent

theorem view_append {c : Cache K V} (h : Rep c) (key : K) (value : V) (k : K) :
    (c.append key value).view k = if k = key then some value else c.view k := by
  have hcontents : (c.append key value).contents = c.contents ++ [(key, value)] := by
    simp [contents, append]
  unfold view
  rw [hcontents]
  change (Function.update c.elements key (some c.storage.length) k).bind _ = _
  by_cases hkey : k = key
  · subst hkey
    simp [List.getElem?_append]
  · rw [Function.update_of_ne hkey, if_neg hkey]
    cases helements : c.elements k with
    | none => rfl
    | some i =>
      have hi : i < c.contents.length := by
        have hget := (h.designates k i).mp helements
        simpa using (List.getElem?_eq_some_iff.mp hget).1
      simp [List.getElem?_append_left hi]

theorem designates_indexOf {storage : List (Element K V)}
    (hnodup : (storage.map (·.key)).Nodup) :
    Designates (indexOf storage) (storage.map (·.key)) := by
  induction storage using List.reverseRecOn with
  | nil => intro key slot; simp [indexOf]
  | append_singleton storage elem ih =>
    rw [List.map_append, List.map_singleton] at hnodup ⊢
    have hfresh : elem.key ∉ storage.map (·.key) := fun hmem =>
      (List.nodup_append.mp hnodup).2.2 _ hmem _ (List.mem_singleton_self _) rfl
    have hlast : indexOf (storage ++ [elem]) =
        Function.update (indexOf storage) elem.key (some (storage.map (·.key)).length) := by
      simp [indexOf, List.zipIdx_append]
    rw [hlast]
    exact (ih (List.nodup_append.mp hnodup).1).append hfresh

theorem insert_of_present {c : Cache K V} {key : K} {slot : Nat} {elem : Element K V}
    (hlookup : c.lookup key = some (slot, elem)) (value : V) :
    c.insert key value = ⟨c, elem.key, elem.value, true⟩ := by
  simp only [insert, hlookup]
  cases hused : elem.used with
  | true =>
    rw [if_pos rfl, ← hused, setUsed_self (getElem?_of_lookup hlookup)]
  | false => rfl

theorem rep_install {c : Cache K V} (h : Rep c) {newStorage : List (Element K V)}
    (hcopy : newStorage.map (fun elem => (elem.key, elem.value)) = c.contents) {newMax : Nat}
    (hroom : c.capacity ≤ newMax) : Rep (c.install newStorage newMax) where
  len_le_cap := by
    have hlen : newStorage.length = c.storage.length := by simpa using congrArg List.length hcopy
    exact hlen ▸ Nat.le_trans h.len_le_cap hroom
  next_le_len := by
    have hlen : newStorage.length = c.storage.length := by simpa using congrArg List.length hcopy
    exact hlen ▸ h.next_le_len
  designates := by
    apply designates_indexOf
    have hkeys : newStorage.map (·.key) = c.keys := by
      rw [keys_eq_contents, ← hcopy]
      simp
    exact hkeys ▸ h.designates.nodup

theorem view_install {c : Cache K V} (h : Rep c) {newStorage : List (Element K V)}
    (hcopy : newStorage.map (fun elem => (elem.key, elem.value)) = c.contents) {newMax : Nat}
    (hroom : c.capacity ≤ newMax) (k : K) : (c.install newStorage newMax).view k = c.view k := by
  have hrep := rep_install h hcopy hroom
  have hcontents : (c.install newStorage newMax).contents = c.contents := hcopy
  have hkeys : (c.install newStorage newMax).keys = c.keys := by
    rw [keys_eq_contents, hcontents, keys_eq_contents]
  have helements : (c.install newStorage newMax).elements k = c.elements k := by
    apply Option.ext
    intro slot
    rw [hrep.designates, h.designates, hkeys]
  rw [view, view, helements, hcontents]

end Cache

end TimescalePrometheus.Clockcache
