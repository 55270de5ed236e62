import TimescalePrometheus.Clockcache.Representation
import TimescalePrometheus.Lib.Clock
import TimescalePrometheus.Lib.Runs

/-!
What an eviction does when no reader comes in between: it goes round the ring from the
hand on, and what it leaves behind depends on the slice in which it found its victim.
-/

namespace TimescalePrometheus.Clockcache

open Lib.Clock Lib.Runs

variable {K V : Type*}

theorem contents_walk (slice : List (Element K V)) :
    (walk slice).slice.map (fun elem => (elem.key, elem.value)) =
      slice.map fun elem => (elem.key, elem.value) := by
  induction slice with
  | nil => rfl
  | cons elem rest ih =>
    unfold walk
    split <;> simp [ih]

theorem length_walk (slice : List (Element K V)) : (walk slice).slice.length = slice.length := by
  simpa using congrArg List.length (contents_walk slice)

theorem walk_of_some {slice : List (Element K V)} {next : Nat}
    (h : (walk slice).found = some next) :
    ∃ rest, slice.map (·.used) = List.replicate next true ++ false :: rest ∧
      (walk slice).slice.map (·.used) = List.replicate next false ++ false :: rest := by
  induction slice generalizing next with
  | nil => cases h
  | cons elem slice ih =>
    unfold walk at h ⊢
    cases hused : elem.used with
    | false =>
      simp only [hused, Bool.false_eq_true, if_false, Option.some.injEq] at h ⊢
      subst h
      exact ⟨slice.map (·.used), by simp [hused]⟩
    | true =>
      simp only [hused, if_true, Option.map_eq_some_iff] at h ⊢
      obtain ⟨r, hr, rfl⟩ := h
      obtain ⟨rest, hmarks, hcleared⟩ := ih hr
      exact ⟨rest, by simp [hused, hmarks, List.replicate_succ],
        by simp [hcleared, List.replicate_succ]⟩

theorem walk_of_none {slice : List (Element K V)} (h : (walk slice).found = none) :
    slice.map (·.used) = List.replicate slice.length true ∧
      (walk slice).slice.map (·.used) = List.replicate slice.length false := by
  induction slice with
  | nil => exact ⟨rfl, rfl⟩
  | cons elem slice ih =>
    unfold walk at h ⊢
    cases hused : elem.used with
    | false => simp [hused] at h
    | true =>
      simp only [hused, if_true, Option.map_eq_none_iff] at h ⊢
      obtain ⟨hmarks, hcleared⟩ := ih h
      exact ⟨by simp [hused, hmarks, List.replicate_succ],
        by simp [hcleared, List.replicate_succ]⟩

theorem walk_cleared {slice : List (Element K V)} (hne : slice ≠ [])
    (h : slice.map (·.used) = List.replicate slice.length false) :
    walk slice = ⟨slice, some 0⟩ := by
  cases slice with
  | nil => exact absurd rfl hne
  | cons elem slice =>
    have hused : elem.used = false := by
      simpa [List.replicate_succ] using congrArg List.head? h
    cases elem
    simp_all [walk]

/-- What an eviction does to a cache that is not empty, after it has passed `count` slots. -/
structure Outcome (c : Cache K V) (e : Eviction K V) (count : Nat) : Prop where
  remarked : Remarked c e.cache
  sweeps : Sweeps c.marks c.next count e.cache.marks
  victim : e.victim = some ((c.next + count) % c.storage.length)
  examined : e.examined = ring c.storage.length c.next (count + 1)
  hand :
    (c.next + count < c.storage.length ∧ e.cache.next = count + 1 ∧
      false ∈ c.marks.drop c.next) ∨
    (c.storage.length ≤ c.next + count ∧ count < c.storage.length ∧
      e.cache.next = c.next + count - c.storage.length + 1 ∧
      false ∉ c.marks.drop c.next ∧ false ∈ c.marks.take c.next) ∨
    (count = c.storage.length ∧ e.cache.next = 1 ∧ false ∉ c.marks.take c.next)

theorem remarked_slices {c : Cache K V} {post pre : List (Element K V)} (next : Nat)
    (hpost : post.map (fun elem => (elem.key, elem.value)) =
      (c.storage.drop c.next).map fun elem => (elem.key, elem.value))
    (hpre : pre.map (fun elem => (elem.key, elem.value)) =
      (c.storage.take c.next).map fun elem => (elem.key, elem.value)) :
    Remarked c { c with storage := pre ++ post, next } where
  elements := rfl
  contents := by
    simp only [Cache.contents]
    rw [List.map_append, hpost, hpre, ← List.map_append, List.take_append_drop]
  capacity := rfl

theorem sweeps_slices {c : Cache K V} (h : Rep c) (hne : c.storage ≠ [])
    {post pre : List (Element K V)} (next count : Nat) (rest : List Bool)
    (hpre : pre.length = c.next)
    (hmarks : (c.storage.drop c.next).map (·.used) ++ (c.storage.take c.next).map (·.used) =
      List.replicate count true ++ rest)
    (hrest : rest.head? ≠ some true)
    (hmarks' : post.map (·.used) ++ pre.map (·.used) = List.replicate count false ++ rest) :
    Sweeps c.marks c.next count ({ c with storage := pre ++ post, next } : Cache K V).marks := by
  apply sweeps_of_rotate _ _ hrest
  · have hlen : c.next = (pre.map (·.used)).length := by simp [hpre]
    simp only [Cache.marks]
    rw [List.map_append, hlen, List.rotate_append_length_eq, hmarks']
  · simpa [Cache.marks] using hne
  · rw [List.rotate_eq_drop_append_take (by simpa using h.next_le_len)]
    simpa only [Cache.marks, List.map_drop, List.map_take] using hmarks

section Cases

variable {c : Cache K V} (h : Rep c) (hne : c.storage ≠ [])

theorem marks_drop (c : Cache K V) :
    c.marks.drop c.next = (c.storage.drop c.next).map (·.used) := by
  simp [Cache.marks, List.map_drop]

theorem marks_take (c : Cache K V) :
    c.marks.take c.next = (c.storage.take c.next).map (·.used) := by
  simp [Cache.marks, List.map_take]

include h

theorem length_preStart : (c.storage.take c.next).length = c.next := by
  simpa using h.next_le_len

include hne

theorem outcome_postStart {r : Nat} (hpost : (walk (c.storage.drop c.next)).found = some r) :
    Outcome c c.evict r := by
  obtain ⟨rest, hmarks, hcleared⟩ := walk_of_some hpost
  have hr : c.next + r < c.storage.length := by
    have hlen := congrArg List.length hmarks
    simp only [List.length_map, List.length_append, List.length_replicate, List.length_cons,
      List.length_drop] at hlen
    omega
  simp only [Cache.evict, round, hpost]
  refine ⟨remarked_slices _ (contents_walk _) rfl, ?_, ?_, ?_, .inl ⟨hr, rfl, ?_⟩⟩
  · refine sweeps_slices h hne _ _ (false :: (rest ++ (c.storage.take c.next).map (·.used)))
      (length_preStart h) ?_ (by simp) ?_
    · simp [hmarks]
    · simp [hcleared]
  · rw [Nat.mod_eq_of_lt hr]
  · exact (ring_eq_range' (by omega)).symm
  · simp [marks_drop, hmarks]

theorem outcome_preStart {r : Nat} (hpost : (walk (c.storage.drop c.next)).found = none)
    (hpre : (walk (c.storage.take c.next)).found = some r) :
    Outcome c c.evict (c.storage.length - c.next + r) := by
  have hnext := h.next_le_len
  obtain ⟨hmarks, hcleared⟩ := walk_of_none hpost
  obtain ⟨rest, hmarks', hcleared'⟩ := walk_of_some hpre
  have hr : r < c.next := by
    have hlen := congrArg List.length hmarks'
    simp only [List.length_map, List.length_append, List.length_replicate, List.length_cons,
      length_preStart h] at hlen
    omega
  rw [List.length_drop] at hmarks hcleared
  have hnone : false ∉ c.marks.drop c.next := by
    rw [marks_drop, hmarks]
    simp [List.mem_replicate]
  simp only [Cache.evict, round, hpost, hpre]
  refine ⟨remarked_slices _ (contents_walk _) (contents_walk _), ?_, ?_, ?_,
    .inr (.inl ⟨by omega, by omega, by simp; omega, hnone, ?_⟩)⟩
  · refine sweeps_slices h hne _ _ (false :: rest) ((length_walk _).trans (length_preStart h)) ?_
      (by simp) ?_
    · rw [hmarks, hmarks', List.replicate_add, List.append_assoc]
    · rw [hcleared, hcleared', List.replicate_add, List.append_assoc]
  · rw [show c.next + (c.storage.length - c.next + r) = r + c.storage.length by omega,
      Nat.add_mod_right, Nat.mod_eq_of_lt (by omega)]
  · rw [List.length_drop, Nat.add_assoc, ring_add 0, ring_eq_range' (by omega),
      ring_eq_range' (by omega)]
    rw [Nat.add_sub_cancel' hnext, Nat.mod_self, Nat.zero_mod]
  · simp [marks_take, hmarks']

theorem outcome_again (hpost : (walk (c.storage.drop c.next)).found = none)
    (hpre : (walk (c.storage.take c.next)).found = none) :
    Outcome c c.evict c.storage.length := by
  have hnext := h.next_le_len
  have hpos : 0 < c.storage.length := List.length_pos_iff.mpr hne
  obtain ⟨hmarks, hcleared⟩ := walk_of_none hpost
  obtain ⟨hmarks', hcleared'⟩ := walk_of_none hpre
  rw [List.length_drop] at hmarks hcleared
  rw [length_preStart h] at hmarks' hcleared'
  have hnone : false ∉ c.marks.take c.next := by
    rw [marks_take, hmarks']
    simp [List.mem_replicate]
  have hsweeps : ∀ next, Sweeps c.marks c.next c.storage.length
      ({ c with
          storage := (walk (c.storage.take c.next)).slice ++ (walk (c.storage.drop c.next)).slice
          next } : Cache K V).marks := by
    intro next
    refine sweeps_slices h hne _ _ [] ((length_walk _).trans (length_preStart h)) ?_ (by simp) ?_
    · rw [hmarks, hmarks', ← List.replicate_add, Nat.sub_add_cancel hnext, List.append_nil]
    · rw [hcleared, hcleared', ← List.replicate_add, Nat.sub_add_cancel hnext, List.append_nil]
  have hfirst : List.range' c.next (c.storage.length - c.next) ++ List.range' 0 c.next =
      ring c.storage.length c.next (c.storage.length - c.next + c.next) := by
    rw [ring_add 0, ring_eq_range' (by omega), ring_eq_range' (by omega)]
    rw [Nat.add_sub_cancel' hnext, Nat.mod_self, Nat.zero_mod]
  rw [Nat.sub_add_cancel hnext] at hfirst
  rcases Nat.lt_or_ge c.next c.storage.length with hlt | hge
  · have hsecond : walk (walk (c.storage.drop c.next)).slice =
        ⟨(walk (c.storage.drop c.next)).slice, some 0⟩ := by
      apply walk_cleared
      · rw [← List.length_pos_iff, length_walk, List.length_drop]
        omega
      · rw [length_walk, List.length_drop, hcleared]
    simp only [Cache.evict, round, hpost, hpre, hsecond, List.length_drop, length_preStart h]
    refine ⟨remarked_slices _ (contents_walk _) (contents_walk _), hsweeps _, ?_, ?_,
      .inr (.inr ⟨rfl, rfl, hnone⟩)⟩
    · rw [Nat.add_mod_right, Nat.mod_eq_of_lt hlt]
      rfl
    · rw [hfirst, ring_add c.next, ring_eq_range' (by omega : c.next + 1 ≤ c.storage.length)]
      rw [Nat.add_mod_right]
  · -- the hand is past the last slot, and the slice after it is empty
    have hend : c.next = c.storage.length := by omega
    have hempty : (walk (c.storage.drop c.next)).slice = [] := by
      rw [← List.length_eq_zero_iff, length_walk, List.length_drop]
      omega
    have hsecond : walk (walk (c.storage.take c.next)).slice =
        ⟨(walk (c.storage.take c.next)).slice, some 0⟩ := by
      apply walk_cleared
      · rw [← List.length_pos_iff, length_walk, length_preStart h]
        omega
      · rw [length_walk, length_preStart h, hcleared']
    have hsweeps' := hsweeps 1
    rw [hempty] at hsweeps'
    have hdrop : (c.storage.drop c.next) = [] := by simp [hend]
    simp only [Cache.evict, round, hpost, hpre, hempty, walk, hsecond, List.length_drop,
      length_preStart h]
    refine ⟨remarked_slices _ (by rw [hdrop]) (contents_walk _), hsweeps', ?_, ?_,
      .inr (.inr ⟨rfl, rfl, hnone⟩)⟩
    · rw [Nat.add_mod_right, hend, Nat.mod_self]
    · rw [hfirst, ring_add 0, ring_eq_range' (by omega : 0 + 1 ≤ c.storage.length)]
      · rfl
      · rw [Nat.add_mod_right, hend, Nat.mod_self, Nat.zero_mod]

end Cases

theorem exists_outcome {c : Cache K V} (h : Rep c) (hne : c.storage ≠ []) :
    ∃ count, Outcome c c.evict count := by
  cases hpost : (walk (c.storage.drop c.next)).found with
  | some r => exact ⟨r, outcome_postStart h hne hpost⟩
  | none =>
    cases hpre : (walk (c.storage.take c.next)).found with
    | some r => exact ⟨_, outcome_preStart h hne hpost hpre⟩
    | none => exact ⟨_, outcome_again h hne hpost hpre⟩

theorem evict_of_empty {c : Cache K V} (h : Rep c) (hempty : c.storage = []) :
    c.evict = ⟨c, none, []⟩ := by
  have hnext : c.next = 0 := by simpa [hempty] using h.next_le_len
  cases c
  simp_all [Cache.evict, round, walk]

theorem Outcome.rep {c : Cache K V} {e : Eviction K V} {count : Nat} (h : Rep c)
    (hne : c.storage ≠ []) (o : Outcome c e count) : Rep e.cache := by
  refine o.remarked.rep h ?_
  rw [o.remarked.length]
  have hnext := h.next_le_len
  have hpos : 0 < c.storage.length := List.length_pos_iff.mpr hne
  rcases o.hand with ⟨hlt, hhand, _⟩ | ⟨_, hlt, hhand, _⟩ | ⟨_, hhand, _⟩ <;> omega

section Insertions

variable [DecidableEq K]

theorem insert_cases {c : Cache K V} (h : Rep c) (key : K) (value : V) :
    (key ∈ c.keys ∧ (c.insert key value).cache = c ∧ (c.insert key value).inserted = true) ∨
    (key ∉ c.keys ∧ c.storage.length < c.capacity ∧
      (c.insert key value).cache = c.append key value ∧
      (c.insert key value).inserted = true) ∨
    (key ∉ c.keys ∧ c.capacity ≤ c.storage.length ∧ c.storage ≠ [] ∧ ∃ slot,
      c.evict.victim = some slot ∧ slot < c.storage.length ∧
      (c.insert key value).cache = c.evict.cache.overwrite slot key value ∧
      (c.insert key value).inserted = true) ∨
    (c.storage = [] ∧ c.capacity = 0 ∧ (c.insert key value).cache = c ∧
      (c.insert key value).inserted = false) := by
  cases hlookup : c.lookup key with
  | some found =>
    have hmem : key ∈ c.keys := by
      by_contra habsent
      rw [(Cache.lookup_eq_none h).mpr habsent] at hlookup
      cases hlookup
    rw [Cache.insert_of_present hlookup]
    exact .inl ⟨hmem, rfl, rfl⟩
  | none =>
    have habsent := (Cache.lookup_eq_none h).mp hlookup
    by_cases hfull : c.capacity ≤ c.storage.length
    · by_cases hempty : c.storage = []
      · have hcap : c.capacity = 0 := by simpa [hempty] using hfull
        refine .inr (.inr (.inr ⟨hempty, hcap, ?_⟩))
        simp [Cache.insert, hlookup, hfull, evict_of_empty h hempty]
      · obtain ⟨count, o⟩ := exists_outcome h hempty
        refine .inr (.inr (.inl ⟨habsent, hfull, hempty, _, o.victim, ?_, ?_⟩))
        · exact Nat.mod_lt _ (List.length_pos_iff.mpr hempty)
        · simp [Cache.insert, hlookup, hfull, o.victim]
    · refine .inr (.inl ⟨habsent, Nat.lt_of_not_le hfull, ?_⟩)
      simp [Cache.insert, hlookup, hfull]

theorem rep_insert {c : Cache K V} (h : Rep c) (key : K) (value : V) :
    Rep (c.insert key value).cache := by
  rcases insert_cases h key value with ⟨_, hc, _⟩ | ⟨habsent, hroom, hc, _⟩ |
      ⟨habsent, _, hne, slot, _, hslot, hc, _⟩ | ⟨_, _, hc, _⟩
  · rw [hc]
    exact h
  · exact hc ▸ Cache.rep_append h hroom habsent value
  · obtain ⟨count, o⟩ := exists_outcome h hne
    rw [hc]
    refine Cache.rep_overwrite (o.rep h hne) (o.remarked.length ▸ hslot) ?_ value
    exact o.remarked.keys ▸ habsent
  · rw [hc]
    exact h

theorem rep_insertLoop {c : Cache K V} (h : Rep c) (pairs : List (K × V)) :
    Rep (insertLoop c pairs).cache := by
  induction pairs generalizing c with
  | nil => exact h
  | cons pair pairs ih =>
    have hinsert := rep_insert h pair.1 pair.2
    simp only [insertLoop]
    split
    · exact ih hinsert
    · exact hinsert

/-- The exported operations and `unmark`. -/
inductive Call (K V : Type*)
  | insert (key : K) (value : V)
  | insertBatch (keys : List K) (values : List V)
  | get (key : K)
  | getValues (keys : List K) (valuesOut : List (Option V))
  | unmark (key : K)
  | expandTo (newMax : Int)

/-- A call that panics does so before it has touched the cache. -/
def call (c : Cache K V) : Call K V → Cache K V
  | .insert key value => (c.insert key value).cache
  | .insertBatch keys values => ((c.insertBatch keys values).map (·.cache)).getD c
  | .get key => (c.get key).2
  | .getValues keys valuesOut => ((c.getValues keys valuesOut).map (·.cache)).getD c
  | .unmark key => (c.unmark key).2
  | .expandTo newMax => c.expandTo newMax

theorem rep_call {c : Cache K V} (h : Rep c) (a : Call K V) : Rep (call c a) := by
  cases a with
  | insert key value => exact rep_insert h key value
  | insertBatch keys values =>
    simp only [call, Cache.insertBatch]
    split
    · exact rep_insertLoop h _
    · exact h
  | get key => exact Cache.rep_get h key
  | getValues keys valuesOut =>
    simp only [call, Cache.getValues]
    split
    · obtain ⟨hmarked, hnext⟩ := Cache.remarked_getValuesLoop c keys valuesOut 0 keys.length
      refine hmarked.rep h ?_
      rw [hnext, hmarked.length]
      exact h.next_le_len
    · exact h
  | unmark key => exact Cache.rep_unmark h key
  | expandTo newMax =>
    simp only [call, Cache.expandTo]
    split
    · exact h
    · exact Cache.rep_install h rfl (by omega)

theorem rep_run (max : Nat) (calls : List (Call K V)) :
    Rep (run call (withMax max) calls) :=
  run_invariant Rep (fun _ a h => rep_call h a) (.withMax max) calls

end Insertions

end TimescalePrometheus.Clockcache
