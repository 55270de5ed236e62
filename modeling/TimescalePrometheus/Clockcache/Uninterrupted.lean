import TimescalePrometheus.Clockcache.Eviction
import TimescalePrometheus.Clockcache.Interleaving

/-!
The operations as functions are the interleavings in which nobody comes in between: the
holder of `insertLock`, left alone, computes what the functions say.
-/

namespace TimescalePrometheus.Clockcache.Interleaving

open Lib.Runs

variable {K V : Type*} [DecidableEq K]

/-- The holder of `insertLock` gets from the one state to the other by itself. -/
def Reaches (s s' : State K V) : Prop :=
  ∃ steps, run step s (List.replicate steps .proceed) = s'

theorem Reaches.refl (s : State K V) : Reaches s s := ⟨0, rfl⟩

theorem Reaches.trans {s s' s'' : State K V} (h : Reaches s s') (h' : Reaches s' s'') :
    Reaches s s'' := by
  obtain ⟨m, rfl⟩ := h
  obtain ⟨n, rfl⟩ := h'
  exact ⟨m + n, by rw [List.replicate_add, run_append]⟩

theorem Reaches.head {s s' s'' : State K V} (h : s.proceed = s') (h' : Reaches s' s'') :
    Reaches s s'' := by
  refine Reaches.trans ⟨1, ?_⟩ h'
  exact h

omit [DecidableEq K] in
theorem setUsed_append {c : Cache K V} {front rest : List (Element K V)} {elem : Element K V}
    (h : c.storage = front ++ elem :: rest) (used : Bool) :
    c.setUsed front.length used = { c with storage := front ++ { elem with used } :: rest } := by
  have hmodify : ∀ front : List (Element K V),
      (front ++ elem :: rest).modify front.length (fun elem => { elem with used }) =
        front ++ { elem with used } :: rest := by
    intro front
    induction front with
    | nil => rfl
    | cons e front ih => simpa using ih
  unfold Cache.setUsed
  rw [h, hmodify]

section Steps

variable (key : K) (value : V) (todo before : List (K × V)) (log : List (Event K V))

theorem reaches_walk (rest back front : List (Element K V)) (c : Cache K V) (scan : Scan)
    (hstorage : c.storage = front ++ (rest ++ back)) (hslot : scan.slot = front.length)
    (hlen : scan.next + rest.length = scan.length c.storage.length) :
    Reaches ⟨c, .scanning key value todo scan before, log⟩
      (match (walk rest).found with
        | some r =>
          ⟨{ c with
              storage := front ++ ((walk rest).slice ++ back), next := scan.next + (r + 1) },
            .found key value todo (front.length + r), log⟩
        | none =>
          ⟨{ c with storage := front ++ ((walk rest).slice ++ back) },
            .scanning key value todo { scan with next := scan.next + rest.length } before,
            log⟩) := by
  induction rest generalizing c front scan with
  | nil =>
    simp only [walk, List.length_nil, Nat.add_zero, ← hstorage]
    exact .refl _
  | cons elem rest ih =>
    rw [List.length_cons] at hlen
    have hnext : scan.next < scan.length c.storage.length := by omega
    have helem : c.storage[front.length]? = some elem := by
      rw [hstorage]
      simp
    cases hused : elem.used with
    | false =>
      refine .head ?_ (.refl _)
      simp [State.proceed, State.scan, hnext, helem, hused, hslot, setUsed_append hstorage, walk]
    | true =>
      have hproceed : (⟨c, .scanning key value todo scan before, log⟩ : State K V).proceed =
          ⟨{ c with storage := front ++ { elem with used := false } :: (rest ++ back) },
            .scanning key value todo { scan with next := scan.next + 1 } before, log⟩ := by
        simp [State.proceed, State.scan, hnext, helem, hused, hslot, setUsed_append hstorage]
      have hslot' : ({ scan with next := scan.next + 1 } : Scan).slot =
          (front ++ [{ elem with used := false }]).length := by
        rw [List.length_append, List.length_singleton, ← hslot]
        unfold Scan.slot
        cases scan.part
        · rfl
        · rfl
      have hlength : (front ++ { elem with used := false } :: (rest ++ back)).length =
          c.storage.length := by
        rw [hstorage]
        simp
      refine .head hproceed ?_
      have hrest := ih (front ++ [{ elem with used := false }])
        { c with storage := front ++ { elem with used := false } :: (rest ++ back) }
        { scan with next := scan.next + 1 } (by simp) hslot' (by
          rw [hlength, Nat.add_assoc, Nat.add_comm 1]
          exact hlen)
      simp only [walk, hused, if_true, List.length_cons]
      cases hfound : (walk rest).found with
      | some r =>
        simp only [hfound, Option.map_some] at hrest ⊢
        simpa [Nat.add_assoc, Nat.add_comm, Nat.add_left_comm] using hrest
      | none =>
        simp only [hfound, Option.map_none] at hrest ⊢
        simpa [Nat.add_assoc, Nat.add_comm, Nat.add_left_comm] using hrest

theorem reaches_round (c : Cache K V) (post pre : List (Element K V)) (i : Nat)
    (hstorage : c.storage = pre ++ post) :
    Reaches ⟨c, .scanning key value todo ⟨pre.length, i, .postStart, 0⟩ before, log⟩
      (match (round pre.length post pre).found with
        | some (slot, next) =>
          ⟨{ c with
              storage := (round pre.length post pre).preStart ++
                (round pre.length post pre).postStart
              next },
            .found key value todo slot, log⟩
        | none =>
          ⟨{ c with
              storage := (round pre.length post pre).preStart ++
                (round pre.length post pre).postStart },
            .scanning key value todo ⟨pre.length, i, .preStart, pre.length⟩ before, log⟩) := by
  have hpost := reaches_walk key value todo before log post [] pre c
    ⟨pre.length, i, .postStart, 0⟩ (by simpa using hstorage) rfl
    (by simp [Scan.length, hstorage])
  cases hfound : (walk post).found with
  | some next =>
    simp only [hfound, round, List.append_nil, Nat.zero_add] at hpost ⊢
    exact hpost
  | none =>
    simp only [hfound, List.append_nil, Nat.zero_add] at hpost
    refine hpost.trans ?_
    -- the slice after the hand is through
    have hproceed : (⟨{ c with storage := pre ++ (walk post).slice },
          .scanning key value todo ⟨pre.length, i, .postStart, post.length⟩ before, log⟩ :
        State K V).proceed =
        ⟨{ c with storage := pre ++ (walk post).slice },
          .scanning key value todo ⟨pre.length, i, .preStart, 0⟩ before, log⟩ := by
      simp [State.proceed, State.scan, Scan.length, length_walk]
    refine .head hproceed ?_
    · have hpre := reaches_walk key value todo before log pre (walk post).slice []
        { c with storage := pre ++ (walk post).slice } ⟨pre.length, i, .preStart, 0⟩ rfl rfl
        (by simp [Scan.length])
      cases hfound' : (walk pre).found with
      | some next =>
        simp only [hfound, hfound', round, List.nil_append, List.length_nil,
          Nat.zero_add] at hpre ⊢
        exact hpre
      | none =>
        simp only [hfound, hfound', round, List.nil_append, Nat.zero_add] at hpre ⊢
        exact hpre

omit [DecidableEq K] in
theorem length_preStart_round (startLoc : Nat) (post pre : List (Element K V)) :
    (round startLoc post pre).preStart.length = pre.length := by
  cases hpost : (walk post).found with
  | some next => simp [round, hpost]
  | none => cases hpre : (walk pre).found <;> simp [round, hpost, hpre, length_walk]

theorem reaches_evict {c : Cache K V} (h : Rep c) :
    Reaches ⟨c, .scanning key value todo ⟨c.next, 0, .postStart, 0⟩ before, log⟩
      (match c.evict.victim with
        | some slot => ⟨c.evict.cache, .found key value todo slot, log⟩
        | none =>
          ⟨c.evict.cache, .free, .refused key before c.evict.cache.contents :: log⟩) := by
  have hpre : (c.storage.take c.next).length = c.next := length_preStart h
  have hfirst := reaches_round key value todo before log c (c.storage.drop c.next)
    (c.storage.take c.next) 0 (List.take_append_drop _ _).symm
  rw [hpre] at hfirst
  unfold Cache.evict
  cases hround : round c.next (c.storage.drop c.next) (c.storage.take c.next) with
  | mk post pre found examined =>
    have hpre' : pre.length = c.next := by
      have hlen := length_preStart_round c.next (c.storage.drop c.next) (c.storage.take c.next)
      rwa [hround, hpre] at hlen
    rw [hround] at hfirst
    cases found with
    | some found => exact hfirst
    | none =>
      refine hfirst.trans ?_
      have hproceed : (⟨{ c with storage := pre ++ post },
            .scanning key value todo ⟨c.next, 0, .preStart, c.next⟩ before, log⟩ :
          State K V).proceed =
          ⟨{ c with storage := pre ++ post },
            .scanning key value todo ⟨c.next, 1, .postStart, 0⟩ before, log⟩ := by
        simp [State.proceed, State.scan, Scan.length]
      refine .head hproceed ?_
      have hsecond := reaches_round key value todo before log { c with storage := pre ++ post }
        post pre 1 rfl
      rw [hpre'] at hsecond
      simp only
      cases hround' : round c.next post pre with
      | mk post' pre' found' examined' =>
        rw [hround'] at hsecond
        cases found' with
        | some found => exact hsecond
        | none =>
          refine hsecond.trans (.head ?_ (.refl _))
          simp [State.proceed, State.scan, Scan.length]

end Steps

theorem reaches_insert {c : Cache K V} (h : Rep c) (pair : K × V) (todo : List (K × V))
    (log : List (Event K V)) :
    ∃ log', Reaches ⟨c, .inserting (pair :: todo), log⟩
      ⟨(c.insert pair.1 pair.2).cache,
        if (c.insert pair.1 pair.2).inserted then .inserting todo else .free, log'⟩ := by
  cases hlookup : c.lookup pair.1 with
  | some found =>
    refine ⟨.inserted pair.1 pair.2 :: log, .head ?_ (.refl _)⟩
    simp [State.proceed, State.begin, Cache.insert, hlookup]
  | none =>
    by_cases hfull : c.capacity ≤ c.storage.length
    · have hbegin : (⟨c, .inserting (pair :: todo), log⟩ : State K V).proceed =
          ⟨c, .scanning pair.1 pair.2 todo ⟨c.next, 0, .postStart, 0⟩ c.contents, log⟩ := by
        simp [State.proceed, State.begin, hlookup, hfull]
      have hevict := reaches_evict pair.1 pair.2 todo c.contents log h
      rcases insert_cases h pair.1 pair.2 with ⟨hmem, _⟩ | ⟨_, hroom, _⟩ |
          ⟨_, _, hne, slot, hvictim, hslot, hc, hin⟩ | ⟨hempty, _, hc, hin⟩
      · exact absurd hmem ((Cache.lookup_eq_none h).mp hlookup)
      · omega
      · obtain ⟨count, o⟩ := exists_outcome h hne
        rw [hvictim] at hevict
        rw [hc, hin, if_pos rfl]
        have hslot' : slot < c.evict.cache.storage.length := o.remarked.length ▸ hslot
        have hold : c.evict.cache.storage[slot]? = some c.evict.cache.storage[slot] :=
          List.getElem?_eq_getElem hslot'
        refine ⟨.inserted pair.1 pair.2 :: .evicted c.evict.cache.storage[slot].key :: log,
          .head hbegin (hevict.trans (.head ?_ (.refl _)))⟩
        simp only [State.proceed, State.replace, hold]
      · rw [evict_of_empty h hempty] at hevict
        rw [hc, hin]
        exact ⟨_, .head hbegin hevict⟩
    · refine ⟨.inserted pair.1 pair.2 :: log, .head ?_ (.refl _)⟩
      simp [State.proceed, State.begin, Cache.insert, hlookup, hfull]

theorem reaches_insertLoop {c : Cache K V} (h : Rep c) (pairs : List (K × V))
    (log : List (Event K V)) :
    ∃ log', Reaches ⟨c, .inserting pairs, log⟩ ⟨(insertLoop c pairs).cache, .free, log'⟩ := by
  induction pairs generalizing c log with
  | nil => exact ⟨log, .head rfl (.refl _)⟩
  | cons pair pairs ih =>
    obtain ⟨log₁, hinsert⟩ := reaches_insert h pair pairs log
    rw [insertLoop]
    cases hin : (c.insert pair.1 pair.2).inserted with
    | true =>
      obtain ⟨log₂, hrest⟩ := ih (rep_insert h pair.1 pair.2) log₁
      rw [hin, if_pos rfl] at hinsert
      simp only [if_true]
      exact ⟨log₂, hinsert.trans hrest⟩
    | false =>
      rw [hin] at hinsert
      exact ⟨log₁, hinsert⟩

theorem interleaved_of_reaches {s s' s'' : State K V} (a : Action K V) (h : step s a = s')
    (h' : Reaches s' s'') : ∃ actions, run step s actions = s'' := by
  obtain ⟨steps, hsteps⟩ := h'
  exact ⟨a :: List.replicate steps .proceed, by rw [run_cons, h, hsteps]⟩

theorem call_interleaved {c : Cache K V} (h : Rep c) (log : List (Event K V)) (a : Call K V) :
    ∃ actions log', run step ⟨c, .free, log⟩ actions = ⟨call c a, .free, log'⟩ := by
  cases a with
  | insert key value =>
    obtain ⟨log', hreaches⟩ := reaches_insertLoop h [(key, value)] log
    obtain ⟨actions, hrun⟩ :=
      interleaved_of_reaches (s := ⟨c, .free, log⟩) (.insert key value) rfl hreaches
    refine ⟨actions, log', hrun.trans ?_⟩
    simp only [insertLoop, call]
    split <;> rfl
  | insertBatch keys values =>
    by_cases hlen : keys.length = values.length
    · obtain ⟨log', hreaches⟩ := reaches_insertLoop h (keys.zip values) log
      obtain ⟨actions, hrun⟩ := interleaved_of_reaches (s := ⟨c, .free, log⟩)
        (.insertBatch keys values) (by simp [step, hlen, State.acquire]) hreaches
      exact ⟨actions, log', by rw [hrun]; simp [call, Cache.insertBatch, hlen]⟩
    · exact ⟨[], log, by simp [call, Cache.insertBatch, hlen]⟩
  | get key => exact ⟨[.get key], log, rfl⟩
  | getValues keys valuesOut =>
    refine ⟨[.getValues keys valuesOut], log, ?_⟩
    simp only [run_cons, run_nil, step, call]
    cases c.getValues keys valuesOut <;> rfl
  | unmark key => exact ⟨[.unmark key], log, rfl⟩
  | expandTo newMax =>
    by_cases hmax : newMax ≤ c.capacity
    · exact ⟨[], log, by simp [call, Cache.expandTo, hmax]⟩
    · refine ⟨[.expandTo newMax, .proceed], log, ?_⟩
      simp [step, call, Cache.expandTo, hmax, State.acquire, State.proceed]

/-- Every run of one caller is one of the interleavings. -/
theorem run_call_interleaved (max : Nat) (calls : List (Call K V)) :
    ∃ actions log', run step (.initial max) actions =
      ⟨run call (withMax max) calls, .free, log'⟩ := by
  induction calls using List.reverseRecOn with
  | nil => exact ⟨[], [], rfl⟩
  | append_singleton calls a ih =>
    obtain ⟨actions, log, hrun⟩ := ih
    obtain ⟨more, log', hcall⟩ := call_interleaved (rep_run max calls) log a
    exact ⟨actions ++ more, log', by rw [run_append, hrun, hcall, run_concat]⟩

end TimescalePrometheus.Clockcache.Interleaving
