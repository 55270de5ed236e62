import Mathlib.Logic.Function.Basic
import TimescalePrometheus.Lib.Runs

/-!
A concurrent table of shared objects. A call asks for the object of a key: it loads the table's
entry and, if there is none, builds an object of its own and offers it to the table, which keeps
the first object offered under each key.
-/

namespace TimescalePrometheus.Lib.Interning

open Lib.Runs

/-- Where a call is. -/
inductive Phase (A E : Type) where
  | storing (a : A) (object : Nat)
  | returned (a : A) (object : Nat)
  | failed (a : A) (err : E)

/-- The objects, the table and the calls. -/
structure State (A E K O : Type) where
  heap : List O
  table : K → Option Nat
  calls : Nat → Option (Phase A E)

def initial (A E K O : Type) : State A E K O :=
  { heap := [], table := fun _ => none, calls := fun _ => none }

/-- The steps of the call number `c`: its load, and its load-or-store after a miss. -/
inductive Action (A : Type) where
  | load (c : Nat) (a : A)
  | loadOrStore (c : Nat)

variable {A E K O : Type}

def State.setCall (s : State A E K O) (c : Nat) (phase : Phase A E) : State A E K O :=
  { s with calls := Function.update s.calls c (some phase) }

/-- `request a` is the key that the argument stands for and the object to build for it. -/
def load (request : A → Except E (K × O)) (s : State A E K O) (c : Nat) (a : A) :
    State A E K O :=
  match request a with
  | .error err => s.setCall c (.failed a err)
  | .ok (key, object) =>
    match s.table key with
    | some r => s.setCall c (.returned a r)
    | none => { s with heap := s.heap ++ [object] }.setCall c (.storing a s.heap.length)

/-- The first object that is stored stays. -/
def loadOrStore [DecidableEq K] (s : State A E K O) (c : Nat) (a : A) (key : K) (r : Nat) :
    State A E K O :=
  match s.table key with
  | some r => s.setCall c (.returned a r)
  | none => { s with table := Function.update s.table key (some r) }.setCall c (.returned a r)

/-- A number stands for one call, which takes its steps in order. -/
def step [DecidableEq K] (request : A → Except E (K × O)) (s : State A E K O) :
    Action A → State A E K O
  | .load c a =>
    match s.calls c with
    | none => load request s c a
    | some _ => s
  | .loadOrStore c =>
    match s.calls c with
    | some (.storing a r) =>
      match request a with
      | .ok (key, _) => loadOrStore s c a key r
      | .error _ => s
    | _ => s

variable {request : A → Except E (K × O)}

/-- The heap has at `r` an object that some argument with the key asks for. -/
def Holds (request : A → Except E (K × O)) (heap : List O) (key : K) (r : Nat) : Prop :=
  ∃ a object, request a = .ok (key, object) ∧ heap[r]? = some object

theorem Holds.append {heap : List O} {key : K} {r : Nat} (h : Holds request heap key r)
    (object : O) : Holds request (heap ++ [object]) key r := by
  obtain ⟨a, o, hrequest, hget⟩ := h
  refine ⟨a, o, hrequest, ?_⟩
  rw [List.getElem?_append_left (List.getElem?_eq_some_iff.mp hget).1]
  exact hget

def PhaseOk (request : A → Except E (K × O)) (heap : List O) (table : K → Option Nat) :
    Phase A E → Prop
  | .storing a r => ∃ key object, request a = .ok (key, object) ∧ Holds request heap key r
  | .returned a r => ∃ key object, request a = .ok (key, object) ∧ table key = some r
  | .failed a err => request a = .error err

/-- What is true after any calls. -/
structure Consistent (request : A → Except E (K × O)) (s : State A E K O) : Prop where
  table : ∀ key r, s.table key = some r → Holds request s.heap key r
  calls : ∀ c phase, s.calls c = some phase → PhaseOk request s.heap s.table phase

theorem PhaseOk.mono {heap heap' : List O} {table table' : K → Option Nat} {phase : Phase A E}
    (h : PhaseOk request heap table phase)
    (hheap : ∀ key r, Holds request heap key r → Holds request heap' key r)
    (htable : ∀ key r, table key = some r → table' key = some r) :
    PhaseOk request heap' table' phase := by
  cases phase with
  | storing a r =>
    obtain ⟨key, object, hrequest, hholds⟩ := h
    exact ⟨key, object, hrequest, hheap key r hholds⟩
  | returned a r =>
    obtain ⟨key, object, hrequest, hentry⟩ := h
    exact ⟨key, object, hrequest, htable key r hentry⟩
  | failed a err => exact h

theorem Consistent.setCall {s : State A E K O} (h : Consistent request s) {heap : List O}
    {table : K → Option Nat} {phase : Phase A E} (c : Nat)
    (hheap : ∀ key r, Holds request s.heap key r → Holds request heap key r)
    (hentries : ∀ key r, table key = some r → Holds request heap key r)
    (htable : ∀ key r, s.table key = some r → table key = some r)
    (hphase : PhaseOk request heap table phase) :
    Consistent request ({ s with heap := heap, table := table }.setCall c phase) := by
  refine ⟨hentries, fun c' phase' hc' => ?_⟩
  simp only [State.setCall, Function.update_apply] at hc'
  split at hc'
  · cases hc'
    exact hphase
  · exact (h.calls c' phase' hc').mono hheap htable

theorem consistent_load {s : State A E K O} (h : Consistent request s) (c : Nat) (a : A) :
    Consistent request (load request s c a) := by
  unfold load
  split
  · rename_i err hrequest
    exact h.setCall c (fun _ _ => id) h.table (fun _ _ => id) hrequest
  · rename_i key object hrequest
    split
    · rename_i r hentry
      exact h.setCall c (fun _ _ => id) h.table (fun _ _ => id) ⟨key, object, hrequest, hentry⟩
    · have hnew : Holds request (s.heap ++ [object]) key s.heap.length :=
        ⟨a, object, hrequest, by simp⟩
      exact h.setCall c (fun _ _ hr => hr.append object)
        (fun key r hr => (h.table key r hr).append object) (fun _ _ => id)
        ⟨key, object, hrequest, hnew⟩

theorem consistent_loadOrStore [DecidableEq K] {s : State A E K O} (h : Consistent request s)
    {c : Nat} {a : A} {key : K} {object : O} {r : Nat} (hrequest : request a = .ok (key, object))
    (hholds : Holds request s.heap key r) :
    Consistent request (loadOrStore s c a key r) := by
  unfold loadOrStore
  split
  · rename_i r' hentry
    exact h.setCall c (fun _ _ => id) h.table (fun _ _ => id) ⟨key, object, hrequest, hentry⟩
  · rename_i hnone
    refine h.setCall c (fun _ _ => id) (fun key' r' hr' => ?_) (fun key' r' hr' => ?_)
      ⟨key, object, hrequest, Function.update_self _ _ _⟩
    · rw [Function.update_apply] at hr'
      split at hr'
      · rename_i heq
        cases hr'
        exact heq ▸ hholds
      · exact h.table key' r' hr'
    · -- the entry is new, so that none is overwritten
      have hne : key' ≠ key := by
        rintro rfl
        rw [hnone] at hr'
        cases hr'
      rw [Function.update_of_ne hne]
      exact hr'

theorem consistent_step [DecidableEq K] {s : State A E K O} (h : Consistent request s)
    (action : Action A) :
    Consistent request (step request s action) := by
  cases action with
  | load c a =>
    simp only [step]
    split
    · exact consistent_load h c a
    · exact h
  | loadOrStore c =>
    simp only [step]
    split
    · rename_i a r hcall
      obtain ⟨key, object, hrequest, hholds⟩ := h.calls c _ hcall
      simp only [hrequest]
      exact consistent_loadOrStore h hrequest hholds
    · exact h

theorem consistent_run [DecidableEq K] (actions : List (Action A)) :
    Consistent request (run (step request) (initial A E K O) actions) :=
  run_invariant (Consistent request) (fun _ _ h => consistent_step h _)
    ⟨(fun _ _ h => by cases h), (fun _ _ h => by cases h)⟩ actions

theorem Consistent.holds_of_returned {s : State A E K O} (h : Consistent request s) {c : Nat}
    {a : A} {r : Nat}
    (hcall : s.calls c = some (.returned a r)) :
    ∃ key object, request a = .ok (key, object) ∧ Holds request s.heap key r := by
  obtain ⟨key, object, hrequest, hentry⟩ := h.calls c _ hcall
  exact ⟨key, object, hrequest, h.table key r hentry⟩

theorem Consistent.same_object_iff {s : State A E K O} (h : Consistent request s)
    (keyOf : O → K)
    (hkeyOf : ∀ a key object, request a = .ok (key, object) → keyOf object = key)
    {c c' : Nat} {a a' : A} {r r' : Nat} {key key' : K} {object object' : O}
    (hcall : s.calls c = some (.returned a r)) (hcall' : s.calls c' = some (.returned a' r'))
    (hrequest : request a = .ok (key, object)) (hrequest' : request a' = .ok (key', object')) :
    r = r' ↔ key = key' := by
  obtain ⟨_, _, hr, hentry⟩ := h.calls c _ hcall
  obtain ⟨_, _, hr', hentry'⟩ := h.calls c' _ hcall'
  rw [hrequest] at hr
  rw [hrequest'] at hr'
  cases hr
  cases hr'
  constructor
  · rintro rfl
    obtain ⟨b, o, hb, hget⟩ := h.table _ _ hentry
    obtain ⟨b', o', hb', hget'⟩ := h.table _ _ hentry'
    rw [hget] at hget'
    cases hget'
    rw [← hkeyOf _ _ _ hb, ← hkeyOf _ _ _ hb']
  · rintro rfl
    rw [hentry] at hentry'
    exact Option.some.inj hentry'

end TimescalePrometheus.Lib.Interning
