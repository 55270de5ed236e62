import TimescalePrometheus.Sql.FinalizeSessions

/-!
Who finalises a new metric. A handler that has created one signals on a channel of
capacity one, without waiting, and a single worker answers each signal that it receives
with a run of `finalize_metric_creation`.
-/

namespace TimescalePrometheus.Ingest.CreationSignals

open Lib.Runs Sql Sql.Tables Sql.Metrics Sql.FunctionEdits
open Sql.FinalizeSessions hiding State Action Inv step inv_initial

/-- An insert routine on its way through `runInserterRoutine`. -/
inductive Handler
  | starting
  /-- `getMetricTableName` has committed the metric and returned `possiblyNew`. -/
  | committed (id : Nat)
  /-- The send on the channel is behind it. -/
  | signalled (id : Nat)
  deriving DecidableEq

/-- Where the completing routine is. -/
inductive Worker
  | receiving
  | received
  /-- In `CompleteMetricCreation`, which saw the metrics `seen` when it started. -/
  | running (seen : List Nat)
  deriving DecidableEq

/-- The worker is session 0 of the database; the other sessions belong to other
connectors. -/
structure State where
  db : FinalizeSessions.State
  handler : Nat → Handler
  /-- Whether the channel holds a signal. -/
  completeMetricCreation : Bool
  worker : Worker

def State.initial : State where
  db := .initial
  handler := fun _ => .starting
  completeMetricCreation := false
  worker := .receiving

/-- A step of a handler or of the routine. -/
inductive Action
  /-- `raced` if the metric was created by another connector just before. -/
  | create (j : Nat) (metricName : String) (raced : Bool)
  | signal (j : Nat)
  | receive
  /-- The query of the loop of `finalize_metric_creation`. -/
  | takeSnapshot (order : List Nat)
  | runStatement
  | elsewhere (a : FinalizeSessions.Action)

/-- `get_or_create_metric_table_name` of a handler. -/
def State.create (s : State) (j : Nat) (metricName : String) (raced : Bool) : State :=
  match s.handler j with
  | .starting =>
    let (row, catalog) := transaction (getOrCreateMetricTableName metricName) s.db.catalog
    let s := { s with db := { s.db with catalog } }
    match row with
    | some (m, new) =>
      if new || raced then { s with handler := Function.update s.handler j (.committed m.id) }
      else s
    | none => s
  | _ => s

/-- The non-blocking send: a signal that does not fit is dropped. -/
def State.signal (s : State) (j : Nat) : State :=
  match s.handler j with
  | .committed id =>
    { s with
      completeMetricCreation := true
      handler := Function.update s.handler j (.signalled id) }
  | _ => s

/-- The routine takes the signal. -/
def State.receive (s : State) : State :=
  if s.worker = .receiving ∧ s.completeMetricCreation = true then
    { s with completeMetricCreation := false, worker := .received }
  else s

/-- The query for unfinished metrics. -/
def State.takeSnapshot (s : State) (order : List Nat) : State :=
  if s.worker = .received ∧ order.isPerm (unfinished s.db.catalog) then
    { s with
      db := FinalizeSessions.step s.db (.call 0 order)
      worker := .running (s.db.catalog.metric.map (·.id)) }
  else s

/-- The call returns when the session is idle again. -/
def State.runStatement (s : State) : State :=
  match s.worker with
  | .running _ =>
    let db := FinalizeSessions.step s.db (.statement 0)
    { s with db, worker := if db.session 0 = .idle then .receiving else s.worker }
  | _ => s

/-- Finalisation in this connector meets no error: nothing aborts session 0. -/
def step (s : State) : Action → State
  | .create j metricName raced => s.create j metricName raced
  | .signal j => s.signal j
  | .receive => s.receive
  | .takeSnapshot order => s.takeSnapshot order
  | .runStatement => s.runStatement
  | .elsewhere a =>
    if a.session? = some 0 then s else { s with db := FinalizeSessions.step s.db a }

/-- Somebody will see to the metric: there is a signal, or the worker has received one and
not looked yet, or its run looked after the metric was committed and has the metric still
before it. -/
def Covered (s : State) (id : Nat) : Prop :=
  s.completeMetricCreation = true ∨ s.worker = .received ∨
    ∃ seen, s.worker = .running seen ∧ id ∈ seen ∧ id ∈ ahead (s.db.session 0)

structure Inv (s : State) : Prop where
  db : FinalizeSessions.Inv s.db
  known : ∀ j id, (s.handler j = .committed id ∨ s.handler j = .signalled id) →
    ∃ m ∈ s.db.catalog.metric, m.id = id
  idle : (∀ seen, s.worker ≠ .running seen) → s.db.session 0 = .idle
  covered : ∀ j id, s.handler j = .signalled id → id ∈ unfinished s.db.catalog → Covered s id

theorem inv_initial : Inv State.initial where
  db := FinalizeSessions.inv_initial
  known := by simp [State.initial]
  idle _ := rfl
  covered := by simp [State.initial]

section Steps

variable {s : State}

theorem Inv.elsewhere (h : Inv s) (a : FinalizeSessions.Action) (ha : a.session? ≠ some 0) :
    Inv { s with db := FinalizeSessions.step s.db a } where
  db := h.db.step a
  known j id hj := known_step a (h.known j id hj)
  idle hworker := (session_step ha).trans (h.idle hworker)
  covered := by
    intro j id hj hunfinished
    have hknown := h.known j id (.inr hj)
    have hbefore := unfinished_of_step h.db a hknown hunfinished
    rcases h.covered j id hj hbefore with hsignal | hreceived | ⟨seen, hrunning, hseen, hahead⟩
    · exact .inl hsignal
    · exact .inr (.inl hreceived)
    · refine .inr (.inr ⟨seen, hrunning, hseen, ?_⟩)
      simp only [session_step ha]
      exact hahead

theorem Inv.create (h : Inv s) (j : Nat) (metricName : String) (raced : Bool) :
    Inv (s.create j metricName raced) := by
  have hdb : Inv { s with db := FinalizeSessions.step s.db (.createMetric metricName) } :=
    h.elsewhere (.createMetric metricName) (by simp [FinalizeSessions.Action.session?])
  unfold State.create
  cases hj : s.handler j with
  | committed id => exact h
  | signalled id => exact h
  | starting =>
    cases hrow : (transaction (getOrCreateMetricTableName metricName) s.db.catalog).1 with
    | none =>
      simp only [hrow]
      exact hdb
    | some r =>
      obtain ⟨m, new⟩ := r
      simp only [hrow]
      split
      · have hok := eq_ok_of_transaction hrow
        have hm := (getOrCreateMetricTableName_edits (A := fun _ _ => True) hok).2.1
        refine ⟨hdb.db, ?_, hdb.idle, ?_⟩
        · intro k id hk
          rcases eq_or_ne k j with rfl | hne
          · obtain rfl : m.id = id := by simpa using hk
            exact ⟨m, hm, rfl⟩
          · simp only [Function.update_of_ne hne] at hk
            exact hdb.known k id hk
        · intro k id hk hunfinished
          rcases eq_or_ne k j with rfl | hne
          · simp at hk
          · simp only [Function.update_of_ne hne] at hk
            exact hdb.covered k id hk hunfinished
      · exact hdb

theorem Inv.signal (h : Inv s) (j : Nat) : Inv (s.signal j) := by
  unfold State.signal
  cases hj : s.handler j with
  | starting => exact h
  | signalled id => exact h
  | committed id =>
    refine ⟨h.db, ?_, h.idle, fun _ _ _ _ => .inl rfl⟩
    intro k id' hk
    rcases eq_or_ne k j with rfl | hne
    · obtain rfl : id = id' := by simpa using hk
      exact h.known k id (.inl hj)
    · simp only [Function.update_of_ne hne] at hk
      exact h.known k id' hk

theorem Inv.receive (h : Inv s) : Inv s.receive := by
  unfold State.receive
  split
  · rename_i hready
    refine ⟨h.db, h.known, fun _ => h.idle (by simp [hready.1]), fun _ _ _ _ => .inr (.inl rfl)⟩
  · exact h

theorem Inv.takeSnapshot (h : Inv s) (order : List Nat) : Inv (s.takeSnapshot order) := by
  unfold State.takeSnapshot
  split
  · rename_i hready
    have hidle : s.db.session 0 = .idle := h.idle (by simp [hready.1])
    have hcall : FinalizeSessions.step s.db (.call 0 order) = s.db.goto 0 (.loop order) := by
      simp [FinalizeSessions.step, hidle, hready.2]
    refine ⟨h.db.step (.call 0 order), fun j id hj => known_step _ (h.known j id hj),
      fun hworker => absurd rfl (hworker _), ?_⟩
    intro j id hj hunfinished
    obtain ⟨m, hm, hid⟩ := h.known j id (.inr hj)
    refine .inr (.inr ⟨_, rfl, List.mem_map.mpr ⟨m, hm, hid⟩, ?_⟩)
    simp only [hcall, State.goto, Function.update_self, ahead] at hunfinished ⊢
    exact (List.isPerm_iff.mp hready.2).mem_iff.mpr hunfinished
  · exact h

theorem Inv.runStatement (h : Inv s) : Inv s.runStatement := by
  unfold State.runStatement
  cases hworker : s.worker with
  | receiving => exact h
  | received => exact h
  | running seen =>
    simp only
    refine ⟨h.db.step (.statement 0), fun j id hj => known_step _ (h.known j id hj), ?_, ?_⟩
    · intro hidle
      simp only at hidle ⊢
      split at hidle
      · assumption
      · exact absurd rfl (hidle seen)
    · intro j id hj hunfinished
      have hknown := h.known j id (.inr hj)
      have hbefore := unfinished_of_step h.db (.statement 0) hknown hunfinished
      rcases h.covered j id hj hbefore with hsignal | hreceived | ⟨seen', hrunning, hseen, hahead⟩
      · exact .inl hsignal
      · simp [hworker] at hreceived
      · obtain rfl : seen = seen' := by simpa [hworker] using hrunning
        have hstill : id ∈ ahead ((FinalizeSessions.step s.db (.statement 0)).session 0) := by
          simp only [FinalizeSessions.step] at hunfinished ⊢
          cases hstep : s.db.statement 0 with
          | none => exact hahead
          | some db =>
            rw [hstep] at hunfinished
            exact mem_ahead_of_statement h.db hstep hahead hunfinished
        refine .inr (.inr ⟨seen, ?_, hseen, hstill⟩)
        -- a loop with a metric before it has not ended
        refine if_neg fun hidle => ?_
        rw [hidle] at hstill
        cases hstill

theorem Inv.step (h : Inv s) (a : Action) : Inv (CreationSignals.step s a) := by
  cases a with
  | create j metricName raced => exact h.create j metricName raced
  | signal j => exact h.signal j
  | receive => exact h.receive
  | takeSnapshot order => exact h.takeSnapshot order
  | runStatement => exact h.runStatement
  | elsewhere a =>
    simp only [CreationSignals.step]
    split
    · exact h
    · rename_i ha
      exact h.elsewhere a ha

end Steps

/-- In every state of every interleaving, a metric that is unfinished although its handler
has sent its signal is covered. -/
theorem signalled_metrics_covered (actions : List Action) (j id : Nat)
    (hsignalled : (run step State.initial actions).handler j = .signalled id)
    (hunfinished : id ∈ unfinished (run step State.initial actions).db.catalog) :
    Covered (run step State.initial actions) id :=
  (run_invariant Inv (fun _ a h => h.step a) inv_initial actions).covered j id hsignalled
    hunfinished

/-- The second metric is committed during a run that does not see it, and its signal waits
in the channel. -/
def commitDuringRun : List Action :=
  [.create 0 "cpu" false, .signal 0, .receive, .takeSnapshot [1], .create 1 "memory" false,
    .signal 1, .runStatement]

theorem memory_covered : Covered (run step State.initial commitDuringRun) 2 :=
  signalled_metrics_covered commitDuringRun 1 2 (by decide +kernel) (by decide +kernel)

end TimescalePrometheus.Ingest.CreationSignals
