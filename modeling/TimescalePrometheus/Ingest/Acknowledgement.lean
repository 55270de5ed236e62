import TimescalePrometheus.Ingest.CallSteps
import TimescalePrometheus.Ingest.CopierSteps
import TimescalePrometheus.Ingest.HandlerSteps

/-!
Acknowledgements of the ingest pipeline: every action keeps the invariant, so a call
returns without an error only if all its samples were inserted.
-/

namespace TimescalePrometheus.Ingest.Acknowledgement

open Ingest.Samples Ingest.SeriesIds Ingest.Pipeline Ingest.Custody Ingest.Handovers
open Ingest.CallSteps Ingest.CopierSteps Ingest.HandlerSteps Lib.Runs Lib.Tokens

variable {s : State}

theorem step_inv (hinv : Inv [] s) (a : Action) : Inv [] (step s a) := by
  unfold step
  rw [hinv.panic]
  simp only [Option.isSome_none, Bool.false_eq_true, if_false]
  cases h : step? s a with
  | none => exact hinv
  | some s' =>
    simp only [Option.getD_some]
    cases a with
    | insertData rows =>
      rw [← Option.some.inj h]
      exact insertData_inv rows hinv
    | getMetricInserter i => exact getMetricInserter_inv hinv h
    | send i => exact send_inv hinv h
    | finish i => exact finish_inv hinv h
    | lookup k reply fromPool => exact lookup_inv hinv h
    | offerStartFailure k => exact offerStartFailure_inv hinv h
    | receive k => exact handle_inv hinv (fun _ _ => receive_moved) h
    | receiveNone k => exact handle_inv hinv (fun _ _ hf _ => receiveNone_moved hf) h
    | setSeriesIds k sendBatch replies =>
      exact handle_inv hinv (fun _ _ hf _ => setSeriesIds_moved hf) h
    | hand k fromPool => exact hand_inv hinv h
    | handlerReport k => exact handlerReport_inv hinv h
    | take j => exact take_inv hinv h
    | doInsert j reply => exact doInsert_inv hinv h
    | tryRecovery j reply => exact tryRecovery_inv hinv h
    | copierReport j => exact copierReport_inv hinv h
    | completeMetricCreation =>
      rw [← Option.some.inj h]
      exact setPool_inv hinv false fun _ => .inl

theorem initial_inv (numCopiers : Nat) : Inv [] (State.initial numCopiers) := by
  have hheld : held (State.initial numCopiers) = [] := by
    simp [held, State.initial, copierTasks]
  refine ⟨rfl, ?_, by simp [State.initial], by simp [State.initial], by simp [State.initial],
    by simp [State.initial], by simp [State.initial], by simp [State.initial],
    by simp [State.initial], ?_, by simp [State.initial], by simp [State.initial]⟩
  · rw [hheld]
    exact ⟨List.nodup_nil, fun _ => rfl⟩
  · intro c hc
    rw [(List.mem_replicate.mp hc).2]
    trivial

/-- What holds of the acknowledgements in every state: no task is answered twice, none
before its data was inserted or an error was offered to its call, a call returns without
an error only if all its data was inserted, and nothing has been sent on a closed
channel. -/
structure Sound (s : State) : Prop where
  once : s.answered.Nodup
  settled : ∀ t ∈ s.answered, Settled s t
  acknowledged : ∀ (i : Nat) (c : Call), s.calls[i]? = some c → c.phase = .returned none →
    ∀ r ∈ c.requests, Inserted s r
  panic : s.panic = none

theorem answered_of_returned (hinv : Inv [] s) {i : Nat} {c : Call}
    (hi : s.calls[i]? = some c) (hpast : pastWait c.phase = true) {r : Request}
    (hr : r ∈ c.requests) : r.task ∈ s.answered := by
  have hok := hinv.calls i c hi
  have hcounter := hinv.counters i c hi
  rw [hok.finished hpast, Nat.zero_add] at hcounter
  have hissued : r.task ∈ issued s :=
    List.mem_flatMap.mpr ⟨c, List.mem_of_getElem? hi, List.mem_map_of_mem hr⟩
  exact hinv.balanced.mem_answered hcounter hissued (by simpa using hok.own r hr)

theorem sound_of_inv (hinv : Inv [] s) : Sound s := by
  refine ⟨hinv.balanced.nodup_answered, hinv.answered, fun i c hi hp r hr => ?_, hinv.panic⟩
  have hok := hinv.calls i c hi
  have hanswered := answered_of_returned hinv hi (by rw [hp]; rfl) hr
  rcases hinv.answered r.task hanswered with ⟨r', ⟨c', hc', hr'⟩, htask, hinserted⟩ | hoffered
  · rw [htask, hok.own r hr, hi] at hc'
    obtain rfl := Option.some.inj hc'
    rw [← List.inj_on_of_nodup_map hok.nodup hr' hr htask]
    exact hinserted
  · obtain ⟨c', hc', hoffered⟩ := hoffered
    rw [hok.own r hr, hi] at hc'
    obtain rfl := Option.some.inj hc'
    have herrors := hok.errors
    unfold ErrorKept at herrors
    rw [hp] at herrors
    exact absurd rfl (herrors hoffered)

/-- Whatever the interleaving and whatever the database answers, acknowledgements are
sound. -/
theorem acknowledgement_sound (numCopiers : Nat) (actions : List Action) :
    Sound (run step (State.initial numCopiers) actions) :=
  sound_of_inv
    (run_invariant (Inv []) (fun _ a hinv => step_inv hinv a) (initial_inv numCopiers) actions)

example : (run step (State.initial 1)
    [.insertData ⟨[("cpu", [⟨⟨"cpu", [("__name__", "cpu")], "cpu"⟩, -1, [⟨1000, 7⟩], by simp⟩])],
        by simp, by simp⟩,
      .getMetricInserter 0, .send 0, .lookup 0 (.created "cpu" true) none, .receive 0,
      .receiveNone 0, .setSeriesIds 0 none fun _ => .committed "cpu" 1, .hand 0 none, .take 0,
      .doInsert 0 none, .copierReport 0, .copierReport 0, .finish 0, .finish 0,
      .finish 0]).calls.map (·.phase) = [.returned none] := by
  decide +kernel

end TimescalePrometheus.Ingest.Acknowledgement
