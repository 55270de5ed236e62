import TimescalePrometheus.Ingest.Acknowledgement

/-!
What an action of the pipeline does to the insert routines and to the requests that
calls have still to send, said once for every action.
-/

namespace TimescalePrometheus.Ingest.Routines

open Ingest.Samples Ingest.SeriesIds Ingest.Pipeline Ingest.Custody Ingest.Handovers
open Ingest.HandlerSteps Ingest.Acknowledgement Lib.Runs Lib.Tokens

/-- The insert routine that takes the action. -/
def routine? : Action → Option Nat
  | .lookup k _ _ => some k
  | .offerStartFailure k => some k
  | .receive k => some k
  | .receiveNone k => some k
  | .setSeriesIds k _ _ => some k
  | .hand k _ => some k
  | .handlerReport k => some k
  | _ => none

/-- One step of an insert routine, as far as its own variables go. -/
inductive Acts (h : Handler) : Handler → Prop
  | serve {creator : Nat} (tableName : String) (hp : h.phase = .starting creator) :
      Acts h { h with
        phase := .top, pending := .new, seriesCache := [], metricTableName := some tableName }
  | startFailed {creator : Nat} (err : Err) (hp : h.phase = .starting creator) :
      Acts h { h with phase := .startFailed creator err }
  | fail {creator : Nat} {err : Err} (hp : h.phase = .startFailed creator err) :
      Acts h { h with phase := .failed err }
  | receive {h' : Handler} (hreceive : h.receive = some h') : Acts h h'
  | receiveNone {h' : Handler} (hreceive : h.receiveNone = some h') : Acts h h'
  | setSeriesIds {sendBatch : Option Err} {replies : Labels → SeriesReply} {h' : Handler}
      (hset : h.setSeriesIds sendBatch replies = some h') : Acts h h'
  | hand {r : Resume} (hp : h.phase = .handing r) :
      Acts h (Handler.resume { h with pending := .new } r)
  | offer {err e : Err} {task : Task} (hp : h.phase = .answering err task (some e)) :
      Acts h { h with phase := .answering err task none }
  | answer {err : Err} {task : Task} (hp : h.phase = .answering err task none) :
      Acts h { h with phase := .failed err }
  | respond {err : Err} {next next' : Option Err} {r : Resume} {t : Task}
      {rest needsResponse : List Task} (hp : h.phase = .reporting err next r)
      (hneeds : h.pending.needsResponse = t :: rest)
      (hround : next.isSome ∧ needsResponse = t :: rest ∧ next' = none ∨
        next = none ∧ needsResponse = rest ∧ next' = some err) :
      Acts h { h with
        phase := .reporting err next' r, pending := { h.pending with needsResponse } }
  | clear {err : Err} {next : Option Err} {r : Resume} (hp : h.phase = .reporting err next r)
      (hneeds : h.pending.needsResponse = []) :
      Acts h (Handler.resume { h with pending := h.pending.clear } r)

section Steps

variable {s s' : State} {k : Nat}

@[simp] theorem handlers_done (t : Task) : (s.done t).handlers = s.handlers := by
  unfold State.done
  split
  · rfl
  · split <;> rfl

theorem insert_handlers (j : Nat) (req : CopyRequest) (reply : Option Err)
    (failed : CopyRequest → Err → Copier) :
    (s.insert j req reply failed).handlers = s.handlers := by
  unfold State.insert
  split
  · rfl
  · split <;> rfl

theorem respond_handlers (err : Option Err) (t : Task) (rest : List Task) (next : Option Err) :
    (s.respond err t rest next).1.handlers = s.handlers := by
  cases next <;> simp [State.respond]

theorem lookup_acts {reply : TableReply} {fromPool : Option Nat} (hinv : Inv [] s)
    (h : s.lookup k reply fromPool = some s') :
    ∃ x x', s.handlers[k]? = some x ∧ Acts x x' ∧ s'.handlers = s.handlers.set k x' := by
  obtain ⟨x, creator, hk, hp, ⟨tableName, signal, hserve⟩ | ⟨err, rfl⟩⟩ := lookup_cases h
  · obtain ⟨b, t, hget, rfl⟩ := serve_cases hserve
    have hsignal : Inv [] { s with completeMetricCreation := signal } :=
      setPool_inv hinv signal fun _ => .inl
    obtain ⟨rfl, -, pool, rfl⟩ := getBuffer_eq hsignal hget
    exact ⟨x, _, hk, .serve tableName hp, rfl⟩
  · exact ⟨x, _, hk, .startFailed err hp, rfl⟩

theorem handlerReport_acts (h : s.handlerReport k = some s') :
    ∃ x x', s.handlers[k]? = some x ∧ Acts x x' ∧ s'.handlers = s.handlers.set k x' := by
  obtain ⟨x, hk, ⟨err, task, e, hp, rfl⟩ | ⟨err, task, hp, rfl⟩ | ⟨err, next, r, hp, hround⟩⟩ :=
    handlerReport_cases h
  · exact ⟨x, _, hk, .offer hp, by simp [State.setHandler]⟩
  · exact ⟨x, _, hk, .answer hp, by simp [State.setHandler]⟩
  · obtain ⟨hneeds, rfl⟩ | ⟨t, rest, hneeds, rfl⟩ := hround
    · exact ⟨x, _, hk, .clear hp hneeds, rfl⟩
    · cases next with
      | none =>
        exact ⟨x, _, hk, .respond hp hneeds (.inr ⟨rfl, rfl, rfl⟩),
          by simp [State.setHandler, State.respond]⟩
      | some e =>
        exact ⟨x, _, hk, .respond hp hneeds (.inl ⟨rfl, rfl, rfl⟩),
          by simp [State.setHandler, State.respond]⟩

theorem handle_acts {f : Handler → Option Handler} (h : s.handle k f = some s')
    (hf : ∀ x x', f x = some x' → Acts x x') :
    ∃ x x', s.handlers[k]? = some x ∧ Acts x x' ∧ s'.handlers = s.handlers.set k x' := by
  obtain ⟨x, x', hk, hx', rfl⟩ := handle_cases h
  exact ⟨x, x', hk, hf x x' hx', rfl⟩

theorem acts_of_step? {a : Action} (hinv : Inv [] s) (ha : routine? a = some k)
    (h : step? s a = some s') :
    ∃ x x', s.handlers[k]? = some x ∧ Acts x x' ∧ s'.handlers = s.handlers.set k x' := by
  cases a <;> simp only [routine?, Option.some.injEq, reduceCtorEq] at ha <;> subst ha <;>
    simp only [step?] at h
  case lookup reply fromPool => exact lookup_acts hinv h
  case offerStartFailure =>
    obtain ⟨x, creator, err, hk, hp, rfl⟩ := offerStartFailure_cases h
    exact ⟨x, _, hk, .fail hp, by simp [State.setHandler]⟩
  case receive => exact handle_acts h fun _ _ => .receive
  case receiveNone => exact handle_acts h fun _ _ => .receiveNone
  case setSeriesIds sendBatch replies => exact handle_acts h fun _ _ => .setSeriesIds
  case hand fromPool =>
    obtain ⟨x, r, table, b, t, hk, hp, -, -, hget, rfl⟩ := hand_cases h
    obtain ⟨rfl, -, pool, rfl⟩ := getBuffer_eq hinv hget
    exact ⟨x, _, hk, .hand hp, rfl⟩
  case handlerReport => exact handlerReport_acts h

theorem handlers_of_step? {a : Action} (ha : routine? a = none) (h : step? s a = some s') :
    s'.handlers = s.handlers ∨
    (∃ metric i, a = .getMetricInserter i ∧ s'.handlers = s.handlers ++ [.start metric i]) ∨
    ∃ i k x request, a = .send i ∧ s.handlers[k]? = some x ∧
      s'.handlers = s.handlers.set k { x with input := x.input ++ [request] } := by
  cases a <;> simp only [routine?, reduceCtorEq] at ha <;> simp only [step?] at h
  case insertData rows =>
    rw [← Option.some.inj h]
    exact .inl rfl
  case getMetricInserter i =>
    obtain ⟨c, request, rest, -, -, rfl⟩ := getMetricInserter_cases h
    simp only
    split
    · exact .inl rfl
    · exact .inr (.inl ⟨_, i, rfl, rfl⟩)
  case send i =>
    obtain ⟨c, k, request, rest, x, -, -, hx, -, rfl⟩ := send_cases h
    exact .inr (.inr ⟨i, k, x, request, rfl, hx, rfl⟩)
  case finish i =>
    obtain ⟨c, -, ⟨-, -, rfl⟩ | ⟨-, rfl⟩ | ⟨err, -, rfl⟩⟩ := finish_cases h <;> exact .inl rfl
  case take j =>
    obtain ⟨req, rest, -, -, rfl⟩ := take_cases h
    exact .inl rfl
  case doInsert j reply =>
    obtain ⟨req, -, rfl⟩ | ⟨req, -, rfl⟩ := doInsert_cases h <;>
      exact .inl (insert_handlers _ _ _ _)
  case tryRecovery j reply =>
    obtain ⟨req, err, -, ⟨-, -, rfl⟩ | ⟨-, rfl⟩⟩ := tryRecovery_cases h <;> exact .inl rfl
  case copierReport j =>
    obtain ⟨data, err, next, -, ⟨-, rfl⟩ | ⟨t, rest, -, rfl⟩⟩ := copierReport_cases h
    · exact .inl rfl
    · exact .inl (respond_handlers _ _ _ _)
  case completeMetricCreation =>
    rw [← Option.some.inj h]
    exact .inl rfl

end Steps

section Calls

variable {s s' : State}

/-- What a call was asked to send, and what of it is still to be sent. -/
def outstanding (c : Call) : List Request × List Request := (c.requests, unsent c)

theorem outstanding_set {i : Nat} {c c' : Call} (hi : s.calls[i]? = some c)
    (hc : outstanding c' = outstanding c) :
    (s.calls.set i c').map outstanding = s.calls.map outstanding := by
  obtain ⟨hlt, rfl⟩ := List.getElem?_eq_some_iff.mp hi
  have hlt' : i < (s.calls.map outstanding).length := by simpa using hlt
  have hget : (s.calls.map outstanding)[i] = outstanding s.calls[i] := List.getElem_map _
  rw [List.map_set, hc, ← hget, List.set_getElem_self]

theorem outstanding_offer (i : Nat) (err : Err) :
    (s.offer i err).calls.map outstanding = s.calls.map outstanding := by
  unfold State.offer
  split
  · rfl
  · rename_i c hc
    split
    · rfl
    · exact outstanding_set hc rfl

theorem outstanding_done (t : Task) :
    (s.done t).calls.map outstanding = s.calls.map outstanding := by
  unfold State.done
  split
  · rfl
  · rename_i c hc
    split
    · rfl
    · exact outstanding_set hc rfl

theorem outstanding_respond (err : Option Err) (t : Task) (rest : List Task)
    (next : Option Err) :
    (s.respond err t rest next).1.calls.map outstanding = s.calls.map outstanding := by
  cases next with
  | none => exact outstanding_done t
  | some e => exact outstanding_offer t.call e

theorem insert_calls (j : Nat) (req : CopyRequest) (reply : Option Err)
    (failed : CopyRequest → Err → Copier) : (s.insert j req reply failed).calls = s.calls := by
  unfold State.insert
  split
  · rfl
  · split <;> rfl

theorem getBuffer_calls {fromPool : Option Nat} {b : PendingBuffer}
    (h : s.getBuffer fromPool = some (b, s')) : s'.calls = s.calls := by
  obtain ⟨pool, rfl, -, -⟩ := getBuffer_cases h
  rfl

theorem outstanding_of_step? {a : Action} (hinsert : ∀ rows, a ≠ .insertData rows)
    (hsend : ∀ i, a ≠ .send i) (h : step? s a = some s') :
    s'.calls.map outstanding = s.calls.map outstanding := by
  cases a <;> simp only [step?] at h
  case insertData rows => exact absurd rfl (hinsert rows)
  case send i => exact absurd rfl (hsend i)
  case getMetricInserter i =>
    obtain ⟨c, request, rest, hc, hp, rfl⟩ := getMetricInserter_cases h
    refine outstanding_set hc ?_
    simp [outstanding, unsent, hp]
  case finish i =>
    obtain ⟨c, hc, ⟨hp, -, rfl⟩ | ⟨hp, rfl⟩ | ⟨err, hp, rfl⟩⟩ := finish_cases h
    all_goals
      refine outstanding_set hc ?_
      simp [outstanding, unsent, hp]
  case lookup k reply fromPool =>
    obtain ⟨x, creator, -, -, ⟨tableName, signal, hserve⟩ | ⟨err, rfl⟩⟩ := lookup_cases h
    · obtain ⟨b, t, hget, rfl⟩ := serve_cases hserve
      have hcalls := getBuffer_calls hget
      exact congrArg (List.map outstanding) hcalls
    · rfl
  case offerStartFailure k =>
    obtain ⟨x, creator, err, -, -, rfl⟩ := offerStartFailure_cases h
    exact outstanding_offer _ _
  case receive k | receiveNone k | setSeriesIds k sendBatch replies =>
    obtain ⟨x, x', -, -, rfl⟩ := handle_cases h
    rfl
  case hand k fromPool =>
    obtain ⟨x, r, table, b, t, -, -, -, -, hget, rfl⟩ := hand_cases h
    have hcalls := getBuffer_calls hget
    exact congrArg (List.map outstanding) hcalls
  case handlerReport k =>
    obtain ⟨x, -, ⟨err, task, e, -, rfl⟩ | ⟨err, task, -, rfl⟩ |
      ⟨err, next, r, -, ⟨-, rfl⟩ | ⟨t, rest, -, rfl⟩⟩⟩ := handlerReport_cases h
    · exact outstanding_offer _ _
    · exact outstanding_done _
    · rfl
    · exact outstanding_respond _ _ _ _
  case take j =>
    obtain ⟨req, rest, -, -, rfl⟩ := take_cases h
    rfl
  case doInsert j reply =>
    obtain ⟨req, -, rfl⟩ | ⟨req, -, rfl⟩ := doInsert_cases h <;> rw [insert_calls]
  case tryRecovery j reply =>
    obtain ⟨req, err, -, ⟨-, -, rfl⟩ | ⟨-, rfl⟩⟩ := tryRecovery_cases h <;> rfl
  case copierReport j =>
    obtain ⟨data, err, next, -, ⟨-, rfl⟩ | ⟨t, rest, -, rfl⟩⟩ := copierReport_cases h
    · rfl
    · exact outstanding_respond _ _ _ _
  case completeMetricCreation =>
    rw [← Option.some.inj h]

end Calls

/-- Requests carry data, and a routine that waits in the blocking receive has nothing
pending. -/
structure Tidy (s : State) : Prop where
  data : ∀ c ∈ s.calls, ∀ r ∈ c.requests, r.data ≠ []
  top : ∀ h ∈ s.handlers, h.phase = .top → h.hasPendingReqs = false

section Tidy

variable {s s' : State}

theorem flush_top {h : Handler} (htop : h.flush.phase = .top) : h.flush.hasPendingReqs = false := by
  unfold Handler.flush at htop ⊢
  split at htop
  · cases htop
  · rename_i hpending
    rw [if_neg hpending]
    exact Bool.eq_false_of_not_eq_true hpending

theorem resume_top {h : Handler} {r : Resume} (htop : (h.resume r).phase = .top) :
    (h.resume r).hasPendingReqs = false := by
  cases r with
  | loop =>
    simp only [Handler.resume] at htop ⊢
    split at htop
    · cases htop
    · rename_i hpending
      exact Bool.eq_false_of_not_eq_true hpending
  | hotReceive =>
    simp only [Handler.resume] at htop ⊢
    split at htop
    · rename_i hlong
      rw [if_pos hlong]
      exact flush_top htop
    · cases htop

theorem handleReq_top {h : Handler} {req : Request} {r : Resume}
    (htop : (h.handleReq req r).phase = .top) : (h.handleReq req r).hasPendingReqs = false := by
  simp only [Handler.handleReq] at htop ⊢
  split at htop
  · cases htop
  · rename_i hshort
    rw [if_neg hshort]
    exact resume_top htop

theorem Acts.top {h h' : Handler} (hacts : Acts h h') (htop : h'.phase = .top) :
    h'.hasPendingReqs = false := by
  cases hacts with
  | serve => rfl
  | startFailed | fail | offer | answer | respond => cases htop
  | receive hreceive =>
    unfold Handler.receive at hreceive
    split at hreceive
    · cases hreceive
    · split at hreceive <;> cases hreceive
      · cases htop
      · exact handleReq_top htop
      · exact handleReq_top htop
  | receiveNone hreceive =>
    unfold Handler.receiveNone at hreceive
    split at hreceive <;> cases hreceive
    exact flush_top htop
  | setSeriesIds hset =>
    unfold Handler.setSeriesIds at hset
    split at hset
    · simp only at hset
      split at hset <;> cases hset <;> cases htop
    · cases hset
  | hand | clear => exact resume_top htop

theorem data_step? (htidy : Tidy s) {a : Action} (h : step? s a = some s') :
    ∀ c ∈ s'.calls, ∀ r ∈ c.requests, r.data ≠ [] := by
  have hkept : s'.calls.map outstanding = s.calls.map outstanding →
      ∀ c ∈ s'.calls, ∀ r ∈ c.requests, r.data ≠ [] := by
    intro hmap c hc r hr
    have hmem : outstanding c ∈ s.calls.map outstanding := hmap ▸ List.mem_map_of_mem hc
    obtain ⟨c₀, hc₀, heq⟩ := List.mem_map.mp hmem
    have hrequests : c₀.requests = c.requests := congrArg Prod.fst heq
    exact htidy.data c₀ hc₀ r (hrequests ▸ hr)
  cases a with
  | insertData rows =>
    rw [← Option.some.inj h]
    intro c hc r hr
    rcases List.mem_append.mp hc with hc | hc
    · exact htidy.data c hc r hr
    · rw [List.mem_singleton.mp hc] at hr
      obtain ⟨entry, hentry, rfl⟩ := List.mem_map.mp hr
      exact rows.nonempty entry hentry
  | send i =>
    simp only [step?, State.send, Option.bind_eq_bind, Option.bind_eq_some_iff] at h
    obtain ⟨c, hc, hstep⟩ := h
    split at hstep
    · simp only [Option.bind_eq_some_iff, Option.some.injEq] at hstep
      obtain ⟨x, hx, _, _, rfl⟩ := hstep
      intro c' hc' r hr
      rcases List.mem_or_eq_of_mem_set hc' with hc' | rfl
      · exact htidy.data c' hc' r hr
      · exact htidy.data c (List.mem_of_getElem? hc) r hr
    · exact absurd hstep (by simp)
  | _ => exact hkept (outstanding_of_step? (by simp) (by simp) h)

theorem top_step? (hinv : Inv [] s) (htidy : Tidy s) {a : Action} (h : step? s a = some s') :
    ∀ x ∈ s'.handlers, x.phase = .top → x.hasPendingReqs = false := by
  intro x hx htop
  cases ha : routine? a with
  | some k =>
    obtain ⟨y, y', hk, hacts, heq⟩ := acts_of_step? hinv ha h
    rw [heq] at hx
    rcases List.mem_or_eq_of_mem_set hx with hx | rfl
    · exact htidy.top x hx htop
    · exact hacts.top htop
  | none =>
    obtain heq | ⟨metric, i, -, heq⟩ | ⟨i, k, y, request, -, hk, heq⟩ := handlers_of_step? ha h
    · exact htidy.top x (heq ▸ hx) htop
    · rw [heq] at hx
      rcases List.mem_append.mp hx with hx | hx
      · exact htidy.top x hx htop
      · rw [List.mem_singleton.mp hx] at htop
        cases htop
    · rw [heq] at hx
      rcases List.mem_or_eq_of_mem_set hx with hx | rfl
      · exact htidy.top x hx htop
      · exact htidy.top y (List.mem_of_getElem? hk) htop

theorem Tidy.step (hinv : Inv [] s) (htidy : Tidy s) (a : Action) : Tidy (Pipeline.step s a) := by
  unfold Pipeline.step
  rw [hinv.panic]
  simp only [Option.isSome_none, Bool.false_eq_true, if_false]
  cases h : step? s a with
  | none => exact htidy
  | some s' => exact ⟨data_step? htidy h, top_step? hinv htidy h⟩

theorem run_inv_tidy (numCopiers : Nat) (actions : List Action) :
    Inv [] (run Pipeline.step (State.initial numCopiers) actions) ∧
      Tidy (run Pipeline.step (State.initial numCopiers) actions) := by
  apply run_invariant (fun s => Inv [] s ∧ Tidy s)
  · exact fun s a h => ⟨step_inv h.1 a, h.2.step h.1 a⟩
  · exact ⟨initial_inv numCopiers, by simp [State.initial], by simp [State.initial]⟩

theorem needsResponse_of_top (hinv : Inv [] s) (htidy : Tidy s) {k : Nat} {h : Handler}
    (hk : s.handlers[k]? = some h) (htop : h.phase = .top) : h.pending.needsResponse = [] := by
  have hphase := hinv.phases k h hk
  simp only [PhaseOk, htop] at hphase
  obtain ⟨⟨reqs, hreqs, htasks, hdata⟩, -⟩ := hphase
  have hnone := htidy.top h (List.mem_of_getElem? hk) htop
  have hempty : h.pending.batch.sampleInfos = [] := by
    simpa [Handler.hasPendingReqs] using hnone
  rw [hempty, List.map_nil, eq_comm, List.flatMap_eq_nil_iff] at hdata
  have hreqsNil : reqs = [] := by
    rw [List.eq_nil_iff_forall_not_mem]
    intro r hr
    obtain ⟨⟨c, hc, hrc⟩, -⟩ := hreqs r hr
    have hnonempty := htidy.data c (List.mem_of_getElem? hc) r hrc
    exact hnonempty (List.map_eq_nil_iff.mp (hdata r hr))
  rw [htasks, hreqsNil, List.map_nil]

end Tidy

end TimescalePrometheus.Ingest.Routines
