import TimescalePrometheus.Ingest.Pipeline
import TimescalePrometheus.Lib.Tokens

/-!
Where the requests of the pipeline are. Each task that was issued is with its call, a
handler, the channel to the copiers or a copier, or it has been answered, and it is
answered only once its data was inserted or an error was offered to its call.
-/

namespace TimescalePrometheus.Ingest.Custody

open Ingest.Samples Ingest.SeriesIds Ingest.Pipeline Lib.Tokens

section Places

/-- The requests that a call still has. -/
def unsent (c : Call) : List Request :=
  match c.phase with
  | .sending rest => rest
  | .delivering _ request rest => request :: rest
  | _ => []

def taskInHand : HandlerPhase → List Task
  | .answering _ task _ => [task]
  | _ => []

/-- The tasks with a handler. -/
def handlerTasks (h : Handler) : List Task :=
  h.input.map (·.task) ++ (h.pending.needsResponse ++ taskInHand h.phase)

/-- The tasks with a copier. -/
def copierTasks : Copier → List Task
  | .idle => []
  | .inserting req => req.data.needsResponse
  | .recovering req _ => req.data.needsResponse
  | .retrying req => req.data.needsResponse
  | .reporting data _ _ => data.needsResponse

def callTasks (c : Call) : List Task := (unsent c).map (·.task)

/-- The tasks of all calls. -/
def issued (s : State) : List Task := s.calls.flatMap fun c => c.requests.map (·.task)

/-- The tasks that nobody has answered. -/
def held (s : State) : List Task :=
  s.calls.flatMap callTasks ++ (s.handlers.flatMap handlerTasks ++
    (s.toCopiers.flatMap (·.data.needsResponse) ++ s.copiers.flatMap copierTasks))

end Places

section Facts

variable (s : State)

/-- The request is one of its call. -/
def Issued (r : Request) : Prop := ∃ c, s.calls[r.task.call]? = some c ∧ r ∈ c.requests

/-- The call was offered an error. -/
def Offered (i : Nat) : Prop := ∃ c, s.calls[i]? = some c ∧ c.offered = true

/-- The routine of the metric inserts into the table. -/
def Stores (metric table : String) : Prop :=
  ∃ (k : Nat) (h : Handler), s.handlers[k]? = some h ∧ h.metric = metric ∧
    h.metricTableName = some table

/-- All samples of the request were part of one successful `doInsert`, into the table of
its metric. -/
def Inserted (r : Request) : Prop :=
  ∃ e ∈ s.inserted, Stores s r.task.metric e.table ∧
    ∀ info ∈ r.data, ∃ info' ∈ e.sampleInfos, info'.content = info.content ∧
      ∀ row ∈ info'.rows, row ∈ e.rows

def InsertedTask (t : Task) : Prop := ∃ r, Issued s r ∧ r.task = t ∧ Inserted s r

/-- The task is stored or its call has an error. -/
def Settled (t : Task) : Prop := InsertedTask s t ∨ Offered s t.call

/-- The buffer holds the data of the requests that wait for its result. -/
def Loaded (p : String → Prop) (b : PendingBuffer) : Prop :=
  ∃ reqs : List Request, (∀ r ∈ reqs, Issued s r ∧ p r.task.metric) ∧
    b.needsResponse = reqs.map (·.task) ∧
    b.batch.sampleInfos.map (·.content) = reqs.flatMap fun r => r.data.map (·.content)

/-- The tasks may be answered with `err`; `next` is what the first is still to be offered. -/
def Report (tasks : List Task) (next : Option Err) : Option Err → Prop
  | none => ∀ t ∈ tasks, InsertedTask s t
  | some _ => next = none → ∀ t ∈ tasks.head?, Offered s t.call

end Facts

/-- What a step does not take back. -/
structure Grows (s s' : State) : Prop where
  calls : ∀ (i : Nat) (c : Call), s.calls[i]? = some c → ∃ c' : Call, s'.calls[i]? = some c' ∧
    c'.requests = c.requests ∧ (c.offered = true → c'.offered = true)
  handlers : ∀ (k : Nat) (h : Handler), s.handlers[k]? = some h →
    ∃ h' : Handler, s'.handlers[k]? = some h' ∧ h'.metric = h.metric ∧
      ∀ table, h.metricTableName = some table → h'.metricTableName = some table
  inserted : ∀ e ∈ s.inserted, e ∈ s'.inserted

section Growth

variable {s s' : State} (hgrows : Grows s s')
include hgrows

theorem Issued.mono {r : Request} (h : Issued s r) : Issued s' r := by
  obtain ⟨c, hc, hr⟩ := h
  obtain ⟨c', hc', hrequests, _⟩ := hgrows.calls _ c hc
  exact ⟨c', hc', hrequests ▸ hr⟩

theorem Offered.mono {i : Nat} (h : Offered s i) : Offered s' i := by
  obtain ⟨c, hc, hoffered⟩ := h
  obtain ⟨c', hc', _, hkept⟩ := hgrows.calls i c hc
  exact ⟨c', hc', hkept hoffered⟩

theorem Stores.mono {metric table : String} (h : Stores s metric table) :
    Stores s' metric table := by
  obtain ⟨k, h, hk, hmetric, htable⟩ := h
  obtain ⟨h', hk', hsame, hkept⟩ := hgrows.handlers k h hk
  exact ⟨k, h', hk', hsame.trans hmetric, hkept table htable⟩

theorem Inserted.mono {r : Request} (h : Inserted s r) : Inserted s' r := by
  obtain ⟨e, he, hstores, hdata⟩ := h
  exact ⟨e, hgrows.inserted e he, hstores.mono hgrows, hdata⟩

theorem InsertedTask.mono {t : Task} (h : InsertedTask s t) : InsertedTask s' t := by
  obtain ⟨r, hissued, ht, hinserted⟩ := h
  exact ⟨r, hissued.mono hgrows, ht, hinserted.mono hgrows⟩

theorem Settled.mono {t : Task} (h : Settled s t) : Settled s' t :=
  h.imp (·.mono hgrows) (·.mono hgrows)

theorem Loaded.mono {p q : String → Prop} {b : PendingBuffer} (h : Loaded s p b)
    (hpq : ∀ metric, p metric → q metric) : Loaded s' q b := by
  obtain ⟨reqs, hreqs, htasks, hdata⟩ := h
  exact ⟨reqs, fun r hr => ⟨(hreqs r hr).1.mono hgrows, hpq _ (hreqs r hr).2⟩, htasks, hdata⟩

theorem Report.mono {tasks : List Task} {next err : Option Err} (h : Report s tasks next err) :
    Report s' tasks next err := by
  cases err with
  | none => exact fun t ht => (h t ht).mono hgrows
  | some err => exact fun hnext t ht => (h hnext t ht).mono hgrows

end Growth

theorem Grows.refl (s : State) : Grows s s :=
  ⟨fun _ c hc => ⟨c, hc, rfl, id⟩, fun _ h hk => ⟨h, hk, rfl, fun _ => id⟩, fun _ => id⟩

theorem Grows.trans {s t u : State} (hst : Grows s t) (htu : Grows t u) : Grows s u := by
  refine ⟨fun i c hc => ?_, fun k h hk => ?_, fun e he => htu.inserted e (hst.inserted e he)⟩
  · obtain ⟨c', hc', hrequests, hoffered⟩ := hst.calls i c hc
    obtain ⟨c'', hc'', hrequests', hoffered'⟩ := htu.calls i c' hc'
    exact ⟨c'', hc'', hrequests'.trans hrequests, hoffered' ∘ hoffered⟩
  · obtain ⟨h', hk', hmetric, htable⟩ := hst.handlers k h hk
    obtain ⟨h'', hk'', hmetric', htable'⟩ := htu.handlers k h' hk'
    exact ⟨h'', hk'', hmetric'.trans hmetric, fun table ht => htable' table (htable table ht)⟩

/-- The error an offer left behind is still in the channel or was received. -/
def ErrorKept (c : Call) : Prop :=
  match c.phase with
  | .closing err => c.offered = true → err ≠ none
  | .returned err => c.offered = true → err ≠ none
  | _ => c.offered = true → c.errChan ≠ none

/-- The call is past its `Wait`. -/
def pastWait : CallPhase → Bool
  | .sending _ => false
  | .delivering _ _ _ => false
  | _ => true

structure CallOk (s : State) (i : Nat) (c : Call) : Prop where
  own : ∀ r ∈ c.requests, r.task.call = i
  nodup : (c.requests.map (·.task)).Nodup
  unsent : ∀ r ∈ unsent c, r ∈ c.requests
  target : ∀ k r rest, c.phase = .delivering k r rest →
    ∃ h : Handler, s.handlers[k]? = some h ∧ h.metric = r.task.metric
  errors : ErrorKept c
  finished : pastWait c.phase = true → c.finished = 0
  closed : c.closed = true → pastWait c.phase = true

def InputOk (s : State) (h : Handler) : Prop :=
  ∀ r ∈ h.input, Issued s r ∧ r.task.metric = h.metric

def PhaseOk (s : State) (h : Handler) : Prop :=
  match h.phase with
  | .starting _ => h.pending = .new ∧ h.metricTableName = none
  | .startFailed _ _ => h.pending = .new
  | .failed _ => h.pending = .new
  | .answering _ t next => h.pending = .new ∧ (next = none → Offered s t.call)
  | .reporting err next _ => Report s h.pending.needsResponse next (some err)
  | _ => Loaded s (· = h.metric) h.pending ∧ AtStart h.pending.batch

def CopyOk (s : State) (req : CopyRequest) : Prop :=
  Loaded s (Stores s · req.table) req.data ∧ AtStart req.data.batch

def CopierOk (s : State) : Copier → Prop
  | .idle => True
  | .inserting req => CopyOk s req
  | .recovering req _ => Loaded s (Stores s · req.table) req.data
  | .retrying req => CopyOk s req
  | .reporting data err next => Report s data.needsResponse next err

def creator? : HandlerPhase → Option Nat
  | .starting i => some i
  | .startFailed i _ => some i
  | _ => none

/-- The request for which a routine was started is not answered before the routine has
found its table or failed to. -/
def StartOk (s : State) (h : Handler) : Prop :=
  ∀ i, creator? h.phase = some i →
    ⟨i, h.metric⟩ ∈ s.calls.flatMap callTasks ++ h.input.map (·.task)

/-- The invariant of the pipeline, with the tasks `hand` between two places. -/
structure Inv (hand : List Task) (s : State) : Prop where
  panic : s.panic = none
  balanced : Balanced (issued s) (hand ++ held s) s.answered
  counters : ∀ (i : Nat) (c : Call), s.calls[i]? = some c →
    c.finished + s.answered.countP (·.call = i) = (issued s).countP (·.call = i)
  calls : ∀ (i : Nat) (c : Call), s.calls[i]? = some c → CallOk s i c
  inputs : ∀ (k : Nat) (h : Handler), s.handlers[k]? = some h → InputOk s h
  phases : ∀ (k : Nat) (h : Handler), s.handlers[k]? = some h → PhaseOk s h
  metrics : ∀ (k k' : Nat) (h h' : Handler), s.handlers[k]? = some h → s.handlers[k']? = some h' →
    h.metric = h'.metric → k = k'
  starts : ∀ (k : Nat) (h : Handler), s.handlers[k]? = some h → StartOk s h
  toCopiers : ∀ req ∈ s.toCopiers, CopyOk s req
  copiers : ∀ c ∈ s.copiers, CopierOk s c
  pool : ∀ b ∈ s.pool, b = .new
  answered : ∀ t ∈ s.answered, Settled s t

section Growth

variable {s s' : State} (hgrows : Grows s s')
include hgrows

theorem CallOk.mono {i : Nat} {c : Call} (h : CallOk s i c) : CallOk s' i c := by
  refine { h with target := fun k r rest hphase => ?_ }
  obtain ⟨h, hk, hmetric⟩ := h.target k r rest hphase
  obtain ⟨h', hk', hsame, _⟩ := hgrows.handlers k h hk
  exact ⟨h', hk', hsame.trans hmetric⟩

theorem InputOk.mono {h : Handler} (hok : InputOk s h) : InputOk s' h :=
  fun r hr => ⟨(hok r hr).1.mono hgrows, (hok r hr).2⟩

theorem PhaseOk.mono {h : Handler} (hok : PhaseOk s h) : PhaseOk s' h := by
  unfold PhaseOk at hok ⊢
  cases hphase : h.phase <;> simp only [hphase] at hok ⊢
  case answering => exact ⟨hok.1, fun hnext => (hok.2 hnext).mono hgrows⟩
  case reporting => exact hok.mono hgrows
  case top => exact ⟨hok.1.mono hgrows fun _ => id, hok.2⟩
  case hot => exact ⟨hok.1.mono hgrows fun _ => id, hok.2⟩
  case flushing => exact ⟨hok.1.mono hgrows fun _ => id, hok.2⟩
  case handing => exact ⟨hok.1.mono hgrows fun _ => id, hok.2⟩
  all_goals exact hok

theorem CopyOk.mono {req : CopyRequest} (hok : CopyOk s req) : CopyOk s' req :=
  ⟨hok.1.mono hgrows fun _ => Stores.mono hgrows, hok.2⟩

theorem CopierOk.mono {c : Copier} (hok : CopierOk s c) : CopierOk s' c := by
  cases c with
  | idle => trivial
  | inserting req => exact CopyOk.mono hgrows hok
  | recovering req err =>
    have hloaded : Loaded s (Stores s · req.table) req.data := hok
    exact hloaded.mono hgrows fun _ => Stores.mono hgrows
  | retrying req => exact CopyOk.mono hgrows hok
  | reporting data err next => exact Report.mono hgrows hok

end Growth

/-- Each part of the new state was part of the old one or is in order. -/
structure Changes (s s' : State) : Prop where
  calls : ∀ (i : Nat) (c : Call), s'.calls[i]? = some c → s.calls[i]? = some c ∨ CallOk s' i c
  handlers : ∀ (k : Nat) (h : Handler), s'.handlers[k]? = some h →
    s.handlers[k]? = some h ∨ InputOk s' h ∧ PhaseOk s' h
  toCopiers : ∀ req ∈ s'.toCopiers, req ∈ s.toCopiers ∨ CopyOk s' req
  copiers : ∀ c ∈ s'.copiers, c ∈ s.copiers ∨ CopierOk s' c
  pool : ∀ b ∈ s'.pool, b ∈ s.pool ∨ b = .new
  answered : ∀ t ∈ s'.answered, t ∈ s.answered ∨ Settled s' t

theorem Inv.changes {hand hand' : List Task} {s s' : State} (hinv : Inv hand s)
    (hgrows : Grows s s') (hchanges : Changes s s') (hpanic : s'.panic = none)
    (hbalanced : Balanced (issued s') (hand' ++ held s') s'.answered)
    (hcounters : ∀ (i : Nat) (c : Call), s'.calls[i]? = some c →
      c.finished + s'.answered.countP (·.call = i) = (issued s').countP (·.call = i))
    (hmetrics : ∀ (k k' : Nat) (h h' : Handler), s'.handlers[k]? = some h →
      s'.handlers[k']? = some h' → h.metric = h'.metric → k = k')
    (hstarts : ∀ (k : Nat) (h : Handler), s'.handlers[k]? = some h → StartOk s' h) :
    Inv hand' s' where
  panic := hpanic
  balanced := hbalanced
  counters := hcounters
  calls i c hc := (hchanges.calls i c hc).elim (fun hc => (hinv.calls i c hc).mono hgrows) id
  inputs k h hk :=
    (hchanges.handlers k h hk).elim (fun hk => (hinv.inputs k h hk).mono hgrows) (·.1)
  phases k h hk :=
    (hchanges.handlers k h hk).elim (fun hk => (hinv.phases k h hk).mono hgrows) (·.2)
  metrics := hmetrics
  starts := hstarts
  toCopiers req h :=
    (hchanges.toCopiers req h).elim (fun h => (hinv.toCopiers req h).mono hgrows) id
  copiers c h := (hchanges.copiers c h).elim (fun h => (hinv.copiers c h).mono hgrows) id
  pool b h := (hchanges.pool b h).elim (hinv.pool b) id
  answered t h := (hchanges.answered t h).elim (fun h => (hinv.answered t h).mono hgrows) id

section Live

variable {hand : List Task} {s : State} {t : Task}

theorem Inv.exists_call (hinv : Inv hand s) (ht : t ∈ issued s) :
    ∃ c, s.calls[t.call]? = some c ∧ t ∈ c.requests.map (·.task) := by
  obtain ⟨c, hc, htask⟩ := List.mem_flatMap.mp ht
  obtain ⟨i, hi⟩ := List.mem_iff_getElem?.mp hc
  obtain ⟨r, hr, rfl⟩ := List.mem_map.mp htask
  rw [(hinv.calls i c hi).own r hr]
  exact ⟨c, hi, htask⟩

theorem Inv.live (hinv : Inv hand s) (ht : t ∈ hand ++ held s) :
    ∃ c, s.calls[t.call]? = some c ∧ 0 < c.finished ∧ pastWait c.phase = false ∧
      c.closed = false := by
  obtain ⟨c, hc, _⟩ := hinv.exists_call (hinv.balanced.mem_issued ht)
  have hlt := hinv.balanced.countP_lt (p := fun x => x.call = t.call) ht (by simp)
  have hcounter := hinv.counters t.call c hc
  have hpos : 0 < c.finished := by omega
  have hphase : pastWait c.phase = false := by
    rw [← Bool.not_eq_true]
    intro hpast
    have hzero := (hinv.calls _ c hc).finished hpast
    omega
  refine ⟨c, hc, hpos, hphase, ?_⟩
  rw [← Bool.not_eq_true]
  intro hclosed
  exact absurd ((hinv.calls _ c hc).closed hclosed) (by simp [hphase])

end Live

end TimescalePrometheus.Ingest.Custody
