import Mathlib.Data.List.Infix
import Mathlib.Data.Option.Basic
import TimescalePrometheus.Ingest.SeriesIds
import TimescalePrometheus.Lib.Runs

/-!
The ingest pipeline with synchronous acknowledgements: the `InsertData` calls, the insert routine
of each metric and the copiers, which communicate over channels, wait groups and a pool of
buffers.
-/

namespace TimescalePrometheus.Ingest.Pipeline

open Ingest.Samples Ingest.SeriesIds Lib.Runs

/-- The wait group and the error channel of a call. The metric only tells apart the
requests of one call. -/
structure Task where
  call : Nat
  metric : String
  deriving DecidableEq

/-- `insertDataRequest`. -/
structure Request where
  task : Task
  data : List SamplesInfo
  deriving DecidableEq

/-- The map that `InsertData` is given, in the order in which it ranges over it.
`parseData` puts at least one element under each metric. -/
structure Rows where
  entries : List (String × List SamplesInfo)
  nodup : (entries.map (·.1)).Nodup
  nonempty : ∀ entry ∈ entries, entry.2 ≠ []

/-- Where an `InsertData` call is. -/
inductive CallPhase
  /-- In the loop over the map; at `Wait` if nothing is left. -/
  | sending (rest : List Request)
  /-- At the send on the channel of a handler. -/
  | delivering (handler : Nat) (request : Request) (rest : List Request)
  | collecting
  | closing (err : Option Err)
  | returned (err : Option Err)
  deriving DecidableEq

/-- An `InsertData` call. -/
structure Call where
  requests : List Request
  phase : CallPhase
  numRows : Nat
  /-- The counter of the wait group. -/
  finished : Nat
  errChan : Option Err
  closed : Bool
  /-- Whether an error was offered to the channel, received or not. -/
  offered : Bool
  deriving DecidableEq

/-- `pendingBuffer`. -/
structure PendingBuffer where
  needsResponse : List Task
  batch : SampleInfoIterator
  deriving DecidableEq

/-- `copyRequest`. -/
structure CopyRequest where
  data : PendingBuffer
  table : String
  deriving DecidableEq

/-- Where an insert routine goes on after `handleReq` or `flush`. -/
inductive Resume
  | loop
  | hotReceive
  deriving DecidableEq

/-- Where an insert routine is. -/
inductive HandlerPhase
  | starting (creator : Nat)
  | startFailed (creator : Nat) (err : Err)
  | failed (err : Err)
  | answering (err : Err) (task : Task) (offer : Option Err)
  /-- At the blocking receive. -/
  | top
  /-- At the non-blocking receive. -/
  | hot
  | flushing (resume : Resume)
  | handing (resume : Resume)
  | reporting (err : Err) (offer : Option Err) (resume : Resume)
  deriving DecidableEq

/-- An insert routine and its channel. -/
structure Handler where
  metric : String
  input : List Request
  phase : HandlerPhase
  pending : PendingBuffer
  seriesCache : SeriesCache
  metricTableName : Option String
  deriving DecidableEq

/-- Where a copier is. -/
inductive Copier
  | idle
  | inserting (req : CopyRequest)
  | recovering (req : CopyRequest) (err : Err)
  | retrying (req : CopyRequest)
  | reporting (data : PendingBuffer) (err : Option Err) (offer : Option Err)
  deriving DecidableEq

/-- A `doInsert` that returned nil. -/
structure Insert where
  table : String
  sampleInfos : List SamplesInfo
  rows : List Row
  deriving DecidableEq

/-- The panics that could happen. -/
inductive Panic
  | sendOnClosedChannel
  | negativeWaitGroup
  | invalidInsertRequest
  deriving DecidableEq

/-- Everything that the routines share. -/
structure State where
  calls : List Call
  handlers : List Handler
  toCopiers : List CopyRequest
  copiers : List Copier
  pool : List PendingBuffer
  /-- Whether the channel of capacity one holds a signal. -/
  completeMetricCreation : Bool
  inserted : List Insert
  /-- The tasks in the order of their `Done` calls, last one first. -/
  answered : List Task
  panic : Option Panic

def State.initial (numCopiers : Nat) : State :=
  ⟨[], [], [], List.replicate numCopiers .idle, [], false, [], [], none⟩

def flushSize : Nat := 2000

/-- The capacity of the channel of a metric. -/
def inputSize : Nat := 1000

namespace PendingBuffer

/-- `NewPendingBuffer`. -/
def new : PendingBuffer := ⟨[], { sampleInfos := [] }⟩

/-- Whether the buffer is to be flushed. -/
def addReq (p : PendingBuffer) (req : Request) : PendingBuffer × Bool :=
  let p : PendingBuffer :=
    { needsResponse := p.needsResponse ++ [req.task]
      batch := { p.batch with sampleInfos := p.batch.sampleInfos ++ req.data } }
  (p, p.batch.sampleInfos.length > flushSize)

/-- The end of `reportResults`. -/
def clear (_ : PendingBuffer) : PendingBuffer := ⟨[], { sampleInfos := [] }⟩

end PendingBuffer

namespace State

/-- The non-blocking send of an error on the channel of a call. -/
def offer (s : State) (i : Nat) (err : Err) : State :=
  match s.calls[i]? with
  | none => s
  | some c =>
    if c.closed then { s with panic := some .sendOnClosedChannel }
    else
      { s with
        calls := s.calls.set i
          { c with errChan := some (c.errChan.getD err), offered := true } }

/-- `finished.Done()` for a task. -/
def done (s : State) (t : Task) : State :=
  match s.calls[t.call]? with
  | none => s
  | some c =>
    if c.finished = 0 then { s with panic := some .negativeWaitGroup }
    else
      { s with
        calls := s.calls.set t.call { c with finished := c.finished - 1 }
        answered := t :: s.answered }

/-- `pendingBuffers.Get()`: one of the pool or a new one. -/
def getBuffer (s : State) : Option Nat → Option (PendingBuffer × State)
  | none => some (.new, s)
  | some n => do
    let b ← s.pool[n]?
    return (b, { s with pool := s.pool.eraseIdx n })

/-- One round of the loop of `reportResults`: what to offer next, if anything, and then
the task it is offered to. -/
def respond (s : State) (err : Option Err) (t : Task) (rest : List Task) :
    Option Err → State × List Task × Option Err
  | some e => (s.offer t.call e, t :: rest, none)
  | none => (s.done t, rest, err)

end State

namespace Handler

def start (metric : String) (creator : Nat) : Handler :=
  ⟨metric, [], .starting creator, .new, [], none⟩

def hasPendingReqs (h : Handler) : Bool := 0 < h.pending.batch.sampleInfos.length

/-- Nothing is sent if nothing is pending. -/
def flush (h : Handler) : Handler :=
  if h.hasPendingReqs then { h with phase := .flushing .loop } else { h with phase := .top }

/-- Back to where the flush came from. -/
def resume (h : Handler) : Resume → Handler
  | .loop => { h with phase := if h.hasPendingReqs then .hot else .top }
  | .hotReceive =>
    if h.pending.batch.sampleInfos.length ≥ flushSize then h.flush
    else { h with phase := .hot }

/-- The request joins what is pending. -/
def handleReq (h : Handler) (req : Request) (r : Resume) : Handler :=
  let data := (fillKnowSeriesIds h.seriesCache req.data).1
  let (pending, needsFlush) := h.pending.addReq { req with data }
  let h := { h with pending }
  if needsFlush then { h with phase := .flushing r } else h.resume r

/-- A receive that finds a request. -/
def receive (h : Handler) : Option Handler :=
  match h.input with
  | [] => none
  | req :: input =>
    match h.phase with
    | .failed err =>
      some { h with input, phase := .answering err req.task (some (.previouslyFailed err)) }
    | .top => some ({ h with input }.handleReq req .loop)
    | .hot => some ({ h with input }.handleReq req .hotReceive)
    | _ => none

/-- The default branch of the non-blocking receive. -/
def receiveNone (h : Handler) : Option Handler :=
  match h.phase, h.input with
  | .hot, [] => some h.flush
  | _, _ => none

/-- `flushPending` up to the send. -/
def setSeriesIds (h : Handler) (sendBatch : Option Err) (replies : Labels → SeriesReply) :
    Option Handler :=
  match h.phase with
  | .flushing r =>
    let (result, f) := SeriesIds.setSeriesIds sendBatch
      (fun labels (_ : Unit) => (replies labels, ()))
      ⟨h.seriesCache, h.pending.batch.sampleInfos, ()⟩
    let batch := { h.pending.batch with sampleInfos := f.sampleInfos }
    let h := { h with seriesCache := f.seriesCache, pending := { h.pending with batch } }
    match result with
    | .error err => some { h with phase := .reporting err (some err) r }
    | .ok _ => some { h with phase := .handing r }
  | _ => none

end Handler

/-- What the cache of table names and the database say when a routine starts. -/
inductive TableReply
  | cached (tableName : String)
  | cacheFailed (err : Err)
  | created (tableName : String) (possiblyNew : Bool)
  | queryFailed (err : Err)
  deriving DecidableEq

def notPermitted : String := "insert/update/delete not permitted"

/-- The errors that `tryRecovery` decompresses chunks for. -/
def recoverable : Err → Bool
  | .pg message => decide (notPermitted.toList <:+: message.toList)
  | _ => false

/-- The rows that `doInsert` sends, and the request with its iterator at the end. -/
def rowsOf (req : CopyRequest) : Except Panic (List Row × CopyRequest) :=
  match req.data.batch.batchRows with
  | none => .error .invalidInsertRequest
  | some (rows, batch) =>
    if rows.length ≠ req.data.batch.numRows then .error .invalidInsertRequest
    else .ok (rows, { req with data := { req.data with batch } })

namespace State

section Calls

/-- A new call, with one request for a metric. -/
def insertData (s : State) (rows : Rows) : State :=
  let requests := rows.entries.map fun entry => ⟨⟨s.calls.length, entry.1⟩, entry.2⟩
  { s with
    calls := s.calls ++ [⟨requests, .sending requests, 0, requests.length, none, false, false⟩] }

/-- One round of the loop over the map up to the send: `Load`, or `LoadOrStore` and the
start of a routine. -/
def getMetricInserter (s : State) (i : Nat) : Option State := do
  let c ← s.calls[i]?
  match c.phase with
  | .sending (request :: rest) =>
    let numRows := c.numRows + (request.data.map (·.samples.length)).sum
    let k := s.handlers.findIdx (·.metric = request.task.metric)
    let handlers :=
      if k < s.handlers.length then s.handlers
      else s.handlers ++ [.start request.task.metric i]
    some { s with
      calls := s.calls.set i { c with numRows, phase := .delivering k request rest }
      handlers }
  | _ => none

/-- The send on a handler's channel. -/
def send (s : State) (i : Nat) : Option State := do
  let c ← s.calls[i]?
  match c.phase with
  | .delivering k request rest => do
    let h ← s.handlers[k]?
    guard (h.input.length < inputSize)
    some { s with
      calls := s.calls.set i { c with phase := .sending rest }
      handlers := s.handlers.set k { h with input := h.input ++ [request] } }
  | _ => none

/-- `Wait`, the receive from the error channel, and its `close`. -/
def finish (s : State) (i : Nat) : Option State := do
  let c ← s.calls[i]?
  match c.phase with
  | .sending [] => do
    guard (c.finished = 0)
    some { s with calls := s.calls.set i { c with phase := .collecting } }
  | .collecting =>
    some { s with
      calls := s.calls.set i { c with errChan := none, phase := .closing c.errChan } }
  | .closing err =>
    some { s with calls := s.calls.set i { c with closed := true, phase := .returned err } }
  | _ => none

end Calls

section Handlers

def setHandler (s : State) (k : Nat) (h : Handler) : State :=
  { s with handlers := s.handlers.set k h }

/-- The start of a routine with the table it found. -/
def serve (s : State) (k : Nat) (h : Handler) (tableName : String) (fromPool : Option Nat) :
    Option State := do
  let (pending, s) ← s.getBuffer fromPool
  some (s.setHandler k
    { h with phase := .top, pending, seriesCache := [], metricTableName := some tableName })

/-- A starting routine asks for its table. -/
def lookup (s : State) (k : Nat) (reply : TableReply) (fromPool : Option Nat) :
    Option State := do
  let h ← s.handlers[k]?
  match h.phase with
  | .starting creator =>
    match reply with
    | .cached tableName => s.serve k h tableName fromPool
    | .created tableName possiblyNew =>
      let completeMetricCreation := s.completeMetricCreation || possiblyNew
      State.serve { s with completeMetricCreation } k h tableName fromPool
    | .cacheFailed err => some (s.setHandler k { h with phase := .startFailed creator err })
    | .queryFailed err => some (s.setHandler k { h with phase := .startFailed creator err })
  | _ => none

def offerStartFailure (s : State) (k : Nat) : Option State := do
  let h ← s.handlers[k]?
  match h.phase with
  | .startFailed creator err =>
    some ((s.offer creator err).setHandler k { h with phase := .failed err })
  | _ => none

/-- A step that a handler makes on its own. -/
def handle (s : State) (k : Nat) (f : Handler → Option Handler) : Option State := do
  let h ← s.handlers[k]?
  let h' ← f h
  some (s.setHandler k h')

/-- The send to the copiers, and a buffer for the requests to come. -/
def hand (s : State) (k : Nat) (fromPool : Option Nat) : Option State := do
  let h ← s.handlers[k]?
  match h.phase, h.metricTableName with
  | .handing r, some table => do
    guard (s.toCopiers.length < s.copiers.length)
    let (pending, s) ← s.getBuffer fromPool
    let toCopiers := s.toCopiers ++ [⟨h.pending, table⟩]
    some (State.setHandler { s with toCopiers } k (Handler.resume { h with pending } r))
  | _, _ => none

/-- A step of `runInserterRoutineFailure` or of `reportResults` in a handler. -/
def handlerReport (s : State) (k : Nat) : Option State := do
  let h ← s.handlers[k]?
  match h.phase with
  | .answering err task (some e) =>
    some ((s.offer task.call e).setHandler k { h with phase := .answering err task none })
  | .answering err task none => some ((s.done task).setHandler k { h with phase := .failed err })
  | .reporting err next r =>
    match h.pending.needsResponse with
    | [] => some (s.setHandler k ({ h with pending := h.pending.clear }.resume r))
    | t :: rest =>
      let (s, needsResponse, next) := s.respond (some err) t rest next
      some (s.setHandler k
        { h with
          phase := .reporting err next r
          pending := { h.pending with needsResponse } })
  | _ => none

end Handlers

section Copiers

def setCopier (s : State) (j : Nat) (c : Copier) : State :=
  { s with copiers := s.copiers.set j c }

/-- An idle copier receives a request. -/
def take (s : State) (j : Nat) : Option State := do
  let c ← s.copiers[j]?
  match c, s.toCopiers with
  | .idle, req :: rest => some ({ s with toCopiers := rest }.setCopier j (.inserting req))
  | _, _ => none

/-- `doInsert` with the result of its query; `failed` says how the copier goes on if there
is an error. -/
def insert (s : State) (j : Nat) (req : CopyRequest) (reply : Option Err)
    (failed : CopyRequest → Err → Copier) : State :=
  match rowsOf req with
  | .error p => { s with panic := some p }
  | .ok (rows, req) =>
    match reply with
    | some err => s.setCopier j (failed req err)
    | none =>
      { s with inserted := ⟨req.table, req.data.batch.sampleInfos, rows⟩ :: s.inserted }.setCopier
        j (.reporting req.data none none)

/-- The first or the second attempt. -/
def doInsert (s : State) (j : Nat) (reply : Option Err) : Option State := do
  let c ← s.copiers[j]?
  match c with
  | .inserting req => some (s.insert j req reply .recovering)
  | .retrying req =>
    some (s.insert j req reply fun req err => .reporting req.data (some err) (some err))
  | _ => none

/-- The reply is the first error of `decompressChunks`. -/
def tryRecovery (s : State) (j : Nat) (reply : Option Err) : Option State := do
  let c ← s.copiers[j]?
  match c with
  | .recovering req err =>
    if recoverable err && reply.isNone then
      some (s.setCopier j (.retrying
        { req with data := { req.data with batch := req.data.batch.resetPosition } }))
    else some (s.setCopier j (.reporting req.data (some err) (some err)))
  | _ => none

/-- `reportResults` of a copier. -/
def copierReport (s : State) (j : Nat) : Option State := do
  let c ← s.copiers[j]?
  match c with
  | .reporting data err next =>
    match data.needsResponse with
    | [] => some ({ s with pool := data.clear :: s.pool }.setCopier j .idle)
    | t :: rest =>
      let (s, needsResponse, next) := s.respond err t rest next
      some (s.setCopier j (.reporting { data with needsResponse } err next))
  | _ => none

end Copiers

end State

/-- A step of one routine. -/
inductive Action
  | insertData (rows : Rows)
  | getMetricInserter (i : Nat)
  | send (i : Nat)
  | finish (i : Nat)
  | lookup (k : Nat) (reply : TableReply) (fromPool : Option Nat)
  | offerStartFailure (k : Nat)
  | receive (k : Nat)
  | receiveNone (k : Nat)
  | setSeriesIds (k : Nat) (sendBatch : Option Err) (replies : Labels → SeriesReply)
  | hand (k : Nat) (fromPool : Option Nat)
  | handlerReport (k : Nat)
  | take (j : Nat)
  | doInsert (j : Nat) (reply : Option Err)
  | tryRecovery (j : Nat) (reply : Option Err)
  | copierReport (j : Nat)
  | completeMetricCreation

/-- The state after an action, none if it is not enabled. -/
def step? (s : State) : Action → Option State
  | .insertData rows => some (s.insertData rows)
  | .getMetricInserter i => s.getMetricInserter i
  | .send i => s.send i
  | .finish i => s.finish i
  | .lookup k reply fromPool => s.lookup k reply fromPool
  | .offerStartFailure k => s.offerStartFailure k
  | .receive k => s.handle k Handler.receive
  | .receiveNone k => s.handle k Handler.receiveNone
  | .setSeriesIds k sendBatch replies => s.handle k (Handler.setSeriesIds · sendBatch replies)
  | .hand k fromPool => s.hand k fromPool
  | .handlerReport k => s.handlerReport k
  | .take j => s.take j
  | .doInsert j reply => s.doInsert j reply
  | .tryRecovery j reply => s.tryRecovery j reply
  | .copierReport j => s.copierReport j
  | .completeMetricCreation => some { s with completeMetricCreation := false }

/-- After a panic nothing happens any more. -/
def step (s : State) (a : Action) : State :=
  if s.panic.isSome then s else (step? s a).getD s

section Enabled

variable {s s' : State} {i j k : Nat}

theorem getMetricInserter_cases (h : s.getMetricInserter i = some s') :
    ∃ c request rest, s.calls[i]? = some c ∧ c.phase = .sending (request :: rest) ∧
      s' = { s with
        calls := s.calls.set i { c with
          numRows := c.numRows + (request.data.map (·.samples.length)).sum
          phase := .delivering (s.handlers.findIdx (·.metric = request.task.metric)) request rest }
        handlers :=
          if s.handlers.findIdx (·.metric = request.task.metric) < s.handlers.length then s.handlers
          else s.handlers ++ [.start request.task.metric i] } := by
  simp only [State.getMetricInserter, Option.bind_eq_bind, Option.bind_eq_some_iff] at h
  obtain ⟨c, hc, hstep⟩ := h
  split at hstep
  case h_1 request rest hp => exact ⟨c, request, rest, hc, hp, (Option.some.inj hstep).symm⟩
  case h_2 => cases hstep

theorem send_cases (h : s.send i = some s') :
    ∃ c k request rest x, s.calls[i]? = some c ∧ c.phase = .delivering k request rest ∧
      s.handlers[k]? = some x ∧ x.input.length < inputSize ∧
      s' = { s with
        calls := s.calls.set i { c with phase := .sending rest }
        handlers := s.handlers.set k { x with input := x.input ++ [request] } } := by
  simp only [State.send, Option.bind_eq_bind, Option.bind_eq_some_iff] at h
  obtain ⟨c, hc, hstep⟩ := h
  split at hstep
  case h_1 k request rest hp =>
    simp only [Option.bind_eq_some_iff, Option.guard_eq_some', Option.some.injEq] at hstep
    obtain ⟨x, hx, _, hroom, hs'⟩ := hstep
    exact ⟨c, k, request, rest, x, hc, hp, hx, hroom, hs'.symm⟩
  case h_2 => cases hstep

theorem finish_cases (h : s.finish i = some s') :
    ∃ c, s.calls[i]? = some c ∧
      (c.phase = .sending [] ∧ c.finished = 0 ∧
          s' = { s with calls := s.calls.set i { c with phase := .collecting } } ∨
        c.phase = .collecting ∧
          s' = { s with
            calls := s.calls.set i { c with errChan := none, phase := .closing c.errChan } } ∨
        ∃ err, c.phase = .closing err ∧
          s' = { s with
            calls := s.calls.set i { c with closed := true, phase := .returned err } }) := by
  simp only [State.finish, Option.bind_eq_bind, Option.bind_eq_some_iff] at h
  obtain ⟨c, hc, hstep⟩ := h
  refine ⟨c, hc, ?_⟩
  split at hstep
  case h_1 hp =>
    simp only [Option.bind_eq_some_iff, Option.guard_eq_some', Option.some.injEq] at hstep
    obtain ⟨_, hzero, hs'⟩ := hstep
    exact .inl ⟨hp, hzero, hs'.symm⟩
  case h_2 hp => exact .inr (.inl ⟨hp, (Option.some.inj hstep).symm⟩)
  case h_3 err hp => exact .inr (.inr ⟨err, hp, (Option.some.inj hstep).symm⟩)
  case h_4 => cases hstep

theorem getBuffer_cases {fromPool : Option Nat} {b : PendingBuffer}
    (h : s.getBuffer fromPool = some (b, s')) :
    ∃ pool, s' = { s with pool } ∧ (∀ x ∈ pool, x ∈ s.pool) ∧ (b = .new ∨ b ∈ s.pool) := by
  cases fromPool with
  | none =>
    simp only [State.getBuffer, Option.some.injEq, Prod.mk.injEq] at h
    exact ⟨s.pool, h.2.symm, fun _ => id, .inl h.1.symm⟩
  | some n =>
    simp only [State.getBuffer, Option.bind_eq_bind, Option.bind_eq_some_iff, Option.pure_def,
      Option.some.injEq, Prod.mk.injEq] at h
    obtain ⟨_, hb, rfl, hs'⟩ := h
    exact ⟨_, hs'.symm, fun _ => List.mem_of_mem_eraseIdx, .inr (List.mem_of_getElem? hb)⟩

theorem serve_cases {h : Handler} {tableName : String} {fromPool : Option Nat}
    (hserve : s.serve k h tableName fromPool = some s') :
    ∃ pending t, s.getBuffer fromPool = some (pending, t) ∧
      s' = t.setHandler k { h with
        phase := .top, pending, seriesCache := [], metricTableName := some tableName } := by
  simp only [State.serve, Option.bind_eq_bind, Option.bind_eq_some_iff, Option.some.injEq,
    Prod.exists] at hserve
  obtain ⟨pending, t, hget, hs'⟩ := hserve
  exact ⟨pending, t, hget, hs'.symm⟩

theorem lookup_cases {reply : TableReply} {fromPool : Option Nat}
    (h : s.lookup k reply fromPool = some s') :
    ∃ x creator, s.handlers[k]? = some x ∧ x.phase = .starting creator ∧
      ((∃ tableName completeMetricCreation,
          State.serve { s with completeMetricCreation } k x tableName fromPool = some s') ∨
        ∃ err, s' = s.setHandler k { x with phase := .startFailed creator err }) := by
  simp only [State.lookup, Option.bind_eq_bind, Option.bind_eq_some_iff] at h
  obtain ⟨x, hk, hstep⟩ := h
  cases hp : x.phase <;> simp only [hp, reduceCtorEq] at hstep
  case starting creator =>
    refine ⟨x, creator, hk, hp, ?_⟩
    cases reply with
    | cached tableName => exact .inl ⟨tableName, s.completeMetricCreation, hstep⟩
    | created tableName possiblyNew => exact .inl ⟨tableName, _, hstep⟩
    | cacheFailed err => exact .inr ⟨err, (Option.some.inj hstep).symm⟩
    | queryFailed err => exact .inr ⟨err, (Option.some.inj hstep).symm⟩

theorem offerStartFailure_cases (h : s.offerStartFailure k = some s') :
    ∃ x creator err, s.handlers[k]? = some x ∧ x.phase = .startFailed creator err ∧
      s' = (s.offer creator err).setHandler k { x with phase := .failed err } := by
  simp only [State.offerStartFailure, Option.bind_eq_bind, Option.bind_eq_some_iff] at h
  obtain ⟨x, hk, hstep⟩ := h
  split at hstep
  case h_1 creator err hp => exact ⟨x, creator, err, hk, hp, (Option.some.inj hstep).symm⟩
  case h_2 => cases hstep

theorem handle_cases {f : Handler → Option Handler} (h : s.handle k f = some s') :
    ∃ x x', s.handlers[k]? = some x ∧ f x = some x' ∧ s' = s.setHandler k x' := by
  simp only [State.handle, Option.bind_eq_bind, Option.bind_eq_some_iff, Option.some.injEq] at h
  obtain ⟨x, hk, x', hx', hs'⟩ := h
  exact ⟨x, x', hk, hx', hs'.symm⟩

theorem hand_cases {fromPool : Option Nat} (h : s.hand k fromPool = some s') :
    ∃ x r table pending t, s.handlers[k]? = some x ∧ x.phase = .handing r ∧
      x.metricTableName = some table ∧ s.toCopiers.length < s.copiers.length ∧
      s.getBuffer fromPool = some (pending, t) ∧
      s' = State.setHandler { t with toCopiers := t.toCopiers ++ [⟨x.pending, table⟩] } k
        (Handler.resume { x with pending } r) := by
  simp only [State.hand, Option.bind_eq_bind, Option.bind_eq_some_iff] at h
  obtain ⟨x, hk, hstep⟩ := h
  split at hstep
  case h_1 r table hp htable =>
    simp only [Option.bind_eq_some_iff, Option.guard_eq_some', Option.some.injEq,
      Prod.exists] at hstep
    obtain ⟨_, hroom, pending, t, hget, hs'⟩ := hstep
    exact ⟨x, r, table, pending, t, hk, hp, htable, hroom, hget, hs'.symm⟩
  case h_2 => cases hstep

theorem handlerReport_cases (h : s.handlerReport k = some s') :
    ∃ x, s.handlers[k]? = some x ∧
      ((∃ err task e, x.phase = .answering err task (some e) ∧
          s' = (s.offer task.call e).setHandler k { x with phase := .answering err task none }) ∨
        (∃ err task, x.phase = .answering err task none ∧
          s' = (s.done task).setHandler k { x with phase := .failed err }) ∨
        ∃ err next r, x.phase = .reporting err next r ∧
          (x.pending.needsResponse = [] ∧
              s' = s.setHandler k ({ x with pending := x.pending.clear }.resume r) ∨
            ∃ t rest, x.pending.needsResponse = t :: rest ∧
              s' = (s.respond (some err) t rest next).1.setHandler k { x with
                phase := .reporting err (s.respond (some err) t rest next).2.2 r
                pending := { x.pending with
                  needsResponse := (s.respond (some err) t rest next).2.1 } })) := by
  simp only [State.handlerReport, Option.bind_eq_bind, Option.bind_eq_some_iff] at h
  obtain ⟨x, hk, hstep⟩ := h
  refine ⟨x, hk, ?_⟩
  split at hstep
  case h_1 err task e hp => exact .inl ⟨err, task, e, hp, (Option.some.inj hstep).symm⟩
  case h_2 err task hp => exact .inr (.inl ⟨err, task, hp, (Option.some.inj hstep).symm⟩)
  case h_3 err next r hp =>
    refine .inr (.inr ⟨err, next, r, hp, ?_⟩)
    split at hstep
    case h_1 hneeds => exact .inl ⟨hneeds, (Option.some.inj hstep).symm⟩
    case h_2 t rest hneeds => exact .inr ⟨t, rest, hneeds, (Option.some.inj hstep).symm⟩
  case h_4 => cases hstep

theorem take_cases (h : s.take j = some s') :
    ∃ req rest, s.copiers[j]? = some .idle ∧ s.toCopiers = req :: rest ∧
      s' = { s with toCopiers := rest }.setCopier j (.inserting req) := by
  simp only [State.take, Option.bind_eq_bind, Option.bind_eq_some_iff] at h
  obtain ⟨c, hj, hstep⟩ := h
  split at hstep
  case h_1 req rest hqueue => exact ⟨req, rest, hj, hqueue, (Option.some.inj hstep).symm⟩
  case h_2 => cases hstep

theorem doInsert_cases {reply : Option Err} (h : s.doInsert j reply = some s') :
    (∃ req, s.copiers[j]? = some (.inserting req) ∧ s' = s.insert j req reply .recovering) ∨
    ∃ req, s.copiers[j]? = some (.retrying req) ∧
      s' = s.insert j req reply fun req err => .reporting req.data (some err) (some err) := by
  simp only [State.doInsert, Option.bind_eq_bind, Option.bind_eq_some_iff] at h
  obtain ⟨c, hj, hstep⟩ := h
  split at hstep
  case h_1 req => exact .inl ⟨req, hj, (Option.some.inj hstep).symm⟩
  case h_2 req => exact .inr ⟨req, hj, (Option.some.inj hstep).symm⟩
  case h_3 => cases hstep

theorem tryRecovery_cases {reply : Option Err} (h : s.tryRecovery j reply = some s') :
    ∃ req err, s.copiers[j]? = some (.recovering req err) ∧
      (recoverable err = true ∧ reply = none ∧
          s' = s.setCopier j (.retrying
            { req with data := { req.data with batch := req.data.batch.resetPosition } }) ∨
        (recoverable err && reply.isNone) = false ∧
          s' = s.setCopier j (.reporting req.data (some err) (some err))) := by
  simp only [State.tryRecovery, Option.bind_eq_bind, Option.bind_eq_some_iff] at h
  obtain ⟨c, hj, hstep⟩ := h
  split at hstep
  case h_1 req err =>
    refine ⟨req, err, hj, ?_⟩
    split at hstep
    case isTrue hrecoverable =>
      rw [Bool.and_eq_true, Option.isNone_iff_eq_none] at hrecoverable
      exact .inl ⟨hrecoverable.1, hrecoverable.2, (Option.some.inj hstep).symm⟩
    case isFalse hnot =>
      exact .inr ⟨eq_false_of_ne_true hnot, (Option.some.inj hstep).symm⟩
  case h_2 => cases hstep

theorem copierReport_cases (h : s.copierReport j = some s') :
    ∃ data err next, s.copiers[j]? = some (.reporting data err next) ∧
      (data.needsResponse = [] ∧
          s' = { s with pool := data.clear :: s.pool }.setCopier j .idle ∨
        ∃ t rest, data.needsResponse = t :: rest ∧
          s' = (s.respond err t rest next).1.setCopier j (.reporting
            { data with needsResponse := (s.respond err t rest next).2.1 } err
            (s.respond err t rest next).2.2)) := by
  simp only [State.copierReport, Option.bind_eq_bind, Option.bind_eq_some_iff] at h
  obtain ⟨c, hj, hstep⟩ := h
  split at hstep
  case h_1 data err next =>
    refine ⟨data, err, next, hj, ?_⟩
    split at hstep
    case h_1 hneeds => exact .inl ⟨hneeds, (Option.some.inj hstep).symm⟩
    case h_2 t rest hneeds => exact .inr ⟨t, rest, hneeds, (Option.some.inj hstep).symm⟩
  case h_2 => cases hstep

end Enabled

end TimescalePrometheus.Ingest.Pipeline
