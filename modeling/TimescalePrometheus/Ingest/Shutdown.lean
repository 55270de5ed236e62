import TimescalePrometheus.Ingest.Routines

/-!
`pgxInserter.Close` beside the pipeline. From a closed channel a receive gets what was
buffered and then, without waiting, zero values; a send on one panics.
-/

namespace TimescalePrometheus.Ingest.Shutdown

open Ingest.Samples Ingest.SeriesIds
open Ingest.Pipeline hiding State Action step step?
open Ingest.Custody
open Ingest.Handovers Ingest.HandlerSteps Ingest.Routines Lib.Runs Lib.Tokens

/-- Where `Close` is. -/
inductive Closer
  | notStarted
  /-- In the range over the inserters, with those it has still to close. -/
  | ranging (rest : List Nat)
  | finished
  deriving DecidableEq

/-- The pipeline and what `Close` has done. -/
structure State where
  pipeline : Pipeline.State
  closer : Closer
  /-- The handlers whose channel is closed. -/
  closedInputs : List Nat
  /-- The handlers whose routine has returned. -/
  returned : List Nat
  /-- The handlers that took a zero value for a request, once for each time. -/
  zeroRequests : List Nat

/-- `Close` is about to be called. -/
def State.start (s : Pipeline.State) : State := ⟨s, .notStarted, [], [], []⟩

/-- A step of `Close` or of the pipeline. -/
inductive Action
  | closeCompleteMetricCreation
  | closeInput (k : Nat)
  | closeToCopiers
  | pipeline (a : Pipeline.Action)

/-- `handleReq` of a zero value in the hot loop. It has no data; its task, whose wait group
is nil, is not followed any further. -/
def handleZero (h : Handler) : Handler :=
  if h.pending.batch.sampleInfos.length > flushSize then { h with phase := .flushing .hotReceive }
  else h.resume .hotReceive

namespace State

def panicked (s : State) : State :=
  { s with pipeline := { s.pipeline with panic := some .sendOnClosedChannel } }

/-- An action that meets no closed channel. -/
def proceed (s : State) (a : Pipeline.Action) : Option State :=
  (Pipeline.step? s.pipeline a).map fun pipeline => { s with pipeline }

/-- A receive from a channel that is closed and empty. The blocking receive and the range
of the failure routine look at `ok`, the non-blocking receive does not. -/
def receiveClosed (s : State) (k : Nat) (h : Handler) : Option State :=
  match h.phase with
  | .top | .failed _ =>
    if k ∈ s.returned then none else some { s with returned := k :: s.returned }
  | .hot =>
    some { s with
      pipeline := s.pipeline.setHandler k (handleZero h)
      zeroRequests := k :: s.zeroRequests }
  | _ => none

def receive (s : State) (k : Nat) : Option State := do
  let h ← s.pipeline.handlers[k]?
  if h.input = [] ∧ k ∈ s.closedInputs then s.receiveClosed k h else s.proceed (.receive k)

/-- The channel that a call is about to send on is closed. -/
def sendsOnClosed (s : State) (i : Nat) : Bool :=
  match s.pipeline.calls[i]? with
  | some c =>
    match c.phase with
    | .delivering k _ _ => decide (k ∈ s.closedInputs)
    | _ => false
  | none => false

/-- A handler with a possibly new metric signals on a closed channel. -/
def signalsOnClosed (s : State) (k : Nat) (reply : TableReply) : Bool :=
  match s.pipeline.handlers[k]? with
  | some h =>
    match h.phase, reply with
    | .starting _, .created _ true => decide (s.closer ≠ .notStarted)
    | _, _ => false
  | none => false

/-- A handler flushes to the closed channel of the copiers. -/
def flushesOnClosed (s : State) (k : Nat) : Bool :=
  match s.pipeline.handlers[k]? with
  | some h =>
    match h.phase with
    | .handing _ => decide (s.closer = .finished)
    | _ => false
  | none => false

def pipelineStep (s : State) : Pipeline.Action → Option State
  -- no call comes after `Close` was called
  | .insertData _ => none
  | .send i => if s.sendsOnClosed i then some s.panicked else s.proceed (.send i)
  | .lookup k reply fromPool =>
    if s.signalsOnClosed k reply then some s.panicked else s.proceed (.lookup k reply fromPool)
  | .receive k => s.receive k
  -- a closed channel is always ready, so the default branch is not taken
  | .receiveNone k => if k ∈ s.closedInputs then none else s.proceed (.receiveNone k)
  | .hand k fromPool =>
    if s.flushesOnClosed k then some s.panicked else s.proceed (.hand k fromPool)
  | a => s.proceed a

end State

def step? (s : State) : Action → Option State
  | .closeCompleteMetricCreation =>
    match s.closer with
    | .notStarted => some { s with closer := .ranging (List.range s.pipeline.handlers.length) }
    | _ => none
  | .closeInput k =>
    match s.closer with
    | .ranging rest =>
      if k ∈ rest then
        some { s with closer := .ranging (rest.erase k), closedInputs := k :: s.closedInputs }
      else none
    | _ => none
  | .closeToCopiers =>
    match s.closer with
    | .ranging [] => some { s with closer := .finished }
    | _ => none
  | .pipeline a => s.pipelineStep a

/-- Nothing happens after a panic. -/
def step (s : State) (a : Action) : State :=
  if s.pipeline.panic.isSome then s else (step? s a).getD s

/-- The tasks that were flushed to a copier or answered. -/
def passedOn (s : Pipeline.State) : List Task :=
  s.toCopiers.flatMap (·.data.needsResponse) ++ (s.copiers.flatMap copierTasks ++ s.answered)

/-- No insert routine can go on. -/
def AtRest (s : State) : Prop :=
  ∀ a, (routine? a).isSome → s.pipelineStep a = none

structure Safe (s : State) : Prop where
  noZeroRequest : s.zeroRequests = []
  issued : ∀ h ∈ s.pipeline.handlers, ∀ r ∈ h.input, Issued s.pipeline r
  panic : s.pipeline.panic = none
  settled : ∀ t ∈ s.pipeline.answered, Settled s.pipeline t
  atMostOnce : ∀ t, (passedOn s.pipeline).count t ≤ 1
  exactlyOnce : AtRest s → ∀ t ∈ Custody.issued s.pipeline, (passedOn s.pipeline).count t = 1

/-- An insert routine can take the action. -/
def routineStep (s : State) : Action → Bool
  | .pipeline a => (routine? a).isSome && s.pipeline.panic.isNone && (s.pipelineStep a).isSome
  | _ => false

/-- Whatever the interleaving with `Close`, every state is safe and the insert routines
come to rest. -/
structure ShutdownSafe (s : Pipeline.State) : Prop where
  safe : ∀ schedule, Safe (run step (.start s) schedule)
  rests : ∃ bound, ∀ schedule, countSteps step routineStep (.start s) schedule ≤ bound

/-- Every call has sent its requests. -/
def AllSent (s : Pipeline.State) : Prop := ∀ c ∈ s.calls, unsent c = []

/-- The routine waits for a request, or will do so once it has reported an error, and
none is buffered; or it has failed and only answers requests. -/
def idle (h : Handler) : Bool :=
  match h.phase with
  | .top => h.input.isEmpty
  | .reporting _ _ .loop => h.input.isEmpty
  | .startFailed _ _ => true
  | .failed _ => true
  | .answering _ _ _ => true
  | _ => false

/-- No routine has anything to do. -/
def Quiet (s : Pipeline.State) : Prop := ∀ h ∈ s.handlers, idle h = true

section Idle

variable {h h' : Handler}

/-- The steps that an idle routine has left before it waits or returns. -/
def work (h : Handler) : Nat :=
  match h.phase with
  | .reporting _ next _ => 2 * h.pending.needsResponse.length + next.isSome.toNat + 1
  | .startFailed _ _ => 3 * h.input.length + 1
  | .failed _ => 3 * h.input.length
  | .answering _ _ next => 3 * h.input.length + next.isSome.toNat + 1
  | _ => 0

theorem receive_of_idle (hidle : idle h = true) (hreceive : h.receive = some h') :
    idle h' = true ∧ work h' < work h := by
  unfold Handler.receive at hreceive
  cases hinput : h.input with
  | nil => simp [hinput] at hreceive
  | cons req input =>
    simp only [hinput] at hreceive
    cases hp : h.phase <;> simp only [hp, reduceCtorEq, Option.some.injEq] at hreceive
    case failed err =>
      subst hreceive
      refine ⟨rfl, ?_⟩
      simp only [work, hp, hinput, Option.isSome_some, Bool.toNat_true, List.length_cons]
      omega
    case top => simp [idle, hp, hinput] at hidle
    case hot => simp [idle, hp] at hidle

theorem acts_of_idle (hidle : idle h = true) (hacts : Acts h h') :
    idle h' = true ∧ work h' < work h := by
  cases hacts with
  | serve tableName hp | startFailed err hp => simp [idle, hp] at hidle
  | fail hp =>
    refine ⟨rfl, ?_⟩
    simp [work, hp]
  | receive hreceive => exact receive_of_idle hidle hreceive
  | receiveNone hreceive =>
    unfold Handler.receiveNone at hreceive
    split at hreceive
    · rename_i hp hinput
      simp [idle, hp] at hidle
    · cases hreceive
  | setSeriesIds hset =>
    unfold Handler.setSeriesIds at hset
    split at hset
    · rename_i hp
      simp [idle, hp] at hidle
    · cases hset
  | hand hp => simp [idle, hp] at hidle
  | offer hp =>
    refine ⟨rfl, ?_⟩
    simp [work, hp]
  | answer hp =>
    refine ⟨rfl, ?_⟩
    simp [work, hp]
  | @respond err next next' r t rest needsResponse hp hneeds hround =>
    cases r with
    | hotReceive => simp [idle, hp] at hidle
    | loop =>
      have hinput : h.input = [] := by simpa [idle, hp] using hidle
      refine ⟨by simp [idle, hinput], ?_⟩
      rcases hround with ⟨hnext, rfl, rfl⟩ | ⟨rfl, rfl, rfl⟩
      · simp [work, hp, hneeds, hnext]
      · simp only [work, hp, hneeds, Option.isSome_some, Option.isSome_none, Bool.toNat_true,
          Bool.toNat_false, List.length_cons]
        omega
  | @clear err next r hp hneeds =>
    cases r with
    | hotReceive => simp [idle, hp] at hidle
    | loop =>
      have hinput : h.input = [] := by simpa [idle, hp] using hidle
      have heq : Handler.resume { h with pending := h.pending.clear } .loop =
          { h with pending := h.pending.clear, phase := .top } := rfl
      rw [heq]
      refine ⟨by simp [idle, hinput], ?_⟩
      simp [work, hp]

end Idle

section Quiet

variable {s s' : State}

/-- What holds from the call of `Close` on if it finds the routines idle. -/
structure QuietInv (s : State) : Prop where
  inv : Inv [] s.pipeline
  tidy : Tidy s.pipeline
  sent : AllSent s.pipeline
  quiet : Quiet s.pipeline
  zero : s.zeroRequests = []
  nodup : s.returned.Nodup
  bound : ∀ k ∈ s.returned, k < s.pipeline.handlers.length

theorem send_of_allSent {p : Pipeline.State} (hsent : AllSent p) (i : Nat) :
    Pipeline.step? p (.send i) = none ∧ Pipeline.step? p (.getMetricInserter i) = none := by
  simp only [Pipeline.step?, State.send, State.getMetricInserter]
  cases hc : p.calls[i]? with
  | none => simp
  | some c =>
    have hnone : unsent c = [] := hsent c (List.mem_of_getElem? hc)
    simp only [Option.bind_eq_bind, Option.bind_some]
    cases hp : c.phase with
    | sending rest =>
      rw [unsent, hp] at hnone
      cases hnone
      exact ⟨rfl, rfl⟩
    | delivering k request rest =>
      rw [unsent, hp] at hnone
      cases hnone
    | _ => exact ⟨rfl, rfl⟩

theorem Quiet.idle_of_getElem? {p : Pipeline.State} (hquiet : Quiet p) {k : Nat} {h : Handler}
    (hk : p.handlers[k]? = some h) : idle h = true :=
  hquiet h (List.mem_of_getElem? hk)

theorem sendsOnClosed_of_allSent (hsent : AllSent s.pipeline) (i : Nat) :
    s.sendsOnClosed i = false := by
  unfold State.sendsOnClosed
  split
  · rename_i c hc
    have hnone := hsent c (List.mem_of_getElem? hc)
    split
    · rename_i hp
      simp [unsent, hp] at hnone
    · rfl
  · rfl

theorem signalsOnClosed_of_quiet (hquiet : Quiet s.pipeline) (k : Nat) (reply : TableReply) :
    s.signalsOnClosed k reply = false := by
  unfold State.signalsOnClosed
  split
  · rename_i h hk
    have hidle := hquiet.idle_of_getElem? hk
    split
    · rename_i hp
      simp [idle, hp] at hidle
    · rfl
  · rfl

theorem flushesOnClosed_of_quiet (hquiet : Quiet s.pipeline) (k : Nat) :
    s.flushesOnClosed k = false := by
  unfold State.flushesOnClosed
  split
  · rename_i h hk
    have hidle := hquiet.idle_of_getElem? hk
    split
    · rename_i hp
      simp [idle, hp] at hidle
    · rfl
  · rfl

/-- The action meets no closed channel. -/
def Proceeds (s : State) (a : Pipeline.Action) (s' : State) : Prop :=
  ∃ p, Pipeline.step? s.pipeline a = some p ∧ s' = { s with pipeline := p }

theorem proceeds_of_proceed {a : Pipeline.Action} (h : s.proceed a = some s') :
    Proceeds s a s' := by
  obtain ⟨p, hp, rfl⟩ := Option.map_eq_some_iff.mp h
  exact ⟨p, hp, rfl⟩

theorem receive_cases (hquiet : Quiet s.pipeline) {k : Nat} (h : s.receive k = some s') :
    Proceeds s (.receive k) s' ∨
      k < s.pipeline.handlers.length ∧ k ∉ s.returned ∧
        s' = { s with returned := k :: s.returned } := by
  simp only [State.receive, Option.bind_eq_bind, Option.bind_eq_some_iff] at h
  obtain ⟨x, hk, h⟩ := h
  split at h
  · have hidle := hquiet.idle_of_getElem? hk
    unfold State.receiveClosed at h
    split at h
    · split at h
      · cases h
      · rename_i hnew
        exact .inr ⟨(List.getElem?_eq_some_iff.mp hk).1, hnew, (Option.some.inj h).symm⟩
    · split at h
      · cases h
      · rename_i hnew
        exact .inr ⟨(List.getElem?_eq_some_iff.mp hk).1, hnew, (Option.some.inj h).symm⟩
    · rename_i hp
      simp [idle, hp] at hidle
    · cases h
  · exact .inl (proceeds_of_proceed h)

theorem pipelineStep_cases (hinv : QuietInv s) {a : Pipeline.Action}
    (h : s.pipelineStep a = some s') :
    (Proceeds s a s' ∧ (∀ rows, a ≠ .insertData rows) ∧
      ∀ i, a ≠ .send i ∧ a ≠ .getMetricInserter i) ∨
    ∃ k, a = .receive k ∧ k < s.pipeline.handlers.length ∧ k ∉ s.returned ∧
      s' = { s with returned := k :: s.returned } := by
  cases a <;> simp only [State.pipelineStep] at h
  case insertData rows => cases h
  case send i =>
    simp only [sendsOnClosed_of_allSent hinv.sent, Bool.false_eq_true, if_false, State.proceed,
      (send_of_allSent hinv.sent i).1, Option.map_none, reduceCtorEq] at h
  case getMetricInserter i =>
    simp only [State.proceed, (send_of_allSent hinv.sent i).2, Option.map_none, reduceCtorEq] at h
  case lookup k reply fromPool =>
    simp only [signalsOnClosed_of_quiet hinv.quiet, Bool.false_eq_true, if_false] at h
    exact .inl ⟨proceeds_of_proceed h, by simp, by simp⟩
  case receive k =>
    rcases receive_cases hinv.quiet h with hproceeds | ⟨hk, hnew, heq⟩
    · exact .inl ⟨hproceeds, by simp, by simp⟩
    · exact .inr ⟨k, rfl, hk, hnew, heq⟩
  case receiveNone k =>
    split at h
    · cases h
    · exact .inl ⟨proceeds_of_proceed h, by simp, by simp⟩
  case hand k fromPool =>
    simp only [flushesOnClosed_of_quiet hinv.quiet, Bool.false_eq_true, if_false] at h
    exact .inl ⟨proceeds_of_proceed h, by simp, by simp⟩
  all_goals exact .inl ⟨proceeds_of_proceed h, by simp, by simp⟩

/-- The steps of all routines, with one for the return of each. -/
def rank (s : State) : Nat :=
  (s.pipeline.handlers.map work).sum + (s.pipeline.handlers.length - s.returned.length)

theorem sum_map_set {l : List Handler} {k : Nat} {x y : Handler} (hk : l[k]? = some x)
    (hlt : work y < work x) : ((l.set k y).map work).sum < (l.map work).sum := by
  induction l generalizing k with
  | nil => simp at hk
  | cons z l ih =>
    cases k with
    | zero =>
      obtain rfl : z = x := by simpa using hk
      simpa using hlt
    | succ k =>
      have hrest := ih (by simpa using hk)
      simpa using hrest

theorem handlers_of_proceeds (hinv : QuietInv s) {a : Pipeline.Action} {p : Pipeline.State}
    (hp : Pipeline.step? s.pipeline a = some p)
    (hsend : ∀ i, a ≠ .send i ∧ a ≠ .getMetricInserter i) :
    Quiet p ∧ p.handlers.length = s.pipeline.handlers.length ∧
      (p.handlers.map work).sum + (routine? a).isSome.toNat ≤
        (s.pipeline.handlers.map work).sum := by
  cases ha : routine? a with
  | some k =>
    obtain ⟨x, x', hk, hacts, heq⟩ := acts_of_step? hinv.inv ha hp
    obtain ⟨hidle, hwork⟩ := acts_of_idle (hinv.quiet.idle_of_getElem? hk) hacts
    rw [heq]
    refine ⟨?_, List.length_set, sum_map_set hk hwork⟩
    intro y hy
    rw [heq] at hy
    rcases List.mem_or_eq_of_mem_set hy with hy | rfl
    · exact hinv.quiet y hy
    · exact hidle
  | none =>
    have heq : p.handlers = s.pipeline.handlers := by
      obtain heq | ⟨_, i, hget, -⟩ | ⟨i, _, _, _, hsent, -⟩ := handlers_of_step? ha hp
      · exact heq
      · exact absurd hget (hsend i).2
      · exact absurd hsent (hsend i).1
    rw [heq]
    refine ⟨fun y hy => hinv.quiet y (heq ▸ hy), rfl, le_rfl⟩

theorem allSent_of_step? {p p' : Pipeline.State} (hsent : AllSent p) {a : Pipeline.Action}
    (h : Pipeline.step? p a = some p') (hinsert : ∀ rows, a ≠ .insertData rows)
    (hsend : ∀ i, a ≠ .send i) : AllSent p' := by
  intro c hc
  have hmem : outstanding c ∈ p.calls.map outstanding :=
    outstanding_of_step? hinsert hsend h ▸ List.mem_map_of_mem hc
  obtain ⟨c₀, hc₀, heq⟩ := List.mem_map.mp hmem
  rw [← hsent c₀ hc₀]
  exact (congrArg Prod.snd heq).symm

theorem length_returned_lt (hinv : QuietInv s) {k : Nat} (hk : k < s.pipeline.handlers.length)
    (hnew : k ∉ s.returned) : s.returned.length < s.pipeline.handlers.length := by
  have hnodup : (k :: s.returned).Nodup := List.nodup_cons.mpr ⟨hnew, hinv.nodup⟩
  have hsub : k :: s.returned ⊆ List.range s.pipeline.handlers.length := by
    intro i hi
    rw [List.mem_range]
    rcases List.mem_cons.mp hi with rfl | hi
    · exact hk
    · exact hinv.bound i hi
  have hle := (List.subperm_of_subset hnodup hsub).length_le
  rwa [List.length_range] at hle

theorem inv_of_step? {p p' : Pipeline.State} (hinv : Inv [] p) (htidy : Tidy p)
    {a : Pipeline.Action} (h : Pipeline.step? p a = some p') : Inv [] p' ∧ Tidy p' := by
  have heq : Pipeline.step p a = p' := by
    simp [Pipeline.step, hinv.panic, h]
  rw [← heq]
  exact ⟨Acknowledgement.step_inv hinv a, htidy.step hinv a⟩

theorem QuietInv.pipelineStep (hinv : QuietInv s) {a : Pipeline.Action}
    (h : s.pipelineStep a = some s') :
    QuietInv s' ∧ (routine? a).isSome.toNat + rank s' ≤ rank s := by
  rcases pipelineStep_cases hinv h with ⟨⟨p, hp, rfl⟩, hinsert, hsend⟩ | ⟨k, rfl, hk, hnew, rfl⟩
  · obtain ⟨hquiet, hlength, hwork⟩ := handlers_of_proceeds hinv hp hsend
    obtain ⟨hpinv, hptidy⟩ := inv_of_step? hinv.inv hinv.tidy hp
    refine ⟨⟨hpinv, hptidy, allSent_of_step? hinv.sent hp hinsert fun i => (hsend i).1, hquiet,
      hinv.zero, hinv.nodup, ?_⟩, ?_⟩
    · rw [hlength]
      exact hinv.bound
    · simp only [rank, hlength]
      omega
  · refine ⟨{ hinv with
      nodup := List.nodup_cons.mpr ⟨hnew, hinv.nodup⟩
      bound := List.forall_mem_cons.mpr ⟨hk, hinv.bound⟩ }, ?_⟩
    have hlt := length_returned_lt hinv hk hnew
    simp only [rank, routine?, Option.isSome_some, Bool.toNat_true, List.length_cons]
    omega

theorem QuietInv.step (hinv : QuietInv s) (a : Action) :
    QuietInv (Shutdown.step s a) ∧
      (routineStep s a).toNat + rank (Shutdown.step s a) ≤ rank s := by
  unfold Shutdown.step
  rw [hinv.inv.panic]
  simp only [Option.isSome_none, Bool.false_eq_true, if_false]
  cases h : step? s a with
  | none =>
    have hnone : routineStep s a = false := by
      cases a with
      | pipeline a =>
        have hnone : s.pipelineStep a = none := h
        simp [routineStep, hnone]
      | _ => rfl
    simp only [Option.getD_none, hnone, Bool.toNat_false, Nat.zero_add, le_rfl, and_true]
    exact hinv
  | some s' =>
    simp only [Option.getD_some]
    cases a with
    | pipeline a =>
      obtain ⟨hquiet, hrank⟩ := hinv.pipelineStep h
      refine ⟨hquiet, ?_⟩
      have hsome : s.pipelineStep a = some s' := h
      simpa [routineStep, hinv.inv.panic, hsome] using hrank
    | closeCompleteMetricCreation =>
      simp only [step?] at h
      split at h <;> cases h
      exact ⟨{ hinv with }, by simp [routineStep, rank]⟩
    | closeInput k =>
      simp only [step?] at h
      split at h
      · split at h <;> cases h
        exact ⟨{ hinv with }, by simp [routineStep, rank]⟩
      · cases h
    | closeToCopiers =>
      simp only [step?] at h
      split at h <;> cases h
      exact ⟨{ hinv with }, by simp [routineStep, rank]⟩

theorem handlerTasks_of_atRest (hinv : QuietInv s) (hrest : AtRest s) {k : Nat} {h : Handler}
    (hk : s.pipeline.handlers[k]? = some h) : handlerTasks h = [] := by
  have hidle := hinv.quiet.idle_of_getElem? hk
  have hphase := hinv.inv.phases k h hk
  cases hp : h.phase <;> simp only [idle, hp, Bool.false_eq_true] at hidle <;>
    simp only [PhaseOk, hp] at hphase
  case top =>
    have hnone := needsResponse_of_top hinv.inv hinv.tidy hk hp
    simp only [handlerTasks, hp, hnone, taskInHand, List.isEmpty_iff.mp hidle]
    rfl
  case startFailed creator err =>
    have hstep := hrest (.offerStartFailure k) rfl
    simp [State.pipelineStep, State.proceed, Pipeline.step?, State.offerStartFailure, hk, hp]
      at hstep
  case failed err =>
    cases hinput : h.input with
    | nil =>
      simp only [handlerTasks, hp, hinput, hphase, taskInHand]
      rfl
    | cons req input =>
      have hstep := hrest (.receive k) rfl
      simp [State.pipelineStep, State.receive, State.proceed, Pipeline.step?, State.handle, hk,
        hinput, Handler.receive, hp] at hstep
  case answering err task next =>
    have hstep := hrest (.handlerReport k) rfl
    cases next <;>
      simp [State.pipelineStep, State.proceed, Pipeline.step?, State.handlerReport, hk, hp] at hstep
  case reporting err next r =>
    have hstep := hrest (.handlerReport k) rfl
    cases hneeds : h.pending.needsResponse <;>
      simp [State.pipelineStep, State.proceed, Pipeline.step?, State.handlerReport, hk, hp,
        hneeds] at hstep

theorem safe_of_quietInv (hinv : QuietInv s) : Safe s := by
  have hcalls : s.pipeline.calls.flatMap callTasks = [] := by
    rw [List.flatMap_eq_nil_iff]
    intro c hc
    rw [callTasks, hinv.sent c hc, List.map_nil]
  have hcount := hinv.inv.balanced.count
  simp only [List.nil_append, held, hcalls, List.count_append] at hcount
  refine ⟨hinv.zero, ?_, hinv.inv.panic, hinv.inv.answered, ?_, ?_⟩
  · intro h hh r hr
    obtain ⟨k, hk⟩ := List.mem_iff_getElem?.mp hh
    exact (hinv.inv.inputs k h hk r hr).1
  · intro t
    have hone := List.nodup_iff_count_le_one.mp hinv.inv.balanced.nodup t
    have ht := hcount t
    simp only [passedOn, List.count_append]
    omega
  · intro hrest t ht
    have hhandlers : s.pipeline.handlers.flatMap handlerTasks = [] := by
      rw [List.flatMap_eq_nil_iff]
      intro h hh
      obtain ⟨k, hk⟩ := List.mem_iff_getElem?.mp hh
      exact handlerTasks_of_atRest hinv hrest hk
    have hone := List.count_eq_one_of_mem hinv.inv.balanced.nodup ht
    have hbalance := hcount t
    rw [hhandlers, List.count_nil] at hbalance
    simp only [passedOn, List.count_append]
    omega

theorem shutdownSafe_of_quiet {p : Pipeline.State} (hinv : Inv [] p) (htidy : Tidy p)
    (hsent : AllSent p) (hquiet : Quiet p) : ShutdownSafe p := by
  have hstart : QuietInv (.start p) :=
    ⟨hinv, htidy, hsent, hquiet, rfl, List.nodup_nil, by simp [State.start]⟩
  refine ⟨fun schedule => ?_, rank (.start p), fun schedule => ?_⟩
  · apply safe_of_quietInv
    exact run_invariant QuietInv (fun _ a hs => (hs.step a).1) hstart schedule
  · exact countSteps_le QuietInv rank (fun _ a hs => hs.step a) hstart schedule

end Quiet

section Busy

variable {s : State} {k : Nat} {h h' : Handler}

/-- `Close` without interruption. -/
def closeAll (n : Nat) : List Action :=
  .closeCompleteMetricCreation :: ((List.range n).map .closeInput ++ [.closeToCopiers])

theorem run_closeInputs (rest : List Nat) (hpanic : s.pipeline.panic = none)
    (hcloser : s.closer = .ranging rest) :
    run step s (rest.map .closeInput) =
      { s with closer := .ranging [], closedInputs := rest.reverse ++ s.closedInputs } := by
  induction rest generalizing s with
  | nil =>
    cases s
    simp_all
  | cons k rest ih =>
    have hstep : step s (.closeInput k) =
        { s with closer := .ranging rest, closedInputs := k :: s.closedInputs } := by
      simp [step, step?, hpanic, hcloser]
    rw [List.map_cons, run_cons, hstep, ih]
    · simp
    · exact hpanic
    · rfl

theorem run_closeAll {p : Pipeline.State} (hpanic : p.panic = none) :
    run step (.start p) (closeAll p.handlers.length) =
      ⟨p, .finished, (List.range p.handlers.length).reverse, [], []⟩ := by
  have hfirst : step (.start p) .closeCompleteMetricCreation =
      { State.start p with closer := .ranging (List.range p.handlers.length) } := by
    simp [step, step?, State.start, hpanic]
  rw [closeAll, run_cons, hfirst, run_append, run_closeInputs _ hpanic rfl, run_cons, run_nil]
  simp [step, step?, State.start, hpanic]

structure Closed (s : State) : Prop where
  inv : Inv [] s.pipeline
  tidy : Tidy s.pipeline
  finished : s.closer = .finished
  inputs : ∀ k < s.pipeline.handlers.length, k ∈ s.closedInputs

/-- The steps until a routine that is not idle meets a closed channel, if the database
answers and it takes them one after the other. -/
def delay (h : Handler) : Nat :=
  match h.phase with
  | .flushing _ => 1
  | .top => h.input.length + 2
  | .hot => h.input.length + 2
  | .reporting _ next _ =>
    h.input.length + 2 * h.pending.needsResponse.length + next.isSome.toNat + 3
  | _ => 0

theorem not_safe_of_panicked {a : Pipeline.Action} (hclosed : Closed s)
    (h : s.pipelineStep a = some s.panicked) : ∃ schedule, ¬ Safe (run step s schedule) := by
  refine ⟨[.pipeline a], fun hsafe => ?_⟩
  have heq : run step s [.pipeline a] = s.panicked := by
    simp [step, step?, hclosed.inv.panic, h]
  rw [heq] at hsafe
  exact absurd hsafe.panic (by simp [State.panicked])

theorem not_safe_of_zero (hclosed : Closed s) (hk : s.pipeline.handlers[k]? = some h)
    (hp : h.phase = .hot) (hinput : h.input = []) :
    ∃ schedule, ¬ Safe (run step s schedule) := by
  refine ⟨[.pipeline (.receive k)], fun hsafe => ?_⟩
  have hclosedInput := hclosed.inputs k (List.getElem?_eq_some_iff.mp hk).1
  have hzero := hsafe.noZeroRequest
  simp [step, step?, hclosed.inv.panic, State.pipelineStep, State.receive, hk, hinput,
    hclosedInput, State.receiveClosed, hp] at hzero

theorem not_safe_of_next {a : Pipeline.Action} {p : Pipeline.State} (hclosed : Closed s)
    (hk : s.pipeline.handlers[k]? = some h) (hp : Pipeline.step? s.pipeline a = some p)
    (hstep : s.pipelineStep a = s.proceed a) (hset : p.handlers = s.pipeline.handlers.set k h')
    (hnext : ∀ s', Closed s' → s'.pipeline.handlers[k]? = some h' →
      ∃ schedule, ¬ Safe (run step s' schedule)) :
    ∃ schedule, ¬ Safe (run step s schedule) := by
  obtain ⟨hinv, htidy⟩ := inv_of_step? hclosed.inv hclosed.tidy hp
  have hclosed' : Closed { s with pipeline := p } := by
    refine ⟨hinv, htidy, hclosed.finished, ?_⟩
    rw [hset, List.length_set]
    exact hclosed.inputs
  obtain ⟨schedule, hunsafe⟩ := hnext { s with pipeline := p } hclosed'
    (by rw [hset]; exact getElem?_set_self_of_some hk h')
  refine ⟨.pipeline a :: schedule, ?_⟩
  have heq : step s (.pipeline a) = { s with pipeline := p } := by
    simp [step, step?, hclosed.inv.panic, hstep, State.proceed, hp]
  rwa [run_cons, heq]

theorem readResults_committed {δ : Type} (groups : List Group) (tableName : String)
    (f : Filling δ) :
    ∃ t f', readResults (fun _ d => (.committed "" 1, d)) groups tableName f = (.ok t, f') := by
  induction groups generalizing tableName f with
  | nil => exact ⟨tableName, f, rfl⟩
  | cons group groups ih => exact ih _ _

theorem setSeriesIds_committed {r : Resume} (hp : h.phase = .flushing r) :
    ∃ h', h.setSeriesIds none (fun _ => .committed "" 1) = some h' ∧ h'.phase = .handing r := by
  have hok : ∃ t f, SeriesIds.setSeriesIds none (fun _ (d : Unit) => (.committed "" 1, d))
      ⟨h.seriesCache, h.pending.batch.sampleInfos, ()⟩ = (.ok t, f) := by
    simp only [SeriesIds.setSeriesIds]
    split
    · exact ⟨_, _, rfl⟩
    · exact readResults_committed _ _ _
  obtain ⟨t, f, hok⟩ := hok
  simp only [Handler.setSeriesIds, hp]
  rw [hok]
  exact ⟨_, rfl, rfl⟩

theorem handleReq_loop (h : Handler) {req : Request} (hdata : req.data ≠ []) :
    idle (h.handleReq req .loop) = false ∧
      delay (h.handleReq req .loop) ≤ h.input.length + 2 := by
  simp only [Handler.handleReq]
  split
  · exact ⟨rfl, by simp [delay]⟩
  · have hpending : Handler.hasPendingReqs { h with
        pending := (h.pending.addReq
          { req with data := (fillKnowSeriesIds h.seriesCache req.data).1 }).1 } = true := by
      have hpos := List.length_pos_iff.mpr hdata
      simp only [Handler.hasPendingReqs, PendingBuffer.addReq, fillKnowSeriesIds,
        List.length_append, List.length_map, decide_eq_true_eq]
      omega
    simp only [Handler.resume, hpending, if_true]
    exact ⟨rfl, le_rfl⟩

theorem handleReq_hotReceive (h : Handler) (req : Request) :
    idle (h.handleReq req .hotReceive) = false ∧
      delay (h.handleReq req .hotReceive) ≤ h.input.length + 2 := by
  simp only [Handler.handleReq]
  split
  · exact ⟨rfl, by simp [delay]⟩
  · simp only [Handler.resume]
    split
    · rename_i hlong
      have hpending : Handler.hasPendingReqs { h with
          pending := (h.pending.addReq
            { req with data := (fillKnowSeriesIds h.seriesCache req.data).1 }).1 } = true := by
        have hpos : 0 < flushSize := by decide
        simp only [Handler.hasPendingReqs, decide_eq_true_eq]
        exact Nat.lt_of_lt_of_le hpos hlong
      simp only [Handler.flush, hpending, if_true]
      exact ⟨rfl, by simp [delay]⟩
    · exact ⟨rfl, le_rfl⟩

theorem acts_reporting {err : Err} {next : Option Err} {r : Resume}
    (hp : h.phase = .reporting err next r) (hbusy : idle h = false) (hacts : Acts h h') :
    idle h' = false ∧ delay h' < delay h := by
  cases hacts with
  | serve _ hp' | startFailed _ hp' | fail hp' | hand hp' | offer hp' | answer hp' =>
    simp [hp] at hp'
  | receive hreceive =>
    unfold Handler.receive at hreceive
    split at hreceive <;> simp [hp] at hreceive
  | receiveNone hreceive => simp [Handler.receiveNone, hp] at hreceive
  | setSeriesIds hset => simp [Handler.setSeriesIds, hp] at hset
  | @respond err' next₀ next' r' t rest needsResponse hp' hneeds hround =>
    obtain ⟨rfl, rfl, rfl⟩ : err = err' ∧ next = next₀ ∧ r = r' := by simpa [hp] using hp'
    refine ⟨?_, ?_⟩
    · cases r with
      | loop => simpa [idle, hp] using hbusy
      | hotReceive => rfl
    · rcases hround with ⟨hnext, rfl, rfl⟩ | ⟨rfl, rfl, rfl⟩
      · simp [delay, hp, hneeds, hnext]
      · simp only [delay, hp, hneeds, Option.isSome_some, Option.isSome_none, Bool.toNat_true,
          Bool.toNat_false, List.length_cons]
        omega
  | @clear err' next₀ r' hp' hneeds =>
    obtain ⟨rfl, rfl, rfl⟩ : err = err' ∧ next = next₀ ∧ r = r' := by simpa [hp] using hp'
    cases r with
    | loop =>
      have heq : Handler.resume { h with pending := h.pending.clear } .loop =
          { h with pending := h.pending.clear, phase := .top } := rfl
      rw [heq]
      refine ⟨by simpa [idle, hp] using hbusy, ?_⟩
      simp only [delay, hp]
      omega
    | hotReceive =>
      have heq : Handler.resume { h with pending := h.pending.clear } .hotReceive =
          { h with pending := h.pending.clear, phase := .hot } := rfl
      rw [heq]
      refine ⟨rfl, ?_⟩
      simp only [delay, hp]
      omega

theorem handlerReport_enabled {err : Err} {next : Option Err} {r : Resume}
    (hk : s.pipeline.handlers[k]? = some h) (hp : h.phase = .reporting err next r) :
    ∃ p, Pipeline.step? s.pipeline (.handlerReport k) = some p := by
  simp only [Pipeline.step?, State.handlerReport, hk, Option.bind_eq_bind, Option.bind_some, hp]
  cases hneeds : h.pending.needsResponse with
  | nil => exact ⟨_, rfl⟩
  | cons t rest => exact ⟨_, rfl⟩

theorem receive_enabled (hk : s.pipeline.handlers[k]? = some h) {req : Request}
    {input : List Request} (hinput : h.input = req :: input) (hreceive : h.receive = some h') :
    Pipeline.step? s.pipeline (.receive k) = some (s.pipeline.setHandler k h') ∧
      s.pipelineStep (.receive k) = s.proceed (.receive k) := by
  constructor
  · simp [Pipeline.step?, State.handle, hk, hreceive]
  · simp [State.pipelineStep, State.receive, hk, hinput]

theorem not_safe_of_busy (hclosed : Closed s) (hk : s.pipeline.handlers[k]? = some h)
    (hbusy : idle h = false) : ∃ schedule, ¬ Safe (run step s schedule) := by
  induction hn : delay h using Nat.strong_induction_on generalizing s h with
  | h n ih =>
    subst hn
    have hnext : ∀ h', idle h' = false → delay h' < delay h → ∀ s', Closed s' →
        s'.pipeline.handlers[k]? = some h' → ∃ schedule, ¬ Safe (run step s' schedule) :=
      fun h' hbusy' hlt s' hclosed' hk' => ih (delay h') hlt hclosed' hk' hbusy' rfl
    have hdata : ∀ r ∈ h.input, r.data ≠ [] := by
      intro r hr
      obtain ⟨c, hc, hrc⟩ := (hclosed.inv.inputs k h hk r hr).1
      exact hclosed.tidy.data c (List.mem_of_getElem? hc) r hrc
    cases hp : h.phase with
    | starting creator =>
      apply not_safe_of_panicked (a := .lookup k (.created "" true) none) hclosed
      simp [State.pipelineStep, State.signalsOnClosed, hk, hp, hclosed.finished]
    | startFailed creator err => simp [idle, hp] at hbusy
    | failed err => simp [idle, hp] at hbusy
    | answering err task next => simp [idle, hp] at hbusy
    | top =>
      cases hinput : h.input with
      | nil => simp [idle, hp, hinput] at hbusy
      | cons req input =>
        have hreceive : h.receive = some (Handler.handleReq { h with input } req .loop) := by
          simp [Handler.receive, hinput, hp]
        obtain ⟨henabled, hproceeds⟩ := receive_enabled hk hinput hreceive
        obtain ⟨hbusy', hdelay⟩ := handleReq_loop { h with input }
          (hdata req (by simp [hinput]))
        refine not_safe_of_next hclosed hk henabled hproceeds rfl (hnext _ hbusy' ?_)
        simp only [delay, hp, hinput, List.length_cons] at hdelay ⊢
        omega
    | hot =>
      cases hinput : h.input with
      | nil => exact not_safe_of_zero hclosed hk hp hinput
      | cons req input =>
        have hreceive :
            h.receive = some (Handler.handleReq { h with input } req .hotReceive) := by
          simp [Handler.receive, hinput, hp]
        obtain ⟨henabled, hproceeds⟩ := receive_enabled hk hinput hreceive
        obtain ⟨hbusy', hdelay⟩ := handleReq_hotReceive { h with input } req
        refine not_safe_of_next hclosed hk henabled hproceeds rfl (hnext _ hbusy' ?_)
        simp only [delay, hp, hinput, List.length_cons] at hdelay ⊢
        omega
    | flushing r =>
      obtain ⟨h', hset, hp'⟩ := setSeriesIds_committed hp
      have henabled : Pipeline.step? s.pipeline
          (.setSeriesIds k none fun _ => .committed "" 1) = some (s.pipeline.setHandler k h') := by
        simp [Pipeline.step?, State.handle, hk, hset]
      refine not_safe_of_next hclosed hk henabled rfl rfl (hnext h' ?_ ?_)
      · simp [idle, hp']
      · simp [delay, hp, hp']
    | handing r =>
      apply not_safe_of_panicked (a := .hand k none) hclosed
      simp [State.pipelineStep, State.flushesOnClosed, hk, hp, hclosed.finished]
    | reporting err next r =>
      obtain ⟨p, hp'⟩ := handlerReport_enabled hk hp
      obtain ⟨x, h', hx, hacts, hset⟩ := acts_of_step? hclosed.inv rfl hp'
      obtain rfl : h = x := by simpa [hk] using hx
      obtain ⟨hbusy', hlt⟩ := acts_reporting hp hbusy hacts
      exact not_safe_of_next hclosed hk hp' rfl hset (hnext h' hbusy' hlt)

theorem quiet_of_shutdownSafe {p : Pipeline.State} (hinv : Inv [] p) (htidy : Tidy p)
    (hsafe : ShutdownSafe p) : Quiet p := by
  intro h hh
  obtain ⟨k, hk⟩ := List.mem_iff_getElem?.mp hh
  by_contra hbusy
  have hclosed : Closed (run step (.start p) (closeAll p.handlers.length)) := by
    rw [run_closeAll hinv.panic]
    exact ⟨hinv, htidy, rfl, fun k hk => by simpa using hk⟩
  obtain ⟨schedule, hunsafe⟩ := not_safe_of_busy (h := h) (k := k) hclosed
    (by rw [run_closeAll hinv.panic]; exact hk) (Bool.eq_false_of_not_eq_true hbusy)
  rw [← run_append] at hunsafe
  exact hunsafe (hsafe.safe _)

end Busy

/-- `Close` is safe exactly if it finds every insert routine idle. -/
theorem shutdownSafe_iff_quiet (numCopiers : Nat) (actions : List Pipeline.Action)
    (hsent : AllSent (run Pipeline.step (.initial numCopiers) actions)) :
    ShutdownSafe (run Pipeline.step (.initial numCopiers) actions) ↔
      Quiet (run Pipeline.step (.initial numCopiers) actions) := by
  obtain ⟨hinv, htidy⟩ := run_inv_tidy numCopiers actions
  exact ⟨quiet_of_shutdownSafe hinv htidy, shutdownSafe_of_quiet hinv htidy hsent⟩

/-- One sample of one metric. -/
def oneSample : Rows :=
  ⟨[("cpu", [⟨⟨"cpu", [("__name__", "cpu")], "cpu"⟩, -1, [⟨1000, 7⟩], by simp⟩])], by simp, by simp⟩

/-- The routine has merged the request into its buffer. -/
def merged : List Pipeline.Action :=
  [.insertData oneSample, .getMetricInserter 0, .send 0, .lookup 0 (.created "cpu" true) none,
    .receive 0]

/-- The buffer has gone to a copier, and the routine waits. -/
def flushed : List Pipeline.Action :=
  merged ++ [.receiveNone 0, .setSeriesIds 0 none fun _ => .committed "cpu" 1, .hand 0 none]

theorem shutdownSafe_flushed : ShutdownSafe (run Pipeline.step (.initial 1) flushed) :=
  (shutdownSafe_iff_quiet 1 flushed (by unfold AllSent; decide)).mpr
    (by unfold Quiet; decide)

/-- `Close` returns, and the routine takes a zero value for a request. -/
theorem not_shutdownSafe_merged :
    AllSent (run Pipeline.step (.initial 1) merged) ∧
      ¬ ShutdownSafe (run Pipeline.step (.initial 1) merged) := by
  refine ⟨by unfold AllSent; decide, fun h => ?_⟩
  have hzero := (h.safe (closeAll 1 ++ [.pipeline (.receive 0)])).noZeroRequest
  have hone : (run step (.start (run Pipeline.step (.initial 1) merged))
      (closeAll 1 ++ [.pipeline (.receive 0)])).zeroRequests = [0] := by decide
  rw [hone] at hzero
  cases hzero

end TimescalePrometheus.Ingest.Shutdown
