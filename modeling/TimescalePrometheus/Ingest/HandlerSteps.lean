import TimescalePrometheus.Ingest.Handovers

/-!
The steps of the insert routine of a metric keep the invariant.
-/

namespace TimescalePrometheus.Ingest.HandlerSteps

open Ingest.Samples Ingest.SeriesIds Ingest.Pipeline Ingest.Custody Ingest.Handovers Lib.Tokens

variable {hand : List Task} {s s' : State}

section HandlerMoves

/-- The phases of a routine that has its table and is not reporting. -/
def serving : HandlerPhase → Bool
  | .top => true
  | .hot => true
  | .flushing _ => true
  | .handing _ => true
  | _ => false

theorem phaseOk_serving {h : Handler} (hserving : serving h.phase = true) :
    PhaseOk s h ↔ Loaded s (· = h.metric) h.pending ∧ AtStart h.pending.batch := by
  unfold PhaseOk
  cases hphase : h.phase <;> simp [hphase, serving] at hserving ⊢

theorem creator?_serving {p : HandlerPhase} (h : serving p = true) : creator? p = none := by
  cases p <;> simp [serving, creator?] at h ⊢

theorem taskInHand_serving {p : HandlerPhase} (h : serving p = true) : taskInHand p = [] := by
  cases p <;> simp [serving, taskInHand] at h ⊢

theorem flush_eq (h : Handler) : ∃ p, serving p = true ∧ h.flush = { h with phase := p } := by
  unfold Handler.flush
  split
  · exact ⟨.flushing .loop, rfl, rfl⟩
  · exact ⟨.top, rfl, rfl⟩

theorem resume_eq (h : Handler) (r : Resume) :
    ∃ p, serving p = true ∧ h.resume r = { h with phase := p } := by
  cases r with
  | loop =>
    refine ⟨_, ?_, rfl⟩
    split <;> rfl
  | hotReceive =>
    simp only [Handler.resume]
    split
    · exact flush_eq h
    · exact ⟨.hot, rfl, rfl⟩

theorem handleReq_eq (h : Handler) (req : Request) (r : Resume) :
    ∃ p, serving p = true ∧ h.handleReq req r =
      { h with
        pending := (h.pending.addReq
          { req with data := (fillKnowSeriesIds h.seriesCache req.data).1 }).1
        phase := p } := by
  simp only [Handler.handleReq]
  split
  · exact ⟨.flushing r, rfl, rfl⟩
  · exact resume_eq _ r

theorem Loaded.addReq {p : String → Prop} {b : PendingBuffer} {req : Request}
    {seriesCache : SeriesCache} (hloaded : Loaded s p b) (hreq : Issued s req)
    (hp : p req.task.metric) :
    Loaded s p (b.addReq { req with data := (fillKnowSeriesIds seriesCache req.data).1 }).1 := by
  obtain ⟨reqs, hreqs, htasks, hdata⟩ := hloaded
  refine ⟨reqs ++ [req], ?_, ?_, ?_⟩
  · intro r hr
    rcases List.mem_append.mp hr with hr | hr
    · exact hreqs r hr
    · rw [List.mem_singleton.mp hr]
      exact ⟨hreq, hp⟩
  · simp [PendingBuffer.addReq, htasks]
  · have hcontent := content_fillKnowSeriesIds seriesCache req.data
    simp only [PendingBuffer.addReq, List.map_append, hdata, hcontent, List.flatMap_append,
      List.flatMap_singleton]

/-- A step in which a handler keeps its tasks and does not start. -/
structure Moved (s : State) (h h' : Handler) : Prop where
  metric : h'.metric = h.metric
  table : h'.metricTableName = h.metricTableName
  tasks : ∀ x, (handlerTasks h').count x = (handlerTasks h).count x
  input : ∀ r ∈ h'.input, r ∈ h.input
  phase : PhaseOk s h'
  started : creator? h'.phase = none

theorem Moved.inv {k : Nat} {h h' : Handler} (hmoved : Moved s h h') (hinv : Inv hand s)
    (hk : s.handlers[k]? = some h) : Inv hand (s.setHandler k h') := by
  refine setHandler_inv hinv hk hmoved.metric (fun table htable => hmoved.table.trans htable)
    (fun x => by rw [hmoved.tasks x]) (fun r hr => ?_) hmoved.phase (fun i hi => ?_)
  · rw [hmoved.metric]
    exact hinv.inputs k h hk r (hmoved.input r hr)
  · exact absurd (hmoved.started.symm.trans hi) (by simp)

theorem handleReq_moved {h : Handler} {req : Request} {input : List Request} (r : Resume)
    (hserving : serving h.phase = true) (hinput : h.input = req :: input) (hin : InputOk s h)
    (hphase : PhaseOk s h) : Moved s h (Handler.handleReq { h with input } req r) := by
  obtain ⟨p, hp, heq⟩ := handleReq_eq { h with input } req r
  obtain ⟨hloaded, hstart⟩ := (phaseOk_serving hserving).mp hphase
  obtain ⟨hissued, hmetric⟩ := hin req (by rw [hinput]; exact List.mem_cons_self)
  rw [heq]
  refine ⟨rfl, rfl, fun x => ?_, fun r hr => ?_, (phaseOk_serving hp).mpr ⟨?_, ?_⟩,
    creator?_serving hp⟩
  · simp only [handlerTasks, hinput, taskInHand_serving hp, taskInHand_serving hserving,
      PendingBuffer.addReq, List.map_cons, List.count_append, List.count_cons, List.count_nil]
    omega
  · rw [hinput]
    exact List.mem_cons_of_mem _ hr
  · exact Loaded.addReq hloaded hissued hmetric
  · exact hstart.withInfos _

theorem receive_moved {h h' : Handler} (hreceive : h.receive = some h') (hin : InputOk s h)
    (hphase : PhaseOk s h) : Moved s h h' := by
  unfold Handler.receive at hreceive
  cases hinput : h.input with
  | nil => simp [hinput] at hreceive
  | cons req input =>
    simp only [hinput] at hreceive
    cases hp : h.phase <;> simp only [hp, reduceCtorEq, Option.some.injEq] at hreceive
    case failed err =>
      subst hreceive
      have hpending : h.pending = .new := by simpa [PhaseOk, hp] using hphase
      refine ⟨rfl, rfl, fun x => ?_, fun r hr => ?_, ?_, rfl⟩
      · simp only [handlerTasks, hinput, hp, taskInHand, List.map_cons, List.count_append,
          List.count_cons, List.count_nil]
        omega
      · rw [hinput]
        exact List.mem_cons_of_mem _ hr
      · exact ⟨hpending, fun hnext => absurd hnext (by simp)⟩
    case top =>
      subst hreceive
      exact handleReq_moved .loop (by simp [hp, serving]) hinput hin hphase
    case hot =>
      subst hreceive
      exact handleReq_moved .hotReceive (by simp [hp, serving]) hinput hin hphase

theorem receiveNone_moved {h h' : Handler} (hreceive : h.receiveNone = some h')
    (hphase : PhaseOk s h) : Moved s h h' := by
  unfold Handler.receiveNone at hreceive
  split at hreceive
  case h_1 hp hinput =>
    have hserving : serving h.phase = true := by simp [hp, serving]
    obtain ⟨p, hserving', heq⟩ := flush_eq h
    rw [heq, Option.some.injEq] at hreceive
    subst hreceive
    refine ⟨rfl, rfl, fun x => ?_, fun _ => id,
      (phaseOk_serving hserving').mpr ((phaseOk_serving hserving).mp hphase),
      creator?_serving hserving'⟩
    simp only [handlerTasks, taskInHand_serving hserving, taskInHand_serving hserving']
  case h_2 => exact absurd hreceive (by simp)

theorem setSeriesIds_moved {h h' : Handler} {sendBatch : Option Err}
    {replies : Labels → SeriesReply} (hset : h.setSeriesIds sendBatch replies = some h')
    (hphase : PhaseOk s h) : Moved s h h' := by
  unfold Handler.setSeriesIds at hset
  cases hp : h.phase <;> simp only [hp, reduceCtorEq] at hset
  case flushing r =>
    have hserving : serving h.phase = true := by simp [hp, serving]
    obtain ⟨⟨reqs, hreqs, htasks, hdata⟩, hstart⟩ := (phaseOk_serving hserving).mp hphase
    have hcontent := content_setSeriesIds sendBatch (fun labels (_ : Unit) => (replies labels, ()))
      ⟨h.seriesCache, h.pending.batch.sampleInfos, ()⟩
    split at hset
    · rw [Option.some.injEq] at hset
      subst hset
      refine ⟨rfl, rfl, fun x => ?_, fun _ => id, fun hnext => absurd hnext (by simp), rfl⟩
      simp only [handlerTasks, hp, taskInHand]
    · rw [Option.some.injEq] at hset
      subst hset
      refine ⟨rfl, rfl, fun x => ?_, fun _ => id,
        ⟨⟨reqs, hreqs, htasks, hcontent.trans hdata⟩, hstart.withInfos _⟩, rfl⟩
      simp only [handlerTasks, hp, taskInHand]

theorem handle_inv {k : Nat} {f : Handler → Option Handler} (hinv : Inv hand s)
    (hf : ∀ h h', f h = some h' → InputOk s h → PhaseOk s h → Moved s h h')
    (hrun : s.handle k f = some s') : Inv hand s' := by
  obtain ⟨h, h', hk, hstep, rfl⟩ := handle_cases hrun
  exact (hf h h' hstep (hinv.inputs k h hk) (hinv.phases k h hk)).inv hinv hk

end HandlerMoves

section HandlerSteps

theorem getBuffer_eq {fromPool : Option Nat} {b : PendingBuffer} (hinv : Inv hand s)
    (h : s.getBuffer fromPool = some (b, s')) :
    b = .new ∧ Inv hand s' ∧ ∃ pool, s' = { s with pool } := by
  obtain ⟨pool, rfl, hpool, hb⟩ := getBuffer_cases h
  refine ⟨?_, setPool_inv hinv _ fun x hx => .inl (hpool x hx), pool, rfl⟩
  rcases hb with hb | hb
  · exact hb
  · exact hinv.pool b hb

theorem serve_inv {k : Nat} {h : Handler} {creator : Nat} {tableName : String}
    {fromPool : Option Nat} (hinv : Inv hand s) (hk : s.handlers[k]? = some h)
    (hp : h.phase = .starting creator) (hserve : s.serve k h tableName fromPool = some s') :
    Inv hand s' := by
  obtain ⟨b, t, hget, rfl⟩ := serve_cases hserve
  obtain ⟨rfl, hinv', pool, rfl⟩ := getBuffer_eq hinv hget
  have hphase : h.pending = .new ∧ h.metricTableName = none := by
    simpa [PhaseOk, hp] using hinv.phases k h hk
  refine setHandler_inv hinv' hk rfl (fun table htable => ?_) (fun x => ?_)
    (hinv'.inputs k h hk) (loaded_new _) (fun i hi => absurd hi (by simp [creator?]))
  · exact absurd (hphase.2.symm.trans htable) (by simp)
  · simp only [handlerTasks, hphase.1, hp, taskInHand]

theorem lookup_inv {k : Nat} {reply : TableReply} {fromPool : Option Nat} (hinv : Inv hand s)
    (hrun : s.lookup k reply fromPool = some s') : Inv hand s' := by
  obtain ⟨h, creator, hk, hp, ⟨tableName, signal, hserve⟩ | ⟨err, rfl⟩⟩ := lookup_cases hrun
  · exact serve_inv (setPool_inv hinv signal fun _ => .inl) hk hp hserve
  · have hphase : h.pending = .new ∧ h.metricTableName = none := by
      simpa [PhaseOk, hp] using hinv.phases k h hk
    refine setHandler_inv hinv hk rfl (fun _ => id) (fun x => ?_) (hinv.inputs k h hk) hphase.1
      (fun i hi => ⟨?_, rfl⟩)
    · simp only [handlerTasks, hp, taskInHand]
    · rw [hp]
      exact hi

theorem offerStartFailure_inv {k : Nat} (hinv : Inv hand s)
    (hrun : s.offerStartFailure k = some s') : Inv hand s' := by
  obtain ⟨h, creator, err, hk, hp, rfl⟩ := offerStartFailure_cases hrun
  -- the request that started the routine is still unsent or in its channel
  have hheld : ⟨creator, h.metric⟩ ∈ hand ++ held s := by
    refine List.mem_append_right _ ?_
    rcases List.mem_append.mp (hinv.starts k h hk creator (by rw [hp]; rfl)) with hcall | hinput
    · exact List.mem_append_left _ hcall
    · exact mem_held_handler hk (List.mem_append_left _ hinput)
  obtain ⟨hinv', hgrows, _⟩ := offer_inv hinv hheld err
  have hk' : (s.offer creator err).handlers[k]? = some h := by rw [handlers_offer, hk]
  have hphase : h.pending = .new := by simpa [PhaseOk, hp] using hinv.phases k h hk
  refine setHandler_inv hinv' hk' rfl (fun _ => id) (fun x => ?_) (hinv'.inputs k h hk') hphase
    (fun i hi => absurd hi (by simp [creator?]))
  simp only [handlerTasks, hp, taskInHand]

theorem hand_inv {k : Nat} {fromPool : Option Nat} (hinv : Inv hand s)
    (hrun : s.hand k fromPool = some s') : Inv hand s' := by
  obtain ⟨h, r, table, b, t, hk, hp, htable, -, hget, rfl⟩ := hand_cases hrun
  obtain ⟨rfl, hinv', pool, rfl⟩ := getBuffer_eq hinv hget
  obtain ⟨p, hserving, heq⟩ := resume_eq { h with pending := .new } r
  rw [heq]
  have hhanding : serving h.phase = true := by rw [hp]; rfl
  obtain ⟨hloaded, hstart⟩ := (phaseOk_serving hhanding).mp (hinv'.phases k h hk)
  have hgrows : Grows { s with pool } (State.setHandler { s with pool } k
      { h with pending := .new, phase := p }) := grows_setHandler hk rfl fun _ => id
  have hset : Inv (h.pending.needsResponse ++ hand) (State.setHandler { s with pool } k
      { h with pending := .new, phase := p }) := by
    refine setHandler_inv hinv' hk rfl (fun _ => id) (fun x => ?_) (hinv'.inputs k h hk)
      ((phaseOk_serving hserving).mpr (loaded_new _))
      (fun i hi => absurd ((creator?_serving hserving).symm.trans hi) (by simp))
    simp only [handlerTasks, taskInHand_serving hhanding, taskInHand_serving hserving,
      PendingBuffer.new, List.count_append, List.count_nil]
    omega
  have hstores : Stores { s with pool } h.metric table := ⟨k, h, hk, rfl, htable⟩
  refine setToCopiers_inv hset (fun x => ?_) (fun req hreq => ?_)
  · simp only [State.setHandler, List.flatMap_append, List.flatMap_singleton, List.count_append]
    omega
  · rcases List.mem_append.mp hreq with hreq | hreq
    · exact .inl hreq
    · rw [List.mem_singleton.mp hreq]
      refine .inr ⟨hloaded.mono hgrows fun metric hmetric => ?_, hstart⟩
      rw [hmetric]
      exact hstores.mono hgrows

theorem reportRound_inv {k : Nat} {h : Handler} {err : Err} {next : Option Err} {r : Resume}
    (hinv : Inv hand s) (hk : s.handlers[k]? = some h) (hp : h.phase = .reporting err next r)
    (hreport : Report s h.pending.needsResponse next (some err))
    (hround : h.pending.needsResponse = [] ∧
        s' = s.setHandler k ({ h with pending := h.pending.clear }.resume r) ∨
      ∃ t rest, h.pending.needsResponse = t :: rest ∧
        s' = (s.respond (some err) t rest next).1.setHandler k { h with
          phase := .reporting err (s.respond (some err) t rest next).2.2 r
          pending := { h.pending with
            needsResponse := (s.respond (some err) t rest next).2.1 } }) : Inv hand s' := by
  obtain ⟨hneeds, rfl⟩ | ⟨t, rest, hneeds, rfl⟩ := hround
  · obtain ⟨p, hserving, heq⟩ := resume_eq { h with pending := h.pending.clear } r
    rw [heq]
    refine setHandler_inv hinv hk rfl (fun _ => id) (fun x => ?_) (hinv.inputs k h hk)
      ((phaseOk_serving hserving).mpr (loaded_new _))
      (fun i hi => absurd ((creator?_serving hserving).symm.trans hi) (by simp))
    rw [handlerTasks, handlerTasks, hneeds, taskInHand_serving hserving, hp]
    rfl
  · rw [hneeds] at hreport
    have hheld : t ∈ held s := mem_held_handler hk (by simp [handlerTasks, hneeds])
    cases next with
    | some e =>
      obtain ⟨hinv', hreport'⟩ := offer_report hinv hheld hreport e
      have hk' : (s.offer t.call e).handlers[k]? = some h := by rw [handlers_offer, hk]
      refine setHandler_inv hinv' hk' rfl (fun _ => id) (fun x => ?_) (hinv'.inputs k h hk')
        hreport' (fun i hi => absurd hi (by simp [creator?]))
      simp only [State.respond, handlerTasks, hp, hneeds, taskInHand]
    | none =>
      rw [State.respond, setHandler_done]
      have hset : Inv (t :: hand) (s.setHandler k
          { h with
            phase := .reporting err (some err) r
            pending := { h.pending with needsResponse := rest } }) := by
        refine setHandler_inv hinv hk rfl (fun _ => id) (fun x => ?_) (hinv.inputs k h hk)
          (Report.tail hreport) (fun i hi => absurd hi (by simp [creator?]))
        simp only [handlerTasks, hp, hneeds, taskInHand, List.count_append, List.count_cons,
          List.count_nil]
        omega
      refine (done_inv hset (Settled.mono ?_ (Report.settled hreport))).1
      exact grows_setHandler hk rfl fun _ => id

theorem handlerReport_inv {k : Nat} (hinv : Inv hand s) (hrun : s.handlerReport k = some s') :
    Inv hand s' := by
  obtain ⟨h, hk, hcases⟩ := handlerReport_cases hrun
  have hphase := hinv.phases k h hk
  unfold PhaseOk at hphase
  obtain ⟨err, task, e, hp, rfl⟩ | ⟨err, task, hp, rfl⟩ | ⟨err, next, r, hp, hround⟩ := hcases <;>
    simp only [hp] at hphase
  · have hheld : task ∈ held s := mem_held_handler hk (by simp [handlerTasks, hp, taskInHand])
    obtain ⟨hinv', hgrows, hoffered⟩ := offer_inv hinv (List.mem_append_right _ hheld) e
    have hk' : (s.offer task.call e).handlers[k]? = some h := by rw [handlers_offer, hk]
    refine setHandler_inv hinv' hk' rfl (fun _ => id) (fun x => ?_) (hinv'.inputs k h hk')
      ⟨hphase.1, fun _ => hoffered⟩ (fun i hi => absurd hi (by simp [creator?]))
    simp only [handlerTasks, hp, taskInHand]
  · rw [setHandler_done]
    have hset : Inv (task :: hand) (s.setHandler k { h with phase := .failed err }) := by
      refine setHandler_inv hinv hk rfl (fun _ => id) (fun x => ?_) (hinv.inputs k h hk) hphase.1
        (fun i hi => absurd hi (by simp [creator?]))
      simp only [handlerTasks, hp, taskInHand, List.count_append, List.count_cons, List.count_nil]
      omega
    exact (done_inv hset (.inr ((hphase.2 trivial).mono (grows_setHandler hk rfl fun _ => id)))).1
  · exact reportRound_inv hinv hk hp hphase hround

end HandlerSteps

end TimescalePrometheus.Ingest.HandlerSteps
