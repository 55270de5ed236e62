import TimescalePrometheus.Election.LockConsistency

/-!
The process that `main` wires around the leader lock: the scheduled elector with its ticker, the
liveness check with its own ticker, and the write handler.
-/

namespace TimescalePrometheus.Election

open Lib.Runs

/-- Where the election ticker stands: waiting, past the test for the pause, or told by
`IsLeader` that the instance is not the leader. -/
inductive Ticker where
  | idle
  | electing
  | becoming
deriving DecidableEq

/-- Where the liveness check stands: waiting, about to pause the election as a leader that has
timed out, about to resign, or about to look whether the election can go on. -/
inductive Check where
  | idle
  | pausing
  | resigning
  | standby (elapsed : Int)
deriving DecidableEq

/-- `lastRequestUnixNano` is the variable of `main` that the liveness check loads;
`metricsLastRequest` is the field of `api.Metrics`, filled with the value of that variable
when `main` builds the metrics, that the write handler stores into. `recorded` lists the
times of the requests that the handler has recorded, and `resigned` tells that the check has
paused the election and resigned and the election is not resumed. -/
structure Process where
  group : Group := {}
  paused : Bool := false
  ticker : Ticker := .idle
  check : Check := .idle
  lastRequestUnixNano : Int
  metricsLastRequest : Int
  recorded : List Int := []
  resigned : Bool := false

/-- `NewPgAdvisoryLock`: the first request for the lock has to be answered. -/
def newPgAdvisoryLock (others : Bool) (o : TryOutcome) : Option PgAdvisoryLock :=
  match PgAdvisoryLock.tryLock {} others o with
  | (lock, .returned (.ok _)) => some lock
  | _ => none

/-- The process that starts at time `start`, none if it aborts its start-up. -/
def main (start : Int) (others : Bool) (o : TryOutcome) : Option Process := do
  let lock ← newPgAdvisoryLock others o
  return { group := { lock, others }, lastRequestUnixNano := start, metricsLastRequest := start }

theorem lastRequest_main {start : Int} {others : Bool} {o : TryOutcome} {p : Process}
    (hp : main start others o = some p) : p.lastRequestUnixNano = start := by
  obtain ⟨lock, -, hp⟩ := Option.bind_eq_some_iff.mp hp
  cases hp
  rfl

/-- A step of the tickers, the handler or the others. -/
inductive Event where
  | tick
  | tickIsLeader (o : TryOutcome)
  | tickBecomeLeader (o : TryOutcome)
  | checkIsLeader (now : Int) (o : TryOutcome)
  | checkPause
  | checkResign (o : ReleaseOutcome)
  | checkResume
  | write (now : Int) (readable : Bool) (o : TryOutcome)
  | otherAcquires
  | otherReleases
  | sessionEnds

def Process.withLock (p : Process) (l : PgAdvisoryLock) : Process :=
  { p with group := { p.group with lock := l } }

/-- `IsLeader` and `BecomeLeader`: a request for the lock, and what the caller does with the
answer. A blocked caller stays where it is. -/
def Process.request (p : Process) (o : TryOutcome)
    (next : Process → Except String Bool → Process) : Process :=
  match p.group.lock.tryLock p.group.others o with
  | (l, .returned answer) => next (p.withLock l) answer
  | (l, _) => p.withLock l

/-- `scheduledElection` and `elect`. -/
def Process.tickIsLeader (p : Process) (o : TryOutcome) : Process :=
  p.request o fun p answer =>
    match answer with
    | .ok false => { p with ticker := .becoming }
    | _ => { p with ticker := .idle }

def Process.tickBecomeLeader (p : Process) (o : TryOutcome) : Process :=
  p.request o fun p _ => { p with ticker := .idle }

/-- `PrometheusLivenessCheck`, up to its answer from `IsLeader`. -/
def Process.checkIsLeader (timeout : Int) (p : Process) (now : Int) (o : TryOutcome) : Process :=
  let elapsed := now - p.lastRequestUnixNano
  p.request o fun p answer =>
    match answer with
    | .ok true => { p with check := if timeout < elapsed then .pausing else .idle }
    | _ => { p with check := .standby elapsed }

def Process.checkResign (p : Process) (o : ReleaseOutcome) : Process :=
  match p.group.lock.release o with
  | (l, .returned (.ok ())) => { p.withLock l with check := .idle, resigned := true }
  | (l, .returned (.error _)) => { p.withLock l with check := .idle }
  | (l, _) => p.withLock l

/-- The election goes on if there was a request. -/
def Process.checkResume (timeout : Int) (p : Process) (elapsed : Int) : Process :=
  if p.paused ∧ elapsed < timeout then
    { p with check := .idle, paused := false, resigned := false }
  else
    { p with check := .idle }

/-- `Write`: only a leader's requests whose body can be read are recorded. -/
def Process.write (p : Process) (now : Int) (readable : Bool) (o : TryOutcome) : Process :=
  p.request o fun p answer =>
    match answer with
    | .ok true =>
      if readable then { p with metricsLastRequest := now, recorded := now :: p.recorded } else p
    | _ => p

/-- Events out of turn change nothing. -/
def processStep (timeout : Int) (p : Process) : Event → Process
  | .tick =>
    if p.ticker = .idle ∧ p.paused = false then { p with ticker := .electing } else p
  | .tickIsLeader o => if p.ticker = .electing then p.tickIsLeader o else p
  | .tickBecomeLeader o => if p.ticker = .becoming then p.tickBecomeLeader o else p
  | .checkIsLeader now o => if p.check = .idle then p.checkIsLeader timeout now o else p
  | .checkPause =>
    if p.check = .pausing then { p with paused := true, check := .resigning } else p
  | .checkResign o => if p.check = .resigning then p.checkResign o else p
  | .checkResume =>
    match p.check with
    | .standby elapsed => p.checkResume timeout elapsed
    | _ => p
  | .write now readable o => p.write now readable o
  | .otherAcquires => { p with group := p.group.otherAcquires }
  | .otherReleases => { p with group := { p.group with others := false } }
  | .sessionEnds => p.withLock p.group.lock.sessionEnds

/-- The request for the lock that an event makes, if it makes one. -/
def Process.requested (p : Process) : Event → Option TryOutcome
  | .tickIsLeader o => if p.ticker = .electing then some o else none
  | .tickBecomeLeader o => if p.ticker = .becoming then some o else none
  | .checkIsLeader _ o => if p.check = .idle then some o else none
  | .write _ _ o => some o
  | _ => none

/-- The event's call of `IsLeader` or `BecomeLeader` returns true. -/
def Process.answeredYes (p : Process) (e : Event) : Prop :=
  ∃ o ∈ p.requested e, (p.group.lock.tryLock p.group.others o).2 = .returned (.ok true)

theorem request_group (p : Process) (o : TryOutcome)
    {next : Process → Except String Bool → Process}
    (hnext : ∀ q answer, (next q answer).group = q.group) :
    (p.request o next).group =
      { p.group with lock := (p.group.lock.tryLock p.group.others o).1 } := by
  unfold Process.request
  split
  · rename_i l answer h
    rw [hnext, h]
    rfl
  · rename_i l r _ h
    rw [h]
    rfl

theorem group_of_requested {p : Process} {e : Event} {o : TryOutcome}
    (h : p.requested e = some o) (timeout : Int) :
    (processStep timeout p e).group =
      { p.group with lock := (p.group.lock.tryLock p.group.others o).1 } := by
  cases e with
  | tickIsLeader o' =>
    simp only [Process.requested, Option.ite_none_right_eq_some, Option.some.injEq] at h
    obtain ⟨helecting, rfl⟩ := h
    simp only [processStep, helecting, ↓reduceIte]
    refine request_group p o' fun q answer => ?_
    split <;> rfl
  | tickBecomeLeader o' =>
    simp only [Process.requested, Option.ite_none_right_eq_some, Option.some.injEq] at h
    obtain ⟨hbecoming, rfl⟩ := h
    simp only [processStep, hbecoming, ↓reduceIte]
    exact request_group p o' fun q answer => rfl
  | checkIsLeader now o' =>
    simp only [Process.requested, Option.ite_none_right_eq_some, Option.some.injEq] at h
    obtain ⟨hidle, rfl⟩ := h
    simp only [processStep, hidle, ↓reduceIte]
    refine request_group p o' fun q answer => ?_
    split <;> rfl
  | write now readable o' =>
    cases h
    refine request_group p o fun q answer => ?_
    split
    · split <;> rfl
    · rfl
  | _ => cases h

theorem checkResign_lock (p : Process) (o : ReleaseOutcome) :
    (p.checkResign o).group.lock = (p.group.lock.release o).1 := by
  unfold Process.checkResign
  split <;> (rename_i h; rw [h]; rfl)

theorem otherAcquires_lock (g : Group) : g.otherAcquires.lock = g.lock := by
  unfold Group.otherAcquires
  split <;> rfl

theorem held_of_not_requested {p : Process} {e : Event} (h : p.requested e = none)
    (timeout : Int) : (processStep timeout p e).group.lock.held ≤ p.group.lock.held := by
  cases e with
  | tick =>
    simp only [processStep]
    split <;> exact Nat.le_refl _
  | tickIsLeader o =>
    simp only [Process.requested, ite_eq_right_iff, reduceCtorEq, imp_false] at h
    simp only [processStep, h, ↓reduceIte, Nat.le_refl]
  | tickBecomeLeader o =>
    simp only [Process.requested, ite_eq_right_iff, reduceCtorEq, imp_false] at h
    simp only [processStep, h, ↓reduceIte, Nat.le_refl]
  | checkIsLeader now o =>
    simp only [Process.requested, ite_eq_right_iff, reduceCtorEq, imp_false] at h
    simp only [processStep, h, ↓reduceIte, Nat.le_refl]
  | checkPause =>
    simp only [processStep]
    split <;> exact Nat.le_refl _
  | checkResign o =>
    simp only [processStep]
    split
    · rw [checkResign_lock]
      exact held_release_le _ o
    · exact Nat.le_refl _
  | checkResume =>
    simp only [processStep]
    split
    · unfold Process.checkResume
      split <;> exact Nat.le_refl _
    · exact Nat.le_refl _
  | write now readable o => cases h
  | otherAcquires =>
    exact Nat.le_of_eq (congrArg PgAdvisoryLock.held (otherAcquires_lock p.group))
  | otherReleases => exact Nat.le_refl _
  | sessionEnds =>
    change p.group.lock.sessionEnds.held ≤ _
    rw [held_sessionEnds]
    exact Nat.zero_le _

/-- The request is not granted, or not on a session that the instance keeps: the mutex is
stuck, another instance holds the lock, there is no live session, the reply is an error after
which the connection is closed, or the server has not run the function. -/
def NotGranted (g : Group) (o : TryOutcome) : Prop :=
  g.lock.mutexHeld = true ∨ g.others = true ∨ g.lock.session o = none ∨
    match o.reply with
    | .queryError _ | .rowsError _ => True
    | .missingRow ran => ran = false
    | .scanError _ | .row => False

theorem held_tryLock_le_iff (g : Group) (o : TryOutcome) :
    (g.lock.tryLock g.others o).1.held ≤ g.lock.held ↔ NotGranted g o := by
  unfold NotGranted
  cases hm : g.lock.mutexHeld with
  | true =>
    rw [tryLock_of_mutexHeld hm]
    simp
  | false =>
    rw [held_tryLock hm]
    cases g.lock.session o with
    | none => simp
    | some c =>
      cases o.reply with
      | queryError err => simp
      | rowsError err => simp
      | missingRow ran => cases ran <;> cases g.others <;> simp
      | scanError err => cases g.others <;> simp
      | row => cases g.others <;> simp

/-- The request does not make the instance a leader: the mutex is stuck, another instance
holds the lock, there is no live session, or its row does not arrive. -/
def NotLeader (g : Group) (o : TryOutcome) : Prop :=
  g.lock.mutexHeld = true ∨ g.others = true ∨ g.lock.session o = none ∨ o.reply ≠ .row

theorem notLeader_iff (g : Group) (o : TryOutcome) :
    (g.lock.tryLock g.others o).2 ≠ .returned (.ok true) ↔ NotLeader g o := by
  unfold NotLeader
  cases hm : g.lock.mutexHeld with
  | true =>
    rw [tryLock_of_mutexHeld hm]
    simp
  | false =>
    rw [ne_eq, tryLock_granted hm]
    unfold PgAdvisoryLock.granted
    cases g.lock.session o with
    | none => simp
    | some c => cases o.reply <;> simp

theorem NotGranted.notLeader {g : Group} {o : TryOutcome} (h : NotGranted g o) :
    NotLeader g o := by
  refine h.imp_right (Or.imp_right (Or.imp_right fun hreply hrow => ?_))
  simp only [hrow] at hreply

/-- While the instance is out of the election, the event acquires no lock, and no call of
`IsLeader` or `BecomeLeader` in it returns true. -/
def StaysOut (timeout : Int) (p : Process) (e : Event) : Prop :=
  p.resigned = true →
    (processStep timeout p e).group.lock.held ≤ p.group.lock.held ∧ ¬p.answeredYes e

/-- While the instance is out of the election, a request that the event makes is not
granted. -/
def Withheld (p : Process) (e : Event) : Prop :=
  p.resigned = true → ∀ o ∈ p.requested e, NotGranted p.group o

theorem staysOut_iff (timeout : Int) (p : Process) (e : Event) :
    StaysOut timeout p e ↔ Withheld p e := by
  unfold StaysOut Withheld Process.answeredYes
  refine imp_congr_right fun _ => ?_
  cases hreq : p.requested e with
  | none => simp [held_of_not_requested hreq timeout]
  | some o =>
    rw [group_of_requested hreq timeout, held_tryLock_le_iff]
    simp only [Option.mem_some_iff, exists_eq_left', forall_eq', and_iff_left_iff_imp]
    exact fun h => (notLeader_iff p.group o).mpr h.notLeader

/-- From any state on: from the moment the liveness check has paused the election and resigned
until it resumes the election, the instance does not take the lock, exactly if no request that
it makes for the lock in that time is granted. Nothing in the process withholds the requests. -/
theorem paused_stays_out_iff (timeout : Int) (p : Process) (events : List Event) :
    Throughout (processStep timeout) (StaysOut timeout) p events ↔
      Throughout (processStep timeout) Withheld p events :=
  throughout_congr (fun _ => True) (fun _ _ _ _ => trivial)
    (fun p e _ => staysOut_iff timeout p e) trivial events

/-- The leader times out, pauses the election and resigns; the next write request finds the
lock free and takes it. -/
def lateWrite : List Event :=
  [.write 0 true answered, .checkIsLeader 100 answered, .checkPause, .checkResign (.sent true)]

theorem paused_write_acquires : ∃ p, main 0 false answered = some p ∧
    (run (processStep 60) p lateWrite).resigned = true ∧
    (run (processStep 60) p lateWrite).paused = true ∧
    (run (processStep 60) p lateWrite).group.lock.held = 0 ∧
    (run (processStep 60) p (lateWrite ++ [.write 101 true answered])).group.lock.held = 1 := by
  refine ⟨_, rfl, ?_⟩
  decide

/-- The liveness check that begins with the event does not go on to resign, if the handler
has recorded a request at most `timeout` ago. -/
def SparesLeader (timeout : Int) (p : Process) : Event → Prop
  | .checkIsLeader now o =>
    p.check = .idle → (∃ t ∈ p.recorded, now - t ≤ timeout) →
      (processStep timeout p (.checkIsLeader now o)).check ≠ .pausing
  | _ => True

/-- A check that finds a request at most `timeout` ago runs at most `timeout` after the start
of the process, or does not find the instance to be the leader. -/
def SoonOrRefused (timeout start : Int) (p : Process) : Event → Prop
  | .checkIsLeader now o =>
    p.check = .idle → (∃ t ∈ p.recorded, now - t ≤ timeout) →
      now - start ≤ timeout ∨ NotLeader p.group o
  | _ => True

theorem checkIsLeader_pausing {timeout now : Int} {p : Process} {o : TryOutcome}
    (hidle : p.check = .idle) :
    (p.checkIsLeader timeout now o).check = .pausing ↔
      timeout < now - p.lastRequestUnixNano ∧
        (p.group.lock.tryLock p.group.others o).2 = .returned (.ok true) := by
  unfold Process.checkIsLeader Process.request
  cases htry : p.group.lock.tryLock p.group.others o with
  | mk l r =>
    cases r with
    | blocked => simp [Process.withLock, hidle]
    | panicked => simp [Process.withLock, hidle]
    | returned answer =>
      cases answer with
      | error err => simp
      | ok leader =>
        cases leader with
        | false => simp
        | true =>
          simp only [and_true]
          split <;> simp_all

theorem sparesLeader_iff {timeout start : Int} {p : Process}
    (hstart : p.lastRequestUnixNano = start) (e : Event) :
    SparesLeader timeout p e ↔ SoonOrRefused timeout start p e := by
  cases e with
  | checkIsLeader now o =>
    refine imp_congr_right fun hidle => imp_congr_right fun _ => ?_
    have hstep : processStep timeout p (.checkIsLeader now o) = p.checkIsLeader timeout now o := by
      simp only [processStep, hidle, ↓reduceIte]
    rw [hstep, ne_eq, checkIsLeader_pausing hidle, hstart, not_and_or, Int.not_lt,
      ← notLeader_iff]
  | _ => exact Iff.rfl

theorem request_lastRequest (p : Process) (o : TryOutcome)
    {next : Process → Except String Bool → Process}
    (hnext : ∀ q answer, (next q answer).lastRequestUnixNano = q.lastRequestUnixNano) :
    (p.request o next).lastRequestUnixNano = p.lastRequestUnixNano := by
  unfold Process.request
  split
  · rw [hnext]
    rfl
  · rfl

theorem lastRequest_step (timeout : Int) (p : Process) (e : Event) :
    (processStep timeout p e).lastRequestUnixNano = p.lastRequestUnixNano := by
  cases e with
  | tick =>
    simp only [processStep]
    split <;> rfl
  | tickIsLeader o =>
    simp only [processStep]
    split
    · refine request_lastRequest p o fun q answer => ?_
      split <;> rfl
    · rfl
  | tickBecomeLeader o =>
    simp only [processStep]
    split
    · exact request_lastRequest p o fun q answer => rfl
    · rfl
  | checkIsLeader now o =>
    simp only [processStep]
    split
    · refine request_lastRequest p o fun q answer => ?_
      split <;> rfl
    · rfl
  | checkPause =>
    simp only [processStep]
    split <;> rfl
  | checkResign o =>
    simp only [processStep]
    split
    · unfold Process.checkResign
      split <;> rfl
    · rfl
  | checkResume =>
    simp only [processStep]
    split
    · unfold Process.checkResume
      split <;> rfl
    · rfl
  | write now readable o =>
    refine request_lastRequest p o fun q answer => ?_
    split
    · split <;> rfl
    · rfl
  | otherAcquires => rfl
  | otherReleases => rfl
  | sessionEnds => rfl

/-- From start-up on: no liveness check makes a leader resign that has recorded a request
within the timeout, exactly if every such check comes at most `timeout` after start-up or is
not granted the lock. The requests make no difference, since the handler records them in the
copy that `main` put into the metrics. -/
theorem liveness_spares_leader_iff (timeout start : Int) (others : Bool) (o : TryOutcome)
    (p : Process) (hp : main start others o = some p) (events : List Event) :
    Throughout (processStep timeout) (SparesLeader timeout) p events ↔
      Throughout (processStep timeout) (SoonOrRefused timeout start) p events :=
  throughout_congr (fun p => p.lastRequestUnixNano = start)
    (fun p e h _ => (lastRequest_step timeout p e).trans h) (fun _ e h => sparesLeader_iff h e)
    (lastRequest_main hp) events

theorem liveness_spares_leader_iff_early : ∃ p, main 0 false answered = some p ∧
    Throughout (processStep 60) (SparesLeader 60) p
      [.write 40 true answered, .checkIsLeader 50 answered] :=
  ⟨_, rfl, (liveness_spares_leader_iff 60 0 false answered _ rfl _).mpr
    ⟨trivial, fun _ _ => .inl (by decide), trivial⟩⟩

/-- A write request is recorded at time 100; the check at time 101 resigns, because the process
started at time 0 and the timeout is 60. -/
theorem recent_write_not_seen : ∃ p, main 0 false answered = some p ∧
    (run (processStep 60) p [.write 100 true answered]).recorded = [100] ∧
    (run (processStep 60) p [.write 100 true answered, .checkIsLeader 101 answered]).check =
      .pausing ∧
    (run (processStep 60) p [.write 100 true answered, .checkIsLeader 101 answered, .checkPause,
      .checkResign (.sent true)]).group.lock.obtained = false := by
  refine ⟨_, rfl, ?_⟩
  decide

end TimescalePrometheus.Election
