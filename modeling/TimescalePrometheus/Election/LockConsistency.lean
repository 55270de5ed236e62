import TimescalePrometheus.Election.AdvisoryLock

/-!
Two promises of the leader lock over whole runs: the flag `obtained`, the connection and the
server agree after every call, and a call that has returned has left the mutex free.
-/

namespace TimescalePrometheus.Election

open Lib.Runs

/-- The flag agrees with connection and server. -/
def Consistent (l : PgAdvisoryLock) : Prop :=
  (l.obtained = true → l.conn.isSome = true) ∧ (l.obtained = false → l.held = 0)

instance (l : PgAdvisoryLock) : Decidable (Consistent l) :=
  inferInstanceAs (Decidable (_ ∧ _))

/-- The server grants the lock to one instance at a time. -/
def Exclusive (g : Group) : Prop :=
  g.others = true → g.lock.held = 0

/-- The request ends on a live session that holds the lock without the instance learning of
it: the row is missing or does not scan. -/
def LosesTrack (g : Group) (o : TryOutcome) : Prop :=
  (g.lock.session o).isSome = true ∧
    match o.reply with
    | .missingRow ran => 0 < g.lock.held ∨ (ran = true ∧ g.others = false)
    | .scanError _ => 0 < g.lock.held ∨ g.others = false
    | _ => False

/-- The server does not run the unlock of a session that holds the lock, and the instance
does not ask. -/
def SkipsUnlock (g : Group) : ReleaseOutcome → Prop
  | .queryError _ _ => False
  | .sent ran => ran = false ∧ g.lock.obtained = true ∧ 0 < g.lock.held

/-- What a call has to satisfy for the lock to stay consistent. -/
def Tracked (g : Group) : Action → Prop
  | .tryLock o | .isLeader o | .becomeLeader o => g.lock.mutexHeld = true ∨ ¬LosesTrack g o
  | .release o | .resign o => g.lock.mutexHeld = true ∨ ¬SkipsUnlock g o
  | .close => g.lock.mutexHeld = true ∨ g.lock.obtained = false
  | .locked | .otherAcquires | .otherReleases | .sessionEnds => True

theorem consistent_tryLock {g : Group} (hex : Exclusive g) (hc : Consistent g.lock)
    (o : TryOutcome) :
    Consistent (g.lock.tryLock g.others o).1 ↔ g.lock.mutexHeld = true ∨ ¬LosesTrack g o := by
  cases hm : g.lock.mutexHeld with
  | true =>
    rw [tryLock_of_mutexHeld hm]
    exact iff_of_true hc (Or.inl rfl)
  | false =>
    have hheld := held_tryLock hm g.others o
    have hobtained : (g.lock.tryLock g.others o).1.obtained = g.lock.granted g.others o := by
      rw [tryLock_eq hm]
    have hconn : (g.lock.tryLock g.others o).1.conn =
        (g.lock.session o).bind fun c => o.reply.kept g.others c := by
      rw [tryLock_eq hm]
    unfold Consistent LosesTrack
    rw [hheld, hobtained, hconn]
    unfold PgAdvisoryLock.granted
    cases hs : g.lock.session o with
    | none => simp
    | some c =>
      cases o.reply with
      | queryError err => simp [Reply.kept]
      | rowsError err => simp [Reply.kept]
      | missingRow ran => cases ran <;> cases g.others <;> simp [Reply.kept]
      | scanError err => cases g.others <;> simp [Reply.kept]
      | row =>
        -- Refused means that another instance holds the lock, so this one does not.
        cases ho : g.others with
        | false => simp [Reply.kept]
        | true => simp [Reply.kept, hex ho]

theorem consistent_release {g : Group} (hc : Consistent g.lock) (o : ReleaseOutcome) :
    Consistent (g.lock.release o).1 ↔ g.lock.mutexHeld = true ∨ ¬SkipsUnlock g o := by
  unfold PgAdvisoryLock.release
  cases hm : g.lock.mutexHeld with
  | true => exact iff_of_true hc (Or.inl rfl)
  | false =>
    cases hobt : g.lock.obtained with
    | false =>
      have hheld : g.lock.held = 0 := hc.2 hobt
      refine iff_of_true ⟨(fun h => nomatch h), fun _ => hheld⟩ (Or.inr ?_)
      cases o <;> simp [SkipsUnlock, hobt]
    | true =>
      obtain ⟨c, hconn⟩ := Option.isSome_iff_exists.mp (hc.1 hobt)
      cases o with
      | queryError err ran => simp [Consistent, SkipsUnlock, hconn]
      | sent ran =>
        cases ran <;> cases hal : c.alive <;>
          simp [Consistent, SkipsUnlock, hconn, hobt, PgAdvisoryLock.held, Session.unlockAll,
            hal]

theorem consistent_close {l : PgAdvisoryLock} (hc : Consistent l) :
    Consistent l.close.1 ↔ l.mutexHeld = true ∨ l.obtained = false := by
  unfold PgAdvisoryLock.close
  cases hm : l.mutexHeld with
  | true => exact iff_of_true hc (Or.inl rfl)
  | false => cases hobt : l.obtained <;> simp [Consistent, PgAdvisoryLock.held]

theorem held_sessionEnds (l : PgAdvisoryLock) : l.sessionEnds.held = 0 := by
  unfold PgAdvisoryLock.sessionEnds PgAdvisoryLock.held
  cases l.conn <;> rfl

theorem consistent_step {g : Group} (hex : Exclusive g) (hc : Consistent g.lock) (a : Action) :
    Consistent (step g a).lock ↔ Tracked g a := by
  cases a with
  | tryLock o => exact consistent_tryLock hex hc o
  | isLeader o => exact consistent_tryLock hex hc o
  | becomeLeader o => exact consistent_tryLock hex hc o
  | release o => exact consistent_release hc o
  | resign o => exact consistent_release hc o
  | locked => exact iff_of_true hc trivial
  | close => exact consistent_close hc
  | otherAcquires =>
    refine iff_of_true ?_ trivial
    change Consistent g.otherAcquires.lock
    unfold Group.otherAcquires
    split <;> exact hc
  | otherReleases => exact iff_of_true hc trivial
  | sessionEnds =>
    refine iff_of_true ⟨fun h => ?_, fun _ => held_sessionEnds _⟩ trivial
    have hsome := hc.1 h
    simpa [step, PgAdvisoryLock.sessionEnds] using hsome

theorem exclusive_tryLock {g : Group} (hex : Exclusive g) (o : TryOutcome)
    (ho : g.others = true) : (g.lock.tryLock g.others o).1.held = 0 := by
  cases hm : g.lock.mutexHeld with
  | true => rw [tryLock_of_mutexHeld hm]; exact hex ho
  | false =>
    rw [held_tryLock hm, hex ho, ho]
    cases g.lock.session o with
    | none => rfl
    | some c => cases o.reply <;> simp

theorem held_release_le (l : PgAdvisoryLock) (o : ReleaseOutcome) :
    (l.release o).1.held ≤ l.held := by
  unfold PgAdvisoryLock.release
  split
  · exact Nat.le_refl _
  split
  · exact Nat.le_refl _
  · cases hconn : l.conn with
    | none => simp
    | some c =>
      cases o with
      | queryError err ran =>
        cases ran <;> cases hal : c.alive <;>
          simp [PgAdvisoryLock.held, hconn, hal, Session.unlockAll]
      | sent ran =>
        cases ran <;> cases hal : c.alive <;>
          simp [PgAdvisoryLock.held, hconn, hal, Session.unlockAll]

theorem held_close_le (l : PgAdvisoryLock) : l.close.1.held ≤ l.held := by
  unfold PgAdvisoryLock.close
  split
  · exact Nat.le_refl _
  · exact Nat.zero_le _

theorem exclusive_step {g : Group} (hex : Exclusive g) (a : Action) : Exclusive (step g a) := by
  cases a with
  | tryLock o => exact exclusive_tryLock hex o
  | isLeader o => exact exclusive_tryLock hex o
  | becomeLeader o => exact exclusive_tryLock hex o
  | release o => exact fun ho => Nat.le_zero.mp (hex ho ▸ held_release_le g.lock o)
  | resign o => exact fun ho => Nat.le_zero.mp (hex ho ▸ held_release_le g.lock o)
  | locked => exact hex
  | close => exact fun ho => Nat.le_zero.mp (hex ho ▸ held_close_le g.lock)
  | otherAcquires =>
    change Exclusive g.otherAcquires
    unfold Group.otherAcquires
    split
    · rename_i hheld
      exact fun _ => hheld
    · exact hex
  | otherReleases => exact fun ho => by cases ho
  | sessionEnds => exact fun _ => held_sessionEnds _

/-- `Release` dereferences the connection without a test. -/
def Panics (g : Group) : Action → Prop
  | .release o | .resign o => (g.lock.release o).2 = .panicked
  | _ => False

theorem not_panics {g : Group} (hc : Consistent g.lock) (a : Action) : ¬Panics g a := by
  have hrelease : ∀ o, (g.lock.release o).2 ≠ .panicked := by
    intro o
    unfold PgAdvisoryLock.release
    cases hm : g.lock.mutexHeld with
    | true => simp
    | false =>
      cases hobt : g.lock.obtained with
      | false => simp
      | true =>
        obtain ⟨c, hconn⟩ := Option.isSome_iff_exists.mp (hc.1 hobt)
        cases o <;> simp [hconn]
  cases a with
  | release o => exact hrelease o
  | resign o => exact hrelease o
  | _ => exact id

/-- From a new lock, whatever the others do: the flag, the connection and the server agree
after every call, and no call panics, exactly if no request loses track of a lock that its
session holds, no unlock is skipped by the server, and `Close` is called without the lock
only. -/
theorem lock_consistent_iff (others : Bool) (actions : List Action) :
    (Always step (fun g => Consistent g.lock) { others := others } actions ∧
      Throughout step (fun g a => ¬Panics g a) { others := others } actions) ↔
      Throughout step Tracked { others := others } actions := by
  have hstart : Consistent ({ others := others } : Group).lock :=
    ⟨(fun h => nomatch h), fun _ => rfl⟩
  have hexcl : Exclusive { others := others } := fun _ => rfl
  have hiff : Always step (fun g => Consistent g.lock) { others := others } actions ↔
      Throughout step Tracked { others := others } actions :=
    always_iff_throughout Exclusive (fun _ a hex => exclusive_step hex a)
      (fun _ a hex hc => consistent_step hex hc a) hexcl hstart actions
  rw [← hiff, and_iff_left_iff_imp]
  exact fun h => throughout_of_always (fun _ a hc => not_panics hc a) h

/-- A request on a fresh connection that the server answers. -/
def answered : TryOutcome where
  attempts _ := .ready
  reply := .row

/-- The lock is taken and the connection closed: the flag stays, and `Release` dereferences
the missing connection. -/
theorem close_keeps_obtained :
    ¬Consistent (run step {} [.tryLock answered, .close]).lock ∧
      Panics (run step {} [.tryLock answered, .close]) (.release (.sent true)) :=
  ⟨by decide, rfl⟩

/-- Only a release without the lock leaves the mutex locked. -/
def HoldsLock (g : Group) : Action → Prop
  | .release _ | .resign _ => g.lock.obtained = true
  | _ => True

theorem mutexHeld_release {l : PgAdvisoryLock} (hfree : l.mutexHeld = false)
    (o : ReleaseOutcome) : (l.release o).1.mutexHeld = false ↔ l.obtained = true := by
  unfold PgAdvisoryLock.release
  simp only [hfree, Bool.false_eq_true, ↓reduceIte]
  cases hobt : l.obtained with
  | false => simp
  | true =>
    cases hconn : l.conn with
    | none => simp [hfree]
    | some c => cases o <;> simp

theorem mutexFree_step {g : Group} (hfree : g.lock.mutexHeld = false) (a : Action) :
    (step g a).lock.mutexHeld = false ↔ HoldsLock g a := by
  cases a with
  | tryLock o => exact iff_of_true ((tryLock_mutexHeld _ _ o).trans hfree) trivial
  | isLeader o => exact iff_of_true ((tryLock_mutexHeld _ _ o).trans hfree) trivial
  | becomeLeader o => exact iff_of_true ((tryLock_mutexHeld _ _ o).trans hfree) trivial
  | release o => exact mutexHeld_release hfree o
  | resign o => exact mutexHeld_release hfree o
  | locked => exact iff_of_true hfree trivial
  | close =>
    refine iff_of_true ?_ trivial
    simp [step, PgAdvisoryLock.close, hfree]
  | otherAcquires =>
    refine iff_of_true ?_ trivial
    change g.otherAcquires.lock.mutexHeld = false
    unfold Group.otherAcquires
    split <;> exact hfree
  | otherReleases => exact iff_of_true hfree trivial
  | sessionEnds => exact iff_of_true hfree trivial

/-- The call waits for the mutex. -/
def Blocks (g : Group) : Action → Prop
  | .tryLock o | .isLeader o | .becomeLeader o => (g.lock.tryLock g.others o).2 = .blocked
  | .release o | .resign o => (g.lock.release o).2 = .blocked
  | .locked => g.lock.locked = .blocked
  | .close => g.lock.close.2 = .blocked
  | .otherAcquires | .otherReleases | .sessionEnds => False

theorem not_blocks {g : Group} (hfree : g.lock.mutexHeld = false) (a : Action) : ¬Blocks g a := by
  have htry : ∀ o, (g.lock.tryLock g.others o).2 ≠ .blocked := by
    intro o
    unfold PgAdvisoryLock.tryLock
    simp only [hfree, Bool.false_eq_true, ↓reduceIte]
    split <;> simp
  have hrelease : ∀ o, (g.lock.release o).2 ≠ .blocked := by
    intro o
    unfold PgAdvisoryLock.release
    simp only [hfree, Bool.false_eq_true, ↓reduceIte]
    split
    · simp
    · split <;> simp
  cases a with
  | tryLock o => exact htry o
  | isLeader o => exact htry o
  | becomeLeader o => exact htry o
  | release o => exact hrelease o
  | resign o => exact hrelease o
  | locked => simp [Blocks, PgAdvisoryLock.locked, hfree]
  | close => simp [Blocks, PgAdvisoryLock.close, hfree]
  | otherAcquires => exact id
  | otherReleases => exact id
  | sessionEnds => exact id

/-- In every interleaving of whole calls, the mutex is free after every call, and none is
blocked by one that has returned, exactly if `Release` is called with the lock only. -/
theorem mutex_free_iff (others : Bool) (actions : List Action) :
    (Always step (fun g => g.lock.mutexHeld = false) { others := others } actions ∧
      Throughout step (fun g a => ¬Blocks g a) { others := others } actions) ↔
      Throughout step HoldsLock { others := others } actions := by
  have hiff : Always step (fun g => g.lock.mutexHeld = false) { others := others } actions ↔
      Throughout step HoldsLock { others := others } actions :=
    always_iff_throughout (fun _ => True) (fun _ _ _ => trivial)
      (fun _ a _ hfree => mutexFree_step hfree a) trivial rfl actions
  rw [← hiff, and_iff_left_iff_imp]
  exact fun h => throughout_of_always (fun _ a hfree => not_blocks hfree a) h

/-- One goroutine finds that it is the leader; before it resigns, the election tick of another
finds the connection broken. The release returns with the mutex locked, and the next call
waits for it for ever. -/
theorem release_blocks_isLeader :
    (run step {} [.isLeader answered,
        .isLeader { attempts := fun _ => .ready, reply := .queryError "conn closed" },
        .resign (.sent true)]).lock.mutexHeld = true ∧
      Blocks (run step {} [.isLeader answered,
        .isLeader { attempts := fun _ => .ready, reply := .queryError "conn closed" },
        .resign (.sent true)]) (.isLeader answered) :=
  ⟨by decide, rfl⟩

end TimescalePrometheus.Election
