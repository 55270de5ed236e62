import TimescalePrometheus.Lib.Runs

/-!
The leader lock of `util/lock.go`. An instance holds a PostgreSQL advisory lock on a
session of its own; its other fields are the flag `obtained` and a mutex. The server and the
connection answer each call as they please, and other instances compete for the same lock.
-/

namespace TimescalePrometheus.Election

open Lib.Runs

/-- A database session: whether it still exists on the server, and how many times it has
been granted the group's lock without an unlock. -/
structure Session where
  alive : Bool := true
  held : Nat := 0
deriving DecidableEq

/-- `mutexHeld` says that the mutex was left locked by a call that has returned. -/
structure PgAdvisoryLock where
  conn : Option Session := none
  obtained : Bool := false
  mutexHeld : Bool := false
deriving DecidableEq

/-- How a call ends, if it does. -/
inductive Result (α : Type) where
  | blocked
  | panicked
  | returned (value : α)
deriving DecidableEq

/-- What comes of one attempt to connect. -/
inductive Attempt where
  | refused (err : String)
  | invalid
  | ready

/-- `getConn` from attempt `cur` on, with `left` attempts to go. A connection that fails its
check is dropped and the next attempt is made; a refused connection ends the attempts. -/
def getConn (attempts : Nat → Attempt) (cur : Nat) : Nat → Except String Session
  | 0 => .error "max attempts reached. giving up on getting a db connection"
  | left + 1 =>
    match attempts cur with
    | .refused err => .error ("error getting DB connection: " ++ err)
    | .invalid => getConn attempts (cur + 1) left
    | .ready => .ok {}

/-- What comes back for `SELECT pg_try_advisory_lock($1)`: an error of `Query`, an error that
only `rows.Err` reports, no row without an error, a row that does not scan, or the row.
Where no row arrives, `ran` tells whether the server has run the function. -/
inductive Reply where
  | queryError (err : String)
  | rowsError (err : String)
  | missingRow (ran : Bool)
  | scanError (err : String)
  | row

/-- What the server and the network answer. -/
structure TryOutcome where
  attempts : Nat → Attempt
  reply : Reply

/-- `pg_try_advisory_lock` in a session that is alive. -/
def Session.tryAdvisoryLock (c : Session) (others : Bool) : Session :=
  if others then c else { c with held := c.held + 1 }

/-- The connection that `getAdvisoryLock` uses. -/
def PgAdvisoryLock.connection (l : PgAdvisoryLock) (o : TryOutcome) : Except String Session :=
  match l.conn with
  | some c => .ok c
  | none => getConn o.attempts 0 10

/-- `others` says whether another instance holds the lock. The deferred clean-up closes the
connection on the errors that the outer `err` has seen; a missing row leaves it `nil` and the
error of `Scan` is a variable of its own, so there the connection stays. -/
def PgAdvisoryLock.getAdvisoryLock (l : PgAdvisoryLock) (others : Bool) (o : TryOutcome) :
    PgAdvisoryLock × Except String Bool :=
  match l.connection o with
  | .error err => ({ l with conn := none }, .error err)
  | .ok c =>
    if ¬c.alive then ({ l with conn := none }, .error "conn closed")
    else
      match o.reply with
      | .queryError err => ({ l with conn := none }, .error err)
      | .rowsError err => ({ l with conn := none }, .error
          ("error while trying to read response rows from `pg_try_advisory_lock` function: " ++
            err))
      | .missingRow ran =>
        ({ l with conn := some (if ran then c.tryAdvisoryLock others else c) },
          .error "missing response row from `pg_try_advisory_lock` function")
      | .scanError err => ({ l with conn := some (c.tryAdvisoryLock others) }, .error err)
      | .row => ({ l with conn := some (c.tryAdvisoryLock others) }, .ok (!others))

/-- An error also clears the flag. -/
def PgAdvisoryLock.tryLock (l : PgAdvisoryLock) (others : Bool) (o : TryOutcome) :
    PgAdvisoryLock × Result (Except String Bool) :=
  if l.mutexHeld then (l, .blocked)
  else
    match l.getAdvisoryLock others o with
    | (l, .ok true) => ({ l with obtained := true }, .returned (.ok true))
    | (l, .ok false) => ({ l with obtained := false }, .returned (.ok false))
    | (l, .error err) => ({ l with obtained := false }, .returned (.error err))

def PgAdvisoryLock.becomeLeader := PgAdvisoryLock.tryLock

def PgAdvisoryLock.isLeader := PgAdvisoryLock.tryLock

/-- What becomes of `SELECT pg_advisory_unlock_all()`: an error of `Query`, or none, in which
case nobody asks whether the server has run the function. -/
inductive ReleaseOutcome where
  | queryError (err : String) (ran : Bool)
  | sent (ran : Bool)

/-- `pg_advisory_unlock_all`, if the server runs it. -/
def Session.unlockAll (c : Session) (ran : Bool) : Session :=
  if ran then { c with held := 0 } else c

/-- The early return leaves the mutex locked: its `Unlock` is only deferred after the test. -/
def PgAdvisoryLock.release (l : PgAdvisoryLock) (o : ReleaseOutcome) :
    PgAdvisoryLock × Result (Except String Unit) :=
  if l.mutexHeld then (l, .blocked)
  else if ¬l.obtained then
    ({ l with mutexHeld := true }, .returned (.error "can't release while not holding the lock"))
  else
    match l.conn, o with
    | none, _ => (l, .panicked)
    | some c, .queryError err ran =>
      ({ l with conn := some (c.unlockAll ran) }, .returned (.error err))
    | some c, .sent ran =>
      ({ l with conn := some (c.unlockAll ran), obtained := false }, .returned (.ok ()))

def PgAdvisoryLock.resign := PgAdvisoryLock.release

/-- The flag is not touched. -/
def PgAdvisoryLock.close (l : PgAdvisoryLock) : PgAdvisoryLock × Result Unit :=
  if l.mutexHeld then (l, .blocked) else ({ l with conn := none }, .returned ())

/-- `Locked`. -/
def PgAdvisoryLock.locked (l : PgAdvisoryLock) : Result Bool :=
  if l.mutexHeld then .blocked else .returned l.obtained

/-- How often the instance holds the lock on a session that exists. -/
def PgAdvisoryLock.held (l : PgAdvisoryLock) : Nat :=
  match l.conn with
  | some c => if c.alive then c.held else 0
  | none => 0

/-- The instance and what the server knows of the others. -/
structure Group where
  lock : PgAdvisoryLock := {}
  others : Bool := false

/-- Calls of the instance, each a critical section of its own, and what happens around it:
another instance takes or gives up the lock, or the session ends on the server. -/
inductive Action where
  | tryLock (o : TryOutcome)
  | isLeader (o : TryOutcome)
  | becomeLeader (o : TryOutcome)
  | release (o : ReleaseOutcome)
  | resign (o : ReleaseOutcome)
  | locked
  | close
  | otherAcquires
  | otherReleases
  | sessionEnds

/-- The instance does not notice. -/
def PgAdvisoryLock.sessionEnds (l : PgAdvisoryLock) : PgAdvisoryLock :=
  { l with conn := l.conn.map fun c => { c with alive := false } }

/-- The server grants the lock to one session at a time. -/
def Group.otherAcquires (g : Group) : Group :=
  if g.lock.held = 0 then { g with others := true } else g

/-- An action of the instance or around it. -/
def step (g : Group) : Action → Group
  | .tryLock o => { g with lock := (g.lock.tryLock g.others o).1 }
  | .isLeader o => { g with lock := (g.lock.isLeader g.others o).1 }
  | .becomeLeader o => { g with lock := (g.lock.becomeLeader g.others o).1 }
  | .release o => { g with lock := (g.lock.release o).1 }
  | .resign o => { g with lock := (g.lock.resign o).1 }
  | .locked => g
  | .close => { g with lock := g.lock.close.1 }
  | .otherAcquires => g.otherAcquires
  | .otherReleases => { g with others := false }
  | .sessionEnds => { g with lock := g.lock.sessionEnds }

/-- The live session on which the request is sent, if it comes to that. -/
def PgAdvisoryLock.session (l : PgAdvisoryLock) (o : TryOutcome) : Option Session :=
  match l.connection o with
  | .error _ => none
  | .ok c => if c.alive then some c else none

/-- The session that the instance keeps after the reply. -/
def Reply.kept (others : Bool) (c : Session) : Reply → Option Session
  | .queryError _ => none
  | .rowsError _ => none
  | .missingRow ran => some (if ran then c.tryAdvisoryLock others else c)
  | .scanError _ => some (c.tryAdvisoryLock others)
  | .row => some (c.tryAdvisoryLock others)

/-- The request is answered with yes. -/
def PgAdvisoryLock.granted (l : PgAdvisoryLock) (others : Bool) (o : TryOutcome) : Bool :=
  match l.session o, o.reply with
  | some _, .row => !others
  | _, _ => false

theorem alive_of_session {l : PgAdvisoryLock} {o : TryOutcome} {c : Session}
    (h : l.session o = some c) : c.alive = true := by
  unfold PgAdvisoryLock.session at h
  split at h
  · cases h
  · split at h
    · cases h
      assumption
    · cases h

theorem tryLock_eq {l : PgAdvisoryLock} (hfree : l.mutexHeld = false) (others : Bool)
    (o : TryOutcome) :
    (l.tryLock others o).1 = { l with
      conn := (l.session o).bind fun c => o.reply.kept others c
      obtained := l.granted others o } := by
  unfold PgAdvisoryLock.tryLock PgAdvisoryLock.getAdvisoryLock PgAdvisoryLock.granted
    PgAdvisoryLock.session
  simp only [hfree, Bool.false_eq_true, ↓reduceIte]
  cases l.connection o with
  | error err => rfl
  | ok c =>
    cases hc : c.alive with
    | false => simp [hc]
    | true =>
      cases hr : o.reply <;> simp [hc, Reply.kept]
      cases others <;> rfl

theorem tryLock_of_mutexHeld {l : PgAdvisoryLock} (h : l.mutexHeld = true) (others : Bool)
    (o : TryOutcome) : l.tryLock others o = (l, .blocked) := by
  unfold PgAdvisoryLock.tryLock
  simp [h]

theorem tryLock_granted {l : PgAdvisoryLock} (hfree : l.mutexHeld = false) {others : Bool}
    {o : TryOutcome} :
    (l.tryLock others o).2 = .returned (.ok true) ↔ l.granted others o = true := by
  unfold PgAdvisoryLock.tryLock PgAdvisoryLock.getAdvisoryLock PgAdvisoryLock.granted
    PgAdvisoryLock.session
  simp only [hfree, Bool.false_eq_true, ↓reduceIte]
  cases l.connection o with
  | error err => simp
  | ok c =>
    cases hc : c.alive with
    | false => simp [hc]
    | true =>
      cases hr : o.reply <;> simp [hc]
      cases others <;> simp

@[simp] theorem tryLock_mutexHeld (l : PgAdvisoryLock) (others : Bool) (o : TryOutcome) :
    (l.tryLock others o).1.mutexHeld = l.mutexHeld := by
  cases hm : l.mutexHeld with
  | true => rw [tryLock_of_mutexHeld hm]; exact hm
  | false => rw [tryLock_eq hm]; exact hm

theorem getConn_eq_ok {attempts : Nat → Attempt} {cur left : Nat} {c : Session}
    (h : getConn attempts cur left = .ok c) : c = {} := by
  induction left generalizing cur with
  | zero => cases h
  | succ left ih =>
    unfold getConn at h
    split at h
    · cases h
    · exact ih h
    · cases h
      rfl

theorem held_of_session {l : PgAdvisoryLock} {o : TryOutcome} {c : Session}
    (h : l.session o = some c) : c.held = l.held := by
  have halive := alive_of_session h
  unfold PgAdvisoryLock.session PgAdvisoryLock.connection at h
  cases hconn : l.conn with
  | some d =>
    simp only [hconn] at h
    split at h
    · cases h
      simp [PgAdvisoryLock.held, hconn, halive]
    · cases h
  | none =>
    simp only [hconn] at h
    cases hnew : getConn o.attempts 0 10 with
    | error err => simp [hnew] at h
    | ok d =>
      simp only [hnew, getConn_eq_ok hnew, ↓reduceIte, Option.some.injEq] at h
      simp [PgAdvisoryLock.held, hconn, ← h]

theorem held_tryLock {l : PgAdvisoryLock} (hfree : l.mutexHeld = false) (others : Bool)
    (o : TryOutcome) :
    (l.tryLock others o).1.held =
      match l.session o, o.reply with
      | some _, .missingRow ran => l.held + (ran && !others).toNat
      | some _, .scanError _ => l.held + (!others).toNat
      | some _, .row => l.held + (!others).toNat
      | _, _ => 0 := by
  rw [tryLock_eq hfree]
  cases hs : l.session o with
  | none => simp [PgAdvisoryLock.held]
  | some c =>
    have hheld := held_of_session hs
    have halive := alive_of_session hs
    rw [← hheld]
    cases o.reply with
    | queryError err => simp [PgAdvisoryLock.held, Reply.kept]
    | rowsError err => simp [PgAdvisoryLock.held, Reply.kept]
    | missingRow ran =>
      cases ran <;> cases others <;>
        simp [PgAdvisoryLock.held, Reply.kept, Session.tryAdvisoryLock, halive]
    | scanError err =>
      cases others <;> simp [PgAdvisoryLock.held, Reply.kept, Session.tryAdvisoryLock, halive]
    | row =>
      cases others <;> simp [PgAdvisoryLock.held, Reply.kept, Session.tryAdvisoryLock, halive]

end TimescalePrometheus.Election
