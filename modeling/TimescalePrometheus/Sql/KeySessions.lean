import TimescalePrometheus.Sql.KeyPositions

/-!
Sessions that add label keys to metrics. A session looks for the position of its key
before it takes the lock on the metric's data table; until it has the lock, other
sessions may run.
-/

namespace TimescalePrometheus.Sql.KeySessions

open Lib.Runs Lib.Transactions Sql.Tables Sql.Metrics Sql.LabelKeys Sql.CatalogEdits
open Sql.FunctionEdits Sql.Sequences Sql.ViewColumns Sql.KeyPositions

/-- The database and who waits for a lock. -/
structure State where
  catalog : Catalog
  /-- The metric and the key of each session that did not find a position and now
  waits for the lock. -/
  waiting : Nat → Option (String × String)

def State.initial : State where
  catalog := Catalog.empty
  waiting := fun _ => none

/-- A step of a session. -/
inductive Action where
  /-- A session makes the optimistic check of `get_new_pos_for_key`. -/
  | check (session : Nat) (metricName key : String)
  /-- A waiting session gets the lock and runs to the end of its transaction. -/
  | enter (session : Nat)
  /-- Another call is made as a transaction of its own. -/
  | call (a : CatalogRuns.Action)

def step (s : State) : Action → State
  | .check session metricName key =>
    match s.waiting session, s.catalog.position? metricName key with
    | none, none =>
      { s with waiting := Function.update s.waiting session (some (metricName, key)) }
    | _, _ => s
  | .enter session =>
    match s.waiting session with
    | none => s
    | some (metricName, key) =>
      { catalog := (transaction (lockedNewPos metricName key) s.catalog).2
        waiting := Function.update s.waiting session none }
  | .call a => { s with catalog := CatalogRuns.step s.catalog a }

theorem step_catalog_kept (s : State) (a : Action) : Kept s.catalog (step s a).catalog := by
  cases a with
  | check session metricName key =>
    simp only [step]
    split <;> exact .refl _
  | enter session =>
    simp only [step]
    split
    · exact .refl _
    · rename_i metricName key _
      apply transaction_kept (lockedNewPos_advance metricName key s.catalog)
      exact fun _ _ h => lockedNewPos_kept h
  | call a => exact step_kept s.catalog a

theorem run_catalog_kept (s : State) (actions : List Action) :
    Kept s.catalog (run step s actions).catalog := by
  induction actions generalizing s with
  | nil => exact .refl _
  | cons a actions ih => exact (step_catalog_kept s a).trans (ih (step s a))

section Refusals

variable {c c' : Catalog} {e : Abort}

theorem makeMetricTable_error {new : MetricRow} (h : makeMetricTable new c = .error e c') :
    e = .duplicateTable := by
  simp only [makeMetricTable, bind_eq_error, get_ne_error, get_eq_ok, false_or] at h
  obtain ⟨_, _, ⟨rfl, rfl⟩, h⟩ := h
  split at h
  · simp only [bind_eq_error, throw_eq_error, throw_ne_ok] at h
    obtain h | ⟨_, _, h, -⟩ := h
    · exact h.1.symm
    · exact h.elim
  · simp only [bind_eq_error, set_ne_error, get_ne_error, get_eq_ok, getOrCreateLabelId_ne_error,
      false_or] at h
    obtain ⟨_, _, -, labelId, c₁, -, _, _, ⟨rfl, rfl⟩, h⟩ := h
    split at h
    · simp only [bind_eq_error, throw_eq_error, throw_ne_ok] at h
      obtain h | ⟨_, _, h, -⟩ := h
      · exact h.1.symm
      · exact h.elim
    · simp at h

theorem getOrCreateMetricTableName_error {metricName : String}
    (h : getOrCreateMetricTableName metricName c = .error e c') :
    e = .duplicateTable ∨ e = .loopNeverExits := by
  simp only [getOrCreateMetricTableName, bind_eq_error, get_ne_error, get_eq_ok, false_or] at h
  obtain ⟨_, _, ⟨rfl, rfl⟩, h⟩ := h
  cases hmetric : c.metric? metricName with
  | some m => simp [hmetric] at h
  | none =>
    simp only [hmetric, createMetricTable, bind_eq_error, nextval_ne_error, get_ne_error,
      get_eq_ok, pure_ne_error, and_false, exists_false, false_or, or_false] at h
    obtain ⟨id, c₁, -, _, _, ⟨rfl, rfl⟩, h⟩ := h
    split at h
    · cases hmetric₁ : c₁.metric? metricName with
      | some m => simp [hmetric₁] at h
      | none =>
        simp only [hmetric₁, throw_eq_error] at h
        exact .inr h.1.symm
    · simp only [bind_eq_error, set_ne_error, pure_ne_error, and_false, exists_false, false_or,
        or_false] at h
      obtain ⟨_, _, -, h⟩ := h
      exact .inl (makeMetricTable_error h)

theorem lockedNewPos_error {metricName key : String} (hwf : ViewsWellFormed c)
    (h : lockedNewPos metricName key c = .error e c') :
    e = .duplicateTable ∨ e = .loopNeverExits ∨ e = .duplicateColumn := by
  simp only [lockedNewPos, bind_eq_error, get_ne_error, get_eq_ok, false_or] at h
  obtain hmetric | ⟨⟨m, new⟩, c₁, hmetric, _, _, ⟨rfl, rfl⟩, h⟩ := h
  · obtain h | h := getOrCreateMetricTableName_error hmetric
    · exact .inl h
    · exact .inr (.inl h)
  obtain ⟨hkept, hmetric⟩ := getOrCreateMetricTableName_kept hmetric
  obtain ⟨-, rfl⟩ := Catalog.mem_of_metric? hmetric
  cases hpos : c₁.position? m.metricName key with
  | some found => simp [hpos] at h
  | none =>
    simp only [hpos] at h
    obtain ⟨c₂, hok, -⟩ | ⟨-, c₂, herror⟩ := recordKey_cases (hkept hwf).1 hmetric hpos
    · rw [hok] at h
      cases h
    · rw [herror] at h
      cases h
      exact .inr (.inr rfl)

end Refusals

/-- The positions of a metric: no two keys share one, a key has only one, the metric's
name stands at 1, and the other keys fill the positions from 2 on in the order in which
they were inserted. -/
structure Settled (c : Catalog) (metricName : String) : Prop where
  distinct : ∀ p ∈ c.labelKeyPosition, ∀ q ∈ c.labelKeyPosition, p.metricName = metricName →
    q.metricName = metricName → p.pos = q.pos ∨ p.key = q.key → p = q
  first : ∀ p ∈ c.labelKeyPosition, p.metricName = metricName → p.key = metricNameLabelName →
    p.pos = 1
  others : (labelRows c metricName).map (·.pos) =
    List.range' 2 (labelRows c metricName).length

theorem ViewsWellFormed.settled {c : Catalog} (h : ViewsWellFormed c) (metricName : String) :
    Settled c metricName where
  distinct p hp q hq hpname hqname := by
    rintro (hpos | hkey)
    · exact h.positions.posInj hp hq (hpname.trans hqname.symm) hpos
    · exact List.inj_on_of_nodup_map h.positions.keyNodup hp hq (by rw [hpname, hqname, hkey])
  first p hp _ hkey := h.positions.named p hp hkey
  others := h.positions.dense metricName

/-- After any run, and however it goes on, the positions of every metric are settled and
keep what they were, views only gain columns at their end, and no view that is
regenerated is refused because its columns do not begin with those it had. -/
theorem positions_settled (before after : List Action) (metricName : String) :
    let c := (run step State.initial before).catalog
    let c' := (run step (run step State.initial before) after).catalog
    Settled c' metricName ∧
      (∀ key pos, c.position? metricName key = some pos →
        c'.position? metricName key = some pos) ∧
      Grows c c' ∧
      ∀ key e c'', lockedNewPos metricName key c' = .error e c'' → e ≠ .invalidViewChange := by
  intro c c'
  have hwf : ViewsWellFormed c :=
    (run_catalog_kept State.initial before viewsWellFormed_empty).1
  obtain ⟨hwf', hgrows⟩ := run_catalog_kept (run step State.initial before) after hwf
  refine ⟨ViewsWellFormed.settled hwf' metricName, fun _ _ => hgrows.position?_eq, hgrows, ?_⟩
  rintro key e c'' herror rfl
  have := lockedNewPos_error hwf' herror
  simp at this

end TimescalePrometheus.Sql.KeySessions
