import TimescalePrometheus.Sql.CatalogRuns

/-!
Sessions that run `finalize_metric_creation` at the same time, each taken statement by
statement. Row locks and the lock on the series table are held to the end of a
transaction, and what a transaction did becomes visible when it commits.
-/

namespace TimescalePrometheus.Sql.FinalizeSessions

open Lib.Runs Lib.Transactions Sql.Tables Sql.Metrics Sql.Retention Sql.CatalogEdits
open Sql.FunctionEdits Sql.Sequences Sql.Invariant

/-- Where a session is: the statement of the loop body it has executed last for the
metric `id`, and the metrics that its loop comes to later. -/
inductive Phase
  | idle
  /-- Before `SELECT ... FOR UPDATE` of the next metric, outside a transaction. -/
  | loop (rest : List Nat)
  | selected (created : Bool) (id : Nat) (rest : List Nat)
  | compressSet (id : Nat) (rest : List Nat)
  | policyAdded (id : Nat) (rest : List Nat)
  | updated (id : Nat) (rest : List Nat)
  | seriesLocked (id : Nat) (rest : List Nat)
  | attached (id : Nat) (rest : List Nat)
  deriving DecidableEq

/-- The database and its sessions. -/
structure State where
  /-- What is committed. -/
  catalog : Catalog
  /-- How often `add_compress_chunks_policy` was committed for a metric. -/
  compressPolicies : Nat → Nat
  /-- How often `ATTACH PARTITION` was committed for a metric. -/
  partitions : Nat → Nat
  /-- The session that has locked the row of a metric. -/
  rowLock : Nat → Option Nat
  seriesLock : Option Nat
  session : Nat → Phase

def State.initial : State where
  catalog := Catalog.empty
  compressPolicies := fun _ => 0
  partitions := fun _ => 0
  rowLock := fun _ => none
  seriesLock := none
  session := fun _ => .idle

/-- A commit or a statement. -/
inductive Action
  /-- `get_or_create_metric_table_name`, as it commits. -/
  | createMetric (metricName : String)
  /-- The query of the loop, with the order it returns its rows in. -/
  | call (i : Nat) (order : List Nat)
  /-- The next statement of the session. -/
  | statement (i : Nat)
  /-- An error or a lost connection. -/
  | abort (i : Nat)

/-- The rows of the loop's query, in the order of the table. -/
def unfinished (c : Catalog) : List Nat :=
  (c.metric.filter fun m => !m.creationCompleted).map (·.id)

/-- `SELECT creation_completed INTO created FROM metric m WHERE m.id = r.id`. -/
def creationCompleted (c : Catalog) (id : Nat) : Bool :=
  (c.metric.find? fun m => m.id = id).any (·.creationCompleted)

def State.goto (s : State) (i : Nat) (phase : Phase) : State :=
  { s with session := Function.update s.session i phase }

/-- The next statement of a session, none if it has to wait for a lock. -/
def State.statement (s : State) (i : Nat) : Option State :=
  match s.session i with
  | .idle => none
  | .loop [] => some (s.goto i .idle)
  | .loop (id :: rest) =>
    match s.rowLock id with
    | some _ => none
    | none =>
      some (State.goto { s with rowLock := Function.update s.rowLock id (some i) } i
        (.selected (creationCompleted s.catalog id) id rest))
  | .selected true id rest =>
    some (State.goto { s with rowLock := Function.update s.rowLock id none } i (.loop rest))
  | .selected false id rest => some (s.goto i (.compressSet id rest))
  | .compressSet id rest => some (s.goto i (.policyAdded id rest))
  | .policyAdded id rest => some (s.goto i (.updated id rest))
  | .updated id rest =>
    match s.seriesLock with
    | some _ => none
    | none => some (State.goto { s with seriesLock := some i } i (.seriesLocked id rest))
  | .seriesLocked id rest => some (s.goto i (.attached id rest))
  -- the COMMIT publishes the policy, the flag and the partition
  | .attached id rest =>
    some (State.goto { s with
      catalog := (transaction (finalizeMetricCreation id) s.catalog).2
      compressPolicies := Function.update s.compressPolicies id (s.compressPolicies id + 1)
      partitions := Function.update s.partitions id (s.partitions id + 1)
      rowLock := Function.update s.rowLock id none
      seriesLock := none } i (.loop rest))

/-- A rollback: the locks of the session are free, and nothing it did remains. -/
def State.abort (s : State) (i : Nat) : State :=
  State.goto { s with
    rowLock := fun id => if s.rowLock id = some i then none else s.rowLock id
    seriesLock := if s.seriesLock = some i then none else s.seriesLock } i .idle

/-- A statement may have to wait. -/
def step (s : State) : Action → State
  | .createMetric metricName =>
    { s with catalog := (transaction (getOrCreateMetricTableName metricName) s.catalog).2 }
  | .call i order =>
    if s.session i = .idle ∧ order.isPerm (unfinished s.catalog) then s.goto i (.loop order)
    else s
  | .statement i => (s.statement i).getD s
  | .abort i => s.abort i

/-- The session has added a policy to the metric in its open transaction. -/
def addsPolicy (id : Nat) : Phase → Bool
  | .policyAdded id' _ => id' = id
  | .updated id' _ => id' = id
  | .seriesLocked id' _ => id' = id
  | .attached id' _ => id' = id
  | _ => false

/-- The session has attached the partition of the metric in its open transaction. -/
def attaches (id : Nat) : Phase → Bool
  | .attached id' _ => id' = id
  | _ => false

/-- Nothing is done twice for a metric, counting what open transactions have done. -/
structure FinalisedOnce (s : State) : Prop where
  policies : ∀ id, s.compressPolicies id ≤ 1
  partitions : ∀ id, s.partitions id ≤ 1
  openPolicies : ∀ i id, addsPolicy id (s.session i) = true →
    s.compressPolicies id = 0 ∧ ∀ j, addsPolicy id (s.session j) = true → j = i
  openPartitions : ∀ i id, attaches id (s.session i) = true →
    s.partitions id = 0 ∧ ∀ j, attaches id (s.session j) = true → j = i
  completed : ∀ m ∈ s.catalog.metric, m.creationCompleted = true ↔ s.partitions m.id = 1

/-- The metrics that the loop of the session has still to deal with. -/
def ahead : Phase → List Nat
  | .idle => []
  | .loop rest => rest
  | .selected _ id rest => id :: rest
  | .compressSet id rest => id :: rest
  | .policyAdded id rest => id :: rest
  | .updated id rest => id :: rest
  | .seriesLocked id rest => id :: rest
  | .attached id rest => id :: rest

/-- The metric whose row the session has locked. -/
def holdsRow : Phase → Option Nat
  | .idle => none
  | .loop _ => none
  | .selected _ id _ => some id
  | .compressSet id _ => some id
  | .policyAdded id _ => some id
  | .updated id _ => some id
  | .seriesLocked id _ => some id
  | .attached id _ => some id

/-- What the session found in the row that it has locked. -/
def found : Phase → Bool
  | .selected created _ _ => created
  | _ => false

structure Inv (s : State) : Prop where
  wf : WellFormed s.catalog
  known : ∀ i, ∀ id ∈ ahead (s.session i), ∃ m ∈ s.catalog.metric, m.id = id
  locked : ∀ i id, holdsRow (s.session i) = some id → s.rowLock id = some i
  fresh : ∀ i id, holdsRow (s.session i) = some id → ∀ m ∈ s.catalog.metric, m.id = id →
    m.creationCompleted = found (s.session i)
  counts : ∀ m ∈ s.catalog.metric, s.compressPolicies m.id = m.creationCompleted.toNat ∧
    s.partitions m.id = m.creationCompleted.toNat
  absent : ∀ id, (∀ m ∈ s.catalog.metric, m.id ≠ id) →
    s.compressPolicies id = 0 ∧ s.partitions id = 0

theorem mem_ahead_of_holdsRow {p : Phase} {id : Nat} (h : holdsRow p = some id) :
    id ∈ ahead p := by
  cases p <;> simp_all [holdsRow, ahead]

section Invariant

variable {s s' : State} {i : Nat}

theorem inv_initial : Inv State.initial where
  wf := wellFormed_empty
  known := by simp [State.initial, ahead]
  locked := by simp [State.initial, holdsRow]
  fresh := by simp [State.initial, holdsRow]
  counts := by simp [State.initial, Catalog.empty]
  absent _ _ := ⟨rfl, rfl⟩

theorem Inv.move (h : Inv s) {phase : Phase} {rowLock : Nat → Option Nat}
    (seriesLock : Option Nat)
    (hothers : ∀ j, j ≠ i → ∀ id, holdsRow (s.session j) = some id → rowLock id = some j)
    (hlocked : ∀ id, holdsRow phase = some id → rowLock id = some i)
    (hknown : ∀ id ∈ ahead phase, ∃ m ∈ s.catalog.metric, m.id = id)
    (hfresh : ∀ id, holdsRow phase = some id → ∀ m ∈ s.catalog.metric, m.id = id →
      m.creationCompleted = found phase) :
    Inv (State.goto { s with rowLock, seriesLock } i phase) where
  wf := h.wf
  known := by
    intro j id hid
    rcases eq_or_ne j i with rfl | hj
    · simp only [State.goto, Function.update_self] at hid
      exact hknown id hid
    · simp only [State.goto, Function.update_of_ne hj] at hid
      exact h.known j id hid
  locked := by
    intro j id hid
    rcases eq_or_ne j i with rfl | hj
    · simp only [State.goto, Function.update_self] at hid
      exact hlocked id hid
    · simp only [State.goto, Function.update_of_ne hj] at hid
      exact hothers j hj id hid
  fresh := by
    intro j id hid
    rcases eq_or_ne j i with rfl | hj
    · simp only [State.goto, Function.update_self] at hid ⊢
      exact hfresh id hid
    · simp only [State.goto, Function.update_of_ne hj] at hid ⊢
      exact h.fresh j id hid
  counts := h.counts
  absent := h.absent

theorem creationCompleted_of_mem {c : Catalog} (hwf : WellFormed c) {m : MetricRow}
    (hm : m ∈ c.metric) : creationCompleted c m.id = m.creationCompleted := by
  unfold creationCompleted
  cases hfind : c.metric.find? fun m' => m'.id = m.id with
  | none =>
    have hne := List.find?_eq_none.mp hfind m hm
    simp at hne
  | some m' =>
    have hid := List.find?_some hfind
    simp only [decide_eq_true_eq] at hid
    rw [hwf.metrics.idInj m' (List.mem_of_find?_eq_some hfind) m hm hid, Option.any_some]

/-- The next statement of the loop body, in the same transaction. -/
inductive Continues : Phase → Phase → Prop
  | compress (id : Nat) (rest : List Nat) :
      Continues (.selected false id rest) (.compressSet id rest)
  | addPolicy (id : Nat) (rest : List Nat) :
      Continues (.compressSet id rest) (.policyAdded id rest)
  | update (id : Nat) (rest : List Nat) : Continues (.policyAdded id rest) (.updated id rest)
  | lockSeries (id : Nat) (rest : List Nat) : Continues (.updated id rest) (.seriesLocked id rest)
  | attach (id : Nat) (rest : List Nat) : Continues (.seriesLocked id rest) (.attached id rest)

theorem Continues.same {p p' : Phase} (h : Continues p p') :
    ahead p' = ahead p ∧ holdsRow p' = holdsRow p ∧ found p' = found p := by
  cases h <;> exact ⟨rfl, rfl, rfl⟩

/-- The state after the `COMMIT` that finalises a metric. -/
def committed (s : State) (i id : Nat) (rest : List Nat) : State :=
  State.goto { s with
    catalog := { s.catalog with metric := s.catalog.metric.map (completed id) }
    compressPolicies := Function.update s.compressPolicies id (s.compressPolicies id + 1)
    partitions := Function.update s.partitions id (s.partitions id + 1)
    rowLock := Function.update s.rowLock id none
    seriesLock := none } i (.loop rest)

theorem statement_cases (h : s.statement i = some s') :
    (s.session i = .loop [] ∧ s' = s.goto i .idle) ∨
    (∃ id rest, s.session i = .loop (id :: rest) ∧ s.rowLock id = none ∧
      s' = State.goto { s with rowLock := Function.update s.rowLock id (some i) } i
        (.selected (creationCompleted s.catalog id) id rest)) ∨
    (∃ id rest, s.session i = .selected true id rest ∧
      s' = State.goto { s with rowLock := Function.update s.rowLock id none } i (.loop rest)) ∨
    (∃ phase seriesLock, Continues (s.session i) phase ∧
      s' = State.goto { s with seriesLock } i phase) ∨
    ∃ id rest, s.session i = .attached id rest ∧ s' = committed s i id rest := by
  unfold State.statement at h
  cases hp : s.session i with
  | idle => simp [hp] at h
  | loop rest =>
    cases rest with
    | nil =>
      simp only [hp, Option.some.injEq] at h
      exact .inl ⟨rfl, h.symm⟩
    | cons id rest =>
      cases hlock : s.rowLock id with
      | some j => simp [hp, hlock] at h
      | none =>
        simp only [hp, hlock, Option.some.injEq] at h
        exact .inr (.inl ⟨id, rest, rfl, hlock, h.symm⟩)
  | selected created id rest =>
    cases created <;> simp only [hp, Option.some.injEq] at h
    · exact .inr (.inr (.inr (.inl ⟨_, s.seriesLock, .compress id rest, h.symm⟩)))
    · exact .inr (.inr (.inl ⟨id, rest, rfl, h.symm⟩))
  | compressSet id rest =>
    simp only [hp, Option.some.injEq] at h
    exact .inr (.inr (.inr (.inl ⟨_, s.seriesLock, .addPolicy id rest, h.symm⟩)))
  | policyAdded id rest =>
    simp only [hp, Option.some.injEq] at h
    exact .inr (.inr (.inr (.inl ⟨_, s.seriesLock, .update id rest, h.symm⟩)))
  | updated id rest =>
    cases hlock : s.seriesLock with
    | some j => simp [hp, hlock] at h
    | none =>
      simp only [hp, hlock, Option.some.injEq] at h
      exact .inr (.inr (.inr (.inl ⟨_, some i, .lockSeries id rest, h.symm⟩)))
  | seriesLocked id rest =>
    simp only [hp, Option.some.injEq] at h
    exact .inr (.inr (.inr (.inl ⟨_, s.seriesLock, .attach id rest, h.symm⟩)))
  | attached id rest =>
    simp only [hp, Option.some.injEq] at h
    exact .inr (.inr (.inr (.inr ⟨id, rest, rfl, h.symm⟩)))

theorem mem_map_completed {c : Catalog} {id : Nat} {m' : MetricRow}
    (hm' : m' ∈ c.metric.map (completed id)) :
    ∃ m ∈ c.metric, m.id = m'.id ∧
      m'.creationCompleted = (m.creationCompleted || decide (m.id = id)) := by
  obtain ⟨m, hm, rfl⟩ := List.mem_map.mp hm'
  refine ⟨m, hm, ?_⟩
  unfold completed
  split
  · rename_i hid
    simp [hid]
  · rename_i hid
    simp [hid]

theorem exists_map_completed {c : Catalog} (id : Nat) {id' : Nat} (h : ∃ m ∈ c.metric, m.id = id') :
    ∃ m ∈ c.metric.map (completed id), m.id = id' := by
  obtain ⟨m, hm, rfl⟩ := h
  refine ⟨completed id m, List.mem_map_of_mem hm, ?_⟩
  unfold completed
  split <;> rfl

theorem Inv.committed (h : Inv s) {id : Nat} {rest : List Nat}
    (hp : s.session i = .attached id rest) : Inv (committed s i id rest) := by
  have hlock : s.rowLock id = some i := h.locked i id (by rw [hp]; rfl)
  have hother : ∀ j, j ≠ i → ∀ id', holdsRow (s.session j) = some id' → id' ≠ id := by
    rintro j hj id' hid rfl
    have hlock' := h.locked j id' hid
    rw [hlock] at hlock'
    exact hj (Option.some.inj hlock').symm
  have hfalse : ∀ m ∈ s.catalog.metric, m.id = id → m.creationCompleted = false := by
    intro m hm hid
    have hfresh := h.fresh i id (by rw [hp]; rfl) m hm hid
    rwa [hp] at hfresh
  refine ⟨?_, ?_, ?_, ?_, ?_, ?_⟩
  · exact h.wf.edits (A := fun _ _ => True) (.single (.completeMetric id))
  · intro j id' hid'
    apply exists_map_completed
    rcases eq_or_ne j i with rfl | hj
    · simp only [FinalizeSessions.committed, State.goto, Function.update_self] at hid'
      exact h.known j id' (by rw [hp]; exact List.mem_cons_of_mem _ hid')
    · simp only [FinalizeSessions.committed, State.goto, Function.update_of_ne hj] at hid'
      exact h.known j id' hid'
  · intro j id' hid'
    rcases eq_or_ne j i with rfl | hj
    · simp [FinalizeSessions.committed, State.goto, holdsRow] at hid'
    · simp only [FinalizeSessions.committed, State.goto, Function.update_of_ne hj] at hid' ⊢
      rw [Function.update_of_ne (hother j hj id' hid')]
      exact h.locked j id' hid'
  · intro j id' hid' m' hm' hmid
    rcases eq_or_ne j i with rfl | hj
    · simp [FinalizeSessions.committed, State.goto, holdsRow] at hid'
    · simp only [FinalizeSessions.committed, State.goto, Function.update_of_ne hj] at hid' ⊢
      obtain ⟨m, hm, hid, hcompleted⟩ := mem_map_completed hm'
      have hne : m.id ≠ id := by
        rw [hid, hmid]
        exact hother j hj id' hid'
      rw [hcompleted, h.fresh j id' hid' m hm (hid.trans hmid)]
      simp [hne]
  · intro m' hm'
    obtain ⟨m, hm, hid, hcompleted⟩ := mem_map_completed hm'
    rw [hcompleted, ← hid]
    obtain ⟨hpolicies, hpartitions⟩ := h.counts m hm
    simp only [FinalizeSessions.committed, State.goto]
    by_cases hmid : m.id = id
    · have hnot := hfalse m hm hmid
      subst hmid
      simp [hpolicies, hpartitions, hnot]
    · simp [hmid, hpolicies, hpartitions]
  · intro id' hid'
    have hnone : ∀ m ∈ s.catalog.metric, m.id ≠ id' := by
      intro m hm heq
      obtain ⟨m', hm', hmid'⟩ := exists_map_completed id ⟨m, hm, heq⟩
      exact hid' m' hm' hmid'
    have hne : id' ≠ id := by
      rintro rfl
      obtain ⟨m, hm, hmid⟩ := h.known i id' (by rw [hp]; exact List.mem_cons_self)
      exact hnone m hm hmid
    simp only [FinalizeSessions.committed, State.goto, Function.update_of_ne hne]
    exact h.absent id' hnone

theorem Inv.statement (h : Inv s) (hstep : s.statement i = some s') : Inv s' := by
  have hothers : ∀ j, j ≠ i → ∀ id, holdsRow (s.session j) = some id → s.rowLock id = some j :=
    fun j _ id hid => h.locked j id hid
  obtain ⟨hp, rfl⟩ | ⟨id, rest, hp, hlock, rfl⟩ | ⟨id, rest, hp, rfl⟩ |
    ⟨phase, seriesLock, hcontinues, rfl⟩ | ⟨id, rest, hp, rfl⟩ := statement_cases hstep
  · exact h.move s.seriesLock hothers (by simp [holdsRow]) (by simp [ahead]) (by simp [holdsRow])
  · have hknown : ∀ id' ∈ id :: rest, ∃ m ∈ s.catalog.metric, m.id = id' := by
      intro id' hid'
      exact h.known i id' (by rw [hp]; exact hid')
    refine h.move s.seriesLock ?_ ?_ hknown ?_
    · -- nobody else holds the row that was free
      intro j _ id' hid'
      have hlock' := h.locked j id' hid'
      have hne : id' ≠ id := by
        rintro rfl
        simp [hlock] at hlock'
      rw [Function.update_of_ne hne, hlock']
    · rintro _ ⟨⟩
      exact Function.update_self ..
    · rintro _ ⟨⟩ m hm rfl
      exact (creationCompleted_of_mem h.wf hm).symm
  · refine h.move s.seriesLock ?_ (by simp [holdsRow]) ?_ (by simp [holdsRow])
    · intro j hj id' hid'
      have hlock' := h.locked j id' hid'
      have hne : id' ≠ id := by
        rintro rfl
        have hlock := h.locked i id' (by rw [hp]; rfl)
        rw [hlock'] at hlock
        exact hj (Option.some.inj hlock)
      rw [Function.update_of_ne hne, hlock']
    · intro id' hid'
      exact h.known i id' (by rw [hp]; exact List.mem_cons_of_mem _ hid')
  · obtain ⟨hahead, hholds, hfound⟩ := hcontinues.same
    refine h.move seriesLock hothers ?_ ?_ ?_
    · rw [hholds]
      exact h.locked i
    · rw [hahead]
      exact h.known i
    · rw [hholds, hfound]
      exact h.fresh i
  · exact h.committed hp

theorem Inv.abort (h : Inv s) (i : Nat) : Inv (s.abort i) := by
  refine h.move _ ?_ (by simp [holdsRow]) (by simp [ahead]) (by simp [holdsRow])
  intro j hj id hid
  have hlock := h.locked j id hid
  simp only [hlock, Option.some.injEq, hj, if_false]

theorem createMetric_cases (c : Catalog) (metricName : String) :
    (transaction (getOrCreateMetricTableName metricName) c).2.metric = c.metric ∨
      (transaction (getOrCreateMetricTableName metricName) c).2.metric =
        c.metric ++ [newMetric c metricName] := by
  unfold transaction
  cases h : getOrCreateMetricTableName metricName c with
  | error e c' => exact .inl rfl
  | ok r c' =>
    obtain ⟨-, rfl⟩ | ⟨hnone, hcreate⟩ := getOrCreateMetricTableName_eq_ok h
    · exact .inl rfl
    · exact .inr (createMetricTable_metric hnone hcreate)

theorem Inv.createMetric (h : Inv s) (metricName : String) :
    Inv { s with
      catalog := (transaction (getOrCreateMetricTableName metricName) s.catalog).2 } := by
  have hwf : WellFormed (transaction (getOrCreateMetricTableName metricName) s.catalog).2 :=
    CatalogRuns.wellFormed_step h.wf (.metricTableName metricName)
  rcases createMetric_cases s.catalog metricName with heq | heq
  · refine ⟨hwf, ?_, h.locked, ?_, ?_, ?_⟩
    all_goals
      simp only [heq]
      first | exact h.known | exact h.fresh | exact h.counts | exact h.absent
  · have hnew : ∀ m ∈ s.catalog.metric, m.id ≠ (newMetric s.catalog metricName).id := by
      intro m hm
      have hbound := h.wf.metrics.bound m hm
      simp only [newMetric]
      omega
    refine ⟨hwf, ?_, h.locked, ?_, ?_, ?_⟩
    all_goals simp only [heq]
    · intro i id hid
      obtain ⟨m, hm, hmid⟩ := h.known i id hid
      exact ⟨m, List.mem_append_left _ hm, hmid⟩
    · intro i id hid m hm hmid
      rcases List.mem_append.mp hm with hm | hm
      · exact h.fresh i id hid m hm hmid
      · -- a session locks rows that were in its snapshot
        obtain ⟨m₀, hm₀, hid₀⟩ := h.known i id (mem_ahead_of_holdsRow hid)
        rw [List.mem_singleton.mp hm] at hmid
        exact absurd (hid₀.trans hmid.symm) (hnew m₀ hm₀)
    · intro m hm
      rcases List.mem_append.mp hm with hm | hm
      · exact h.counts m hm
      · rw [List.mem_singleton.mp hm]
        exact h.absent _ hnew
    · intro id hid
      exact h.absent id fun m hm => hid m (List.mem_append_left _ hm)

theorem Inv.step (h : Inv s) (a : Action) : Inv (FinalizeSessions.step s a) := by
  cases a with
  | createMetric metricName => exact h.createMetric metricName
  | call i order =>
    simp only [FinalizeSessions.step]
    split
    · rename_i hcall
      have hperm := List.isPerm_iff.mp hcall.2
      refine h.move s.seriesLock (fun j _ id hid => h.locked j id hid) (by simp [holdsRow]) ?_
        (by simp [holdsRow])
      intro id hid
      obtain ⟨m, hm, hmid⟩ := List.mem_map.mp (hperm.mem_iff.mp hid)
      exact ⟨m, (List.mem_filter.mp hm).1, hmid⟩
    · exact h
  | statement i =>
    simp only [FinalizeSessions.step]
    cases hstep : s.statement i with
    | none => exact h
    | some s' => exact h.statement hstep
  | abort i => exact h.abort i

end Invariant

theorem holdsRow_of_addsPolicy {p : Phase} {id : Nat} (h : addsPolicy id p = true) :
    holdsRow p = some id ∧ found p = false := by
  cases p <;> simp_all [addsPolicy, holdsRow, found]

theorem addsPolicy_of_attaches {p : Phase} {id : Nat} (h : attaches id p = true) :
    addsPolicy id p = true := by
  cases p <;> simp_all [attaches, addsPolicy]

theorem Inv.finalisedOnce {s : State} (h : Inv s) : FinalisedOnce s := by
  have hbound : ∀ id, s.compressPolicies id ≤ 1 ∧ s.partitions id ≤ 1 := by
    intro id
    by_cases hid : ∃ m ∈ s.catalog.metric, m.id = id
    · obtain ⟨m, hm, rfl⟩ := hid
      obtain ⟨hpolicies, hpartitions⟩ := h.counts m hm
      rw [hpolicies, hpartitions]
      exact ⟨Bool.toNat_le _, Bool.toNat_le _⟩
    · obtain ⟨hpolicies, hpartitions⟩ := h.absent id fun m hm heq => hid ⟨m, hm, heq⟩
      rw [hpolicies, hpartitions]
      exact ⟨Nat.zero_le _, Nat.zero_le _⟩
  have hopen : ∀ i id, addsPolicy id (s.session i) = true →
      (s.compressPolicies id = 0 ∧ s.partitions id = 0) ∧
        ∀ j, addsPolicy id (s.session j) = true → j = i := by
    intro i id hadds
    obtain ⟨hholds, hfound⟩ := holdsRow_of_addsPolicy hadds
    obtain ⟨m, hm, rfl⟩ := h.known i id (mem_ahead_of_holdsRow hholds)
    have hnot := h.fresh i m.id hholds m hm rfl
    rw [hfound] at hnot
    refine ⟨?_, fun j hj => ?_⟩
    · have hcounts := h.counts m hm
      rwa [hnot] at hcounts
    · have hlock := h.locked i m.id hholds
      rw [h.locked j m.id (holdsRow_of_addsPolicy hj).1] at hlock
      exact Option.some.inj hlock
  refine ⟨fun id => (hbound id).1, fun id => (hbound id).2, ?_, ?_, ?_⟩
  · intro i id hadds
    exact ⟨(hopen i id hadds).1.1, (hopen i id hadds).2⟩
  · intro i id hattaches
    obtain ⟨hzero, honly⟩ := hopen i id (addsPolicy_of_attaches hattaches)
    exact ⟨hzero.2, fun j hj => honly j (addsPolicy_of_attaches hj)⟩
  · intro m hm
    rw [(h.counts m hm).2]
    cases m.creationCompleted <;> simp

/-- Whatever the interleaving of the sessions, no metric is finalised twice, and it is
marked as completed exactly when its partition is attached. -/
theorem metrics_finalised_once (actions : List Action) :
    FinalisedOnce (run step State.initial actions) :=
  (run_invariant Inv (fun _ a h => h.step a) inv_initial actions).finalisedOnce

-- the second session waits for the row lock, and then finds the metric completed
example : (run step State.initial
    [.createMetric "cpu", .call 0 [1], .call 1 [1], .statement 0, .statement 1, .statement 0,
      .statement 0, .statement 0, .statement 0, .statement 0, .statement 0,
      .statement 1]).session 1 = .selected true 1 [] := by
  decide +kernel

section Progress

variable {s s' : State} {i id : Nat}

theorem mem_unfinished {c : Catalog} :
    id ∈ unfinished c ↔ ∃ m ∈ c.metric, m.id = id ∧ m.creationCompleted = false := by
  constructor
  · intro h
    obtain ⟨m, hm, hid⟩ := List.mem_map.mp h
    obtain ⟨hmem, hnot⟩ := List.mem_filter.mp hm
    exact ⟨m, hmem, hid, by simpa using hnot⟩
  · rintro ⟨m, hm, hid, hnot⟩
    exact List.mem_map.mpr ⟨m, List.mem_filter.mpr ⟨hm, by simp [hnot]⟩, hid⟩

/-- The session that an action is a step of. -/
def Action.session? : Action → Option Nat
  | .createMetric _ => none
  | .call i _ => some i
  | .statement i => some i
  | .abort i => some i

theorem session_of_statement (h : s.statement i = some s') {j : Nat} (hj : j ≠ i) :
    s'.session j = s.session j := by
  obtain ⟨-, rfl⟩ | ⟨_, _, -, -, rfl⟩ | ⟨_, _, -, rfl⟩ | ⟨_, _, -, rfl⟩ | ⟨_, _, -, rfl⟩ :=
    statement_cases h <;> exact Function.update_of_ne hj ..

theorem session_step {a : Action} {j : Nat} (ha : a.session? ≠ some j) :
    (step s a).session j = s.session j := by
  cases a with
  | createMetric metricName => rfl
  | call i order =>
    have hj : j ≠ i := fun heq => ha (congrArg some heq.symm)
    simp only [step]
    split
    · exact Function.update_of_ne hj ..
    · rfl
  | statement i =>
    have hj : j ≠ i := fun heq => ha (congrArg some heq.symm)
    simp only [step]
    cases hstep : s.statement i with
    | none => rfl
    | some s' => exact session_of_statement hstep hj
  | abort i =>
    have hj : j ≠ i := fun heq => ha (congrArg some heq.symm)
    exact Function.update_of_ne hj ..

theorem catalog_of_statement (h : s.statement i = some s') :
    s'.catalog = s.catalog ∨
      ∃ id, s'.catalog = { s.catalog with metric := s.catalog.metric.map (completed id) } := by
  obtain ⟨-, rfl⟩ | ⟨_, _, -, -, rfl⟩ | ⟨_, _, -, rfl⟩ | ⟨_, _, -, rfl⟩ | ⟨id, _, -, rfl⟩ :=
    statement_cases h
  · exact .inl rfl
  · exact .inl rfl
  · exact .inl rfl
  · exact .inl rfl
  · exact .inr ⟨id, rfl⟩

theorem known_step (a : Action) (h : ∃ m ∈ s.catalog.metric, m.id = id) :
    ∃ m ∈ (step s a).catalog.metric, m.id = id := by
  cases a with
  | createMetric metricName =>
    obtain ⟨m, hm, hid⟩ := h
    rcases createMetric_cases s.catalog metricName with heq | heq
    · exact ⟨m, by simp only [step, heq]; exact hm, hid⟩
    · exact ⟨m, by simp only [step, heq]; exact List.mem_append_left _ hm, hid⟩
  | call i order =>
    simp only [step]
    split <;> exact h
  | statement i =>
    simp only [step]
    cases hstep : s.statement i with
    | none => exact h
    | some s' =>
      rcases catalog_of_statement hstep with heq | ⟨id', heq⟩
      · simp only [Option.getD_some, heq]
        exact h
      · simp only [Option.getD_some, heq]
        exact exists_map_completed id' h
  | abort i => exact h

theorem unfinished_of_step (hinv : Inv s) (a : Action) (hknown : ∃ m ∈ s.catalog.metric, m.id = id)
    (h : id ∈ unfinished (step s a).catalog) : id ∈ unfinished s.catalog := by
  cases a with
  | createMetric metricName =>
    rcases createMetric_cases s.catalog metricName with heq | heq
    · simpa only [step, unfinished, heq] using h
    · obtain ⟨m, hm, hid, hnot⟩ := mem_unfinished.mp h
      simp only [step, heq] at hm
      rcases List.mem_append.mp hm with hm | hm
      · exact mem_unfinished.mpr ⟨m, hm, hid, hnot⟩
      · obtain ⟨m₀, hm₀, hid₀⟩ := hknown
        have hbound := hinv.wf.metrics.bound m₀ hm₀
        rw [List.mem_singleton.mp hm] at hid
        simp only [newMetric] at hid
        omega
  | call i order =>
    simp only [step] at h
    split at h <;> exact h
  | statement i =>
    simp only [step] at h
    cases hstep : s.statement i with
    | none => simpa only [hstep, Option.getD_none] using h
    | some s' =>
      rw [hstep, Option.getD_some] at h
      rcases catalog_of_statement hstep with heq | ⟨id', heq⟩
      · rwa [heq] at h
      · rw [heq] at h
        obtain ⟨m', hm', hid, hnot⟩ := mem_unfinished.mp h
        obtain ⟨m, hm, hmid, hcompleted⟩ := mem_map_completed hm'
        rw [hcompleted, Bool.or_eq_false_iff] at hnot
        exact mem_unfinished.mpr ⟨m, hm, hmid.trans hid, hnot.1⟩
  | abort i => exact h

theorem mem_ahead_of_statement (hinv : Inv s) (hstep : s.statement i = some s')
    (hahead : id ∈ ahead (s.session i)) (hunfinished : id ∈ unfinished s'.catalog) :
    id ∈ ahead (s'.session i) := by
  obtain ⟨hp, rfl⟩ | ⟨id', rest, hp, -, rfl⟩ | ⟨id', rest, hp, rfl⟩ |
    ⟨phase, seriesLock, hcontinues, rfl⟩ | ⟨id', rest, hp, rfl⟩ := statement_cases hstep
  · rw [hp] at hahead
    cases hahead
  · rw [hp] at hahead
    simp only [State.goto, Function.update_self]
    exact hahead
  · rw [hp] at hahead
    simp only [State.goto, Function.update_self]
    rcases List.mem_cons.mp hahead with rfl | hrest
    · obtain ⟨m, hm, hid, hnot⟩ := mem_unfinished.mp hunfinished
      have hfresh := hinv.fresh i id (by rw [hp]; rfl) m hm hid
      rw [hp, hnot] at hfresh
      cases hfresh
    · exact hrest
  · simp only [State.goto, Function.update_self]
    rwa [hcontinues.same.1]
  · rw [hp] at hahead
    simp only [committed, State.goto, Function.update_self]
    rcases List.mem_cons.mp hahead with rfl | hrest
    · obtain ⟨m', hm', hid, hnot⟩ := mem_unfinished.mp hunfinished
      obtain ⟨m, hm, hmid, hcompleted⟩ := mem_map_completed hm'
      rw [hcompleted, hmid, hid] at hnot
      simp at hnot
    · exact hrest

end Progress

end TimescalePrometheus.Sql.FinalizeSessions
