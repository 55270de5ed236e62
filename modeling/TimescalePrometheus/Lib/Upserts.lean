import Mathlib.Data.List.Nodup
import TimescalePrometheus.Lib.Runs

/-!
Transactions that look rows up by their key and create those that are missing, run side by side at
READ COMMITTED, statement by statement.
-/

namespace TimescalePrometheus.Lib.Upserts

open Lib.Runs

/-- A transaction over rows that pair a key `κ` with a value `ν`, with locks on `ρ`. -/
inductive Program (κ ν ρ α : Type) where
  | done (a : α)
  | raise
  | lock (r : ρ) (rest : Program κ ν ρ α)
  | select (key : κ) (found : ν → Program κ ν ρ α) (missing : Program κ ν ρ α)
  /-- A loop of `INSERT ... ON CONFLICT DO NOTHING` and `SELECT`, left with the first row. -/
  | upsert (key : κ) (created found : ν → Program κ ν ρ α)

variable {κ ν ρ α γ : Type}

namespace Program

/-- What a program may return if all rows it comes to are those of `find`. A select may have been
made before the row was there. -/
def Yields (find : κ → Option ν) : Program κ ν ρ α → α → Prop
  | .done b, a => b = a
  | .raise, _ => False
  | .lock _ rest, a => rest.Yields find a
  | .select key found missing, a =>
    (∃ v, find key = some v ∧ (found v).Yields find a) ∨ missing.Yields find a
  | .upsert key created found, a =>
    ∃ v, find key = some v ∧ ((created v).Yields find a ∨ (found v).Yields find a)

/-- The lock that guards a key is held wherever a row is inserted. -/
def Guarded (guard : κ → Option ρ) : (ρ → Prop) → Program κ ν ρ α → Prop
  | _, .done _ => True
  | _, .raise => True
  | held, .lock r rest => rest.Guarded guard fun r' => r' = r ∨ held r'
  | held, .select _ found missing =>
    (∀ v, (found v).Guarded guard held) ∧ missing.Guarded guard held
  | held, .upsert key created found =>
    (∀ r, guard key = some r → held r) ∧
      ∀ v, (created v).Guarded guard held ∧ (found v).Guarded guard held

theorem Yields.mono {find find' : κ → Option ν} {p : Program κ ν ρ α} {a : α}
    (h : p.Yields find a) (hle : ∀ key v, find key = some v → find' key = some v) :
    p.Yields find' a := by
  induction p with
  | done b => exact h
  | raise => exact h
  | lock r rest ih => exact ih h
  | select key found missing ihFound ihMissing =>
    obtain ⟨v, hv, h⟩ | h := h
    · exact .inl ⟨v, hle key v hv, ihFound v h⟩
    · exact .inr (ihMissing h)
  | upsert key created found ihCreated ihFound =>
    obtain ⟨v, hv, h | h⟩ := h
    · exact ⟨v, hle key v hv, .inl (ihCreated v h)⟩
    · exact ⟨v, hle key v hv, .inr (ihFound v h)⟩

theorem Guarded.mono {guard : κ → Option ρ} {held held' : ρ → Prop} {p : Program κ ν ρ α}
    (h : p.Guarded guard held) (hle : ∀ r, held r → held' r) : p.Guarded guard held' := by
  induction p generalizing held held' with
  | done a => trivial
  | raise => trivial
  | lock r rest ih => exact ih h fun r' => Or.imp_right (hle r')
  | select key found missing ihFound ihMissing =>
    exact ⟨fun v => ihFound v (h.1 v) hle, ihMissing h.2 hle⟩
  | upsert key created found ihCreated ihFound =>
    exact ⟨fun r hr => hle r (h.1 r hr), fun v =>
      ⟨ihCreated v (h.2 v).1 hle, ihFound v (h.2 v).2 hle⟩⟩

end Program

/-- A row of the table. -/
structure Row (κ ν : Type) where
  key : κ
  value : ν
  /-- The open transaction that inserted the row, none once it is committed. -/
  writer : Option Nat

def Row.pair (row : Row κ ν) : κ × ν := (row.key, row.value)

def Row.commit (i : Nat) (row : Row κ ν) : Row κ ν :=
  if row.writer = some i then { row with writer := none } else row

/-- What a transaction runs, which lock guards the rows of a key, and which values a new row may
get, from the rows that its transaction sees and from all rows. -/
structure Rules (κ ν ρ α γ : Type) where
  program : γ → Program κ ν ρ α
  guard : κ → Option ρ
  allowed : κ → ν → List (κ × ν) → List (κ × ν) → Bool

/-- The table, the locks and the sessions. -/
structure State (κ ν ρ α γ : Type) where
  table : List (Row κ ν)
  locks : ρ → Option Nat
  session : Nat → Option (γ × Program κ ν ρ α)
  /-- The committed calls. -/
  results : List (γ × α)

def State.initial : State κ ν ρ α γ where
  table := []
  locks := fun _ => none
  session := fun _ => none
  results := []

/-- A session begins, goes on or ends. -/
inductive Action (ν γ : Type) where
  | start (i : Nat) (call : γ)
  /-- The next statement of a session, with the value that a new row would get. -/
  | statement (i : Nat) (value : ν)
  /-- The session's next select reads a snapshot from before the row was committed. -/
  | miss (i : Nat)
  | commit (i : Nat)
  /-- An error, a deadlock or a lost connection. -/
  | abort (i : Nat)

section Machine

variable [DecidableEq κ]

namespace State

def pairs (s : State κ ν ρ α γ) : List (κ × ν) := s.table.map Row.pair

/-- The rows that a session sees, which are the committed ones and its own; with none, the
committed ones. -/
def visible (s : State κ ν ρ α γ) (i : Option Nat) : List (κ × ν) :=
  (s.table.filter fun row => row.writer = none ∨ row.writer = i).map Row.pair

/-- What every session sees. -/
def committed (s : State κ ν ρ α γ) (key : κ) : Option ν := (s.visible none).lookup key

def goto (s : State κ ν ρ α γ) (i : Nat) (call : γ) (p : Program κ ν ρ α) : State κ ν ρ α γ :=
  { s with session := Function.update s.session i (some (call, p)) }

/-- The end of a transaction: its locks are free. -/
def close (s : State κ ν ρ α γ) (i : Nat) (table : List (Row κ ν)) : State κ ν ρ α γ :=
  { s with
    table
    locks := fun r => if s.locks r = some i then none else s.locks r
    session := Function.update s.session i none }

/-- The next statement of a session; one that has to wait changes nothing. -/
def statement [DecidableEq ρ] (R : Rules κ ν ρ α γ) (s : State κ ν ρ α γ) (i : Nat)
    (value : ν) : State κ ν ρ α γ :=
  match s.session i with
  | some (call, .lock r rest) =>
    if s.locks r = none ∨ s.locks r = some i then
      goto { s with locks := Function.update s.locks r (some i) } i call rest
    else s
  | some (call, .select key found missing) =>
    match (s.visible i).lookup key with
    | some v => s.goto i call (found v)
    | none => s.goto i call missing
  | some (call, .upsert key created found) =>
    match s.table.find? fun row => row.key = key with
    | some row =>
      if row.writer = none ∨ row.writer = some i then
        s.goto i call (.select key found (.upsert key created found))
      else s
    | none =>
      if R.allowed key value (s.visible i) s.pairs then
        goto { s with table := s.table ++ [{ key, value, writer := some i }] } i call
          (created value)
      else s
  | _ => s

end State

/-- A session that has to wait stays where it is. -/
def step [DecidableEq ρ] (R : Rules κ ν ρ α γ) (s : State κ ν ρ α γ) : Action ν γ → State κ ν ρ α γ
  | .start i call =>
    match s.session i with
    | none => s.goto i call (R.program call)
    | some _ => s
  | .statement i value => s.statement R i value
  | .miss i =>
    match s.session i with
    | some (call, .select _ _ missing) => s.goto i call missing
    | _ => s
  | .commit i =>
    match s.session i with
    | some (call, .done a) =>
      { s.close i (s.table.map (Row.commit i)) with
        results := s.results ++ [(call, a)] }
    | _ => s
  | .abort i => s.close i (s.table.filter fun row => row.writer ≠ some i)

/-- A property of sets of rows that a new row keeps, if all rows guarded by the same lock as the new
one are rows that its transaction sees. -/
structure Rules.Keeps (R : Rules κ ν ρ α γ) (P : List (κ × ν) → Prop) : Prop where
  nil : P []
  subset : ∀ rows rows', rows' ⊆ rows → P rows → P rows'
  insert : ∀ key value visible rows, R.allowed key value visible rows = true → P rows →
    visible ⊆ rows → (∀ row ∈ rows, row.1 ≠ key) →
    (∀ row ∈ rows, row ∈ visible ∨ R.guard key = none ∨ R.guard row.1 ≠ R.guard key) →
    P (rows ++ [(key, value)])

/-- What is left of a session's program holds the locks it needs, and returns only what the whole
program may return. -/
structure OnTrack (R : Rules κ ν ρ α γ) (s : State κ ν ρ α γ) (i : Nat) (call : γ)
    (p : Program κ ν ρ α) : Prop where
  guarded : p.Guarded R.guard fun r => s.locks r = some i
  faithful : ∀ find, (∀ kv ∈ s.visible i, find kv.1 = some kv.2) → ∀ a, p.Yields find a →
    (R.program call).Yields find a

structure Inv (R : Rules κ ν ρ α γ) (P : List (κ × ν) → Prop) (s : State κ ν ρ α γ) : Prop where
  keys : (s.pairs.map Prod.fst).Nodup
  pairs : P s.pairs
  held : ∀ row ∈ s.table, ∀ i r, row.writer = some i → R.guard row.key = some r →
    s.locks r = some i
  onTrack : ∀ i call p, s.session i = some (call, p) → OnTrack R s i call p
  results : ∀ result ∈ s.results, (R.program result.1).Yields s.committed result.2

variable {R : Rules κ ν ρ α γ} {P : List (κ × ν) → Prop} {s s' : State κ ν ρ α γ} {i : Nat}
  {call : γ} {p : Program κ ν ρ α}

namespace State

omit [DecidableEq κ] in
theorem mem_visible {j : Option Nat} {kv : κ × ν} : kv ∈ s.visible j ↔
    ∃ row ∈ s.table, (row.writer = none ∨ row.writer = j) ∧ row.pair = kv := by
  simp [visible, and_assoc]

omit [DecidableEq κ] in
theorem visible_sublist (s : State κ ν ρ α γ) (j : Option Nat) :
    (s.visible j).Sublist s.pairs :=
  List.filter_sublist.map Row.pair

theorem committed_eq_some (h : (s.pairs.map Prod.fst).Nodup) {key : κ} {v : ν} :
    s.committed key = some v ↔ (key, v) ∈ s.visible none := by
  have hkeys := ((s.visible_sublist none).map Prod.fst).nodup h
  rw [committed, List.lookup_eq_some_iff]
  constructor
  · rintro ⟨before, after, hrows, -⟩
    simp [hrows]
  · intro hmem
    obtain ⟨before, after, hrows⟩ := List.append_of_mem hmem
    refine ⟨before, after, hrows, fun kv hkv => ?_⟩
    rw [hrows, List.map_append, List.nodup_append] at hkeys
    simpa using (hkeys.2.2 kv.1 (List.mem_map_of_mem hkv) key (by simp)).symm

end State

theorem inv_initial (hR : R.Keeps P) : Inv R P (State.initial : State κ ν ρ α γ) where
  keys := by simp [State.initial, State.pairs]
  pairs := hR.nil
  held := by simp [State.initial]
  onTrack := by simp [State.initial]
  results := by simp [State.initial]

theorem Inv.goto (h : Inv R P s) (hp : OnTrack R s i call p) :
    Inv R P (s.goto i call p) := by
  refine { h with onTrack := fun j call' p' hsession => ?_ }
  by_cases hj : j = i
  · subst hj
    obtain ⟨rfl, rfl⟩ : call = call' ∧ p = p' := by simpa [State.goto] using hsession
    exact ⟨hp.guarded, hp.faithful⟩
  · obtain ⟨hguarded, hfaithful⟩ := h.onTrack j call' p' (by simpa [State.goto, hj] using hsession)
    exact ⟨hguarded, hfaithful⟩

omit [DecidableEq κ] in
theorem OnTrack.mono (h : OnTrack R s i call p)
    (hlocks : ∀ r, s.locks r = some i → s'.locks r = some i)
    (hvisible : ∀ row ∈ s.table, row.writer = none ∨ row.writer = some i → row ∈ s'.table) :
    OnTrack R s' i call p := by
  refine ⟨h.guarded.mono hlocks, fun find hfind => h.faithful find fun kv hkv => hfind kv ?_⟩
  obtain ⟨row, hrow, hwriter, hpair⟩ := State.mem_visible.mp hkv
  exact State.mem_visible.mpr ⟨row, hvisible row hrow hwriter, hwriter, hpair⟩

theorem Inv.results_mono (h : Inv R P s) (hkeys : (s'.pairs.map Prod.fst).Nodup)
    (hkept : ∀ row ∈ s.table, row.writer = none → row ∈ s'.table) :
    ∀ result ∈ s.results, (R.program result.1).Yields s'.committed result.2 := by
  refine fun result hresult => (h.results result hresult).mono fun key v hv => ?_
  obtain ⟨row, hrow, hnone, hpair⟩ := State.mem_visible.mp ((State.committed_eq_some h.keys).mp hv)
  rw [State.committed_eq_some hkeys, State.mem_visible]
  exact ⟨row, hkept row hrow (by simpa using hnone), hnone, hpair⟩

theorem Inv.visible_or_unguarded (h : Inv R P s) {key : κ}
    (hlock : ∀ r, R.guard key = some r → s.locks r = some i) :
    ∀ kv ∈ s.pairs, kv ∈ s.visible i ∨ R.guard key = none ∨ R.guard kv.1 ≠ R.guard key := by
  intro kv hkv
  obtain ⟨row, hrow, rfl⟩ := List.mem_map.mp hkv
  by_cases hvisible : row.writer = none ∨ row.writer = some i
  · exact .inl (State.mem_visible.mpr ⟨row, hrow, hvisible, rfl⟩)
  -- otherwise another open transaction wrote the row and holds the lock that guards it
  · refine .inr (or_iff_not_imp_left.mpr fun hguard hsame => hvisible (.inr ?_))
    obtain ⟨r, hr⟩ := Option.ne_none_iff_exists'.mp hguard
    obtain ⟨j, hj⟩ := Option.ne_none_iff_exists'.mp fun hnone => hvisible (.inl hnone)
    have hheld := h.held row hrow j r hj (hsame.trans hr)
    rw [hlock r hr] at hheld
    rw [hj, ← hheld]

theorem Inv.insert (h : Inv R P s) (hR : R.Keeps P) {key : κ} {value : ν}
    (hlock : ∀ r, R.guard key = some r → s.locks r = some i)
    (hnew : ∀ row ∈ s.table, row.key ≠ key)
    (hallowed : R.allowed key value (s.visible i) s.pairs = true) :
    Inv R P { s with table := s.table ++ [{ key, value, writer := some i }] } := by
  have hnew' : ∀ kv ∈ s.pairs, kv.1 ≠ key := by simpa [State.pairs, Row.pair] using hnew
  have hpairs : State.pairs { s with table := s.table ++ [{ key, value, writer := some i }] } =
      s.pairs ++ [(key, value)] := List.map_append
  have hkeys : ((s.pairs ++ [(key, value)]).map Prod.fst).Nodup := by
    rw [List.map_append, List.nodup_append]
    exact ⟨h.keys, List.nodup_singleton _, by simpa using hnew'⟩
  have hrows : ∀ row ∈ s.table, row ∈ s.table ++ [{ key, value, writer := some i }] :=
    fun row => List.mem_append_left _
  refine ⟨hpairs ▸ hkeys, ?_, ?_, ?_,
    h.results_mono (hpairs ▸ hkeys) fun row hrow _ => hrows row hrow⟩
  · rw [hpairs]
    exact hR.insert key value _ _ hallowed h.pairs (s.visible_sublist i).subset hnew'
      (h.visible_or_unguarded hlock)
  · intro row hrow j r hwriter hguard
    obtain hrow | hrow := List.mem_append.mp hrow
    · exact h.held row hrow j r hwriter hguard
    · obtain rfl := List.mem_singleton.mp hrow
      exact hwriter ▸ hlock r hguard
  · exact fun j call p hp =>
      (h.onTrack j call p hp).mono (fun _ hr => hr) fun row hrow _ => hrows row hrow

theorem Inv.close (h : Inv R P s) (hR : R.Keeps P) {table : List (Row κ ν)}
    (hsub : (table.map Row.pair).Sublist s.pairs)
    (hwriter : ∀ row ∈ table, row.writer ≠ none → row.writer ≠ some i ∧ row ∈ s.table)
    (hkept : ∀ row ∈ s.table, row.writer ≠ some i → row ∈ table) :
    Inv R P (s.close i table) := by
  have hlocks : ∀ j, j ≠ i → ∀ r, s.locks r = some j → (s.close i table).locks r = some j := by
    intro j hj r hr
    simp [State.close, hr, hj]
  have hkeys : ((s.close i table).pairs.map Prod.fst).Nodup := (hsub.map Prod.fst).nodup h.keys
  refine ⟨hkeys, hR.subset _ _ hsub.subset h.pairs, ?_, ?_,
    h.results_mono hkeys fun row hrow hnone => hkept row hrow (by simp [hnone])⟩
  · intro row hrow j r hj hguard
    obtain ⟨hne, hrow⟩ := hwriter row hrow (by simp [hj])
    exact hlocks j (fun hji => hne (hji ▸ hj)) r (h.held row hrow j r hj hguard)
  · intro j call p hp
    by_cases hj : j = i
    · simp [State.close, hj] at hp
    · refine (h.onTrack j call p (by simpa [State.close, hj] using hp)).mono (hlocks j hj) ?_
      rintro row hrow (hnone | hself)
      · exact hkept row hrow (by simp [hnone])
      · exact hkept row hrow (by simp [hself, hj])

variable [DecidableEq ρ]

theorem Inv.lock (h : Inv R P s) {r : ρ} (hfree : s.locks r = none ∨ s.locks r = some i) :
    Inv R P { s with locks := Function.update s.locks r (some i) } := by
  have hkept : ∀ r' j, s.locks r' = some j → Function.update s.locks r (some i) r' = some j := by
    intro r' j hj
    by_cases hr : r' = r
    · subst hr
      rw [hj] at hfree
      simpa [eq_comm] using hfree
    · simpa [hr] using hj
  exact { h with
    held := fun row hrow j r' hwriter hguard => hkept r' j (h.held row hrow j r' hwriter hguard)
    onTrack := fun j call p hp =>
      (h.onTrack j call p hp).mono (fun r' => hkept r' j) fun _ hrow _ => hrow }

theorem inv_statement (h : Inv R P s) (hR : R.Keeps P) (value : ν) :
    Inv R P (s.statement R i value) := by
  unfold State.statement
  split
  · rename_i call r rest hsession
    obtain ⟨hguarded, hfaithful⟩ := h.onTrack i call _ hsession
    split
    · rename_i hfree
      refine (h.lock hfree).goto ⟨Program.Guarded.mono hguarded fun r' hr' => ?_, hfaithful⟩
      by_cases hr : r' = r
      · simp [hr]
      · simpa [hr] using hr'.resolve_left hr
    · exact h
  · rename_i call key found missing hsession
    obtain ⟨hguarded, hfaithful⟩ := h.onTrack i call _ hsession
    split
    · rename_i v hfind
      obtain ⟨_, _, hrows, -⟩ := List.lookup_eq_some_iff.mp hfind
      exact h.goto ⟨hguarded.1 v, fun find hle a ha => hfaithful find hle a
        (.inl ⟨v, hle (key, v) (by simp [hrows]), ha⟩)⟩
    · exact h.goto ⟨hguarded.2, fun find hle a ha => hfaithful find hle a (.inr ha)⟩
  · rename_i call key created found hsession
    obtain ⟨hguarded, hfaithful⟩ := h.onTrack i call _ hsession
    split
    · split
      · refine h.goto ⟨⟨fun v => (hguarded.2 v).2, hguarded⟩, fun find hle a ha =>
          hfaithful find hle a ?_⟩
        obtain ⟨v, hv, ha⟩ | ha := ha
        · exact ⟨v, hv, .inr ha⟩
        · exact ha
      · exact h
    · rename_i hnew
      split
      · rename_i hallowed
        have hinsert := h.insert hR hguarded.1 (by simpa using hnew) hallowed
        have hp : OnTrack R { s with table := s.table ++ [{ key, value, writer := some i }] } i call
            (.upsert key created found) :=
          (h.onTrack i call _ hsession).mono (fun _ hr => hr) fun _ hrow _ =>
            List.mem_append_left _ hrow
        refine hinsert.goto ⟨(hguarded.2 value).1, fun find hle a ha =>
          hp.faithful find hle a ⟨value, hle (key, value) ?_, .inl ha⟩⟩
        exact State.mem_visible.mpr ⟨_, List.mem_append_right _ (List.mem_singleton_self _),
          .inr rfl, rfl⟩
      · exact h
  · exact h

theorem inv_commit (h : Inv R P s) (hR : R.Keeps P) {a : α}
    (hsession : s.session i = some (call, .done a)) :
    Inv R P (step R s (.commit i)) := by
  have hclose : Inv R P (s.close i (s.table.map (Row.commit i))) := by
    refine h.close hR ?_ ?_ ?_
    · have hpair : (Row.pair ∘ Row.commit i : Row κ ν → κ × ν) = Row.pair := by
        funext row
        simp only [Function.comp, Row.commit]
        split <;> rfl
      rw [List.map_map, hpair]
      exact List.Sublist.refl _
    · intro row hrow hopen
      obtain ⟨row', hrow', rfl⟩ := List.mem_map.mp hrow
      by_cases hi : row'.writer = some i
      · simp [Row.commit, hi] at hopen
      · simpa [Row.commit, hi] using hrow'
    · exact fun row hrow hne => List.mem_map.mpr ⟨row, hrow, by simp [Row.commit, hne]⟩
  simp only [step, hsession]
  refine ⟨hclose.keys, hclose.pairs, hclose.held, fun j call p hp =>
    (hclose.onTrack j call p hp).mono (fun _ hr => hr) fun _ hrow _ => hrow,
    fun result hresult => ?_⟩
  obtain hresult | hresult := List.mem_append.mp hresult
  · exact hclose.results result hresult
  · obtain rfl := List.mem_singleton.mp hresult
    refine (h.onTrack i call _ hsession).faithful _ (fun kv hkv => ?_) a rfl
    obtain ⟨row, hrow, hvisible, rfl⟩ := State.mem_visible.mp hkv
    refine (State.committed_eq_some hclose.keys).mpr (State.mem_visible.mpr
      ⟨Row.commit i row, List.mem_map_of_mem hrow, ?_⟩)
    obtain hnone | hi := hvisible
    · simp [Row.commit, hnone, Row.pair]
    · simp [Row.commit, hi, Row.pair]

theorem inv_step (h : Inv R P s) (hR : R.Keeps P)
    (hguarded : ∀ call, (R.program call).Guarded R.guard fun _ => False) (a : Action ν γ) :
    Inv R P (step R s a) := by
  cases a with
  | start i call =>
    simp only [step]
    split
    · exact h.goto ⟨(hguarded call).mono fun _ => False.elim, fun _ _ _ ha => ha⟩
    · exact h
  | statement i value => exact inv_statement h hR value
  | miss i =>
    simp only [step]
    split
    · rename_i call key found missing hsession
      obtain ⟨hguarded, hfaithful⟩ := h.onTrack i call _ hsession
      exact h.goto ⟨hguarded.2, fun find hle a ha => hfaithful find hle a (.inr ha)⟩
    · exact h
  | commit i =>
    by_cases hdone : ∃ call a, s.session i = some (call, .done a)
    · obtain ⟨call, a, hsession⟩ := hdone
      exact inv_commit h hR hsession
    · simp only [step]
      split
      · rename_i call a hsession
        exact absurd ⟨call, a, hsession⟩ hdone
      · exact h
  | abort i =>
    refine h.close hR (List.filter_sublist.map _) ?_ ?_
    · intro row hrow _
      simpa [and_comm] using List.mem_filter.mp hrow
    · exact fun row hrow hne => List.mem_filter.mpr ⟨hrow, by simpa using hne⟩

/-- After any interleaving no two rows have the same key, and every committed call has returned what
its program returns over the committed rows. -/
theorem inv_run (hR : R.Keeps P)
    (hguarded : ∀ call, (R.program call).Guarded R.guard fun _ => False)
    (actions : List (Action ν γ)) : Inv R P (run (step R) State.initial actions) :=
  run_invariant (Inv R P) (fun _ a h => inv_step h hR hguarded a) (inv_initial hR) actions

end Machine

end TimescalePrometheus.Lib.Upserts
