import TimescalePrometheus.Lib.Runs
import TimescalePrometheus.Migrations.Migrator

/-!
`Migrator.Migrate` over whole histories of calls.
-/

namespace TimescalePrometheus.Migrations

open Lib.Semver Lib.Transactions Lib.Runs

section Rules

variable {α : Type} {R : Session → Session → Prop} {s : Session}

theorem respects_wrap {x : Run α} (text : String) (hx : Respects R x s) :
    Respects R (wrap text x) s := by
  unfold Respects wrap at *
  cases hrun : x s with
  | ok a u => rw [hrun] at hx; exact hx
  | error e u => rw [hrun] at hx; exact hx

theorem respects_query {t : Migrator} {effect : Session → Session}
    (hfail : R s { s with calls := s.calls + 1 })
    (hdone : R s { effect s with calls := s.calls + 1 }) : Respects R (query t effect) s := by
  unfold Respects query
  cases t.fault s.calls with
  | some e => exact hfail
  | none => exact hdone

theorem query_eq_ok {t : Migrator} {effect : Session → Session} {u : Session} {a : Unit}
    (h : query t effect s = .ok a u) : u = { effect s with calls := s.calls + 1 } := by
  unfold query at h
  cases hf : t.fault s.calls with
  | some e => simp [hf] at h
  | none =>
    simp only [hf, EStateM.Result.ok.injEq, true_and] at h
    exact h.symm

theorem query_eq_error {t : Migrator} {effect : Session → Session} {u : Session} {e : String}
    (h : query t effect s = .error e u) : u = { s with calls := s.calls + 1 } := by
  unfold query at h
  cases hf : t.fault s.calls with
  | some e =>
    simp only [hf, EStateM.Result.error.injEq] at h
    exact h.2.symm
  | none => simp [hf] at h

end Rules

/-- Scripts with the property `P` ran in the open transaction, and nothing else happened. -/
def Adds (P : Script → Prop) (s u : Session) : Prop :=
  ∃ l : List Script, (∀ x ∈ l, P x) ∧ u.db = s.db ∧ u.executed = s.executed ++ l ∧
    u.tx = s.tx.map fun db => { db with scripts := db.scripts ++ l }

theorem adds_refl (P : Script → Prop) (s : Session) : Adds P s s := by
  refine ⟨[], by simp, rfl, by simp, ?_⟩
  simp

theorem adds_trans (P : Script → Prop) (s u v : Session) (hsu : Adds P s u) (huv : Adds P u v) :
    Adds P s v := by
  obtain ⟨l, hl, hdb, hexec, htx⟩ := hsu
  obtain ⟨m, hm, hdb', hexec', htx'⟩ := huv
  refine ⟨l ++ m, ?_, hdb'.trans hdb, ?_, ?_⟩
  · intro x hx
    exact (List.mem_append.mp hx).elim (hl x) (hm x)
  · rw [hexec', hexec, List.append_assoc]
  · rw [htx', htx, Option.map_map]
    congr 1
    funext db
    simp

theorem execMigrationFile_adds {P : Script → Prop} (t : Migrator) {name : String}
    (hP : ∀ sql, P { name := name, sql := sql }) (s : Session) :
    Respects (Adds P) (execMigrationFile t name) s := by
  refine respects_bind (adds_trans P) (respects_ofExcept (adds_refl P s) _) fun f u _ => ?_
  refine respects_bind (adds_trans P) (respects_ofExcept (adds_refl P u) _) fun contents v _ => ?_
  refine respects_wrap _ (respects_query ?_ ?_)
  · exact adds_refl P v
  · exact ⟨[⟨name, replaceSchemaNames contents⟩], by simpa using hP _, rfl, rfl, rfl⟩

theorem execMigrationDir_adds {P : Script → Prop} (t : Migrator) {dirName : String}
    (hP : ∀ (e : Name) sql, P { name := dirName ++ "/" ++ e.text, sql := sql }) (s : Session) :
    Respects (Adds P) (execMigrationDir t dirName) s := by
  refine respects_bind (adds_trans P) (respects_ofExcept (adds_refl P s) _) fun entries u _ => ?_
  exact respects_forM (adds_refl P) (adds_trans P)
    (fun e _ v => execMigrationFile_adds t (hP e) v) u

/-- The script is in the directory. -/
def Under (dirName : String) (x : Script) : Prop :=
  (dirName ++ "/").toList <+: x.name.toList

theorem under_append (dirName rest sql : String) :
    Under dirName { name := dirName ++ "/" ++ rest, sql := sql } := by
  unfold Under
  simp only [String.toList_append]
  exact List.prefix_append _ _

theorem Under.head? {dirName : String} {x : Script} (h : Under dirName x) :
    x.name.toList.head? = (dirName.toList ++ ['/']).head? := by
  obtain ⟨rest, hrest⟩ := h
  rw [← hrest, String.toList_append]
  cases hd : dirName.toList <;> rfl

theorem not_preinstall_of_idempotent {x : Script} (hx : Under idempotentScripts x) :
    ¬Under preinstallScripts x :=
  fun hpre => absurd (hx.head?.symm.trans hpre.head?) (by decide)

theorem not_preinstall_of_version {x : Script} (hx : Under versionScripts x) :
    ¬Under preinstallScripts x :=
  fun hpre => absurd (hx.head?.symm.trans hpre.head?) (by decide)

/-- What is committed is as before, and only scripts with the property `P` ran. -/
def Works (P : Script → Prop) (s u : Session) : Prop :=
  u.db = s.db ∧ ∃ l : List Script, (∀ x ∈ l, P x) ∧ u.executed = s.executed ++ l

theorem Adds.works {P : Script → Prop} {s u : Session} (h : Adds P s u) : Works P s u := by
  obtain ⟨l, hl, hdb, hexec, _⟩ := h
  exact ⟨hdb, l, hl, hexec⟩

theorem works_trans (P : Script → Prop) (s u v : Session) (hsu : Works P s u) (huv : Works P u v) :
    Works P s v := by
  obtain ⟨hdb, l, hl, hexec⟩ := hsu
  obtain ⟨hdb', m, hm, hexec'⟩ := huv
  refine ⟨hdb'.trans hdb, l ++ m, ?_, ?_⟩
  · intro x hx
    exact (List.mem_append.mp hx).elim (hl x) (hm x)
  · rw [hexec', hexec, List.append_assoc]

theorem works_idle {P : Script → Prop} {s u : Session} (hdb : u.db = s.db)
    (hexec : u.executed = s.executed) : Works P s u :=
  ⟨hdb, [], by simp, by simp [hexec]⟩

theorem txExec_works {P : Script → Prop} (t : Migrator) (effect : Database → Database)
    (s : Session) : Respects (Works P) (txExec t effect) s :=
  respects_query (works_idle rfl rfl) (works_idle rfl rfl)

section Transaction

variable {t : Migrator} {x : Run Unit} {s u : Session} {P : Script → Prop}

/-- The session inside a transaction that was begun in `s`. -/
def Session.begun (s : Session) : Session :=
  { s with tx := some s.db, calls := s.calls + 1 }

theorem transaction_eq_error {e : String} (hx : Respects (Works P) x s.begun)
    (h : transaction t x s = .error e u) : Works P s u := by
  unfold transaction begin at h
  rw [bind_eq_error] at h
  rcases h with hbegin | ⟨_, v, hbegin, hbody⟩
  · obtain ⟨_, _, hq⟩ := wrap_eq_error.mp hbegin
    rw [query_eq_error hq]
    exact works_idle rfl rfl
  · have hv : v = s.begun := query_eq_ok (wrap_eq_ok.mp hbegin)
    subst hv
    unfold deferRollback at hbody
    cases hrun : (x >>= fun _ => commit t) s.begun with
    | ok a w => simp [hrun] at hbody
    | error err w =>
      simp only [hrun, EStateM.Result.error.injEq] at hbody
      obtain ⟨_, rfl⟩ := hbody
      rw [bind_eq_error] at hrun
      have hw : Works P s.begun w := by
        rcases hrun with herr | ⟨_, w', hok, hcommit⟩
        · exact hx.of_error herr
        · obtain ⟨_, _, hq⟩ := wrap_eq_error.mp hcommit
          have hw' := hx.of_ok hok
          rw [query_eq_error hq]
          exact hw'
      exact hw

theorem transaction_eq_ok {a : Unit} (h : transaction t x s = .ok a u) :
    ∃ w, x s.begun = .ok () w ∧ u.db = w.tx.getD w.db ∧ u.executed = w.executed := by
  unfold transaction begin at h
  rw [bind_eq_ok] at h
  obtain ⟨_, v, hbegin, hbody⟩ := h
  have hv : v = s.begun := query_eq_ok (wrap_eq_ok.mp hbegin)
  subst hv
  unfold deferRollback at hbody
  cases hrun : (x >>= fun _ => commit t) s.begun with
  | error err w => simp [hrun] at hbody
  | ok b w =>
    simp only [hrun, EStateM.Result.ok.injEq, true_and] at hbody
    subst hbody
    rw [bind_eq_ok] at hrun
    obtain ⟨_, w', hok, hcommit⟩ := hrun
    refine ⟨w', hok, ?_⟩
    rw [query_eq_ok (wrap_eq_ok.mp hcommit)]
    exact ⟨rfl, rfl⟩

end Transaction

theorem idempotent_adds {P : Script → Prop} (hP : ∀ x, ¬Under preinstallScripts x → P x)
    (t : Migrator) (s : Session) : Respects (Adds P) (execMigrationDir t idempotentScripts) s :=
  execMigrationDir_adds t
    (fun _ _ => hP _ (not_preinstall_of_idempotent (under_append _ _ _))) s

/-- The paths found so far are files under `versions/dev`. -/
def PathsUnder (found : Found) : Prop :=
  ∀ p ∈ found.paths, ∀ sql, Under versionScripts { name := p.2, sql := sql }

section Histories

variable [Package]

theorem addFile_under {dir : String} {name : Name} {found found' : Found} {info : FileInfo}
    (hfound : PathsUnder found)
    (h : addFile dir (versionScripts ++ "/" ++ name.text) found info = .ok found') :
    PathsUnder found' := by
  unfold addFile at h
  obtain ⟨v, _, h⟩ := except_bind_eq_ok.mp h
  split at h
  · cases h
  · cases h
    intro p hp sql
    rcases List.mem_cons.mp hp with rfl | hmem
    · have hassoc : versionScripts ++ "/" ++ name.text ++ "/" ++ info.name.text =
          versionScripts ++ "/" ++ (name.text ++ "/" ++ info.name.text) := by
        simp only [String.append_assoc]
      simp only [hassoc]
      exact under_append _ _ _
    · exact hfound p hmem sql

theorem addDir_under {fs : FileSystem} {found found' : Found} {info : FileInfo}
    (hfound : PathsUnder found) (h : addDir fs found info = .ok found') : PathsUnder found' := by
  unfold addDir at h
  split at h
  · cases h
  · obtain ⟨file, _, h⟩ := except_bind_eq_ok.mp h
    obtain ⟨entries, _, h⟩ := except_bind_eq_ok.mp h
    exact foldlM_ok_invariant PathsUnder
      (fun _ _ _ _ hinv hstep => addFile_under hinv hstep) hfound h

theorem findVersions_under {fs : FileSystem} {found : Found} (h : findVersions fs = .ok found) :
    PathsUnder found := by
  unfold findVersions at h
  obtain ⟨file, _, h⟩ := except_bind_eq_ok.mp h
  obtain ⟨entries, _, h⟩ := except_bind_eq_ok.mp h
  refine foldlM_ok_invariant PathsUnder
    (fun _ _ _ _ hinv hstep => addDir_under hinv hstep) ?_ h
  intro p hp
  cases hp

theorem upgradeVersion_adds (t : Migrator) (first last : Version) (s : Session) :
    Respects (Adds fun x => ¬Under preinstallScripts x) (upgradeVersion t first last) s := by
  refine respects_bind (adds_trans _) (respects_ofExcept (adds_refl _ s) _) fun found u hfound => ?_
  have hunder : PathsUnder found := by
    cases hscan : findVersions t.sqlFiles with
    | error e =>
      rw [hscan] at hfound
      cases hfound
    | ok found' =>
      simp only [hscan, ofExcept_ok, EStateM.Result.ok.injEq] at hfound
      exact hfound.1 ▸ findVersions_under hscan
  refine respects_forM (adds_refl _) (adds_trans _) (fun v _ w => ?_) u
  unfold execVersion
  split
  · apply execMigrationFile_adds
    intro sql
    cases hpath : found.paths.lookup v.string with
    | none =>
      intro h
      have hhead := h.head?
      simp [preinstallScripts] at hhead
    | some path =>
      obtain ⟨before, after, hsplit, _⟩ := List.lookup_eq_some_iff.mp hpath
      have hmem : (v.string, path) ∈ found.paths := by simp [hsplit]
      exact not_preinstall_of_version (hunder _ hmem sql)
  · exact adds_refl _ w

theorem setDBVersion_works {P : Script → Prop} (t : Migrator) (v : Version) (s : Session) :
    Respects (Works P) (setDBVersion t v) s :=
  respects_bind (works_trans P) (respects_wrap _ (txExec_works t _ s)) fun _ u _ =>
    respects_wrap _ (txExec_works t _ u)

theorem setDBVersion_ok {t : Migrator} {v : Version} {s u : Session} {a : Unit}
    (h : setDBVersion t v s = .ok a u) :
    u.executed = s.executed ∧
      u.tx = s.tx.map fun db => { db with versions := some [v.string] } := by
  unfold setDBVersion at h
  rw [bind_eq_ok] at h
  obtain ⟨_, w, hw, hu⟩ := h
  rw [wrap_eq_ok] at hw hu
  rw [query_eq_ok hu, query_eq_ok hw]
  cases s.tx with
  | none => exact ⟨rfl, rfl⟩
  | some db => exact ⟨rfl, rfl⟩

/-- The scripts of a migration from `dbVersion`: preinstall scripts only without a version. -/
def Allowed (dbVersion : Version) (x : Script) : Prop :=
  Under preinstallScripts x → compare dbVersion {} = .eq

theorem versionSteps_adds (t : Migrator) (dbVersion appVersion : Version) (s : Session) :
    Respects (Adds (Allowed dbVersion)) (versionSteps t dbVersion appVersion) s := by
  unfold versionSteps
  split
  · rename_i hfresh
    exact execMigrationDir_adds t (fun _ _ _ => hfresh) s
  · refine (upgradeVersion_adds t dbVersion appVersion s).mono ?_
    rintro _ _ ⟨l, hl, hrest⟩
    exact ⟨l, fun x hx hpre => absurd hpre (hl x hx), hrest⟩

theorem upgrade_works (t : Migrator) (dbVersion appVersion : Version) (s : Session) :
    Respects (Works (Allowed dbVersion)) (upgrade t dbVersion appVersion) s := by
  refine respects_bind (works_trans _) (respects_wrap _ (txExec_works t id s)) fun _ u _ => ?_
  refine respects_bind (works_trans _)
    ((versionSteps_adds t dbVersion appVersion u).mono fun _ _ => Adds.works) fun _ v _ => ?_
  refine respects_bind (works_trans _)
    ((idempotent_adds (fun _ h hpre => absurd hpre h) t v).mono fun _ _ => Adds.works)
    fun _ w _ => ?_
  exact respects_wrap _ (setDBVersion_works t appVersion w)

theorem upgrade_eq_ok {t : Migrator} {dbVersion appVersion : Version} {s w : Session} {a : Unit}
    (h : upgrade t dbVersion appVersion s = .ok a w) :
    ∃ l : List Script, (∀ x ∈ l, Allowed dbVersion x) ∧ w.executed = s.executed ++ l ∧
      w.tx = s.tx.map fun db =>
        { versions := some [appVersion.string], scripts := db.scripts ++ l } := by
  unfold upgrade at h
  simp only [bind_eq_ok] at h
  obtain ⟨_, s₁, h₁, _, s₂, h₂, _, s₃, h₃, h₄⟩ := h
  have hinstall := query_eq_ok (wrap_eq_ok.mp h₁)
  have hscripts := (versionSteps_adds t dbVersion appVersion s₁).of_ok h₂
  have hidem := (idempotent_adds (P := Allowed dbVersion)
    (fun _ h hpre => absurd hpre h) t s₂).of_ok h₃
  obtain ⟨l, hl, _, hexec, htx⟩ := adds_trans _ _ _ _ hscripts hidem
  obtain ⟨hexec', htx'⟩ := setDBVersion_ok (wrap_eq_ok.mp h₄)
  refine ⟨l, hl, ?_, ?_⟩
  · rw [hexec', hexec, hinstall]
  · rw [htx', htx, hinstall, Option.map_map]
    cases s.tx with
    | none => rfl
    | some db => rfl

/-- The version in the row of `prom_schema_migrations`, if the row holds one. -/
def Database.stored (db : Database) : Option Version :=
  (db.versions.getD []).head?.bind Package.make

def Database.ensured (db : Database) : Database :=
  { db with versions := some (db.versions.getD []) }

theorem getDBVersion_eq_ok {t : Migrator} (hreads : t.rowsBreak = false) {s u : Session}
    {v : Version} (h : getDBVersion t s = .ok v u) :
    v = s.db.stored.getD {} ∧ u = { s with calls := s.calls + 1 } := by
  unfold getDBVersion at h
  simp only [bind_eq_ok, wrap_eq_ok, get_eq_ok, versionRows, hreads, Bool.false_eq_true,
    ↓reduceIte] at h
  obtain ⟨_, s₁, hq, _, _, ⟨rfl, rfl⟩, hrow⟩ := h
  have hs₁ := query_eq_ok hq
  subst hs₁
  unfold Database.stored
  cases hrows : s.db.versions.getD [] with
  | nil =>
    simp only [id_eq, hrows, List.take_nil, pure_eq_ok] at hrow
    exact ⟨hrow.1.symm, hrow.2.symm⟩
  | cons row rest =>
    simp only [id_eq, hrows, List.take_succ_cons, List.take_zero, pure_eq_ok] at hrow
    exact ⟨hrow.1.symm, hrow.2.symm⟩

/-- `rows.Err` is not looked at: if the connection breaks while the row is read, any database
is taken for one without a version. -/
theorem getDBVersion_of_rowsBreak {t : Migrator} (hbreak : t.rowsBreak = true) {s : Session}
    (hfault : t.fault s.calls = none) :
    getDBVersion t s = .ok {} { s with calls := s.calls + 1 } := by
  unfold getDBVersion
  have hquery : wrap "Error getting DB version: " (query t id) s =
      .ok () { s with calls := s.calls + 1 } := by
    unfold wrap query
    simp [hfault]
  rw [bind_of_ok hquery]
  rw [get_bind]
  simp only [versionRows, hbreak, ↓reduceIte]
  rfl

theorem getDBVersion_works {P : Script → Prop} (t : Migrator) (s : Session) :
    Respects (Works P) (getDBVersion t) s := by
  refine respects_bind (works_trans P)
    (respects_wrap _ (respects_query (works_idle rfl rfl) (works_idle rfl rfl))) fun _ u _ => ?_
  exact respects_get_bind (respects_pure (works_idle rfl rfl) _)

/-- A call of `Migrate` with a version above 0.0.0 that has no build metadata. Any call to
the database may fail, while the rows of the version query are read to their end. -/
structure Call where
  migrator : Migrator
  version : String
  app : Version
  made : Package.make version = some app
  above : {} < app
  release : app.build = []
  reads : migrator.rowsBreak = false

/-- What a call leaves behind: the committed database, its error and the scripts it ran. -/
structure Outcome where
  db : Database
  err : Option String
  executed : List Script

/-- What a call of `Migrate` does. -/
def Call.outcome (c : Call) (db : Database) : Outcome :=
  match migrate c.migrator c.app { db := db } with
  | .ok _ s => { db := s.db, err := none, executed := s.executed }
  | .error err s => { db := s.db, err := some err, executed := s.executed }

/-- The stored version, if there is one, is above 0.0.0 and has no build metadata. -/
def Database.Valid (db : Database) : Prop :=
  ∀ v ∈ db.stored, {} < v ∧ v.build = []

/-- The ways in which a call can end. -/
inductive Ends (db : Database) (c : Call) : Outcome → Prop
  | failed {db' : Database} {err : String} {executed : List Script}
      (kept : db' = db ∨ db' = db.ensured)
      (preinstall : ∀ x ∈ executed, Under preinstallScripts x → db.stored = none)
      (quiet : db.stored = some c.app → isDev c.app = false → executed = []) :
      Ends db c { db := db', err := some err, executed := executed }
  | same (stored : db.stored = some c.app) (notDev : isDev c.app = false) :
      Ends db c { db := db.ensured, err := none, executed := [] }
  | reapplied {executed : List Script} (stored : db.stored = some c.app)
      (dev : isDev c.app = true) (preinstall : ∀ x ∈ executed, ¬Under preinstallScripts x) :
      Ends db c { db := { db.ensured with scripts := db.scripts ++ executed }, err := none,
                  executed := executed }
  | upgraded {executed : List Script} (below : ∀ v ∈ db.stored, v < c.app)
      (preinstall : ∀ x ∈ executed, Under preinstallScripts x → db.stored = none) :
      Ends db c { db := { versions := some [c.app.string], scripts := db.scripts ++ executed }
                  err := none, executed := executed }

theorem stored_none_of_allowed {db : Database} (hdb : db.Valid) {x : Script}
    (hx : Allowed (db.stored.getD {}) x) (hpre : Under preinstallScripts x) : db.stored = none := by
  have hzero := hx hpre
  cases hstored : db.stored with
  | none => rfl
  | some v =>
    rw [hstored, Option.getD_some] at hzero
    have habove : compare ({} : Version) v = .lt := (hdb v hstored).1
    rw [Std.OrientedOrd.eq_swap, hzero] at habove
    cases habove

theorem exists_made_of_stored {db : Database} {v : Version} (h : db.stored = some v) :
    ∃ row, Package.make row = some v := by
  obtain ⟨row, -, hrow⟩ := Option.bind_eq_some_iff.mp h
  exact ⟨row, hrow⟩

theorem stored_eq_of_compare {db : Database} (hdb : db.Valid) (c : Call)
    (h : compare (db.stored.getD {}) c.app = .eq) : db.stored = some c.app := by
  cases hstored : db.stored with
  | none =>
    have habove : compare ({} : Version) c.app = .lt := c.above
    rw [hstored, Option.getD_none, habove] at h
    cases h
  | some v =>
    rw [hstored, Option.getD_some] at h
    obtain ⟨row, hrow⟩ := exists_made_of_stored hstored
    rw [eq_of_compare_eq hrow c.made h ((hdb v hstored).2.trans c.release.symm)]

/-- The scripts of a call: none at all on a release that is already there. -/
def Fits (dbVersion appVersion : Version) (x : Script) : Prop :=
  Allowed dbVersion x ∧ (compare dbVersion appVersion = .eq → isDev appVersion = true)

theorem migrateFrom_eq_error {t : Migrator} {dbVersion appVersion : Version} {s u : Session}
    {err : String} (h : migrateFrom t dbVersion appVersion s = .error err u) :
    Works (Fits dbVersion appVersion) s u := by
  unfold migrateFrom at h
  cases hcmp : compare dbVersion appVersion with
  | eq =>
    simp only [hcmp] at h
    split at h
    · rename_i hdev
      exact transaction_eq_error ((idempotent_adds
        (fun _ hn => ⟨fun hpre => absurd hpre hn, fun _ => hdev⟩) _ _).mono fun _ _ =>
          Adds.works) h
    · simp at h
  | gt =>
    simp only [hcmp, throw_eq_error] at h
    rw [← h.2]
    exact works_idle rfl rfl
  | lt =>
    simp only [hcmp] at h
    obtain ⟨hdb, l, hl, hexec⟩ := transaction_eq_error (upgrade_works _ _ _ _) h
    exact ⟨hdb, l, fun x hx => ⟨hl x hx, fun heq => by simp [hcmp] at heq⟩, hexec⟩

theorem migrate_eq_ok {c : Call} {db : Database} {s : Session} {a : Unit}
    (h : migrate c.migrator c.app { db := db } = .ok a s) :
    migrateFrom c.migrator (db.stored.getD {}) c.app { db := db.ensured, calls := 2 } =
      .ok a s := by
  unfold migrate at h
  simp only [bind_eq_ok, wrap_eq_ok] at h
  obtain ⟨_, s₁, htable, v, s₂, hread, h⟩ := h
  have hs₁ : s₁ = { db := db.ensured, calls := 1 } := query_eq_ok (wrap_eq_ok.mp htable)
  subst hs₁
  obtain ⟨rfl, rfl⟩ := getDBVersion_eq_ok c.reads hread
  exact h

theorem migrate_eq_error {db : Database} (hdb : db.Valid) {c : Call} {err : String} {s : Session}
    (h : migrate c.migrator c.app { db := db } = .error err s) :
    (s.db = db ∨ s.db = db.ensured) ∧
      (∀ x ∈ s.executed, Under preinstallScripts x → db.stored = none) ∧
      (db.stored = some c.app → isDev c.app = false → s.executed = []) := by
  unfold migrate at h
  rw [bind_eq_error] at h
  rcases h with htable | ⟨_, s₁, htable, h⟩
  · obtain ⟨_, _, hq⟩ := wrap_eq_error.mp htable
    obtain ⟨_, _, hq⟩ := wrap_eq_error.mp hq
    rw [query_eq_error hq]
    exact ⟨Or.inl rfl, fun x hx => absurd hx List.not_mem_nil, fun _ _ => rfl⟩
  have hs₁ : s₁ = { db := db.ensured, calls := 1 } :=
    query_eq_ok (wrap_eq_ok.mp (wrap_eq_ok.mp htable))
  subst hs₁
  have hworks : Works (Fits (db.stored.getD {}) c.app) { db := db.ensured, calls := 1 } s := by
    rw [bind_eq_error] at h
    rcases h with hread | ⟨v, s₂, hread, h⟩
    · obtain ⟨_, _, hq⟩ := wrap_eq_error.mp hread
      exact (getDBVersion_works _ _).of_error hq
    · obtain ⟨rfl, rfl⟩ := getDBVersion_eq_ok c.reads (wrap_eq_ok.mp hread)
      have hfrom := migrateFrom_eq_error h
      exact hfrom
  obtain ⟨hdb', l, hl, hexec⟩ := hworks
  have hexecuted : s.executed = l := hexec
  rw [hexecuted]
  refine ⟨Or.inr hdb', fun x hx => stored_none_of_allowed hdb (hl x hx).1, ?_⟩
  intro hstored hdev
  refine List.eq_nil_iff_forall_not_mem.mpr fun x hx => ?_
  have hsame : compare (db.stored.getD {}) c.app = .eq := by
    rw [hstored, Option.getD_some, Std.ReflOrd.compare_self]
  exact absurd ((hl x hx).2 hsame) (by simp [hdev])

theorem outcome_ends {db : Database} (hdb : db.Valid) (c : Call) : Ends db c (c.outcome db) := by
  unfold Call.outcome
  cases hm : migrate c.migrator c.app { db := db } with
  | error err s =>
    obtain ⟨hkept, hpre, hquiet⟩ := migrate_eq_error hdb hm
    exact .failed hkept hpre hquiet
  | ok _ s =>
    have hfrom := migrate_eq_ok hm
    unfold migrateFrom at hfrom
    simp only
    cases hcmp : compare (db.stored.getD {}) c.app with
    | eq =>
      have hstored := stored_eq_of_compare hdb c hcmp
      simp only [hcmp] at hfrom
      split at hfrom
      · rename_i hdev
        obtain ⟨w, hw, hdb', hexec⟩ := transaction_eq_ok hfrom
        obtain ⟨l, hl, _, hexec', htx⟩ := (idempotent_adds (fun _ h => h) _ _).of_ok hw
        have hs : s.db = { db.ensured with scripts := db.scripts ++ l } := by
          rw [hdb', htx]
          rfl
        have hl' : s.executed = l := hexec.trans hexec'
        rw [hs, hl']
        exact .reapplied hstored hdev hl
      · rename_i hdev
        simp only [pure_eq_ok] at hfrom
        rw [← hfrom.2]
        exact .same hstored (by simpa using hdev)
    | gt => simp [hcmp] at hfrom
    | lt =>
      simp only [hcmp] at hfrom
      obtain ⟨w, hw, hdb', hexec⟩ := transaction_eq_ok hfrom
      obtain ⟨l, hl, hexec', htx⟩ := upgrade_eq_ok hw
      have hs : s.db = { versions := some [c.app.string], scripts := db.scripts ++ l } := by
        rw [hdb', htx]
        rfl
      have hl' : s.executed = l := hexec.trans hexec'
      rw [hs, hl']
      refine .upgraded ?_ fun x hx => stored_none_of_allowed hdb (hl x hx)
      intro v hv
      rw [hv] at hcmp
      exact hcmp

theorem stored_upgraded (c : Call) (scripts : List Script) :
    ({ versions := some [c.app.string], scripts := scripts } : Database).stored = some c.app :=
  Package.make_string c.made

structure Atomic (db : Database) (c : Call) : Prop where
  failed : (c.outcome db).err.isSome = true →
    (c.outcome db).db.stored = db.stored ∧ (c.outcome db).db.scripts = db.scripts
  returned : (c.outcome db).err = none →
    (c.outcome db).db.stored = some c.app ∧
      (c.outcome db).db.scripts = db.scripts ++ (c.outcome db).executed
  monotone : ∀ v ∈ db.stored, ∃ w ∈ (c.outcome db).db.stored, v ≤ w
  preinstall : ∀ x ∈ (c.outcome db).executed, Under preinstallScripts x → db.stored = none
  repeated : (c.outcome db).err = none → isDev c.app = false → ∀ again : Call,
    again.app = c.app → (again.outcome (c.outcome db).db).executed = []

theorem Ends.valid {db : Database} (hdb : db.Valid) {c : Call} {o : Outcome} (h : Ends db c o) :
    o.db.Valid := by
  cases h with
  | failed kept _ _ => rcases kept with rfl | rfl <;> exact hdb
  | same _ _ => exact hdb
  | reapplied _ _ _ => exact hdb
  | upgraded _ _ =>
    intro v hv
    rw [stored_upgraded, Option.mem_some] at hv
    exact hv ▸ ⟨c.above, c.release⟩

theorem Ends.executed_of_same {db : Database} {c : Call} {o : Outcome} (h : Ends db c o)
    (hstored : db.stored = some c.app) (hdev : isDev c.app = false) : o.executed = [] := by
  cases h with
  | failed _ _ quiet => exact quiet hstored hdev
  | same _ _ => rfl
  | reapplied _ dev _ => exact absurd (dev.symm.trans hdev) (by decide)
  | upgraded below _ => exact absurd (below c.app hstored) (lt_irrefl _)

theorem Ends.returned {db : Database} {c : Call} {o : Outcome} (h : Ends db c o)
    (hok : o.err = none) : o.db.stored = some c.app ∧ o.db.scripts = db.scripts ++ o.executed := by
  cases h with
  | failed _ _ _ => cases hok
  | same stored _ => exact ⟨stored, (List.append_nil _).symm⟩
  | reapplied stored _ _ => exact ⟨stored, rfl⟩
  | upgraded _ _ => exact ⟨stored_upgraded _ _, rfl⟩

theorem Ends.failed_kept {db : Database} {c : Call} {o : Outcome} (h : Ends db c o)
    (herr : o.err.isSome = true) : o.db.stored = db.stored ∧ o.db.scripts = db.scripts := by
  cases h with
  | failed kept _ _ => rcases kept with rfl | rfl <;> exact ⟨rfl, rfl⟩
  | same _ _ => cases herr
  | reapplied _ _ _ => cases herr
  | upgraded _ _ => cases herr

theorem Ends.monotone {db : Database} {c : Call} {o : Outcome} (h : Ends db c o) {v : Version}
    (hv : v ∈ db.stored) : ∃ w ∈ o.db.stored, v ≤ w := by
  cases h with
  | failed kept _ _ => rcases kept with rfl | rfl <;> exact ⟨v, hv, le_refl v⟩
  | same _ _ => exact ⟨v, hv, le_refl v⟩
  | reapplied _ _ _ => exact ⟨v, hv, le_refl v⟩
  | upgraded below _ => exact ⟨c.app, stored_upgraded _ _, le_of_lt (below v hv)⟩

theorem Ends.preinstall_fresh {db : Database} {c : Call} {o : Outcome} (h : Ends db c o)
    {x : Script} (hx : x ∈ o.executed) (hpre : Under preinstallScripts x) : db.stored = none := by
  cases h with
  | failed _ preinstall _ => exact preinstall x hx hpre
  | same _ _ => cases hx
  | reapplied _ _ preinstall => exact absurd hpre (preinstall x hx)
  | upgraded _ preinstall => exact preinstall x hx hpre

theorem atomic_of_valid {db : Database} (hdb : db.Valid) (c : Call) : Atomic db c where
  failed := (outcome_ends hdb c).failed_kept
  returned := (outcome_ends hdb c).returned
  monotone _ hv := (outcome_ends hdb c).monotone hv
  preinstall _ hx hpre := (outcome_ends hdb c).preinstall_fresh hx hpre
  repeated hok hdev again happ := by
    have hvalid := (outcome_ends hdb c).valid hdb
    have hstored := ((outcome_ends hdb c).returned hok).1
    exact (outcome_ends hvalid again).executed_of_same (happ ▸ hstored) (happ ▸ hdev)

/-- The database after the call. -/
def callStep (db : Database) (c : Call) : Database :=
  (c.outcome db).db

/-- Along every history of calls, whatever fails on the way: a call that returns an error
changes nothing, one that returns leaves the version it was called with, the version never
goes down, preinstall scripts run on a database without a version only, and a release that
is migrated to once more runs nothing. -/
theorem migrate_atomic_monotone (db : Database) (hdb : db.Valid) (calls : List Call) :
    Throughout callStep Atomic db calls := by
  induction calls generalizing db with
  | nil => trivial
  | cons c calls ih => exact ⟨atomic_of_valid hdb c, ih _ ((outcome_ends hdb c).valid hdb)⟩

end Histories

/-- The scripts of a first installation: one of each directory, the idempotent one by way of
a table of contents. -/
def installer : Migrator where
  sqlFiles path :=
    if path = "preinstall" then .ok
      { stat := .error "", read := .error ""
        readdir := .ok [⟨⟨"001-users.sql", by decide⟩, false⟩] }
    else if path = "idempotent" ∨ path = "idempotent/base.sql" ∨ path = "preinstall/001-users.sql"
    then .ok
      { stat := .ok ⟨⟨"base.sql", by decide⟩, false⟩, read := .ok "", readdir := .error "" }
    else .error "not found"
  toc dirName := if dirName = "idempotent" then some [⟨"base.sql", by decide⟩] else none
  fault _ := none
  rowsBreak := false

section Install

local instance firstRelease : Package := .ofList [{ minor := 1 }]

def install : Call where
  migrator := installer
  version := "0.1.0"
  app := { minor := 1 }
  made := by decide
  above := by decide
  release := rfl
  reads := rfl

theorem migrate_installer :
    (⟨none, []⟩ : Database).Valid ∧
      (install.outcome ⟨none, []⟩).executed.map Script.name =
        ["preinstall/001-users.sql", "idempotent/base.sql"] ∧
      Throughout callStep Atomic ⟨none, []⟩ [install, install] := by
  have hvalid : (⟨none, []⟩ : Database).Valid := fun v hv => by cases hv
  exact ⟨hvalid, by decide +kernel, migrate_atomic_monotone _ hvalid _⟩

end Install

end TimescalePrometheus.Migrations
