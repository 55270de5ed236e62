import Mathlib.Data.List.Nodup
import TimescalePrometheus.Migrations.Migrator

/-!
Which scripts an upgrade runs. A well-formed tree of versioned scripts is a type of its own: its
directories are named by versions, its files hold a number, and no two files have the same
version.
-/

namespace TimescalePrometheus.Migrations

open Lib.Semver Lib.Transactions

/-- A file of a version directory, whose name holds the number `digits`. -/
structure ScriptFile where
  name : Name
  contents : String
  digits : List Char
  numbered : migrationFileNumber name.text.toList = some digits
  fits : Nat.ofDigitChars 10 digits 0 < 2 ^ 63

/-- The session after the scripts have run in its transaction. -/
def Session.ran (s : Session) (scripts : List Script) : Session :=
  { s with
    tx := s.tx.map fun db => { db with scripts := db.scripts ++ scripts }
    executed := s.executed ++ scripts
    calls := s.calls + scripts.length }

@[simp] theorem ran_nil (s : Session) : s.ran [] = s := by
  cases s with
  | mk db tx executed calls => cases tx <;> simp [Session.ran]

@[simp] theorem ran_ran (s : Session) (l m : List Script) : (s.ran l).ran m = s.ran (l ++ m) := by
  cases s with
  | mk db tx executed calls => cases tx <;> simp [Session.ran, Nat.add_assoc]

theorem execScript_of_no_fault {t : Migrator} {s : Session} (hfault : t.fault s.calls = none)
    (script : Script) : execScript t script s = .ok () (s.ran [script]) := by
  unfold execScript query
  rw [hfault]
  rfl

theorem lookup_isSome {α : Type} {k : String} {l : List (String × α)} :
    (l.lookup k).isSome = true ↔ k ∈ l.map Prod.fst := by
  induction l with
  | nil => simp
  | cons p l ih =>
    rw [List.lookup_cons, List.map_cons, List.mem_cons]
    cases hk : k == p.1 with
    | true => simp [beq_iff_eq.mp hk]
    | false => simp [ih, beq_eq_false_iff_ne.mp hk]

theorem lookup_of_mem {α : Type} {k : String} {v : α} {l : List (String × α)}
    (hnodup : (l.map Prod.fst).Nodup) (h : (k, v) ∈ l) : l.lookup k = some v := by
  induction l with
  | nil => cases h
  | cons p l ih =>
    rw [List.map_cons, List.nodup_cons] at hnodup
    rw [List.lookup_cons]
    rcases List.mem_cons.mp h with rfl | hmem
    · simp
    · have hne : k ≠ p.1 := fun heq => hnodup.1 (heq ▸ List.mem_map_of_mem hmem)
      simp [beq_eq_false_iff_ne.mpr hne, ih hnodup.2 hmem]

section Trees

variable [Package]

/-- A directory named by a version without build metadata. -/
structure VersionDir where
  name : Name
  version : Version
  named : Package.make name.text = some version
  release : version.build = []
  files : List ScriptFile

/-- A script with the version it belongs to. -/
structure VersionedScript where
  version : Version
  script : Script
deriving DecidableEq

/-- The key of a script in `versionMap`. -/
def VersionedScript.text (a : VersionedScript) : String :=
  a.version.string

def VersionDir.path (dir : VersionDir) : String :=
  versionScripts ++ "/" ++ dir.name.text

def VersionDir.filePath (dir : VersionDir) (file : ScriptFile) : String :=
  dir.path ++ "/" ++ file.name.text

/-- The version of a file is that of its directory with the file's number added to the
pre-release part. -/
def VersionDir.versioned (dir : VersionDir) (file : ScriptFile) : VersionedScript where
  version := { dir.version with
    pre := dir.version.pre ++ [.num (UInt64.ofNat (Nat.ofDigitChars 10 file.digits 0))] }
  script := { name := dir.filePath file, sql := replaceSchemaNames file.contents }

def VersionDir.scripts (dir : VersionDir) : List VersionedScript :=
  dir.files.map dir.versioned

/-- A well-formed tree of versioned scripts, in the order in which the file system lists
it. -/
structure Tree where
  dirs : List VersionDir
  distinct : ((dirs.flatMap VersionDir.scripts).map VersionedScript.text).Nodup

/-- All scripts below `versions/dev`. -/
def Tree.scripts (tree : Tree) : List VersionedScript :=
  tree.dirs.flatMap VersionDir.scripts

/-- The file system holds the tree under `versions/dev`. -/
structure Holds (fs : FileSystem) (tree : Tree) : Prop where
  root : ∃ file, fs versionScripts = .ok file ∧
    file.readdir = .ok (tree.dirs.map fun dir => { name := dir.name, isDir := true })
  dirs : ∀ dir ∈ tree.dirs, ∃ file infos, fs dir.path = .ok file ∧ file.readdir = .ok infos ∧
    infos.map FileInfo.name = dir.files.map ScriptFile.name
  files : ∀ dir ∈ tree.dirs, ∀ file ∈ dir.files, ∃ opened, fs (dir.filePath file) = .ok opened ∧
    opened.read = .ok file.contents

/-- The scripts with a version after `first` and up to `last`, by their versions. -/
def Tree.between (tree : Tree) (first last : Version) : List VersionedScript :=
  (tree.scripts.mergeSort fun a b => decide (a.version ≤ b.version)).filter fun a =>
    decide (first < a.version ∧ a.version ≤ last)

theorem getMigrationFileVersion_versioned (dir : VersionDir) (file : ScriptFile) :
    getMigrationFileVersion dir.name.text file.name.text = .ok (dir.versioned file).version := by
  unfold getMigrationFileVersion
  simp only [file.numbered, dir.named, Nat.not_le.mpr file.fits, ↓reduceIte]
  rfl

theorem build_of_mem_scripts {tree : Tree} {a : VersionedScript} (h : a ∈ tree.scripts) :
    a.version.build = [] := by
  obtain ⟨dir, _, hdir⟩ := List.mem_flatMap.mp h
  obtain ⟨file, _, rfl⟩ := List.mem_map.mp hdir
  exact dir.release

/-- What the scan has after the scripts `done`. -/
def collected (done : List VersionedScript) : Found where
  versions := done.map VersionedScript.version
  paths := (done.map fun a => (a.version.string, a.script.name)).reverse

theorem addFile_collected (dir : VersionDir) (file : ScriptFile) {info : FileInfo}
    (hinfo : info.name = file.name) {done : List VersionedScript}
    (hnew : (dir.versioned file).text ∉ done.map VersionedScript.text) :
    addFile dir.name.text dir.path (collected done) info =
      .ok (collected (done ++ [dir.versioned file])) := by
  have hfresh : ¬((collected done).paths.lookup (dir.versioned file).version.string).isSome := by
    rw [lookup_isSome]
    intro hmem
    simp only [collected, List.map_reverse, List.mem_reverse, List.map_map, List.mem_map,
      Function.comp_apply] at hmem
    obtain ⟨a, ha, heq⟩ := hmem
    exact hnew (List.mem_map.mpr ⟨a, ha, heq⟩)
  unfold addFile
  rw [hinfo, getMigrationFileVersion_versioned]
  simp only [bind, Except.bind, if_neg hfresh]
  simp [collected, VersionDir.versioned, VersionDir.filePath, pure, Except.pure]

theorem foldlM_addFile (dir : VersionDir) {infos : List FileInfo} {files : List ScriptFile}
    (hinfos : infos.map FileInfo.name = files.map ScriptFile.name) {done : List VersionedScript}
    (hnodup : ((done ++ files.map dir.versioned).map VersionedScript.text).Nodup) :
    infos.foldlM (addFile dir.name.text dir.path) (collected done) =
      .ok (collected (done ++ files.map dir.versioned)) := by
  induction files generalizing infos done with
  | nil =>
    rw [List.map_nil, List.map_eq_nil_iff] at hinfos
    subst hinfos
    simp [pure, Except.pure]
  | cons file files ih =>
    obtain ⟨info, infos, rfl⟩ : ∃ info rest, infos = info :: rest :=
      List.exists_cons_of_ne_nil fun h => by simp [h] at hinfos
    rw [List.map_cons, List.map_cons, List.cons.injEq] at hinfos
    have hsplit : done ++ (file :: files).map dir.versioned =
        (done ++ [dir.versioned file]) ++ files.map dir.versioned := by simp
    rw [hsplit] at hnodup ⊢
    have hnew : (dir.versioned file).text ∉ done.map VersionedScript.text := by
      rw [List.map_append, List.map_append] at hnodup
      have hdisj := List.disjoint_of_nodup_append (List.Nodup.of_append_left hnodup)
      exact fun hmem => hdisj hmem (List.mem_singleton_self _)
    rw [List.foldlM_cons, addFile_collected dir file hinfos.1 hnew]
    exact ih hinfos.2 hnodup

theorem addDir_collected {fs : FileSystem} {tree : Tree} (hfs : Holds fs tree) {dir : VersionDir}
    (hdir : dir ∈ tree.dirs) {done : List VersionedScript}
    (hnodup : ((done ++ dir.scripts).map VersionedScript.text).Nodup) :
    addDir fs (collected done) { name := dir.name, isDir := true } =
      .ok (collected (done ++ dir.scripts)) := by
  obtain ⟨file, infos, hopen, hread, hnames⟩ := hfs.dirs dir hdir
  have hfold := foldlM_addFile dir hnames hnodup
  unfold VersionDir.path at hopen
  unfold addDir
  simp only [not_true_eq_false, ↓reduceIte, hopen, hread, errorf_ok, ok_bind]
  exact hfold

theorem foldlM_addDir {fs : FileSystem} {tree : Tree} (hfs : Holds fs tree) {dirs : List VersionDir}
    (hdirs : ∀ dir ∈ dirs, dir ∈ tree.dirs) {done : List VersionedScript}
    (hnodup : ((done ++ dirs.flatMap VersionDir.scripts).map VersionedScript.text).Nodup) :
    (dirs.map fun dir => ({ name := dir.name, isDir := true } : FileInfo)).foldlM (addDir fs)
        (collected done) =
      .ok (collected (done ++ dirs.flatMap VersionDir.scripts)) := by
  induction dirs generalizing done with
  | nil => simp [pure, Except.pure]
  | cons dir dirs ih =>
    have hsplit : done ++ (dir :: dirs).flatMap VersionDir.scripts =
        (done ++ dir.scripts) ++ dirs.flatMap VersionDir.scripts := by simp
    rw [hsplit] at hnodup ⊢
    have hfirst : ((done ++ dir.scripts).map VersionedScript.text).Nodup := by
      rw [List.map_append] at hnodup
      exact List.Nodup.of_append_left hnodup
    rw [List.map_cons, List.foldlM_cons, addDir_collected hfs (hdirs dir List.mem_cons_self) hfirst]
    exact ih (fun d hd => hdirs d (List.mem_cons_of_mem _ hd)) hnodup

theorem findVersions_of_holds {fs : FileSystem} {tree : Tree} (hfs : Holds fs tree) :
    findVersions fs = .ok (collected tree.scripts) := by
  obtain ⟨file, hopen, hread⟩ := hfs.root
  have hnodup : (([] ++ tree.dirs.flatMap VersionDir.scripts).map VersionedScript.text).Nodup :=
    tree.distinct
  have hfold := foldlM_addDir hfs (fun _ h => h) hnodup
  unfold findVersions
  simp only [hopen, hread, errorf_ok, ok_bind]
  exact hfold

theorem lookup_collected {tree : Tree} {a : VersionedScript} (ha : a ∈ tree.scripts) :
    (collected tree.scripts).paths.lookup a.version.string = some a.script.name := by
  apply lookup_of_mem
  · rw [collected, List.map_reverse, List.nodup_reverse, List.map_map]
    exact tree.distinct
  · rw [collected, List.mem_reverse]
    exact List.mem_map_of_mem ha

theorem execMigrationFile_ran {t : Migrator} (hfault : ∀ n, t.fault n = none) {tree : Tree}
    (hfs : Holds t.sqlFiles tree) {a : VersionedScript} (ha : a ∈ tree.scripts) (s : Session) :
    execMigrationFile t a.script.name s = .ok () (s.ran [a.script]) := by
  obtain ⟨dir, hdir, hmem⟩ := List.mem_flatMap.mp ha
  obtain ⟨file, hfile, rfl⟩ := List.mem_map.mp hmem
  obtain ⟨opened, hopen, hread⟩ := hfs.files dir hdir file hfile
  have hexec := execScript_of_no_fault (hfault s.calls) (dir.versioned file).script
  have hname : (dir.versioned file).script.name = dir.filePath file := rfl
  unfold execMigrationFile
  rw [hname, hopen, errorf_ok, bind_of_ok (ofExcept_ok opened s), hread, errorf_ok,
    bind_of_ok (ofExcept_ok _ s), wrap_eq_ok]
  exact hexec

theorem execVersion_ran {t : Migrator} (hfault : ∀ n, t.fault n = none) {tree : Tree}
    (hfs : Holds t.sqlFiles tree) (first last : Version) {a : VersionedScript}
    (ha : a ∈ tree.scripts) (s : Session) :
    execVersion t (collected tree.scripts) first last a.version s =
      .ok () (s.ran (([a].filter fun a => decide (first < a.version ∧ a.version ≤ last)).map
        VersionedScript.script)) := by
  unfold execVersion
  split
  · rename_i hin
    rw [lookup_collected ha, List.filter_cons_of_pos (by simpa using hin)]
    exact execMigrationFile_ran hfault hfs ha s
  · rename_i hout
    rw [List.filter_cons_of_neg (by simpa using hout), List.filter_nil, List.map_nil, ran_nil]
    rfl

theorem forM_execVersion_ran {t : Migrator} (hfault : ∀ n, t.fault n = none) {tree : Tree}
    (hfs : Holds t.sqlFiles tree) (first last : Version) {l : List VersionedScript}
    (hl : ∀ a ∈ l, a ∈ tree.scripts) (s : Session) :
    (l.map VersionedScript.version).forM (execVersion t (collected tree.scripts) first last) s =
      .ok () (s.ran ((l.filter fun a => decide (first < a.version ∧ a.version ≤ last)).map
        VersionedScript.script)) := by
  induction l generalizing s with
  | nil => exact congrArg _ (ran_nil s).symm
  | cons a l ih =>
    have hfirst := execVersion_ran hfault hfs first last (hl a List.mem_cons_self) s
    have hrest := ih fun b hb => hl b (List.mem_cons_of_mem _ hb)
    refine (bind_of_ok hfirst _).trans ((hrest _).trans ?_)
    rw [ran_ran, ← List.map_append, ← List.filter_append]
    rfl

theorem upgradeVersion_ran {t : Migrator} (hfault : ∀ n, t.fault n = none) {tree : Tree}
    (hfs : Holds t.sqlFiles tree) (first last : Version) (s : Session) :
    upgradeVersion t first last s =
      .ok () (s.ran ((tree.between first last).map VersionedScript.script)) := by
  have hsorted : (collected tree.scripts).versions.mergeSort (fun v w => decide (v ≤ w)) =
      (tree.scripts.mergeSort fun a b => decide (a.version ≤ b.version)).map
        VersionedScript.version :=
    (List.map_mergeSort (f := VersionedScript.version) fun _ _ _ _ => rfl).symm
  unfold upgradeVersion
  rw [findVersions_of_holds hfs, bind_of_ok (ofExcept_ok _ s), hsorted]
  exact forM_execVersion_ran hfault hfs first last (fun a ha => List.mem_mergeSort.mp ha) s

theorem filter_between_append {a b c : Version} (hab : a ≤ b) (hbc : b ≤ c)
    {l : List VersionedScript} (hsorted : l.Pairwise fun x y => x.version ≤ y.version) :
    l.filter (fun x => decide (a < x.version ∧ x.version ≤ c)) =
      l.filter (fun x => decide (a < x.version ∧ x.version ≤ b)) ++
        l.filter (fun x => decide (b < x.version ∧ x.version ≤ c)) := by
  induction l with
  | nil => rfl
  | cons x l ih =>
    obtain ⟨hx, hl⟩ := List.pairwise_cons.mp hsorted
    rcases lt_or_ge b x.version with hbx | hxb
    · -- From here on everything is past `b`.
      have hpast : ∀ y ∈ x :: l, b < y.version := by
        intro y hy
        rcases List.mem_cons.mp hy with rfl | hmem
        · exact hbx
        · exact lt_of_lt_of_le hbx (hx y hmem)
      have hnone : (x :: l).filter (fun x => decide (a < x.version ∧ x.version ≤ b)) = [] :=
        List.filter_eq_nil_iff.mpr fun y hy => by
          simpa using fun _ => not_le_of_gt (hpast y hy)
      rw [hnone, List.nil_append]
      apply List.filter_congr
      intro y hy
      have hby := hpast y hy
      simp only [hby, lt_of_le_of_lt hab hby]
    · have hnb : ¬b < x.version := not_lt_of_ge hxb
      have hxc : x.version ≤ c := le_trans hxb hbc
      have hright : (x :: l).filter (fun x => decide (b < x.version ∧ x.version ≤ c)) =
          l.filter (fun x => decide (b < x.version ∧ x.version ≤ c)) :=
        List.filter_cons_of_neg (by simp [hnb])
      rw [hright]
      by_cases hax : a < x.version
      · rw [List.filter_cons_of_pos (by simp [hax, hxc]),
          List.filter_cons_of_pos (by simp [hax, hxb]), ih hl, List.cons_append]
      · rw [List.filter_cons_of_neg (by simp [hax]), List.filter_cons_of_neg (by simp [hax]),
          ih hl]

theorem pairwise_sorted (tree : Tree) :
    (tree.scripts.mergeSort fun a b => decide (a.version ≤ b.version)).Pairwise
      fun a b => a.version ≤ b.version := by
  have htrans : ∀ a b c : VersionedScript, decide (a.version ≤ b.version) = true →
      decide (b.version ≤ c.version) = true → decide (a.version ≤ c.version) = true := by
    intro a b c hab hbc
    exact decide_eq_true (le_trans (of_decide_eq_true hab) (of_decide_eq_true hbc))
  have htotal : ∀ a b : VersionedScript,
      (decide (a.version ≤ b.version) || decide (b.version ≤ a.version)) = true := by
    intro a b
    simp only [Bool.or_eq_true, decide_eq_true_eq]
    exact (lt_or_ge a.version b.version).imp le_of_lt id
  exact (List.pairwise_mergeSort htrans htotal tree.scripts).imp fun h => of_decide_eq_true h

theorem pairwise_between (tree : Tree) (first last : Version) :
    (tree.between first last).Pairwise fun a b => a.version < b.version := by
  have hperm := List.mergeSort_perm tree.scripts fun a b => decide (a.version ≤ b.version)
  have hdistinct : (tree.scripts.mergeSort fun a b => decide (a.version ≤ b.version)).Pairwise
      fun a b => a.text ≠ b.text := by
    rw [← List.pairwise_map (f := VersionedScript.text) (R := (· ≠ ·))]
    exact (hperm.map _).nodup_iff.mpr tree.distinct
  apply List.Pairwise.filter
  refine ((pairwise_sorted tree).and hdistinct).imp_of_mem ?_
  rintro a b ha hb ⟨hle, hne⟩
  have hbuild : a.version.build = b.version.build :=
    (build_of_mem_scripts (hperm.mem_iff.mp ha)).trans
      (build_of_mem_scripts (hperm.mem_iff.mp hb)).symm
  exact lt_of_le_of_string_ne hle hne hbuild

theorem mem_between {tree : Tree} {first last : Version} {a : VersionedScript} :
    a ∈ tree.between first last ↔ a ∈ tree.scripts ∧ first < a.version ∧ a.version ≤ last := by
  unfold Tree.between
  rw [List.mem_filter, List.mem_mergeSort, decide_eq_true_eq]

/-- The order in which the file system lists the directories does not matter, and neither
does the sorting algorithm: a strictly increasing list is determined by its members. -/
theorem between_of_perm {tree tree' : Tree} (h : tree.scripts.Perm tree'.scripts)
    (first last : Version) : tree.between first last = tree'.between first last := by
  apply List.Perm.eq_of_pairwise _ (pairwise_between tree first last)
    (pairwise_between tree' first last)
  · exact (((List.mergeSort_perm _ _).trans h).trans (List.mergeSort_perm _ _).symm).filter _
  · intro a b _ _ hab hba
    exact absurd hba (lt_asymm hab)

/-- Over a well-formed tree an upgrade runs exactly the scripts of the versions after the
first and up to the last, each once and in their order, so it makes no difference whether a
database goes from `a` to `c` in one upgrade or by way of `b`. -/
theorem upgradeVersion_path_independent (t : Migrator) (hfault : ∀ n, t.fault n = none)
    (tree : Tree) (hfs : Holds t.sqlFiles tree) :
    (∀ first last s, upgradeVersion t first last s =
      .ok () (s.ran ((tree.between first last).map VersionedScript.script))) ∧
    (∀ a b c : Version, a ≤ b → b ≤ c →
      tree.between a c = tree.between a b ++ tree.between b c) ∧
    ∀ first last,
      (tree.between first last).Pairwise (fun a b => a.version < b.version) ∧
      ∀ a, a ∈ tree.between first last ↔
        a ∈ tree.scripts ∧ first < a.version ∧ a.version ≤ last := by
  refine ⟨upgradeVersion_ran hfault hfs, ?_, ?_⟩
  · intro a b c hab hbc
    exact filter_between_append hab hbc (pairwise_sorted tree)
  · intro first last
    exact ⟨pairwise_between tree first last, fun a => mem_between⟩

end Trees

section TwoReleases

/-- `0.10.1-dev`. -/
def developed : Version := { minor := 10, patch := 1, pre := [.alnum "dev"] }

local instance releases : Package := .ofList [developed, { minor := 9 }]

/-- Two directories, listed out of order: `0.10.1-dev` with two scripts, `0.9.0` with one. -/
def twoReleases : Tree where
  dirs := [
    { name := ⟨"0.10.1-dev", by decide⟩
      version := developed
      named := by decide
      release := rfl
      files := [
        ⟨⟨"2-views.sql", by decide⟩, "", ['2'], by decide, by decide⟩,
        ⟨⟨"1-tables.sql", by decide⟩, "", ['1'], by decide, by decide⟩] },
    { name := ⟨"0.9.0", by decide⟩
      version := { minor := 9 }
      named := by decide
      release := rfl
      files := [⟨⟨"1-types.sql", by decide⟩, "", ['1'], by decide, by decide⟩] }]
  distinct := by decide

theorem between_of_perm_reversed :
    (⟨twoReleases.dirs.reverse, by decide⟩ : Tree).between {} { minor := 10 } =
      twoReleases.between {} { minor := 10 } := by
  refine between_of_perm ?_ _ _
  exact (List.reverse_perm twoReleases.dirs).flatMap_right _

/-- The file system with these directories and scripts. -/
def twoReleasesFiles : FileSystem := fun path =>
  let dir (names : List Name) : Except String File := .ok
    { stat := .error "", read := .error "", readdir := .ok (names.map fun n => ⟨n, false⟩) }
  if path = "versions/dev" then .ok
    { stat := .error "", read := .error ""
      readdir := .ok (twoReleases.dirs.map fun dir => ⟨dir.name, true⟩) }
  else if path = "versions/dev/0.10.1-dev" then
    dir [⟨"2-views.sql", by decide⟩, ⟨"1-tables.sql", by decide⟩]
  else if path = "versions/dev/0.9.0" then dir [⟨"1-types.sql", by decide⟩]
  else if path ∈ ["versions/dev/0.10.1-dev/2-views.sql", "versions/dev/0.10.1-dev/1-tables.sql",
      "versions/dev/0.9.0/1-types.sql"] then .ok
    { stat := .error "", readdir := .error "", read := .ok "" }
  else .error "not found"

theorem holds_twoReleases : Holds twoReleasesFiles twoReleases where
  root := ⟨_, rfl, rfl⟩
  dirs := by
    intro dir hdir
    simp only [twoReleases, List.mem_cons, List.not_mem_nil, or_false] at hdir
    rcases hdir with rfl | rfl
    · exact ⟨_, _, rfl, rfl, rfl⟩
    · exact ⟨_, _, rfl, rfl, rfl⟩
  files := by
    intro dir hdir file hfile
    simp only [twoReleases, List.mem_cons, List.not_mem_nil, or_false] at hdir
    rcases hdir with rfl | rfl
    · simp only [List.mem_cons, List.not_mem_nil, or_false] at hfile
      rcases hfile with rfl | rfl
      · exact ⟨_, rfl, rfl⟩
      · exact ⟨_, rfl, rfl⟩
    · simp only [List.mem_cons, List.not_mem_nil, or_false] at hfile
      rcases hfile with rfl
      exact ⟨_, rfl, rfl⟩

theorem upgradeVersion_twoReleases :
    ∃ t : Migrator, (∀ n, t.fault n = none) ∧ Holds t.sqlFiles twoReleases ∧
      twoReleases.between { minor := 8 } { minor := 11 } =
        twoReleases.between { minor := 8 } { minor := 9 } ++
          twoReleases.between { minor := 9 } { minor := 11 } :=
  ⟨⟨twoReleasesFiles, fun _ => none, fun _ => none, false⟩, fun _ => rfl, holds_twoReleases,
    (upgradeVersion_path_independent ⟨twoReleasesFiles, fun _ => none, fun _ => none, false⟩
      (fun _ => rfl) twoReleases holds_twoReleases).2.1 _ _ _ (by decide) (by decide)⟩

end TwoReleases

end TimescalePrometheus.Migrations
