import Mathlib.Algebra.Group.Int.Defs
import Mathlib.Algebra.Group.Nat.Defs
import TimescalePrometheus.Lib.Semver
import TimescalePrometheus.Lib.Transactions

/-!
The schema migrator of `pgmodel/migrate.go`: the file system it reads its scripts from, the
database it runs them in, and `Migrator.Migrate` with all that it calls.
-/

namespace TimescalePrometheus.Migrations

open Lib.Semver Lib.Transactions

def preinstallScripts := "preinstall"

def versionScripts := "versions/dev"

def idempotentScripts := "idempotent"

/-- A base name: one component of a path, so that joining it to a clean directory is
writing it after a slash. -/
structure Name where
  text : String
  plain : text ≠ "" ∧ text ≠ "." ∧ text ≠ ".." ∧ '/' ∉ text.toList
deriving DecidableEq

/-- `os.FileInfo`. -/
structure FileInfo where
  name : Name
  isDir : Bool

/-- What an opened file answers to `Stat`, to `Readdir` and to being read and closed. -/
structure File where
  stat : Except String FileInfo
  readdir : Except String (List FileInfo)
  read : Except String String

/-- A file system is its `Open`. -/
abbrev FileSystem := String → Except String File

/-- `fmt.Errorf` with the wrapped error at the end. -/
def errorf {α : Type} (text : String) : Except String α → Except String α
  | .ok a => .ok a
  | .error err => .error (text ++ err)

@[simp] theorem errorf_ok {α : Type} (text : String) (a : α) : errorf text (.ok a) = .ok a := rfl

/-- A script that has been executed: its file and the text sent to the database. -/
structure Script where
  name : String
  sql : String
deriving DecidableEq

/-- `versions` holds the rows of `prom_schema_migrations`, once the table exists. -/
structure Database where
  versions : Option (List String)
  scripts : List Script
deriving DecidableEq

/-- The database as the migrator sees it during one call: what is committed, what the open
transaction has made of it, and how many calls to the database were made. `executed` lists
the scripts that ran, whether or not their transaction is committed later. -/
structure Session where
  db : Database
  tx : Option Database := none
  executed : List Script := []
  calls : Nat := 0

/-- `fault n` is the error of the `n`-th call to the database, if that call fails.
`rowsBreak` says that the connection breaks while the rows of the version query are read;
`Next` then reports the end of the rows and only `Err` tells the difference. -/
structure Migrator where
  sqlFiles : FileSystem
  toc : String → Option (List Name)
  fault : Nat → Option String
  rowsBreak : Bool

/-- Fails with the text of an error. -/
abbrev Run := EStateM String Session

/-- `fmt.Errorf` around a step of the migration. -/
def wrap {α : Type} (text : String) (x : Run α) : Run α := fun s =>
  match x s with
  | .ok a t => .ok a t
  | .error err t => .error (text ++ err) t

/-- One call to the database: it fails, or it has its effect. -/
def query (t : Migrator) (effect : Session → Session) : Run Unit := fun s =>
  match t.fault s.calls with
  | some err => .error err { s with calls := s.calls + 1 }
  | none => .ok () { effect s with calls := s.calls + 1 }

/-- A call inside the transaction. -/
def txExec (t : Migrator) (effect : Database → Database) : Run Unit :=
  query t fun s => { s with tx := s.tx.map effect }

/-- `Begin`. -/
def begin (t : Migrator) : Run Unit :=
  wrap "unable to start transaction: " <| query t fun s => { s with tx := some s.db }

/-- `Commit`. -/
def commit (t : Migrator) : Run Unit :=
  wrap "unable to commit migration transaction: " <|
    query t fun s => { s with db := s.tx.getD s.db, tx := none }

/-- The deferred `tx.Rollback`, whose own error is dropped. After a commit there is no
transaction left to roll back. -/
def deferRollback {α : Type} (x : Run α) : Run α := fun s =>
  match x s with
  | .ok a t => .ok a { t with tx := none }
  | .error err t => .error err { t with tx := none }

@[simp] theorem wrap_eq_error {α : Type} {text : String} {x : Run α} {s u : Session} {e : String} :
    wrap text x s = .error e u ↔ ∃ err, e = text ++ err ∧ x s = .error err u := by
  unfold wrap
  cases x s with
  | ok a t => simp
  | error err t => simp [eq_comm]

@[simp] theorem wrap_eq_ok {α : Type} {text : String} {x : Run α} {s u : Session} {a : α} :
    wrap text x s = .ok a u ↔ x s = .ok a u := by
  unfold wrap
  cases x s <;> simp

def replaceSchemaNames (s : String) : String :=
  let s := s.replace "SCHEMA_CATALOG" "_prom_catalog"
  let s := s.replace "SCHEMA_EXT" "_prom_ext"
  let s := s.replace "SCHEMA_PROM" "prom_api"
  let s := s.replace "SCHEMA_SERIES" "prom_series"
  let s := s.replace "SCHEMA_METRIC" "prom_metric"
  let s := s.replace "SCHEMA_DATA_SERIES" "prom_data_series"
  let s := s.replace "SCHEMA_DATA" "prom_data"
  s.replace "SCHEMA_INFO" "prom_info"

/-- Sending a script to the database inside the transaction. -/
def execScript (t : Migrator) (script : Script) : Run Unit :=
  query t fun s => { s with
    tx := s.tx.map fun db => { db with scripts := db.scripts ++ [script] }
    executed := s.executed ++ [script] }

/-- Runs one script. -/
def execMigrationFile (t : Migrator) (fileName : String) : Run Unit := do
  let f ← ofExcept <| errorf ("unable to get migration script: name " ++ fileName ++ ", err ")
    (t.sqlFiles fileName)
  let contents ← ofExcept <| errorf
    ("unable to read migration script: name " ++ fileName ++ ", err ") f.read
  wrap ("error executing migration script: name " ++ fileName ++ ", err ") <|
    execScript t { name := fileName, sql := replaceSchemaNames contents }

/-- The white space that `fmt.Sscanf` skips. -/
def isSpace (c : Char) : Bool :=
  [(0x0009, 0x000d), (0x0020, 0x0020), (0x0085, 0x0085), (0x00a0, 0x00a0), (0x1680, 0x1680),
    (0x2000, 0x200a), (0x2028, 0x2029), (0x202f, 0x202f), (0x205f, 0x205f), (0x3000, 0x3000)].any
      fun (first, last) => first ≤ c.toNat && c.toNat ≤ last

/-- `SkipSpace` of a scan in which a line break is an error, also after `\r`. -/
def skipSpace : List Char → Option (List Char)
  | [] => some []
  | c :: cs =>
    if c = '\n' then none
    else if isSpace c then skipSpace cs
    else some (c :: cs)

/-- The sign that `%d` accepts before the digits. -/
def scanSign : List Char → List Char × List Char
  | '-' :: s => (['-'], s)
  | '+' :: s => (['+'], s)
  | s => ([], s)

/-- The number with its sign. -/
def signed (sign : List Char) (n : Nat) : Int :=
  if sign = ['-'] then -n else n

/-- The number that `fmt.Sscanf(name, "%d-%s", &prefix, &name)` reads, if it reads both. -/
def scanPrefix (name : List Char) : Option Int := do
  let s ← skipSpace name
  let (sign, s) := scanSign s
  let (number, rest) := s.span Char.isDigit
  let value := signed sign (Nat.ofDigitChars 10 number 0)
  guard (number ≠ [] ∧ -2 ^ 63 ≤ value ∧ value < 2 ^ 63)
  match rest with
  | '-' :: rest =>
    -- `%s` needs at least one character that is not a space.
    let word ← skipSpace rest
    guard (word ≠ [])
    return value
  | _ => none

/-- The files that have a numeric prefix, in the order of these prefixes; directories and
other names are left out. -/
def orderFilesNaturally (entries : List FileInfo) : List Name :=
  let pp := entries.filterMap fun entry =>
    if entry.isDir then none
    else (scanPrefix entry.name.text.toList).map fun number => (number, entry.name)
  (pp.mergeSort fun p q => decide (p.1 ≤ q.1)).map Prod.snd

/-- The entries of a table of contents that are not directories. -/
def tocEntries (t : Migrator) (dirName : String) : List Name → Except String (List Name)
  | [] => return []
  | fileName :: rest => do
    let fullName := dirName ++ "/" ++ fileName.text
    let file ← errorf ("unable to get migration script from toc: name " ++ fullName ++ ", err ")
      (t.sqlFiles fullName)
    let stat ← errorf ("unable to stat migration script from toc: name " ++ fullName ++ ", err ")
      file.stat
    let entries ← tocEntries t dirName rest
    return if stat.isDir then entries else fileName :: entries

def dirEntries (t : Migrator) (dirName : String) : Except String (List Name) := do
  let f ← errorf ("unable to get migration scripts: name " ++ dirName ++ ", err ")
    (t.sqlFiles dirName)
  match t.toc dirName with
  | some myToC => tocEntries t dirName myToC
  | none => do
    let fileEntries ← errorf
      ("unable to read migration scripts directory: name " ++ dirName ++ ", err ") f.readdir
    return orderFilesNaturally fileEntries

/-- The files of a directory, in their order. -/
def execMigrationDir (t : Migrator) (dirName : String) : Run Unit := do
  let entries ← ofExcept (dirEntries t dirName)
  entries.forM fun e => execMigrationFile t (dirName ++ "/" ++ e.text)

/-- A character of `[[:word:]]`. -/
def isWord (c : Char) : Bool :=
  c.isAlphanum || c == '_'

/-- What the end of the file name pattern, `.sql`, matches: its dot is any character of
the line. -/
def matchesDotSql : List Char → Bool
  | c :: 's' :: 'q' :: 'l' :: _ => c != '\n'
  | _ => false

/-- What `[[:word:]]+.sql` matches at the start of a text. -/
def matchesWordSql : List Char → Bool
  | [] => false
  | c :: cs => isWord c && (matchesDotSql cs || matchesWordSql cs)

/-- The first group of the leftmost match of `([[:digit:]]+)-[[:word:]]+.sql`. The digits end
at the dash, so the leftmost match takes a whole run of them. -/
def migrationFileNumber : List Char → Option (List Char)
  | [] => none
  | c :: cs =>
    match (c :: cs).span Char.isDigit with
    | (d :: ds, '-' :: rest) =>
      if matchesWordSql rest then some (d :: ds) else migrationFileNumber cs
    | _ => migrationFileNumber cs

variable [Package]

/-- A migration file is inside a directory that is a version number. The version of the
file is that of the directory with the file's number as one more pre-release component. -/
def getMigrationFileVersion (dirName fileName : String) : Except String Version := do
  let some number := migrationFileNumber fileName.toList
    | throw ("unable to parse the migration file name " ++ fileName)
  let value := Nat.ofDigitChars 10 number 0
  if 2 ^ 63 ≤ value then
    throw ("unable to parse the migration file name " ++ fileName ++
      ": strconv.ParseInt: parsing \"" ++ String.ofList number ++ "\": value out of range")
  let some version := Package.make dirName
    | throw ("unable to parse version from directory " ++ dirName)
  return { version with pre := version.pre ++ [.num (UInt64.ofNat value)] }

/-- What the scan of the directories has collected: the versions, and `versionMap`, from
the text of a version to the path of its script. -/
structure Found where
  versions : List Version := []
  paths : List (String × String) := []

/-- A file of a version directory. -/
def addFile (dirName dirPath : String) (found : Found) (info : FileInfo) : Except String Found := do
  let version ← getMigrationFileVersion dirName info.name.text
  if (found.paths.lookup version.string).isSome then
    throw ("Found two migration files with the same version: " ++ version.string)
  return {
    versions := found.versions ++ [version]
    paths := (version.string, dirPath ++ "/" ++ info.name.text) :: found.paths }

/-- A directory under `versions/dev`. -/
def addDir (fs : FileSystem) (found : Found) (info : FileInfo) : Except String Found := do
  if ¬info.isDir then
    throw ("Not a directory inside " ++ versionScripts ++ ": " ++ info.name.text)
  let versionDirPath := versionScripts ++ "/" ++ info.name.text
  let versionDirFile ← errorf
    ("unable to open migration scripts inside " ++ versionDirPath ++ ": ") (fs versionDirPath)
  let entries ← errorf
    ("unable to get " ++ versionDirPath ++ " directory entries: ") versionDirFile.readdir
  entries.foldlM (addFile info.name.text versionDirPath) found

def findVersions (fs : FileSystem) : Except String Found := do
  let devDirFile ← errorf
    ("unable to open " ++ versionScripts ++ " directory: ") (fs versionScripts)
  let entries ← errorf
    ("unable to get " ++ versionScripts ++ " directory entries: ") devDirFile.readdir
  entries.foldlM (addDir fs) {}

/-- The script of a version is part of that version, so the upper end is inclusive. -/
def execVersion (t : Migrator) (found : Found) (first last version : Version) : Run Unit :=
  if first < version ∧ version ≤ last then
    execMigrationFile t ((found.paths.lookup version.string).getD "")
  else
    pure ()

/-- The scripts of the versions after `first` and up to `last`, in the order of their
versions. -/
def upgradeVersion (t : Migrator) (first last : Version) : Run Unit := do
  let found ← ofExcept (findVersions t.sqlFiles)
  (found.versions.mergeSort fun v w => decide (v ≤ w)).forM (execVersion t found first last)

/-- The table exists from then on. -/
def ensureVersionTable (t : Migrator) : Run Unit :=
  wrap "error creating migration table: " <| query t fun s =>
    { s with db := { s.db with versions := some (s.db.versions.getD []) } }

/-- `rows.Scan` into a version: a text that is none leaves the version as it was, without an
error. -/
def scanVersion (row : String) (version : Version) : Version :=
  (Package.make row).getD version

/-- The rows that `Next` delivers: the one that the query asks for, or none. -/
def versionRows (t : Migrator) (db : Database) : List String :=
  if t.rowsBreak then [] else (db.versions.getD []).take 1

/-- The version of the row; the zero version without a row. -/
def getDBVersion (t : Migrator) : Run Version := do
  wrap "Error getting DB version: " (query t id)
  let s ← get
  return (versionRows t s.db).foldl (fun version row => scanVersion row version) {}

/-- The only row of the table. -/
def setDBVersion (t : Migrator) (version : Version) : Run Unit := do
  wrap "unable to truncate migrations table: " <|
    txExec t fun db => { db with versions := some [] }
  wrap "unable to set version in DB: " <|
    txExec t fun db => { db with versions := some (db.versions.getD [] ++ [version.string]) }

/-- A part of the prerelease is `dev`. -/
def isDev (version : Version) : Bool :=
  version.pre.any fun pre => pre.text == "dev"

/-- A database without a version gets the preinstall scripts, any other the scripts of the
versions that it lacks. -/
def versionSteps (t : Migrator) (dbVersion appVersion : Version) : Run Unit :=
  if compare dbVersion {} = .eq then
    execMigrationDir t preinstallScripts
  else
    upgradeVersion t dbVersion appVersion

/-- What a migration to another version does inside its transaction. -/
def upgrade (t : Migrator) (dbVersion appVersion : Version) : Run Unit := do
  wrap "timescaledb failed to install due to " (txExec t id)
  versionSteps t dbVersion appVersion
  execMigrationDir t idempotentScripts
  wrap "error setting clean app version to DB: " (setDBVersion t appVersion)

/-- Begin, run `x`, commit; on the way out the deferred rollback. -/
def transaction (t : Migrator) (x : Run Unit) : Run Unit := do
  begin t
  deferRollback do
    x
    commit t

/-- The migration once the version of the database is known. -/
def migrateFrom (t : Migrator) (dbVersion appVersion : Version) : Run Unit :=
  match compare dbVersion appVersion with
  | .eq =>
    -- Nothing to migrate on a release; a dev version reapplies the idempotent files.
    if isDev appVersion then
      transaction t (execMigrationDir t idempotentScripts)
    else
      pure ()
  | .gt => throw "schema version is above the application version, cannot migrate"
  | .lt => transaction t (upgrade t dbVersion appVersion)

/-- `Migrate`. -/
def migrate (t : Migrator) (appVersion : Version) : Run Unit := do
  wrap "error ensuring version table: " (ensureVersionTable t)
  let dbVersion ← wrap "failed to get the version from database: " (getDBVersion t)
  migrateFrom t dbVersion appVersion

end TimescalePrometheus.Migrations
