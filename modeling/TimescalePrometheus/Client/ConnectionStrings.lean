import TimescalePrometheus.Lib.Conninfo
import TimescalePrometheus.Lib.Sprintf

/-!
The connection string of `pgclient`, which puts the fields of the configuration as they are
between the keys; only the password gets quotes.
-/

namespace TimescalePrometheus.Client

open Lib.Conninfo
open Lib.Sprintf (digits)

/-- `Config` of `pgclient`. -/
structure Config where
  host : List Char
  port : Int
  user : List Char
  password : List Char
  database : List Char
  sslMode : List Char
  dbConnectRetries : Int
  asyncAcks : Bool
  reportInterval : Int
  labelsCacheSize : Nat
  metricsCacheSize : Nat
  seriesCacheSize : Nat

/-- `%v` of an integer. -/
def formatInt : Int → List Char
  | .ofNat n => digits n
  | .negSucc n => '-' :: digits (n + 1)

namespace Config

variable (cfg : Config)

/-- `GetConnectionStr`. -/
def getConnectionStr : List Char :=
  ["host=".toList, cfg.host, " port=".toList, formatInt cfg.port, " user=".toList, cfg.user,
    " dbname=".toList, cfg.database, " password='".toList, cfg.password, "' sslmode=".toList,
    cfg.sslMode, " connect_timeout=10".toList].flatten

/-- The settings that the connection string is meant to have. -/
def settings : Settings :=
  toSettings
    [("host".toList, cfg.host), ("port".toList, formatInt cfg.port), ("user".toList, cfg.user),
      ("database".toList, cfg.database), ("password".toList, cfg.password),
      ("sslmode".toList, cfg.sslMode), ("connect_timeout".toList, "10".toList)]

/-- The same settings as they are written. -/
def written : List (List Char × List Char) :=
  [("host".toList, cfg.host), ("port".toList, formatInt cfg.port), ("user".toList, cfg.user),
    ("dbname".toList, cfg.database), ("password".toList, cfg.password),
    ("sslmode".toList, cfg.sslMode), ("connect_timeout".toList, "10".toList)]

/-- The fields mean themselves where they stand. -/
structure Literal : Prop where
  host : Plain cfg.host
  user : Plain cfg.user
  database : Plain cfg.database
  password : Unquoted cfg.password
  sslMode : Plain cfg.sslMode

end Config

theorem isDigit_of_mem_digits {n : Nat} {c : Char} (h : c ∈ digits n) : c.isDigit = true :=
  Nat.isDigit_of_mem_toDigits (by decide) (by decide) h

theorem mem_formatInt {n : Int} {c : Char} (h : c ∈ formatInt n) : c = '-' ∨ c.isDigit = true := by
  cases n with
  | ofNat n => exact .inr (isDigit_of_mem_digits h)
  | negSucc n =>
    rcases List.mem_cons.mp h with rfl | h
    · exact .inl rfl
    · exact .inr (isDigit_of_mem_digits h)

theorem plain_of_mem_formatInt {n : Int} {c : Char} (h : c ∈ formatInt n) :
    isSpace c = false ∧ c ≠ '\\' ∧ c ≠ '\'' := by
  rcases mem_formatInt h with rfl | hdigit
  · decide
  · refine ⟨?_, ?_, ?_⟩
    · by_contra hspace
      simp only [isSpace, Bool.not_eq_false, Bool.or_eq_true, beq_iff_eq] at hspace
      rcases hspace with ((((rfl | rfl) | rfl) | rfl) | rfl) | rfl <;> cases hdigit
    · rintro rfl
      cases hdigit
    · rintro rfl
      cases hdigit

theorem passes_of_forall {stop : Char → Bool} {w : List Char}
    (h : ∀ c ∈ w, stop c = false ∧ c ≠ '\\') : passes stop w = true := by
  induction w with
  | nil => rfl
  | cons c w ih =>
    obtain ⟨⟨hstop, hslash⟩, hw⟩ := List.forall_mem_cons.mp h
    rw [passes.eq_def]
    simp [hstop, hslash, ih hw]

theorem plain_formatInt (n : Int) : Plain (formatInt n) where
  ne_nil := by
    cases n with
    | ofNat n => exact Nat.toDigits_ne_nil
    | negSucc n => exact List.cons_ne_nil _ _
  head_ne_quote h := (plain_of_mem_formatInt (List.mem_of_head? h)).2.2 rfl
  passes := passes_of_forall fun _ hc =>
    ⟨(plain_of_mem_formatInt hc).1, (plain_of_mem_formatInt hc).2.1⟩
  no_pair :=
    have hslash : '\\' ∉ formatInt n := fun h => (plain_of_mem_formatInt h).2.1 rfl
    ⟨fun h => hslash (h.subset List.mem_cons_self), fun h => hslash (h.subset List.mem_cons_self)⟩

section Written

variable (cfg : Config)

theorem getConnectionStr_eq : cfg.getConnectionStr =
    "host".toList ++ '=' :: (cfg.host ++ ' ' ::
      ("port".toList ++ '=' :: (formatInt cfg.port ++ ' ' ::
        ("user".toList ++ '=' :: (cfg.user ++ ' ' ::
          ("dbname".toList ++ '=' :: (cfg.database ++ ' ' ::
            ("password".toList ++ '=' :: '\'' :: (cfg.password ++ '\'' :: ' ' ::
              ("sslmode".toList ++ '=' :: (cfg.sslMode ++ ' ' ::
                ("connect_timeout".toList ++ '=' :: "10".toList)))))))))))) :=
  rfl

theorem toSettings_written : toSettings cfg.written = cfg.settings :=
  toSettings_congr rfl

theorem nodup_written : (cfg.written.map fun s => nameMap s.1).Nodup := by
  change (["host", "port", "user", "database", "password", "sslmode", "connect_timeout"].map
    String.toList).Nodup
  decide

theorem countP_getConnectionStr :
    cfg.getConnectionStr.countP solid = (cfg.written.map weight).sum := by
  rw [getConnectionStr_eq]
  simp only [Config.written, weight, List.countP_append, List.countP_cons, List.map_cons,
    List.map_nil, List.sum_cons, List.sum_nil, show solid '=' = true from rfl,
    show solid ' ' = false from rfl, show solid '\'' = false from rfl, if_true]
  simp only [Bool.false_eq_true, if_false]
  omega

end Written

/-- The connection string is parsed into the fields of the configuration if and only if these
mean themselves. -/
theorem getConnectionStr_parses_iff (cfg : Config) :
    parseDSNSettings cfg.getConnectionStr = some cfg.settings ↔ cfg.Literal := by
  have hhost : Key "host".toList := ⟨by decide, by decide⟩
  have hport : Key "port".toList := ⟨by decide, by decide⟩
  have huser : Key "user".toList := ⟨by decide, by decide⟩
  have hdbname : Key "dbname".toList := ⟨by decide, by decide⟩
  have hpassword : Key "password".toList := ⟨by decide, by decide⟩
  have hsslmode : Key "sslmode".toList := ⟨by decide, by decide⟩
  have htimeout : Key "connect_timeout".toList := ⟨by decide, by decide⟩
  rw [parseDSNSettings, Option.map_eq_some_iff, ← toSettings_written]
  constructor
  · rintro ⟨l, hl, hsame⟩
    have hparses := (parseLoop_eq_some_iff le_rfl).mp hl
    -- the text has no room for a setting besides those that the map needs
    have hwritten := value_eq_of_toSettings (nodup_written cfg) (by simp [Config.written])
      (hparses.countP_eq.symm.trans (countP_getConnectionStr cfg)).le fun s hs =>
        mem_of_toSettings (hsame ▸ toSettings_of_mem (nodup_written cfg) hs)
    have hvalue : ∀ {i : Nat} {e}, cfg.written[i]? = some e → ∀ s ∈ l, s.1 = e.1 → s.2 = e.2 := by
      intro i e he s hs hkey
      obtain ⟨e', he', hname, hvalue⟩ := hwritten s hs
      rw [hkey] at hname
      rw [hvalue, List.inj_on_of_nodup_map (nodup_written cfg) (List.mem_of_getElem? he) he' hname]
    rw [getConnectionStr_eq] at hparses
    obtain ⟨host, l₁, rfl, h₁⟩ := hhost.plain hport hparses (hvalue (i := 0) rfl)
    obtain ⟨-, l₂, rfl, h₂⟩ := hport.plain huser h₁ fun s hs =>
      hvalue (i := 1) rfl s (by simp [hs])
    obtain ⟨user, l₃, rfl, h₃⟩ := huser.plain hdbname h₂ fun s hs =>
      hvalue (i := 2) rfl s (by simp [hs])
    obtain ⟨database, l₄, rfl, h₄⟩ := hdbname.plain hpassword h₃ fun s hs =>
      hvalue (i := 3) rfl s (by simp [hs])
    obtain ⟨password, l₅, rfl, h₅⟩ := hpassword.unquoted h₄ fun s hs =>
      hvalue (i := 4) rfl s (by simp [hs])
    obtain ⟨sslMode, -⟩ := hsslmode.plain htimeout h₅ fun s hs =>
      hvalue (i := 5) rfl s (by simp [hs])
    exact ⟨host, user, database, password, sslMode⟩
  · rintro ⟨host, user, database, password, sslMode⟩
    refine ⟨cfg.written, (parseLoop_eq_some_iff le_rfl).mpr ?_, rfl⟩
    rw [getConnectionStr_eq]
    have hlast : Parses ("connect_timeout".toList ++ '=' :: "10".toList)
        [("connect_timeout".toList, "10".toList)] :=
      .more (htimeout.setting_append _) .done
    exact hhost.parses_plain host (hport.parses_plain (plain_formatInt _)
      (huser.parses_plain user (hdbname.parses_plain database
        (hpassword.parses_unquoted password (hsslmode.parses_plain sslMode hlast)))))

/-- The defaults of the flags, with a password. -/
def flagDefaults (password : List Char) : Config where
  host := "localhost".toList
  port := 5432
  user := "postgres".toList
  password := password
  database := "timescale".toList
  sslMode := "disable".toList
  dbConnectRetries := 0
  asyncAcks := false
  reportInterval := 0
  labelsCacheSize := 10000
  metricsCacheSize := 10000
  seriesCacheSize := 0

/-- The first quote in a password ends it, and what follows takes the place of the next key. A
backslash at its end hides the quote that is meant to close it. -/
theorem getConnectionStr_misread :
    (parseDSNSettings (flagDefaults "a'b".toList).getConnectionStr).map (fun m =>
        (m "password".toList, m "sslmode".toList, m "b' sslmode".toList)) =
      some (some "a".toList, none, some "disable".toList) ∧
    (parseDSNSettings (flagDefaults "a\\".toList).getConnectionStr).isNone = true := by
  decide +kernel

end TimescalePrometheus.Client
