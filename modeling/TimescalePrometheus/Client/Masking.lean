import TimescalePrometheus.Client.ConnectionStrings
import TimescalePrometheus.Lib.Backtracking

/-!
`MaskPassword` and the two texts with the password that are logged: the connection string and the
configuration as `%+v` prints it.
-/

namespace TimescalePrometheus.Client

open Lib.Backtracking
open Lib.Conninfo (isQuote)

/-- `\s` -/
def isBlank (c : Char) : Bool := c == '\t' || c == '\n' || c == '\x0c' || c == '\r' || c == ' '

def notQuote (c : Char) : Bool := !isQuote c

def notBlank (c : Char) : Bool := !isBlank c

/-- `password=(\s*?)'([^']+?)'`. -/
def maskPasswordRegex1 : Re Char :=
  .seq (.literal "password=".toList)
    (.seq (.group 1 (.lazyStar (.one isBlank)))
      (.seq (.one isQuote) (.seq (.group 2 (.lazyPlus (.one notQuote))) (.one isQuote))))

def maskPasswordReplaceString1 : List (Piece Char) :=
  [.text "password=".toList, .group 1, .text "'****'".toList]

/-- `password:(\s*?)([^\s]+?)( |$)`. -/
def maskPasswordRegex2 : Re Char :=
  .seq (.literal "password:".toList)
    (.seq (.group 1 (.lazyStar (.one isBlank)))
      (.seq (.group 2 (.lazyPlus (.one notBlank)))
        (.group 3 (.alt (.one (· == ' ')) .endText))))

def maskPasswordReplaceString2 : List (Piece Char) :=
  [.text "password:".toList, .group 1, .text "****".toList, .group 3]

/-- The first `ReplaceAllString`. -/
def maskQuoted (s : List Char) : List Char :=
  replaceAll maskPasswordRegex1 maskPasswordReplaceString1 s

/-- The second `ReplaceAllString`. -/
def maskWord (s : List Char) : List Char :=
  replaceAll maskPasswordRegex2 maskPasswordReplaceString2 s

/-- `MaskPassword`. -/
def maskPassword (s : List Char) : List Char := maskWord (maskQuoted s)

def maskedQuoted (blanks : List Char) : List Char :=
  "password=".toList ++ (blanks ++ "'****'".toList)

def maskedWord (blanks ending : List Char) : List Char :=
  "password:".toList ++ (blanks ++ ("****".toList ++ ending))

/-- The first expression behind its key and the blanks. -/
def quotedRest (blanks : List Char) : List Char → Option (List Char × List Char)
  | [] => none
  | c :: t =>
    if isQuote c ∧ t.takeWhile notQuote ≠ [] then
      match t.dropWhile notQuote with
      | [] => none
      | _ :: rest => some (maskedQuoted blanks, rest)
    else none

/-- The second expression behind its key and the blanks. -/
def wordRest (blanks : List Char) (t : List Char) : Option (List Char × List Char) :=
  if t.takeWhile notBlank = [] then none
  else
    match t.dropWhile notBlank with
    | [] => some (maskedWord blanks [], [])
    | c :: rest => if c = ' ' then some (maskedWord blanks [c], rest) else none

theorem isQuote_of_isBlank {c : Char} (h : isBlank c = true) : isQuote c = false := by
  simp only [isBlank, Bool.or_eq_true, beq_iff_eq] at h
  rcases h with (((rfl | rfl) | rfl) | rfl) | rfl <;> rfl

theorem isQuote_of_dropWhile {t rest : List Char} {c : Char}
    (h : t.dropWhile notQuote = c :: rest) : isQuote c = true := by
  have hhead := List.head?_dropWhile_not notQuote t
  rw [h] at hhead
  simpa [notQuote] using hhead

theorem step_quoted (t : List Char) :
    step maskPasswordRegex1 maskPasswordReplaceString1 ("password=".toList ++ t) =
      quotedRest (t.takeWhile isBlank) (t.dropWhile isBlank) := by
  rw [maskPasswordRegex1, step_literal_append (by decide), run, run_group_lazyStar]
  · cases t.dropWhile isBlank with
    | nil => rfl
    | cons c b =>
      rw [run, run, quotedRest]
      by_cases hc : isQuote c = true
      · rw [if_pos hc, run, run_group_lazyPlus]
        · cases htake : b.takeWhile notQuote with
          | nil => simp
          | cons d body =>
            rw [if_neg (by simp), if_pos ⟨hc, List.cons_ne_nil _ _⟩]
            cases hdrop : b.dropWhile notQuote with
            | nil => rfl
            | cons q rest =>
              rw [run, if_pos (isQuote_of_dropWhile hdrop)]
              rfl
        · intro d t g hd
          rw [run, if_neg (by simpa [notQuote] using hd)]
      · rw [if_neg hc, if_neg (fun h => hc h.1)]
        rfl
  · intro c t g hc
    rw [run, run, if_neg (by simp [isQuote_of_isBlank hc])]

theorem run_blank_or_end (k : Continuation Char) (t : List Char) (g : Groups Char) :
    run (.group 3 (.alt (.one (· == ' ')) .endText)) k t g =
      match t with
      | [] => k [] (Function.update g 3 [])
      | c :: rest => if c = ' ' then k rest (Function.update g 3 [c]) else none := by
  cases t with
  | nil => rfl
  | cons c rest =>
    by_cases hc : c = ' '
    · subst hc
      simp only [run, beq_self_eq_true, if_true, List.length_cons, List.isEmpty_cons,
        Bool.false_eq_true, if_false, Nat.add_sub_cancel_left, List.take_succ_cons, List.take_zero]
      cases k rest (Function.update g 3 [' ']) <;> rfl
    · simp [run, hc]

theorem step_word (t : List Char) :
    step maskPasswordRegex2 maskPasswordReplaceString2 ("password:".toList ++ t) =
      wordRest (t.takeWhile isBlank) (t.dropWhile isBlank) := by
  have hword : ∀ k c t g, notBlank c = true →
      run (.group 3 (.alt (.one (· == ' ')) .endText)) k (c :: t) g = none := by
    intro k c t g hc
    rw [run_blank_or_end]
    refine if_neg ?_
    rintro rfl
    cases hc
  rw [maskPasswordRegex2, step_literal_append (by decide), run, run_group_lazyStar]
  · rw [run, run_group_lazyPlus (hword _), wordRest]
    cases (t.dropWhile isBlank).takeWhile notBlank with
    | nil => rfl
    | cons d body =>
      rw [if_neg (by simp), if_neg (List.cons_ne_nil _ _), run_blank_or_end]
      cases (t.dropWhile isBlank).dropWhile notBlank with
      | nil => rfl
      | cons c rest =>
        by_cases hc : c = ' '
        · simp only [if_pos hc]
          subst hc
          rfl
        · simp only [if_neg hc, Option.map_none]
  · intro c t g hc
    rw [run, run_group_lazyPlus (hword _), List.takeWhile_cons_of_neg (by simp [notBlank, hc])]
    rfl

/-- A password that both expressions take as a whole. -/
structure Secret where
  text : List Char
  ne_nil : text ≠ []
  not_quote : text.all notQuote = true
  not_blank : text.all notBlank = true

theorem quotedRest_eq_none {blanks t : List Char} (h : t.head?.all notQuote = true) :
    quotedRest blanks t = none := by
  cases t with
  | nil => rfl
  | cons c t =>
    refine if_neg fun hc => ?_
    simp [notQuote, hc.1] at h

theorem quotedRest_of_rest {blanks t rest : List Char} {c d : Char} (hc : isQuote c = true)
    (htake : t.takeWhile notQuote ≠ []) (hdrop : t.dropWhile notQuote = d :: rest) :
    quotedRest blanks (c :: t) = some (maskedQuoted blanks, rest) := by
  rw [quotedRest, if_pos ⟨hc, htake⟩, hdrop]

theorem quotedRest_of_end {blanks t : List Char} {c : Char}
    (h : t.takeWhile notQuote = [] ∨ t.dropWhile notQuote = []) :
    quotedRest blanks (c :: t) = none := by
  rw [quotedRest]
  split
  · next hc => rw [h.resolve_left hc.2]
  · rfl

theorem maskQuoted_skip {w rest : List Char} {c : Char} (hw : w.all notQuote = true)
    (hquote : notQuote c = true) (hblank : isBlank c = false) :
    maskQuoted (w ++ ' ' :: c :: rest) = w ++ ' ' :: maskQuoted (c :: rest) := by
  have hstep : ∀ v : List Char, v.all notQuote = true →
      step maskPasswordRegex1 maskPasswordReplaceString1 (v ++ ' ' :: c :: rest) = none := by
    intro v hv
    by_cases hkey : "password=".toList <+: v ++ ' ' :: c :: rest
    · obtain ⟨u, rfl⟩ := prefix_of_not_mem hkey (by decide)
      rw [List.append_assoc, step_quoted, List.append_cons u, dropWhile_append_cons hblank]
      apply quotedRest_eq_none
      cases hdrop : (u ++ [' ']).dropWhile isBlank with
      | nil => exact hquote
      | cons d v =>
        have hmem : d ∈ u ++ [' '] := (List.dropWhile_sublist isBlank).subset (hdrop ▸ by simp)
        rcases List.mem_append.mp hmem with hd | hd
        · exact List.all_eq_true.mp hv d (List.mem_append_right _ hd)
        · rw [List.mem_singleton.mp hd]
          rfl
    · exact step_literal_of_not_prefix hkey _ _
  induction w with
  | nil => exact replaceAll_cons (hstep [] rfl)
  | cons d w ih =>
    refine (replaceAll_cons (hstep (d :: w) hw)).trans (congrArg (d :: ·) ?_)
    rw [List.all_cons, Bool.and_eq_true] at hw
    exact ih hw.2

/-- The field of the password in a configuration that is printed. -/
def passwordField (rest : List Char) (secret : Secret) : List Char :=
  "password:".toList ++ (secret.text ++ ' ' :: rest)

theorem maskQuoted_passwordField {c : Char} {rest : List Char} (hquote : notQuote c = true)
    (hblank : isBlank c = false) (secret : Secret) :
    maskQuoted (passwordField (c :: rest) secret) =
      passwordField (maskQuoted (c :: rest)) secret := by
  have hw : ("password:".toList ++ secret.text).all notQuote = true := by
    rw [List.all_append, secret.not_quote]
    rfl
  unfold passwordField
  rw [← List.append_assoc, maskQuoted_skip hw hquote hblank, List.append_assoc]

theorem maskWord_passwordField (rest : List Char) (secret : Secret) :
    maskWord (passwordField rest secret) = maskedWord [] [' '] ++ maskWord rest := by
  apply replaceAll_of_step
  obtain ⟨c, text, htext⟩ := List.exists_cons_of_ne_nil secret.ne_nil
  have hword := List.all_eq_true.mp secret.not_blank
  have hblank : ¬isBlank c = true := by
    have := hword c (htext ▸ List.mem_cons_self)
    simpa [notBlank] using this
  have hfirst : (secret.text ++ ' ' :: rest).takeWhile isBlank = [] ∧
      (secret.text ++ ' ' :: rest).dropWhile isBlank = secret.text ++ ' ' :: rest := by
    rw [htext]
    exact ⟨List.takeWhile_cons_of_neg hblank, List.dropWhile_cons_of_neg hblank⟩
  unfold passwordField
  rw [step_word, hfirst.1, hfirst.2, wordRest, List.takeWhile_append_of_pos hword,
    List.dropWhile_append_of_pos hword, List.takeWhile_cons_of_neg (by decide),
    List.dropWhile_cons_of_neg (by decide), if_neg (by simp [secret.ne_nil])]
  rfl

theorem key_prefix_passwordField_iff {c : Char} (hc : c ∉ "password".toList) {before : List Char}
    (hne : before ≠ []) (rest : List Char) (secret : Secret) :
    "password".toList ++ [c] <+: before ++ passwordField rest secret ↔
      "password".toList ++ [c] <+: before :=
  key_prefix_append_iff hc hne

theorem while_passwordField (rest : List Char) (secret : Secret) :
    (passwordField rest secret).takeWhile notQuote ≠ [] ∧
      (passwordField rest secret).dropWhile notQuote = rest.dropWhile notQuote := by
  have hw : ("password:".toList ++ (secret.text ++ [' '])).all notQuote = true := by
    rw [List.all_append, List.all_append, secret.not_quote]
    rfl
  have hsplit : passwordField rest secret =
      "password:".toList ++ (secret.text ++ [' ']) ++ rest := by
    unfold passwordField
    simp only [List.append_assoc, List.cons_append, List.nil_append]
  rw [hsplit, List.takeWhile_append_of_pos (List.all_eq_true.mp hw),
    List.dropWhile_append_of_pos (List.all_eq_true.mp hw)]
  exact ⟨by simp, rfl⟩

theorem uniform_quoted (rest : List Char) {before : List Char} (hne : before ≠ []) :
    Uniform maskPasswordRegex1 maskPasswordReplaceString1 (passwordField rest) before := by
  by_cases hkey : "password=".toList <+: before
  · obtain ⟨u, rfl⟩ := hkey
    have hstep : ∀ secret, step maskPasswordRegex1 maskPasswordReplaceString1
        ("password=".toList ++ u ++ passwordField rest secret) =
        quotedRest (u.takeWhile isBlank) (u.dropWhile isBlank ++ passwordField rest secret) := by
      intro secret
      have hp : isBlank 'p' = false := rfl
      rw [List.append_assoc, step_quoted]
      exact congrArg₂ quotedRest (takeWhile_append_cons hp u _) (dropWhile_append_cons hp u _)
    cases hdrop : u.dropWhile isBlank with
    | nil => exact .inl fun secret => (hstep secret).trans (hdrop ▸ quotedRest_eq_none rfl)
    | cons c v =>
      rw [hdrop] at hstep
      by_cases hc : isQuote c = true
      · cases hquote : v.dropWhile notQuote with
        | nil =>
          -- The match goes on behind the password, if there is another quote.
          have hv := List.dropWhile_eq_nil_iff.mp hquote
          have hrest : ∀ secret, (v ++ passwordField rest secret).takeWhile notQuote ≠ [] ∧
              (v ++ passwordField rest secret).dropWhile notQuote =
                rest.dropWhile notQuote := by
            intro secret
            rw [List.takeWhile_append_of_pos hv, List.dropWhile_append_of_pos hv]
            refine ⟨fun h => ?_, (while_passwordField rest secret).2⟩
            exact (while_passwordField rest secret).1 (List.append_eq_nil_iff.mp h).2
          cases hend : rest.dropWhile notQuote with
          | nil =>
            refine .inl fun secret => (hstep secret).trans ?_
            exact quotedRest_of_end (.inr ((hrest secret).2.trans hend))
          | cons d rest' =>
            refine .inr (.inr ⟨maskedQuoted (u.takeWhile isBlank), rest',
              fun secret => (hstep secret).trans ?_⟩)
            exact quotedRest_of_rest hc (hrest secret).1 ((hrest secret).2.trans hend)
        | cons d v' =>
          have hsame := fun secret => while_append_of_dropWhile hquote (passwordField rest secret)
          by_cases hempty : v.takeWhile notQuote = []
          · refine .inl fun secret => (hstep secret).trans ?_
            exact quotedRest_of_end (.inl ((hsame secret).1.trans hempty))
          · refine .inr (.inl ⟨maskedQuoted (u.takeWhile isBlank), v', ?_,
              fun secret => (hstep secret).trans ?_⟩)
            · have := length_lt_of_dropWhile hquote
              have := length_lt_of_dropWhile hdrop
              rw [List.length_append]
              omega
            · apply quotedRest_of_rest hc _ (hsame secret).2
              exact fun h => hempty ((hsame secret).1.symm.trans h)
      · refine .inl fun secret => (hstep secret).trans (quotedRest_eq_none ?_)
        simpa [notQuote] using hc
  · refine .inl fun secret => step_literal_of_not_prefix ?_ _ _
    exact fun h => hkey ((key_prefix_passwordField_iff (c := '=') (by decide) hne _ _).mp h)

theorem uniform_word (rest : List Char) {before : List Char} (hne : before ≠ []) :
    Uniform maskPasswordRegex2 maskPasswordReplaceString2 (passwordField rest) before := by
  by_cases hkey : "password:".toList <+: before
  · obtain ⟨u, rfl⟩ := hkey
    have hstep : ∀ secret, step maskPasswordRegex2 maskPasswordReplaceString2
        ("password:".toList ++ u ++ passwordField rest secret) =
        wordRest (u.takeWhile isBlank) (u.dropWhile isBlank ++ passwordField rest secret) := by
      intro secret
      have hp : isBlank 'p' = false := rfl
      rw [List.append_assoc, step_word]
      exact congrArg₂ wordRest (takeWhile_append_cons hp u _) (dropWhile_append_cons hp u _)
    have hword : ∀ secret,
        (u.dropWhile isBlank ++ passwordField rest secret).takeWhile notBlank ≠ [] := by
      intro secret
      cases hdrop : u.dropWhile isBlank with
      | nil => exact List.cons_ne_nil 'p' _
      | cons c v =>
        have hc : notBlank c = true := by
          have hhead := List.head?_dropWhile_not isBlank u
          rw [hdrop] at hhead
          simpa [notBlank] using hhead
        rw [List.cons_append, List.takeWhile_cons_of_pos hc]
        exact List.cons_ne_nil _ _
    cases hblank : (u.dropWhile isBlank).dropWhile notBlank with
    | nil =>
      -- The word before the field goes on up to the end of the password.
      have hrest : ∀ secret, (u.dropWhile isBlank ++ passwordField rest secret).dropWhile
          notBlank = ' ' :: rest := by
        intro secret
        have hfield : ("password:".toList ++ secret.text).all notBlank = true := by
          rw [List.all_append, secret.not_blank]
          rfl
        rw [List.dropWhile_append_of_pos (List.dropWhile_eq_nil_iff.mp hblank)]
        unfold passwordField
        rw [← List.append_assoc, List.dropWhile_append_of_pos (List.all_eq_true.mp hfield),
          List.dropWhile_cons_of_neg (by decide)]
      refine .inr (.inr ⟨maskedWord (u.takeWhile isBlank) [' '], rest,
        fun secret => (hstep secret).trans ?_⟩)
      rw [wordRest, if_neg (hword secret), hrest secret]
      exact if_pos rfl
    | cons d v =>
      have hsame := fun secret => while_append_of_dropWhile hblank (passwordField rest secret)
      by_cases hd : d = ' '
      · refine .inr (.inl ⟨maskedWord (u.takeWhile isBlank) [d], v, ?_,
          fun secret => (hstep secret).trans ?_⟩)
        · have := length_lt_of_dropWhile hblank
          have := (List.dropWhile_sublist isBlank (l := u)).length_le
          rw [List.length_append]
          omega
        · rw [wordRest, if_neg (hword secret), (hsame secret).2]
          exact if_pos hd
      · refine .inl fun secret => (hstep secret).trans ?_
        rw [wordRest, if_neg (hword secret), (hsame secret).2]
        exact if_neg hd
  · refine .inl fun secret => step_literal_of_not_prefix ?_ _ _
    exact fun h => hkey ((key_prefix_passwordField_iff (c := ':') (by decide) hne _ _).mp h)

theorem maskPassword_passwordField (before rest : List Char) {c : Char}
    (hquote : notQuote c = true) (hblank : isBlank c = false) :
    ∃ masked, ∀ secret, maskPassword (before ++ passwordField (c :: rest) secret) = masked := by
  rcases replaceAll_uniform (fun _ => uniform_quoted (c :: rest)) before with
    ⟨new, hnew⟩ | ⟨new, hnew⟩
  · rcases replaceAll_uniform (fun _ => uniform_word (maskQuoted (c :: rest))) new with
      ⟨new', hnew'⟩ | ⟨new', hnew'⟩
    · refine ⟨new' ++ (maskedWord [] [' '] ++ maskWord (maskQuoted (c :: rest))), ?_⟩
      intro secret
      rw [maskPassword, maskQuoted, hnew secret]
      change maskWord (new ++ maskQuoted _) = _
      rw [maskQuoted_passwordField hquote hblank, maskWord, hnew' secret]
      exact congrArg (new' ++ ·) (maskWord_passwordField _ secret)
    · refine ⟨new', fun secret => ?_⟩
      rw [maskPassword, maskQuoted, hnew secret]
      change maskWord (new ++ maskQuoted _) = _
      rw [maskQuoted_passwordField hquote hblank]
      exact hnew' secret
  · refine ⟨maskWord new, fun secret => ?_⟩
    exact congrArg maskWord (hnew secret)

/-- `strconv.FormatBool`. -/
def formatBool (b : Bool) : List Char := if b then "true".toList else "false".toList

/-- A pointer inside a struct is printed as its address. -/
def formatPointer : Option Nat → List Char
  | none => "<nil>".toList
  | some address => "0x".toList ++ Nat.toDigits 16 address

/-- `config` of `main.go`; of `corsOrigin` only the address is seen. -/
structure MainConfig where
  listenAddr : List Char
  telemetryPath : List Char
  pgmodelCfg : Config
  logLevel : List Char
  haGroupLockID : Int
  restElection : Bool
  prometheusTimeout : Int
  electionInterval : Int
  migrate : Bool
  corsOrigin : Option Nat

/-- The fields as `%+v` prints them. -/
def fieldTexts : List (String × List Char) → List Char
  | [] => []
  | [(name, v)] => name.toList ++ ':' :: v
  | (name, v) :: fields => name.toList ++ ':' :: (v ++ ' ' :: fieldTexts fields)

/-- `%+v` of a struct. -/
def structText (fields : List (String × List Char)) : List Char :=
  '{' :: (fieldTexts fields ++ ['}'])

/-- The fields in their order. -/
def Config.fields (cfg : Config) : List (String × List Char) :=
  [("host", cfg.host), ("port", formatInt cfg.port), ("user", cfg.user),
    ("password", cfg.password), ("database", cfg.database), ("sslMode", cfg.sslMode),
    ("dbConnectRetries", formatInt cfg.dbConnectRetries),
    ("AsyncAcks", formatBool cfg.asyncAcks), ("ReportInterval", formatInt cfg.reportInterval),
    ("LabelsCacheSize", formatInt cfg.labelsCacheSize),
    ("MetricsCacheSize", formatInt cfg.metricsCacheSize),
    ("SeriesCacheSize", formatInt cfg.seriesCacheSize)]

/-- The fields are not exported, so that the durations are printed as numbers. -/
def MainConfig.fields (cfg : MainConfig) : List (String × List Char) :=
  [("listenAddr", cfg.listenAddr), ("telemetryPath", cfg.telemetryPath),
    ("pgmodelCfg", structText cfg.pgmodelCfg.fields), ("logLevel", cfg.logLevel),
    ("haGroupLockID", formatInt cfg.haGroupLockID),
    ("restElection", formatBool cfg.restElection),
    ("prometheusTimeout", formatInt cfg.prometheusTimeout),
    ("electionInterval", formatInt cfg.electionInterval), ("migrate", formatBool cfg.migrate),
    ("corsOrigin", formatPointer cfg.corsOrigin)]

/-- `fmt.Sprintf("%+v", cfg)` of the pointer that `main` has. -/
def MainConfig.render (cfg : MainConfig) : List Char := '&' :: structText cfg.fields

def Config.withPassword (cfg : Config) (password : List Char) : Config :=
  { cfg with password := password }

def MainConfig.withPassword (cfg : MainConfig) (password : List Char) : MainConfig :=
  { cfg with pgmodelCfg := cfg.pgmodelCfg.withPassword password }

theorem fieldTexts_append (before : List (String × List Char)) (name name' : String)
    (v v' : List Char) (fields : List (String × List Char)) :
    fieldTexts (before ++ (name, v) :: (name', v') :: fields) =
      before.flatMap (fun f => f.1.toList ++ ':' :: (f.2 ++ [' '])) ++
        (name.toList ++ ':' :: (v ++ ' ' :: fieldTexts ((name', v') :: fields))) := by
  induction before with
  | nil => rfl
  | cons f before ih =>
    obtain ⟨g, after, hcons⟩ : ∃ g after,
        before ++ (name, v) :: (name', v') :: fields = g :: after := by
      cases before with
      | nil => exact ⟨_, _, rfl⟩
      | cons g before => exact ⟨_, _, rfl⟩
    rw [List.flatMap_cons, List.append_assoc, ← ih, List.cons_append, hcons]
    simp [fieldTexts]

theorem exists_render_eq (cfg : MainConfig) : ∃ before rest, ∀ secret : Secret,
    (cfg.withPassword secret.text).render = before ++ passwordField ('d' :: rest) secret := by
  let lead := fun fields : List (String × List Char) =>
    fields.flatMap fun f => f.1.toList ++ ':' :: (f.2 ++ [' '])
  obtain ⟨after, hafter⟩ : ∃ after, fieldTexts (cfg.pgmodelCfg.fields.drop 4) = 'd' :: after :=
    ⟨_, rfl⟩
  refine ⟨'&' :: '{' :: (lead (cfg.fields.take 2) ++
      ("pgmodelCfg:".toList ++ '{' :: lead (cfg.pgmodelCfg.fields.take 3))),
    after ++ '}' :: ' ' :: (fieldTexts (cfg.fields.drop 3) ++ ['}']), fun secret => ?_⟩
  have hinner : fieldTexts (cfg.pgmodelCfg.withPassword secret.text).fields =
      lead (cfg.pgmodelCfg.fields.take 3) ++ ("password:".toList ++
        (secret.text ++ ' ' :: fieldTexts (cfg.pgmodelCfg.fields.drop 4))) :=
    fieldTexts_append (cfg.pgmodelCfg.fields.take 3) _ _ _ _ _
  have houter : fieldTexts (cfg.withPassword secret.text).fields =
      lead (cfg.fields.take 2) ++ ("pgmodelCfg:".toList ++
        (structText (cfg.pgmodelCfg.withPassword secret.text).fields ++
          ' ' :: fieldTexts (cfg.fields.drop 3))) :=
    fieldTexts_append (cfg.fields.take 2) _ _ _ _ _
  rw [hafter] at hinner
  rw [MainConfig.render, structText, houter, structText, hinner]
  unfold passwordField
  simp only [List.append_assoc, List.cons_append, List.nil_append]

/-- The fields that stand before the password in the connection string have no quotes. -/
structure Config.QuoteFree (cfg : Config) : Prop where
  host : cfg.host.all notQuote = true
  user : cfg.user.all notQuote = true
  database : cfg.database.all notQuote = true

theorem all_notQuote_formatInt (n : Int) : (formatInt n).all notQuote = true := by
  rw [List.all_eq_true]
  intro c hc
  simpa [notQuote, isQuote] using (plain_of_mem_formatInt hc).2.2

theorem maskQuoted_password (secret : Secret) (rest : List Char) :
    maskQuoted ("password=".toList ++ '\'' :: (secret.text ++ '\'' :: rest)) =
      maskedQuoted [] ++ maskQuoted rest := by
  have hquote : notQuote '\'' = false := rfl
  have htake : (secret.text ++ '\'' :: rest).takeWhile notQuote = secret.text := by
    rw [takeWhile_append_cons hquote,
      List.takeWhile_eq_self_iff.mpr (List.all_eq_true.mp secret.not_quote)]
  have hdrop : (secret.text ++ '\'' :: rest).dropWhile notQuote = '\'' :: rest := by
    rw [dropWhile_append_cons hquote,
      List.dropWhile_eq_nil_iff.mpr (List.all_eq_true.mp secret.not_quote)]
    rfl
  apply replaceAll_of_step
  rw [step_quoted, List.takeWhile_cons_of_neg (by decide), List.dropWhile_cons_of_neg (by decide)]
  exact quotedRest_of_rest rfl (htake.symm ▸ secret.ne_nil) hdrop

theorem maskQuoted_getConnectionStr {cfg : Config} (h : cfg.QuoteFree) :
    ∃ masked, ∀ secret : Secret,
      maskQuoted (cfg.withPassword secret.text).getConnectionStr = masked := by
  let before := ["host=".toList, cfg.host, " port=".toList, formatInt cfg.port, " user=".toList,
    cfg.user, " dbname=".toList, cfg.database].flatten
  let rest := " sslmode=".toList ++ (cfg.sslMode ++ " connect_timeout=10".toList)
  refine ⟨before ++ ' ' :: (maskedQuoted [] ++ maskQuoted rest), fun secret => ?_⟩
  have htext : (cfg.withPassword secret.text).getConnectionStr =
      before ++ ' ' :: 'p' :: ("assword=".toList ++ '\'' :: (secret.text ++ '\'' :: rest)) := by
    exact @List.flatten_append Char ["host=".toList, cfg.host, " port=".toList,
        formatInt cfg.port, " user=".toList, cfg.user, " dbname=".toList, cfg.database]
      [" password='".toList, secret.text, "' sslmode=".toList, cfg.sslMode,
        " connect_timeout=10".toList]
  have hbefore : before.all notQuote = true := by
    simp only [before, List.flatten_cons, List.flatten_nil, List.all_append, h.host, h.user,
      h.database, all_notQuote_formatInt, Bool.true_and]
    rfl
  rw [htext, maskQuoted_skip hbefore rfl rfl]
  exact congrArg (fun t => before ++ ' ' :: t) (maskQuoted_password secret rest)

/-- The defaults of the flags; the address is one of many. -/
def mainDefaults : MainConfig where
  listenAddr := ":9201".toList
  telemetryPath := "/metrics".toList
  pgmodelCfg := flagDefaults []
  logLevel := "debug".toList
  haGroupLockID := 0
  restElection := false
  prometheusTimeout := -1
  electionInterval := 5000000000
  migrate := true
  corsOrigin := some 0xc000124000

example : maskPassword "password='foo'bar' host='localhost'".toList =
    "password='****'bar' host='localhost'".toList := by
  decide +kernel

end TimescalePrometheus.Client
