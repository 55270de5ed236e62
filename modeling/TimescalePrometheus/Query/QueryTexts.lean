import TimescalePrometheus.Lib.SqlText
import TimescalePrometheus.Promql.Selection
import TimescalePrometheus.Query.MatcherMeaning

/-!
The text of the query for a single metric. It is put together by `Sprintf` in several passes:
one for the clause of each matcher, one for the tables and the times, and one over the whole
query, which reads the output of the others as a format.
-/

namespace TimescalePrometheus.Query.QueryTexts

open Lib.Sprintf hiding Mode
open Lib.SqlText Promql.Syntax Promql.Selection
open Query.ReadPaths (TimeBound MetricTimeRangeFilter)
open Query.SubQueries (Matcher Regex SubQuery subQueryFor countParameters
  anchorValue)
open Query.MatcherMeaning (countParameters_append anyRegex)

/-- A value that is sent along with a query. -/
inductive Param
  | text (s : String)
  | time (milliseconds : Int)
  | duration (milliseconds : Int)
  | int64 (n : Int)
  deriving DecidableEq

/-- An error of the source, or a format that the model of `Sprintf` does not cover. -/
inductive BuildError
  | err (text : String)
  | unsupportedFormat
  deriving DecidableEq

def fillInParameters (query : List Char) (existingArgs newArgs : List Param) :
    Except BuildError (List Char × List Param) :=
  let argIndex := existingArgs.length + 1
  let argCountInClause := countParameters query
  if argCountInClause ≠ newArgs.length then
    .error (.err ("invalid number of args: in sql " ++ toString argCountInClause ++ " vs args " ++
      toString newArgs.length))
  else
    match sprintf query (ints argIndex argCountInClause) with
    | some newSQL => .ok (newSQL, existingArgs ++ newArgs)
    | none => .error .unsupportedFormat

/-- The clauses and their arguments. -/
structure ClauseBuilder where
  clauses : List (List Char) := []
  args : List Param := []

def ClauseBuilder.addClause (c : ClauseBuilder) (clause : List Char) (args : List Param) :
    Except BuildError ClauseBuilder := do
  let (clauseWithParameters, newArgs) ← fillInParameters clause c.args args
  return { clauses := c.clauses ++ [clauseWithParameters], args := newArgs }

/-- The clause of a matcher. -/
def addMatcher (r : Regex) (cb : ClauseBuilder) (m : Matcher) : Except BuildError ClauseBuilder :=
  let (sq, value) := subQueryFor r m
  cb.addClause sq.sql.toList [.text m.name, .text value]

/-- The texts of the clauses and the values of their parameters. -/
def buildSubQueries (r : Regex) (matchers : List Matcher) :
    Except BuildError (List (List Char) × List Param) := do
  let cb ← matchers.foldlM (addMatcher r) {}
  if cb.clauses = [] then throw (.err "no clauses generated")
  return (cb.clauses, cb.args)

/-- `pgx.Identifier.Sanitize`. -/
def sanitize (ident : List (List Char)) : List Char :=
  ['.'].intercalate (ident.map fun part => quoted (part.filter (· ≠ '\x00')))

def dataSchema : List Char := "prom_data".toList
def dataSeriesSchema : List Char := "prom_data_series".toList

/-- A time in the layout `RFC3339Nano`. -/
structure TimeText where
  text : List Char
  plain : ∀ c ∈ text, c.isAlphanum = true ∨ c = '-' ∨ c = ':' ∨ c = '.'

/-- A bound as it is printed. -/
def timeText (layout : Int → TimeText) : TimeBound → List Char
  | .negInfinity => "-Infinity".toList
  | .finite time => (layout time).text
  | .infinity => "Infinity".toList

def timeseriesByMetricSQLFormat : List Char :=
  ("\n\tFROM %[1]s m\n\tINNER JOIN %[2]s s\n\tON m.series_id = s.id\n\tWHERE %[3]s" ++
    "\n\tAND time >= '%[4]s'\n\tAND time <= '%[5]s'\n\tGROUP BY s.id").toList

def timeClauseText : TimeClause → List Char
  | .arrayAgg => "array_agg(m.time ORDER BY time) as time_array".toList
  | .generateSeries _ _ _ =>
    "ARRAY(SELECT generate_series($%d::timestamptz, $%d::timestamptz, $%d))".toList

def timeParams : TimeClause → List Param
  | .arrayAgg => []
  | .generateSeries start stop step => [.time start, .time stop, .duration step]

def valueClauseText : ValueClause → List Char
  | .arrayAgg => "array_agg(m.value ORDER BY time)".toList
  | .promDelta _ _ _ _ => "prom_delta($%d, $%d,$%d, $%d, time, value ORDER BY time ASC)".toList

def valueParams : ValueClause → List Param
  | .arrayAgg => []
  | .promDelta lowestTime greatestTime stepSize range =>
    [.time lowestTime, .time greatestTime, .int64 stepSize, .int64 range]

/-- `Finalize`. -/
def finalize (qf : QueryFinalizer) (restOfQuery : List Char) (restOfQueryParams : List Param) :
    Except BuildError (List Char × List Param) :=
  let fullQuery := "SELECT s.labels, ".toList ++ timeClauseText qf.timeClause ++ ", ".toList ++
    valueClauseText qf.valueClause ++ restOfQuery
  let newParams := timeParams qf.timeClause ++ valueParams qf.valueClause
  fillInParameters fullQuery restOfQueryParams newParams

/-- The first pass. The metric of the filter is the name of its table. -/
def formatRestOfQuery (layout : Int → TimeText) (filter : MetricTimeRangeFilter)
    (cases : List (List Char)) : Option (List Char) :=
  sprintf timeseriesByMetricSQLFormat
    [.string (sanitize [dataSchema, filter.metric.toList]),
      .string (sanitize [dataSeriesSchema, filter.metric.toList]),
      .string (" AND ".toList.intercalate cases),
      .string (timeText layout filter.startTime), .string (timeText layout filter.endTime)]

def finalizeQuery (extensionIsInstalled : Bool) (values : List Param) (hints : Option SelectHints)
    (path : List Expr) : Option (List Char) →
    Except BuildError (List Char × List Param × Option Expr)
  | none => .error .unsupportedFormat
  | some restOfQuery =>
    match getQueryFinalizer extensionIsInstalled hints path with
    | .error err => .error (.err err)
    | .ok (qf, node) =>
      match finalize qf restOfQuery values with
      | .error err => .error err
      | .ok (query, newValues) => .ok (query, newValues, node)

def buildTimeseriesByLabelClausesQuery (extensionIsInstalled : Bool) (layout : Int → TimeText)
    (filter : MetricTimeRangeFilter) (cases : List (List Char)) (values : List Param)
    (hints : Option SelectHints) (path : List Expr) :
    Except BuildError (List Char × List Param × Option Expr) :=
  finalizeQuery extensionIsInstalled values hints path (formatRestOfQuery layout filter cases)

theorem countParameters_slot (rest : List Char) :
    countParameters ('%' :: 'd' :: rest) = countParameters rest + 1 := by
  rw [countParameters]

theorem countParameters_of_not_mem {text : List Char} (h : '%' ∉ text) :
    countParameters text = 0 := by
  have hcount : countParameters (text ++ []) = countParameters [] := countParameters_append h
  rw [List.append_nil] at hcount
  exact hcount

theorem countParameters_template {first : List Char} {parts : List (List Char)}
    (h : NoPercent first parts) (rest : List Char) :
    countParameters (template first parts ++ rest) = parts.length + countParameters rest := by
  induction parts generalizing first with
  | nil =>
    rw [template, List.flatMap_nil, List.append_nil, countParameters_append h.1]
    simp
  | cons part parts ih =>
    obtain ⟨hfirst, hparts⟩ := h
    rw [List.forall_mem_cons] at hparts
    have htext : template first (part :: parts) ++ rest =
        first ++ '%' :: 'd' :: (template part parts ++ rest) := by
      simp [template]
    rw [htext, countParameters_append hfirst, countParameters_slot, ih hparts, List.length_cons]
    omega

theorem countParameters_slotted {text : List Char} {count : Nat} {last : Mode}
    (h : Slotted text count last) (rest : List Char) :
    countParameters (text ++ rest) = count + countParameters rest := by
  obtain ⟨hpercent, rfl, -⟩ := h
  have hcount := countParameters_template hpercent rest
  rw [template_slots] at hcount
  exact hcount

theorem slotted_sql (q : SubQuery) : Slotted q.sql.toList 2 .plain := by
  obtain ⟨negated, op⟩ := q
  cases negated <;> cases op <;>
    exact toList_literal (P := fun l => Slotted l 2 .plain)
      (literal_append (literal_append (literal_append (literal_append rfl rfl) rfl) rfl) rfl)
      (by decide)

theorem sprintf_slotted {text : List Char} {count : Nat} {last : Mode}
    (h : Slotted text count last) (n : Nat) :
    sprintf text (ints n count) = some (fill n text) := by
  have hformat := h.format_append (n := n) (Nat.le_of_eq (Nat.zero_add count)) []
  rw [List.append_nil] at hformat
  rw [sprintf, hformat, Nat.zero_add]
  simp [format, extra, ints]

theorem addClause_sql (cb : ClauseBuilder) (q : SubQuery) (name value : Param) :
    cb.addClause q.sql.toList [name, value] =
      .ok ⟨cb.clauses ++ [fill (cb.args.length + 1) q.sql.toList], cb.args ++ [name, value]⟩ := by
  have hcount : countParameters q.sql.toList = 2 := MatcherMeaning.countParameters_sql q
  simp only [ClauseBuilder.addClause, fillInParameters, hcount, sprintf_slotted (slotted_sql q)]
  rfl

/-- The texts for matchers that come after `n` values. -/
def clauseTexts (r : Regex) (n : Nat) : List Matcher → List (List Char)
  | [] => []
  | m :: matchers =>
    fill (n + 1) (subQueryFor r m).1.sql.toList :: clauseTexts r (n + 2) matchers

def matcherParams (r : Regex) (m : Matcher) : List Param :=
  [.text m.name, .text (subQueryFor r m).2]

theorem foldlM_addMatcher (r : Regex) (cb : ClauseBuilder) (matchers : List Matcher) :
    matchers.foldlM (addMatcher r) cb =
      .ok ⟨cb.clauses ++ clauseTexts r cb.args.length matchers,
        cb.args ++ matchers.flatMap (matcherParams r)⟩ := by
  induction matchers generalizing cb with
  | nil => simp [clauseTexts]; rfl
  | cons m matchers ih =>
    rw [List.foldlM_cons]
    have hfirst : addMatcher r cb m =
        .ok ⟨cb.clauses ++ [fill (cb.args.length + 1) (subQueryFor r m).1.sql.toList],
          cb.args ++ matcherParams r m⟩ :=
      addClause_sql cb (subQueryFor r m).1 _ _
    rw [hfirst]
    refine (ih _).trans ?_
    simp [clauseTexts, matcherParams]

theorem buildSubQueries_eq_ok {r : Regex} {matchers : List Matcher} {cases : List (List Char)}
    {values : List Param} (h : buildSubQueries r matchers = .ok (cases, values)) :
    cases = clauseTexts r 0 matchers ∧ values = matchers.flatMap (matcherParams r) := by
  rw [buildSubQueries, foldlM_addMatcher] at h
  change (if _ = [] then _ else _) = _ at h
  split at h
  · cases h
  · cases h
    exact ⟨rfl, rfl⟩

theorem buildSubQueries_eq (r : Regex) {matchers : List Matcher} (hne : matchers ≠ []) :
    buildSubQueries r matchers =
      .ok (clauseTexts r 0 matchers, matchers.flatMap (matcherParams r)) := by
  have hclauses : clauseTexts r 0 matchers ≠ [] := by
    cases matchers with
    | nil => exact absurd rfl hne
    | cons m matchers => simp [clauseTexts]
  rw [buildSubQueries, foldlM_addMatcher]
  change (if clauseTexts r 0 matchers = [] then _ else _) = _
  rw [if_neg hclauses]
  rfl

theorem foldl_add_texts (r : Regex) (t : SubQueries.Translation) (matchers : List Matcher) :
    let cb := (matchers.foldl (MatcherMeaning.Translation.add r) t).cb
    let text := fun c : SubQueries.Clause => sprintf c.query.sql.toList (c.argIndexes.map .int)
    cb.clauses.map text =
        t.cb.clauses.map text ++ (clauseTexts r t.cb.args.length matchers).map some ∧
      cb.args.map Param.text = t.cb.args.map .text ++ matchers.flatMap (matcherParams r) := by
  induction matchers generalizing t with
  | nil => simp [clauseTexts]
  | cons m matchers ih =>
    obtain ⟨hclauses, hargs⟩ := ih (MatcherMeaning.Translation.add r t m)
    have hfirst := sprintf_slotted (slotted_sql (subQueryFor r m).1) (t.cb.args.length + 1)
    simp only [List.foldl_cons, hclauses, hargs]
    simp only [MatcherMeaning.Translation.add, List.map_append, List.map_cons, List.map_nil,
      List.length_append, List.length_cons, List.length_nil, clauseTexts, matcherParams,
      List.flatMap_cons, List.append_assoc, List.cons_append, List.nil_append]
    exact ⟨congrArg (_ ++ · :: _) hfirst, trivial⟩

theorem buildSubQueries_refines {r : Regex} {matchers : List Matcher} {metric : String}
    {clauses : List SubQueries.Clause} {args : List String}
    (h : SubQueries.buildSubQueries r matchers = .ok (metric, clauses, args)) :
    ∃ cases, buildSubQueries r matchers = .ok (cases, args.map .text) ∧
      clauses.map (fun c => sprintf c.query.sql.toList (c.argIndexes.map .int)) =
        cases.map some := by
  have hne : matchers ≠ [] := by
    rintro rfl
    cases h
  rw [MatcherMeaning.buildSubQueries_eq r hne] at h
  cases h
  obtain ⟨hclauses, hargs⟩ := foldl_add_texts r {} matchers
  refine ⟨clauseTexts r 0 matchers, ?_, hclauses⟩
  rw [buildSubQueries_eq r hne]
  exact congrArg (fun values => Except.ok (clauseTexts r 0 matchers, values)) hargs.symm

theorem buildSubQueries_refines_job :
    let r : Regex := ⟨fun _ _ => true, fun _ _ => true⟩
    ∃ cases, buildSubQueries r [⟨.matchEqual, "job", "api"⟩] =
      .ok (cases, [.text "job", .text "api"]) := by
  intro r
  obtain ⟨cases, h, -⟩ := buildSubQueries_refines
    (MatcherMeaning.buildSubQueries_eq r (List.cons_ne_nil ⟨.matchEqual, "job", "api"⟩ []))
  exact ⟨cases, h⟩

def restText (data series cases start stop : List Char) : List Char :=
  "\n\tFROM ".toList ++ data ++ " m\n\tINNER JOIN ".toList ++ series ++
    " s\n\tON m.series_id = s.id\n\tWHERE ".toList ++ cases ++
    "\n\tAND time >= '".toList ++ start ++ "'\n\tAND time <= '".toList ++ stop ++
    "'\n\tGROUP BY s.id".toList

theorem timeseriesByMetricSQLFormat_eq :
    timeseriesByMetricSQLFormat =
      ("\n\tFROM " ++ ("%[1]s" ++ (" m\n\tINNER JOIN " ++ ("%[2]s" ++
        (" s\n\tON m.series_id = s.id\n\tWHERE " ++ ("%[3]s" ++ ("\n\tAND time >= '" ++ ("%[4]s" ++
        ("'\n\tAND time <= '" ++ ("%[5]s" ++ "'\n\tGROUP BY s.id")))))))))).toList := by
  exact congrArg String.toList (literal_eq (literal_append rfl rfl)
    (literal_append rfl <| literal_append rfl <| literal_append rfl <| literal_append rfl <|
      literal_append rfl <| literal_append rfl <| literal_append rfl <| literal_append rfl <|
      literal_append rfl <| literal_append rfl rfl)
    (by decide))

theorem percent_not_mem_pieces :
    '%' ∉ "\n\tFROM ".toList ∧ '%' ∉ " m\n\tINNER JOIN ".toList ∧
      '%' ∉ " s\n\tON m.series_id = s.id\n\tWHERE ".toList ∧ '%' ∉ "\n\tAND time >= '".toList ∧
      '%' ∉ "'\n\tAND time <= '".toList ∧ '%' ∉ "'\n\tGROUP BY s.id".toList := by
  refine ⟨?_, ?_, ?_, ?_, ?_, ?_⟩ <;>
    exact toList_literal (P := ('%' ∉ ·)) rfl (by decide)

theorem sprintf_five {a b c d e f : List Char} (ha : '%' ∉ a) (hb : '%' ∉ b) (hc : '%' ∉ c)
    (hd : '%' ∉ d) (he : '%' ∉ e) (hf : '%' ∉ f) (s1 s2 s3 s4 s5 : List Char) :
    sprintf (a ++ (['%', '[', '1', ']', 's'] ++ (b ++ (['%', '[', '2', ']', 's'] ++ (c ++
        (['%', '[', '3', ']', 's'] ++ (d ++ (['%', '[', '4', ']', 's'] ++ (e ++
        (['%', '[', '5', ']', 's'] ++ f))))))))))
        [.string s1, .string s2, .string s3, .string s4, .string s5] =
      some (a ++ s1 ++ b ++ s2 ++ c ++ s3 ++ d ++ s4 ++ e ++ s5 ++ f) := by
  simp only [List.cons_append, List.nil_append]
  rw [sprintf, format_append ha, format_string rfl rfl rfl, format_append hb,
    format_string rfl rfl rfl, format_append hc, format_string rfl rfl rfl, format_append hd,
    format_string rfl rfl rfl, format_append he, format_string rfl rfl rfl, format_text hf]
  · simp only [Option.map_some, List.append_assoc]
  · exact Nat.le_refl _

theorem sprintf_timeseriesByMetric (data series cases start stop : List Char) :
    sprintf timeseriesByMetricSQLFormat
      [.string data, .string series, .string cases, .string start, .string stop] =
      some (restText data series cases start stop) := by
  obtain ⟨hfrom, hjoin, hwhere, hsince, huntil, hgroup⟩ := percent_not_mem_pieces
  have h1 : "%[1]s".toList = ['%', '[', '1', ']', 's'] := toList_literal (P := (· = _)) rfl rfl
  have h2 : "%[2]s".toList = ['%', '[', '2', ']', 's'] := toList_literal (P := (· = _)) rfl rfl
  have h3 : "%[3]s".toList = ['%', '[', '3', ']', 's'] := toList_literal (P := (· = _)) rfl rfl
  have h4 : "%[4]s".toList = ['%', '[', '4', ']', 's'] := toList_literal (P := (· = _)) rfl rfl
  have h5 : "%[5]s".toList = ['%', '[', '5', ']', 's'] := toList_literal (P := (· = _)) rfl rfl
  rw [timeseriesByMetricSQLFormat_eq]
  simp only [String.toList_append]
  rw [h1, h2, h3, h4, h5]
  exact sprintf_five hfrom hjoin hwhere hsince huntil hgroup data series cases start stop

theorem percent_not_mem_restText {data series cases start stop : List Char} (hdata : '%' ∉ data)
    (hseries : '%' ∉ series) (hcases : '%' ∉ cases) (hstart : '%' ∉ start) (hstop : '%' ∉ stop) :
    '%' ∉ restText data series cases start stop := by
  obtain ⟨hfrom, hjoin, hwhere, hsince, huntil, hgroup⟩ := percent_not_mem_pieces
  have htables := List.not_mem_append (List.not_mem_append (List.not_mem_append hfrom hdata) hjoin)
    hseries
  have hclauses := List.not_mem_append (List.not_mem_append htables hwhere) hcases
  have htimes := List.not_mem_append (List.not_mem_append (List.not_mem_append hclauses hsince)
    hstart) huntil
  exact List.not_mem_append (List.not_mem_append htimes hstop) hgroup

theorem reads_restText {mode : Mode} (hmode : mode = .plain ∨ mode = .word)
    {data series cases start stop : List Char} {params : List Nat}
    (hdata : Reads .plain data [] .plain) (hseries : Reads .plain series [] .plain)
    (hcases : Reads .plain cases params .plain)
    (hstart : Reads .string start [] .string) (hstop : Reads .string stop [] .string) :
    Reads mode (restText data series cases start stop) params .word := by
  have hfrom : Reads mode "\n\tFROM ".toList [] .plain := by
    rcases hmode with rfl | rfl <;>
      exact toList_literal (P := (Reads _ · [] .plain)) rfl (by decide)
  have hjoin : Reads .plain " m\n\tINNER JOIN ".toList [] .plain :=
    toList_literal (P := (Reads _ · [] .plain)) rfl (by decide)
  have hwhere : Reads .plain " s\n\tON m.series_id = s.id\n\tWHERE ".toList [] .plain :=
    toList_literal (P := (Reads _ · [] .plain)) rfl (by decide)
  have hsince : Reads .plain "\n\tAND time >= '".toList [] .string :=
    toList_literal (P := (Reads _ · [] .string)) rfl (by decide)
  have huntil : Reads .string "'\n\tAND time <= '".toList [] .string :=
    toList_literal (P := (Reads _ · [] .string)) rfl (by decide)
  have hgroup : Reads .string "'\n\tGROUP BY s.id".toList [] .word :=
    toList_literal (P := (Reads _ · [] .word)) rfl (by decide)
  have htables := (((hfrom.skip hdata).skip hjoin).skip hseries).skip hwhere
  have htimes := ((((htables.skip hcases).trail hsince).trail hstart).trail huntil).trail hstop
  exact htimes.trail hgroup

theorem sanitize_pair (schema table : List Char) :
    sanitize [schema, table] =
      quoted (schema.filter (· ≠ '\x00')) ++ ['.'] ++ quoted (table.filter (· ≠ '\x00')) := by
  simp [sanitize]

theorem reads_sanitize (schema table : List Char) :
    Reads .plain (sanitize [schema, table]) [] .plain := by
  rw [sanitize_pair]
  exact ((reads_quoted _).skip rfl).skip (reads_quoted _)

theorem mem_quoted {c : Char} {s : List Char} (h : c ∈ quoted s) : c = '"' ∨ c ∈ s := by
  simp only [quoted, doubleQuotes, List.cons_append, List.mem_cons, List.mem_append,
    List.mem_flatMap, List.not_mem_nil, or_false] at h
  rcases h with rfl | ⟨c', hc', hc⟩ | rfl
  · exact .inl rfl
  · split at hc
    · simp only [List.mem_cons, List.not_mem_nil, or_false, or_self] at hc
      exact .inl hc
    · rw [List.mem_singleton] at hc
      exact .inr (hc ▸ hc')
  · exact .inl rfl

theorem percent_not_mem_sanitize {schema table : List Char} (hschema : '%' ∉ schema)
    (htable : '%' ∉ table) : '%' ∉ sanitize [schema, table] := by
  have hquoted : ∀ s : List Char, '%' ∉ s → '%' ∉ quoted (s.filter (· ≠ '\x00')) := by
    intro s hs hmem
    rcases mem_quoted hmem with h | h
    · cases h
    · exact hs (List.mem_filter.mp h).1
  rw [sanitize_pair]
  simp only [List.mem_append, not_or]
  exact ⟨⟨hquoted schema hschema, by decide⟩, hquoted table htable⟩

theorem not_mem_timeText (layout : Int → TimeText) (bound : TimeBound) :
    '%' ∉ timeText layout bound ∧ '\'' ∉ timeText layout bound := by
  cases bound with
  | negInfinity => exact toList_literal (P := fun l => '%' ∉ l ∧ '\'' ∉ l) rfl (by decide)
  | infinity => exact toList_literal (P := fun l => '%' ∉ l ∧ '\'' ∉ l) rfl (by decide)
  | finite time =>
    refine ⟨fun h => ?_, fun h => ?_⟩
    · exact absurd ((layout time).plain _ h) (by decide)
    · exact absurd ((layout time).plain _ h) (by decide)

theorem infix_append_right {xs ys : List Char} (h : xs <:+: ys) (zs : List Char) :
    xs <:+: ys ++ zs :=
  h.trans (List.prefix_append ys zs).isInfix

theorem infix_intercalate {sep x : List Char} {xs : List (List Char)} (h : x ∈ xs) :
    x <:+: sep.intercalate xs := by
  induction xs with
  | nil => cases h
  | cons y xs ih =>
    cases xs with
    | nil =>
      rw [List.mem_singleton] at h
      simp [h]
    | cons z xs =>
      rw [List.intercalate_cons_cons]
      rcases List.mem_cons.mp h with rfl | h
      · exact infix_append_right (List.prefix_append x sep).isInfix _
      · exact (ih h).trans (List.suffix_append _ _).isInfix

theorem percent_not_mem_intercalate {sep : List Char} {xs : List (List Char)} (hsep : '%' ∉ sep)
    (h : ∀ x ∈ xs, '%' ∉ x) : '%' ∉ sep.intercalate xs := by
  induction xs with
  | nil => simp
  | cons y xs ih =>
    rw [List.forall_mem_cons] at h
    cases xs with
    | nil =>
      rw [List.intercalate_singleton]
      exact h.1
    | cons z xs =>
      rw [List.intercalate_cons_cons]
      exact List.not_mem_append (List.not_mem_append h.1 hsep) (ih h.2)

theorem percent_not_mem_clauseTexts (r : Regex) (n : Nat) (matchers : List Matcher) :
    ∀ x ∈ clauseTexts r n matchers, '%' ∉ x := by
  induction matchers generalizing n with
  | nil => simp [clauseTexts]
  | cons m matchers ih =>
    rw [clauseTexts, List.forall_mem_cons]
    exact ⟨(slotted_sql _).percent_not_mem (n + 1), ih (n + 2)⟩

theorem reads_clauseTexts (r : Regex) (n : Nat) (matchers : List Matcher) :
    Reads .plain (" AND ".toList.intercalate (clauseTexts r n matchers))
      (List.range' (n + 1) (2 * matchers.length)) .plain := by
  have hand : Reads .plain " AND ".toList [] .plain :=
    toList_literal (P := (Reads _ · [] .plain)) rfl (by decide)
  induction matchers generalizing n with
  | nil => exact rfl
  | cons m matchers ih =>
    have hclause := (slotted_sql (subQueryFor r m).1).reads (n + 1)
    cases matchers with
    | nil =>
      rw [clauseTexts, clauseTexts, List.intercalate_singleton]
      exact hclause
    | cons m' matchers =>
      have hrest := (hclause.trail hand).append (ih (n + 2))
      rw [List.range'_append_1] at hrest
      rw [clauseTexts, clauseTexts, List.intercalate_cons_cons, ← clauseTexts]
      rw [show 2 * (m :: m' :: matchers).length = 2 + 2 * (m' :: matchers).length by
        simp only [List.length_cons]; omega]
      exact hrest

theorem getElem?_clauseTexts (r : Regex) (n : Nat) (matchers : List Matcher) (i : Nat) :
    (clauseTexts r n matchers)[i]? =
      (matchers[i]?).map fun m => fill (n + 2 * i + 1) (subQueryFor r m).1.sql.toList := by
  induction matchers generalizing n i with
  | nil => simp [clauseTexts]
  | cons m matchers ih =>
    cases i with
    | zero => rfl
    | succ i =>
      rw [clauseTexts, List.getElem?_cons_succ, List.getElem?_cons_succ, ih]
      rw [show n + 2 + 2 * i + 1 = n + 2 * (i + 1) + 1 by omega]

theorem getElem?_matcherParams (r : Regex) (matchers : List Matcher) (i : Nat) :
    (matchers.flatMap (matcherParams r))[2 * i]? = (matchers[i]?).map (.text ·.name) ∧
      (matchers.flatMap (matcherParams r))[2 * i + 1]? =
        (matchers[i]?).map fun m => .text (subQueryFor r m).2 := by
  induction matchers generalizing i with
  | nil => simp
  | cons m matchers ih =>
    cases i with
    | zero => exact ⟨rfl, rfl⟩
    | succ i => exact ih i

theorem length_matcherParams (r : Regex) (matchers : List Matcher) :
    (matchers.flatMap (matcherParams r)).length = 2 * matchers.length := by
  induction matchers with
  | nil => rfl
  | cons m matchers ih =>
    rw [List.flatMap_cons, List.length_append, ih, List.length_cons]
    simp only [matcherParams, List.length_cons, List.length_nil]
    omega

theorem countParameters_query {head time sep value : List Char} {a b : Nat} {last last' : Mode}
    (hhead : '%' ∉ head) (htime : Slotted time a last) (hsep : '%' ∉ sep)
    (hvalue : Slotted value b last') (rest : List Char) :
    countParameters (head ++ time ++ sep ++ value ++ rest) = a + b + countParameters rest := by
  simp only [List.append_assoc]
  rw [countParameters_append hhead, countParameters_slotted htime, countParameters_append hsep,
    countParameters_slotted hvalue, Nat.add_assoc]

theorem fillInParameters_slotted {head time sep value rest rest' : List Char} {a b : Nat}
    {last last' : Mode} (hhead : '%' ∉ head) (htime : Slotted time a last) (hsep : '%' ∉ sep)
    (hvalue : Slotted value b last') (hrest : countParameters rest = 0)
    (hformat : ∀ args argNum, args.length ≤ argNum →
      format args .text argNum false rest = some rest')
    (existingArgs : List Param) {newArgs : List Param} (hnew : newArgs.length = a + b) :
    fillInParameters (head ++ time ++ sep ++ value ++ rest) existingArgs newArgs =
      .ok (head ++ fill (existingArgs.length + 1) time ++ sep ++
          fill (existingArgs.length + 1 + a) value ++ rest', existingArgs ++ newArgs) := by
  have hcount := countParameters_query hhead htime hsep hvalue rest
  rw [hrest, Nat.add_zero] at hcount
  have hsprintf : sprintf (head ++ time ++ sep ++ value ++ rest)
      (ints (existingArgs.length + 1) (a + b)) =
        some (head ++ fill (existingArgs.length + 1) time ++ sep ++
          fill (existingArgs.length + 1 + a) value ++ rest') := by
    simp only [List.append_assoc]
    rw [sprintf, format_append hhead, htime.format_append (by omega), format_append hsep,
      hvalue.format_append (by omega), hformat _ _ (by simp [ints])]
    simp only [Option.map_some, Nat.add_zero, Nat.zero_add]
  unfold fillInParameters
  simp only [hcount, hnew, ne_eq, not_true_eq_false, if_false, hsprintf]

theorem slotted_timeClause (c : TimeClause) :
    ∃ last, (last = .plain ∨ last = .word) ∧
      Slotted (timeClauseText c) (timeParams c).length last := by
  cases c with
  | arrayAgg =>
    exact ⟨.word, .inr rfl, toList_literal (P := (Slotted · 0 .word)) rfl (by decide)⟩
  | generateSeries start stop step =>
    exact ⟨.plain, .inl rfl, toList_literal (P := (Slotted · 3 .plain)) rfl (by decide)⟩

theorem slotted_valueClause (c : ValueClause) :
    Slotted (valueClauseText c) (valueParams c).length .plain := by
  cases c with
  | arrayAgg => exact toList_literal (P := (Slotted · 0 .plain)) rfl (by decide)
  | promDelta lowestTime greatestTime stepSize range =>
    exact toList_literal (P := (Slotted · 4 .plain)) rfl (by decide)

theorem infix_restText (data series cases start stop : List Char) :
    data <:+: restText data series cases start stop ∧
      series <:+: restText data series cases start stop ∧
      cases <:+: restText data series cases start stop := by
  refine ⟨?_, ?_, ?_⟩
  · iterate 9 refine infix_append_right ?_ _
    exact (List.suffix_append _ data).isInfix
  · iterate 7 refine infix_append_right ?_ _
    exact (List.suffix_append _ series).isInfix
  · iterate 5 refine infix_append_right ?_ _
    exact (List.suffix_append _ cases).isInfix

/-- The values that the parameters in a part of the query stand for. -/
def boundTo (values : List Param) (text : List Char) : List (Option Param) :=
  (placeholders text).map fun i => values[i - 1]?

theorem boundTo_of_reads {before params after : List Param} {text : List Char} {last : Mode}
    (h : Reads .plain text (List.range' (before.length + 1) params.length) last)
    (hlast : last = .plain ∨ last = .word) :
    boundTo (before ++ (params ++ after)) text = params.map some := by
  have hnotParam : ∀ n, last ≠ .param n := by
    rintro n rfl
    rcases hlast with h | h <;> cases h
  rw [boundTo, placeholders_of_reads h hnotParam]
  refine List.ext_getElem? fun i => ?_
  by_cases hi : i < params.length
  · have hvalue : (before ++ (params ++ after))[before.length + i]? = some params[i] := by
      rw [List.getElem?_append_right (by omega), Nat.add_sub_cancel_left,
        List.getElem?_append_left hi, List.getElem?_eq_getElem hi]
    simp [hi, hvalue]
  · simp [hi]

/-- The value that the clause of a matcher compares with. -/
def comparedValue (m : Matcher) : String :=
  match m.type with
  | .matchEqual | .matchNotEqual => m.value
  | .matchRegexp | .matchNotRegexp => anchorValue m.value

theorem subQueryFor_snd (r : Regex) (m : Matcher) : (subQueryFor r m).2 = comparedValue m := by
  unfold subQueryFor comparedValue
  cases m.type <;> rfl

theorem boundTo_clause {r : Regex} {matchers : List Matcher} {i : Nat} {m : Matcher}
    (hm : matchers[i]? = some m) (after : List Param) :
    boundTo (matchers.flatMap (matcherParams r) ++ after)
        (fill (2 * i + 1) (subQueryFor r m).1.sql.toList) =
      [some (.text m.name), some (.text (comparedValue m))] := by
  have hreads := (slotted_sql (subQueryFor r m).1).reads (2 * i + 1)
  have hlt : i < matchers.length := (List.getElem?_eq_some_iff.mp hm).1
  have hlength := length_matcherParams r matchers
  obtain ⟨hname, hvalue⟩ := getElem?_matcherParams r matchers i
  rw [boundTo, placeholders_of_reads hreads (by intro n h; cases h)]
  simp only [List.range'_succ, List.range'_zero, List.map_cons, List.map_nil, Nat.add_sub_cancel]
  rw [List.getElem?_append_left (by omega), List.getElem?_append_left (by omega), hname, hvalue, hm,
    ← subQueryFor_snd r m]
  rfl

/-- The query after the first pass, from the tables on. -/
def restOfQuery (layout : Int → TimeText) (filter : MetricTimeRangeFilter)
    (cases : List (List Char)) : List Char :=
  restText (sanitize [dataSchema, filter.metric.toList])
    (sanitize [dataSeriesSchema, filter.metric.toList]) (" AND ".toList.intercalate cases)
    (timeText layout filter.startTime) (timeText layout filter.endTime)

/-- The whole query, for clauses that come after `n` values. -/
def queryText (qf : QueryFinalizer) (n : Nat) (rest : List Char) : List Char :=
  "SELECT s.labels, ".toList ++ fill (n + 1) (timeClauseText qf.timeClause) ++ ", ".toList ++
    fill (n + 1 + (timeParams qf.timeClause).length) (valueClauseText qf.valueClause) ++ rest

section Query

variable {extensionIsInstalled : Bool} {layout : Int → TimeText} {filter : MetricTimeRangeFilter}
  {cases : List (List Char)} {values : List Param} {hints : Option SelectHints} {path : List Expr}
  {qf : QueryFinalizer} {node : Option Expr}

theorem percent_not_mem_head :
    '%' ∉ "SELECT s.labels, ".toList ∧ '%' ∉ ", ".toList := by
  constructor <;> exact toList_literal (P := ('%' ∉ ·)) rfl (by decide)

theorem buildTimeseriesByLabelClausesQuery_of_finalize
    (hqf : getQueryFinalizer extensionIsInstalled hints path = .ok (qf, node)) :
    buildTimeseriesByLabelClausesQuery extensionIsInstalled layout filter cases values hints path =
      (finalize qf (restOfQuery layout filter cases) values).map fun result =>
        (result.1, result.2, node) := by
  have hfirst : formatRestOfQuery layout filter cases = some (restOfQuery layout filter cases) :=
    sprintf_timeseriesByMetric _ _ _ _ _
  rw [buildTimeseriesByLabelClausesQuery, hfirst, finalizeQuery]
  simp only [hqf]
  cases finalize qf (restOfQuery layout filter cases) values <;> rfl

theorem buildTimeseriesByLabelClausesQuery_eq {rest' : List Char}
    (hqf : getQueryFinalizer extensionIsInstalled hints path = .ok (qf, node))
    (hcount : countParameters (restOfQuery layout filter cases) = 0)
    (hformat : ∀ args argNum, args.length ≤ argNum →
      format args .text argNum false (restOfQuery layout filter cases) = some rest') :
    buildTimeseriesByLabelClausesQuery extensionIsInstalled layout filter cases values hints path =
      .ok (queryText qf values.length rest',
        values ++ (timeParams qf.timeClause ++ valueParams qf.valueClause), node) := by
  obtain ⟨hselect, hcomma⟩ := percent_not_mem_head
  obtain ⟨last, _, htime⟩ := slotted_timeClause qf.timeClause
  rw [buildTimeseriesByLabelClausesQuery_of_finalize hqf, finalize,
    fillInParameters_slotted hselect htime hcomma (slotted_valueClause qf.valueClause) hcount
    hformat values List.length_append]
  rfl

theorem percent_not_mem_restOfQuery (hmetric : '%' ∉ filter.metric.toList)
    (hcases : ∀ x ∈ cases, '%' ∉ x) : '%' ∉ restOfQuery layout filter cases := by
  have hand : '%' ∉ " AND ".toList := toList_literal (P := ('%' ∉ ·)) rfl (by decide)
  have hdata : '%' ∉ dataSchema := toList_literal (P := ('%' ∉ ·)) rfl (by decide)
  have hseries : '%' ∉ dataSeriesSchema := toList_literal (P := ('%' ∉ ·)) rfl (by decide)
  exact percent_not_mem_restText (percent_not_mem_sanitize hdata hmetric)
    (percent_not_mem_sanitize hseries hmetric) (percent_not_mem_intercalate hand hcases)
    (not_mem_timeText layout filter.startTime).1 (not_mem_timeText layout filter.endTime).1

theorem reads_query (r : Regex) (matchers : List Matcher) :
    Reads .plain
      (queryText qf (2 * matchers.length) (restOfQuery layout filter (clauseTexts r 0 matchers)))
      (List.range' (2 * matchers.length + 1) (timeParams qf.timeClause).length ++
        List.range' (2 * matchers.length + 1 + (timeParams qf.timeClause).length)
          (valueParams qf.valueClause).length ++ List.range' 1 (2 * matchers.length)) .word := by
  have hselect : Reads .plain "SELECT s.labels, ".toList [] .plain :=
    toList_literal (P := (Reads _ · [] .plain)) rfl (by decide)
  obtain ⟨last, hlast, htime⟩ := slotted_timeClause qf.timeClause
  have hcomma : Reads last ", ".toList [] .plain := by
    rcases hlast with rfl | rfl <;>
      exact toList_literal (P := (Reads _ · [] .plain)) rfl (by decide)
  have hrest := reads_restText (.inl rfl) (reads_sanitize dataSchema filter.metric.toList)
    (reads_sanitize dataSeriesSchema filter.metric.toList) (reads_clauseTexts r 0 matchers)
    (reads_string (not_mem_timeText layout filter.startTime).2)
    (reads_string (not_mem_timeText layout filter.endTime).2)
  have hhead := (hselect.skip (htime.reads (2 * matchers.length + 1))).trail hcomma
  exact (hhead.append ((slotted_valueClause qf.valueClause).reads _)).append hrest

end Query

theorem perm_range' (k a b : Nat) :
    (List.range' (k + 1) a ++ List.range' (k + 1 + a) b ++ List.range' 1 k).Perm
      (List.range' 1 (k + (a + b))) := by
  have hnew : List.range' (k + 1) a ++ List.range' (k + 1 + a) b = List.range' (k + 1) (a + b) :=
    List.range'_append_1
  have hall : List.range' 1 k ++ List.range' (1 + k) (a + b) = List.range' 1 (k + (a + b)) :=
    List.range'_append_1
  rw [hnew, ← hall, Nat.add_comm 1 k]
  exact List.perm_append_comm

/-- For a table without a percent sign in its name, the query names both tables, and each of its
parameters is numbered for the value that its clause means. -/
theorem buildTimeseriesByLabelClausesQuery_binds {extensionIsInstalled : Bool}
    (layout : Int → TimeText) (filter : MetricTimeRangeFilter) (r : Regex)
    {matchers : List Matcher} {cases : List (List Char)} {values : List Param}
    {hints : Option SelectHints} {path : List Expr} {qf : QueryFinalizer} {node : Option Expr}
    (hmetric : '%' ∉ filter.metric.toList)
    (hcases : buildSubQueries r matchers = .ok (cases, values))
    (hqf : getQueryFinalizer extensionIsInstalled hints path = .ok (qf, node)) :
    ∃ query newValues timePart valuePart rest,
      buildTimeseriesByLabelClausesQuery extensionIsInstalled layout filter cases values hints
        path = .ok (query, newValues, node) ∧
      sanitize [dataSchema, filter.metric.toList] <:+: query ∧
      sanitize [dataSeriesSchema, filter.metric.toList] <:+: query ∧
      (placeholders query).Perm (List.range' 1 newValues.length) ∧
      query = "SELECT s.labels, ".toList ++ timePart ++ ", ".toList ++ valuePart ++ rest ∧
      (∀ (i : Nat) (m : Matcher), matchers[i]? = some m →
        ∃ clause, cases[i]? = some clause ∧ clause <:+: rest ∧
          boundTo newValues clause = [some (.text m.name), some (.text (comparedValue m))]) ∧
      (∃ n, sprintf (timeClauseText qf.timeClause) (ints n (timeParams qf.timeClause).length) =
        some timePart) ∧
      boundTo newValues timePart = (timeParams qf.timeClause).map some ∧
      (∃ n, sprintf (valueClauseText qf.valueClause) (ints n (valueParams qf.valueClause).length) =
        some valuePart) ∧
      boundTo newValues valuePart = (valueParams qf.valueClause).map some := by
  obtain ⟨rfl, rfl⟩ := buildSubQueries_eq_ok hcases
  obtain ⟨last, hlast, htime⟩ := slotted_timeClause qf.timeClause
  have hvalue := slotted_valueClause qf.valueClause
  have hlength := length_matcherParams r matchers
  have hpercent : '%' ∉ restOfQuery layout filter (clauseTexts r 0 matchers) :=
    percent_not_mem_restOfQuery hmetric (percent_not_mem_clauseTexts r 0 matchers)
  obtain ⟨hdata, hseries, hclauses⟩ := infix_restText
    (sanitize [dataSchema, filter.metric.toList])
    (sanitize [dataSeriesSchema, filter.metric.toList])
    (" AND ".toList.intercalate (clauseTexts r 0 matchers))
    (timeText layout filter.startTime) (timeText layout filter.endTime)
  refine ⟨_, _, _, _, restOfQuery layout filter (clauseTexts r 0 matchers),
    buildTimeseriesByLabelClausesQuery_eq hqf (countParameters_of_not_mem hpercent)
      (fun _ _ => format_text hpercent),
    hdata.trans (List.suffix_append _ _).isInfix, hseries.trans (List.suffix_append _ _).isInfix,
    ?_, rfl, ?_, ⟨_, sprintf_slotted htime _⟩, ?_, ⟨_, sprintf_slotted hvalue _⟩, ?_⟩
  · rw [hlength, placeholders_of_reads (reads_query r matchers) (by intro n h; cases h),
      List.length_append, List.length_append, hlength]
    exact perm_range' _ _ _
  · intro i m hm
    have hclause := getElem?_clauseTexts r 0 matchers i
    rw [hm, Nat.zero_add] at hclause
    exact ⟨_, hclause, (infix_intercalate (List.mem_of_getElem? hclause)).trans hclauses,
      boundTo_clause hm _⟩
  · exact boundTo_of_reads (htime.reads _) hlast
  · have hbound : boundTo ((matchers.flatMap (matcherParams r) ++ timeParams qf.timeClause) ++
        (valueParams qf.valueClause ++ []))
        (fill ((matchers.flatMap (matcherParams r)).length + 1 + (timeParams qf.timeClause).length)
          (valueClauseText qf.valueClause)) = (valueParams qf.valueClause).map some := by
      refine boundTo_of_reads ?_ (.inl rfl)
      rw [List.length_append, Nat.add_right_comm]
      exact hvalue.reads _
    rw [List.append_nil, List.append_assoc] at hbound
    exact hbound

theorem buildTimeseriesByLabelClausesQuery_binds_cpu :
    let selector : VectorSelector :=
      ⟨[⟨.matchEqual, "__name__", "cpu"⟩, ⟨.matchRegexp, "job", "node"⟩], 0⟩
    let hints : SelectHints := ⟨1599999700000, 1600000000000, 0, "delta", [], false, 300000⟩
    let path : List Expr :=
      [.call ⟨"delta", .vector⟩ [.matrixSelector selector 300000000000],
        .matrixSelector selector 300000000000]
    '%' ∉ "cpu".toList ∧ ∃ cases values query newValues node,
      buildSubQueries anyRegex selector.labelMatchers = .ok (cases, values) ∧
      buildTimeseriesByLabelClausesQuery true (fun _ => ⟨[], by simp⟩)
        ⟨"cpu", .negInfinity, .infinity⟩ cases values (some hints) path =
          .ok (query, newValues, node) ∧
      (placeholders query).Perm (List.range' 1 newValues.length) := by
  intro selector hints path
  have hmetric : '%' ∉ "cpu".toList := toList_literal (P := ('%' ∉ ·)) rfl (by decide)
  have hcases : buildSubQueries anyRegex selector.labelMatchers = .ok (_, _) :=
    buildSubQueries_eq anyRegex (by simp [selector])
  obtain ⟨query, newValues, _, _, _, hquery, -, -, hplaceholders, -⟩ :=
    buildTimeseriesByLabelClausesQuery_binds (fun _ => ⟨[], by simp⟩)
      ⟨"cpu", .negInfinity, .infinity⟩ anyRegex hmetric hcases
      (show getQueryFinalizer true (some hints) path = .ok _ from rfl)
  exact ⟨hmetric, _, _, query, newValues, _, hcases, hquery, hplaceholders⟩

/-- The name of a table up to its last characters. -/
def openIdent (schema x : List Char) : List Char :=
  quoted (schema.filter (· ≠ '\x00')) ++ ['.'] ++ '"' :: doubleQuotes (x.filter (· ≠ '\x00'))

theorem sanitize_append (schema x : List Char) {t : List Char} (hnull : '\x00' ∉ t)
    (hquote : '"' ∉ t) : sanitize [schema, x ++ t] = openIdent schema x ++ (t ++ ['"']) := by
  have hfilter : t.filter (· ≠ '\x00') = t := by
    rw [List.filter_eq_self]
    intro c hc
    have hne : c ≠ '\x00' := fun h => hnull (h ▸ hc)
    simpa using hne
  have hdouble : doubleQuotes t = t := by
    rw [doubleQuotes, List.flatMap_congr (g := fun c => [c]), List.flatMap_singleton']
    intro c hc
    have hne : c ≠ '"' := fun h => hquote (h ▸ hc)
    exact if_neg hne
  rw [sanitize_pair, openIdent, List.filter_append, hfilter]
  simp only [quoted, doubleQuotes, List.flatMap_append] at hdouble ⊢
  rw [hdouble]
  simp

theorem percent_not_mem_openIdent {schema x : List Char} (hschema : '%' ∉ schema) (hx : '%' ∉ x) :
    '%' ∉ openIdent schema x := by
  have hident := percent_not_mem_sanitize hschema hx
  have happend := sanitize_append schema x (t := []) (by simp) (by simp)
  rw [List.append_nil] at happend
  rw [happend, List.mem_append, not_or] at hident
  exact hident.1

theorem append_tables (a p t b s c : List Char) :
    a ++ (p ++ (t ++ ['"'])) ++ b ++ (s ++ (t ++ ['"'])) ++ c =
      (a ++ p) ++ (t ++ ('"' :: (b ++ s) ++ (t ++ ('"' :: c)))) := by
  simp

/-- The query behind the tables. -/
def tailText (cases start stop : List Char) : List Char :=
  " s\n\tON m.series_id = s.id\n\tWHERE ".toList ++ (cases ++ ("\n\tAND time >= '".toList ++
    (start ++ ("'\n\tAND time <= '".toList ++ (stop ++ "'\n\tGROUP BY s.id".toList)))))

theorem restText_eq_tables (data series cases start stop : List Char) :
    restText data series cases start stop =
      "\n\tFROM ".toList ++ data ++ " m\n\tINNER JOIN ".toList ++ series ++
        tailText cases start stop := by
  have hassoc : ∀ a b c d e f g h : List Char,
      a ++ b ++ c ++ d ++ e ++ f ++ g ++ h = a ++ (b ++ (c ++ (d ++ (e ++ (f ++ (g ++ h)))))) := by
    simp
  exact hassoc _ _ _ _ _ _ _ _

theorem percent_not_mem_tailText {cases start stop : List Char} (hcases : '%' ∉ cases)
    (hstart : '%' ∉ start) (hstop : '%' ∉ stop) : '%' ∉ tailText cases start stop := by
  obtain ⟨-, -, hwhere, hsince, huntil, hgroup⟩ := percent_not_mem_pieces
  exact List.not_mem_append hwhere (List.not_mem_append hcases (List.not_mem_append hsince
    (List.not_mem_append hstart (List.not_mem_append huntil (List.not_mem_append hstop hgroup)))))

/-- The text is cut at the last characters of the two names; the other pieces have no percent
sign if the name has none before them. -/
theorem restOfQuery_suffix (layout : Int → TimeText) (filter : MetricTimeRangeFilter)
    {cases : List (List Char)} (hcases : ∀ y ∈ cases, '%' ∉ y) {x : List Char} (hx : '%' ∉ x) :
    ∃ a b c, '%' ∉ a ∧ '%' ∉ b ∧ '%' ∉ c ∧
      ∀ t metric, '\x00' ∉ t → '"' ∉ t → metric.toList = x ++ t →
        restOfQuery layout { filter with metric } cases =
          a ++ (t ++ ('"' :: b ++ (t ++ ('"' :: c)))) := by
  obtain ⟨hfrom, hjoin, -, -, -, -⟩ := percent_not_mem_pieces
  have hand : '%' ∉ " AND ".toList := toList_literal (P := ('%' ∉ ·)) rfl (by decide)
  have hdata : '%' ∉ dataSchema := toList_literal (P := ('%' ∉ ·)) rfl (by decide)
  have hseries : '%' ∉ dataSeriesSchema := toList_literal (P := ('%' ∉ ·)) rfl (by decide)
  refine ⟨_, _, _, List.not_mem_append hfrom (percent_not_mem_openIdent hdata hx),
    List.not_mem_append hjoin (percent_not_mem_openIdent hseries hx),
    percent_not_mem_tailText (percent_not_mem_intercalate hand hcases)
      (not_mem_timeText layout filter.startTime).1 (not_mem_timeText layout filter.endTime).1, ?_⟩
  intro t metric hnull hquote hmetric
  rw [restOfQuery, restText_eq_tables]
  dsimp only
  rw [hmetric, sanitize_append _ _ hnull hquote, sanitize_append _ _ hnull hquote, append_tables]

theorem format_percent {args : List Arg} {argNum : Nat} {reordered : Bool} {rest : List Char} :
    format args .text argNum reordered ('%' :: '%' :: rest) =
      (format args .text argNum reordered rest).map ('%' :: ·) := by
  simp [format]

theorem countParameters_percent {c : Char} (hc : c ≠ 'd') (rest : List Char) :
    countParameters ('%' :: c :: rest) = countParameters (c :: rest) := by
  rw [countParameters]
  intro _ _ h
  exact hc (List.cons.inj h).1

section Percent

variable {extensionIsInstalled : Bool} (layout : Int → TimeText) (filter : MetricTimeRangeFilter)
  (r : Regex) {matchers : List Matcher} {cases : List (List Char)} {values : List Param}
  {hints : Option SelectHints} {path : List Expr} {qf : QueryFinalizer} {node : Option Expr}

theorem buildTimeseriesByLabelClausesQuery_doubled
    (hcases : buildSubQueries r matchers = .ok (cases, values))
    (hqf : getQueryFinalizer extensionIsInstalled hints path = .ok (qf, node))
    {x : List Char} (hx : '%' ∉ x) :
    buildTimeseriesByLabelClausesQuery extensionIsInstalled layout
        { filter with metric := String.ofList (x ++ ['%', '%']) } cases values hints path =
      .ok (queryText qf values.length
          (restOfQuery layout { filter with metric := String.ofList (x ++ ['%']) } cases),
        values ++ (timeParams qf.timeClause ++ valueParams qf.valueClause), node) := by
  have hpercent : ∀ y ∈ cases, '%' ∉ y := by
    rw [(buildSubQueries_eq_ok hcases).1]
    exact percent_not_mem_clauseTexts r 0 matchers
  obtain ⟨a, b, c, ha, hb, hc, hcut⟩ := restOfQuery_suffix layout filter hpercent hx
  have htwo := hcut ['%', '%'] (String.ofList (x ++ ['%', '%'])) (by decide) (by decide)
    String.toList_ofList
  have hone := hcut ['%'] (String.ofList (x ++ ['%'])) (by decide) (by decide)
    String.toList_ofList
  have hb' : '%' ∉ '"' :: b := by simp [hb]
  have hc' : '%' ∉ '"' :: c := by simp [hc]
  refine buildTimeseriesByLabelClausesQuery_eq hqf ?_ fun args argNum hused => ?_
  · rw [htwo, countParameters_append ha]
    simp only [List.cons_append, List.nil_append]
    rw [countParameters_percent (by decide), countParameters_percent (by decide),
      ← List.cons_append, countParameters_append hb', countParameters_percent (by decide),
      countParameters_percent (by decide), countParameters_of_not_mem hc']
  · rw [htwo, hone, format_append ha]
    simp only [List.cons_append, List.nil_append]
    rw [format_percent, ← List.cons_append, format_append hb', format_percent,
      format_text hc' hused]
    rfl

theorem buildTimeseriesByLabelClausesQuery_slot
    (hcases : buildSubQueries r matchers = .ok (cases, values))
    (hqf : getQueryFinalizer extensionIsInstalled hints path = .ok (qf, node))
    {x : List Char} (hx : '%' ∉ x) :
    let count := (timeParams qf.timeClause ++ valueParams qf.valueClause).length
    buildTimeseriesByLabelClausesQuery extensionIsInstalled layout
        { filter with metric := String.ofList (x ++ ['%', 'd']) } cases values hints path =
      .error (.err ("invalid number of args: in sql " ++ toString (count + 2) ++ " vs args " ++
        toString count)) := by
  intro count
  have hpercent : ∀ y ∈ cases, '%' ∉ y := by
    rw [(buildSubQueries_eq_ok hcases).1]
    exact percent_not_mem_clauseTexts r 0 matchers
  obtain ⟨a, b, c, ha, hb, hc, hcut⟩ := restOfQuery_suffix layout filter hpercent hx
  have hslot := hcut ['%', 'd'] (String.ofList (x ++ ['%', 'd'])) (by decide) (by decide)
    String.toList_ofList
  have hb' : '%' ∉ '"' :: b := by simp [hb]
  have hc' : '%' ∉ '"' :: c := by simp [hc]
  obtain ⟨hselect, hcomma⟩ := percent_not_mem_head
  obtain ⟨last, _, htime⟩ := slotted_timeClause qf.timeClause
  have hcount := countParameters_query hselect htime hcomma (slotted_valueClause qf.valueClause)
    (restOfQuery layout { filter with metric := String.ofList (x ++ ['%', 'd']) } cases)
  have hrest : countParameters
      (restOfQuery layout { filter with metric := String.ofList (x ++ ['%', 'd']) } cases) = 2 := by
    rw [hslot, countParameters_append ha]
    simp only [List.cons_append, List.nil_append]
    rw [countParameters_slot, ← List.cons_append, countParameters_append hb', countParameters_slot,
      countParameters_of_not_mem hc']
  rw [hrest, ← List.length_append] at hcount
  rw [buildTimeseriesByLabelClausesQuery_of_finalize hqf, finalize, fillInParameters, hcount,
    if_pos (by omega)]
  rfl

end Percent

theorem infix_of_append {a l : List Char} (ha : '%' ∉ a) (h : ['%', '%'] <:+: a ++ l) :
    ['%', '%'] <:+: l := by
  induction a with
  | nil => exact h
  | cons c a ih =>
    simp only [List.mem_cons, not_or] at ha
    rw [List.cons_append, List.infix_cons_iff] at h
    rcases h with h | h
    · exact absurd (List.cons_prefix_cons.mp h).1 ha.1
    · exact ih ha.2 h

theorem infix_of_percent {c : Char} {l : List Char} (hc : c ≠ '%')
    (h : ['%', '%'] <:+: '%' :: c :: l) : ['%', '%'] <:+: c :: l := by
  rw [List.infix_cons_iff] at h
  rcases h with h | h
  · rw [List.cons_prefix_cons, List.cons_prefix_cons] at h
    exact absurd h.2.1.symm hc
  · exact h

theorem not_infix_of_not_mem {a : List Char} (ha : '%' ∉ a) : ¬['%', '%'] <:+: a := fun h =>
  ha (h.subset (by simp))

theorem percent_not_mem_queryHead (qf : QueryFinalizer) (n : Nat) : '%' ∉ queryText qf n [] := by
  obtain ⟨hselect, hcomma⟩ := percent_not_mem_head
  obtain ⟨last, _, htime⟩ := slotted_timeClause qf.timeClause
  refine List.not_mem_append (List.not_mem_append (List.not_mem_append (List.not_mem_append hselect
    (htime.percent_not_mem _)) hcomma) ((slotted_valueClause qf.valueClause).percent_not_mem _)) ?_
  exact List.not_mem_nil

theorem queryText_eq_append (qf : QueryFinalizer) (n : Nat) (rest : List Char) :
    queryText qf n rest = queryText qf n [] ++ rest := by
  unfold queryText
  rw [List.append_nil]

theorem not_infix_doubled (layout : Int → TimeText) (filter : MetricTimeRangeFilter)
    {cases : List (List Char)} (hcases : ∀ y ∈ cases, '%' ∉ y) {x : List Char} (hx : '%' ∉ x)
    (qf : QueryFinalizer) (n : Nat) (schema : List Char) :
    ¬sanitize [schema, x ++ ['%', '%']] <:+: queryText qf n
      (restOfQuery layout { filter with metric := String.ofList (x ++ ['%']) } cases) := by
  intro h
  rw [sanitize_append schema x (by decide) (by decide)] at h
  have hdouble : ['%', '%'] <:+: openIdent schema x ++ (['%', '%'] ++ ['"']) :=
    ((List.prefix_append _ _).isInfix).trans (List.suffix_append _ _).isInfix
  have hquery := hdouble.trans h
  obtain ⟨a, b, c, ha, hb, hc, hcut⟩ := restOfQuery_suffix layout filter hcases hx
  rw [hcut ['%'] (String.ofList (x ++ ['%'])) (by decide) (by decide) String.toList_ofList,
    queryText_eq_append] at hquery
  have hrest := infix_of_append ha (infix_of_append (percent_not_mem_queryHead qf n) hquery)
  simp only [List.cons_append, List.nil_append] at hrest
  have hsecond := infix_of_percent (by decide) hrest
  rw [← List.cons_append] at hsecond
  have hthird := infix_of_percent (by decide) (infix_of_append (by simp [hb]) hsecond)
  exact not_infix_of_not_mem (by simp [hc]) hthird

/-- The query for the table `cpu%%` reads the table `cpu%`, and there is no query for the table
`cpu%d`. -/
theorem buildTimeseriesByLabelClausesQuery_misreads :
    let layout : Int → TimeText := fun _ => ⟨[], by simp⟩
    ∃ cases values query newValues,
      buildSubQueries anyRegex [⟨.matchEqual, "__name__", "cpu%%"⟩] = .ok (cases, values) ∧
      buildTimeseriesByLabelClausesQuery false layout ⟨"cpu%%", .negInfinity, .infinity⟩ cases
        values none [] = .ok (query, newValues, none) ∧
      ¬sanitize [dataSchema, "cpu%%".toList] <:+: query ∧
      sanitize [dataSchema, "cpu%".toList] <:+: query ∧
      buildTimeseriesByLabelClausesQuery false layout ⟨"cpu%d", .negInfinity, .infinity⟩ cases
        values none [] = .error (.err "invalid number of args: in sql 2 vs args 0") := by
  intro layout
  have hcpu : '%' ∉ ['c', 'p', 'u'] := by decide
  have hcases : buildSubQueries anyRegex [⟨.matchEqual, "__name__", "cpu%%"⟩] = .ok (_, _) :=
    buildSubQueries_eq anyRegex (by simp)
  have hpercent := percent_not_mem_clauseTexts anyRegex 0 [⟨.matchEqual, "__name__", "cpu%%"⟩]
  have hplain : getQueryFinalizer false none [] = .ok (.plain, none) := rfl
  have htwo : "cpu%%" = String.ofList (['c', 'p', 'u'] ++ ['%', '%']) := rfl
  have hone : "cpu%" = String.ofList (['c', 'p', 'u'] ++ ['%']) := rfl
  have hslot : "cpu%d" = String.ofList (['c', 'p', 'u'] ++ ['%', 'd']) := rfl
  have htext : "invalid number of args: in sql " ++ toString 2 ++ " vs args " ++ toString 0 =
      "invalid number of args: in sql 2 vs args 0" :=
    literal_eq (literal_append (literal_append (literal_append rfl rfl) rfl) rfl) rfl
      (by decide)
  generalize clauseTexts anyRegex 0 [⟨.matchEqual, "__name__", "cpu%%"⟩] = cases at hcases hpercent
  generalize List.flatMap _ _ = values at hcases
  have hdoubled := buildTimeseriesByLabelClausesQuery_doubled layout
    ⟨"", .negInfinity, .infinity⟩ anyRegex hcases hplain hcpu
  have herror := buildTimeseriesByLabelClausesQuery_slot layout
    ⟨"", .negInfinity, .infinity⟩ anyRegex hcases hplain hcpu
  have hnot := not_infix_doubled layout ⟨"", .negInfinity, .infinity⟩ hpercent hcpu .plain
    values.length dataSchema
  have hother : sanitize [dataSchema, "cpu%".toList] <:+: restOfQuery layout
      ⟨String.ofList (['c', 'p', 'u'] ++ ['%']), .negInfinity, .infinity⟩ cases := by
    rw [hone]
    exact (infix_restText _ _ _ _ _).1
  dsimp only at hdoubled hnot
  rw [← htwo] at hdoubled
  refine ⟨cases, values, _, _, hcases, hdoubled, ?_, hother.trans ?_, ?_⟩
  · rw [htwo, String.toList_ofList]
    exact hnot
  · rw [queryText_eq_append]
    exact (List.suffix_append _ _).isInfix
  · rw [hslot, ← htext]
    exact herror

end TimescalePrometheus.Query.QueryTexts
