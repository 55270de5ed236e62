import TimescalePrometheus.Sql.Tables

/-!
The translation of label matchers into SQL clauses, and what PostgreSQL makes of a clause.
-/

namespace TimescalePrometheus.Query.SubQueries

open Sql.Tables

/-- `labels.MatchType`. -/
inductive MatchType where
  | matchEqual
  | matchNotEqual
  | matchRegexp
  | matchNotRegexp
  deriving DecidableEq

/-- `labels.Matcher`. -/
structure Matcher where
  type : MatchType
  name : String
  value : String
  deriving DecidableEq

/-- The two regular expression engines, which are not part of the repository. -/
structure Regex where
  /-- Whether the expression (first) matches the whole string (second). -/
  fullMatch : String → String → Bool
  /-- PostgreSQL's `~`: whether the string (first) has a match of the pattern (second). -/
  search : String → String → Bool

def Matcher.matches (r : Regex) (m : Matcher) (s : String) : Bool :=
  match m.type with
  | .matchEqual => s = m.value
  | .matchNotEqual => s ≠ m.value
  | .matchRegexp => r.fullMatch m.value s
  | .matchNotRegexp => !r.fullMatch m.value s

/-- `anchorValue`. -/
def anchorValue (str : String) : String :=
  let first := str.toList.head?
  let last := str.toList.getLast?
  if first = none then "^$"
  else if first = some '^' ∧ last = some '$' then str
  else if first = some '^' then str ++ "$"
  else if last = some '$' then "^" ++ str
  else "^" ++ str ++ "$"

/-- How a template compares the value of a label with its second parameter. -/
inductive ValueOp where
  | eq
  | ne
  | re
  | nre
  deriving DecidableEq

def ValueOp.sql : ValueOp → String
  | .eq => "="
  | .ne => "!="
  | .re => "~"
  | .nre => "!~"

/-- The comparison in the database. -/
def ValueOp.holds (r : Regex) : ValueOp → String → String → Bool
  | .eq, value, param => value = param
  | .ne, value, param => value ≠ param
  | .re, value, param => r.search value param
  | .nre, value, param => !r.search value param

/-- A template: the labels of the series overlap, or do not overlap, the labels with
the given key and a value in the given relation to the second parameter. -/
structure SubQuery where
  negated : Bool
  op : ValueOp
  deriving DecidableEq

/-- The text, with verbs for parameters. -/
def SubQuery.sql (q : SubQuery) : String :=
  (if q.negated then "NOT " else "") ++
    "labels && (SELECT COALESCE(array_agg(l.id), array[]::int[]) FROM _prom_catalog.label l " ++
    "WHERE l.key = $%d and l.value " ++ q.op.sql ++ " $%d)"

def subQueryEQ : SubQuery := ⟨false, .eq⟩
def subQueryEQMatchEmpty : SubQuery := ⟨true, .ne⟩
def subQueryNEQ : SubQuery := ⟨false, .ne⟩
def subQueryNEQMatchEmpty : SubQuery := ⟨true, .eq⟩
def subQueryRE : SubQuery := ⟨false, .re⟩
def subQueryREMatchEmpty : SubQuery := ⟨true, .nre⟩
def subQueryNRE : SubQuery := ⟨false, .nre⟩
def subQueryNREMatchEmpty : SubQuery := ⟨true, .re⟩

/-- `strings.Count(query, "%d")`. -/
def countParameters : List Char → Nat
  | '%' :: 'd' :: rest => countParameters rest + 1
  | _ :: rest => countParameters rest
  | [] => 0

/-- A template with the numbers of the parameters that stand in it. -/
structure Clause where
  query : SubQuery
  argIndexes : List Nat
  deriving DecidableEq

def fillInParameters (query : SubQuery) (existingArgs newArgs : List String) :
    Except String (Clause × List String) :=
  let argIndex := existingArgs.length + 1
  let argCountInClause := countParameters query.sql.toList
  if argCountInClause ≠ newArgs.length then
    .error ("invalid number of args: in sql " ++ toString argCountInClause ++ " vs args " ++
      toString newArgs.length)
  else .ok (⟨query, List.range' argIndex argCountInClause⟩, existingArgs ++ newArgs)

/-- The clauses and their arguments. -/
structure ClauseBuilder where
  clauses : List Clause := []
  args : List String := []

def ClauseBuilder.addClause (c : ClauseBuilder) (clause : SubQuery) (args : List String) :
    Except String ClauseBuilder := do
  let (clauseWithParameters, newArgs) ← fillInParameters clause c.args args
  return { clauses := c.clauses ++ [clauseWithParameters], args := newArgs }

/-- The variables of the loop over the matchers. -/
structure Translation where
  metric : String := ""
  metricMatcherCount : Nat := 0
  cb : ClauseBuilder := {}

/-- The template for a matcher and the second parameter it gets. -/
def subQueryFor (r : Regex) (m : Matcher) : SubQuery × String :=
  -- matchers that match the empty value also select the series without the label
  let matchesEmpty := m.matches r ""
  match m.type with
  | .matchEqual => (if matchesEmpty then subQueryEQMatchEmpty else subQueryEQ, m.value)
  | .matchNotEqual => (if matchesEmpty then subQueryNEQMatchEmpty else subQueryNEQ, m.value)
  | .matchRegexp =>
    (if matchesEmpty then subQueryREMatchEmpty else subQueryRE, anchorValue m.value)
  | .matchNotRegexp =>
    (if matchesEmpty then subQueryNREMatchEmpty else subQueryNRE, anchorValue m.value)

/-- One iteration of the loop. -/
def addMatcher (r : Regex) (t : Translation) (m : Matcher) : Except String Translation := do
  let namesMetric := m.type = .matchEqual ∧ m.name = metricNameLabelName
  let (sq, value) := subQueryFor r m
  let cb ← t.cb.addClause sq [m.name, value]
  return {
    metric := if namesMetric then m.value else t.metric
    metricMatcherCount := if namesMetric then t.metricMatcherCount + 1 else t.metricMatcherCount
    cb }

/-- The name of the metric if there is one matcher for it, the clauses and the values
of their parameters. -/
def buildSubQueries (r : Regex) (matchers : List Matcher) :
    Except String (String × List Clause × List String) := do
  let t ← matchers.foldlM (addMatcher r) {}
  let metric := if t.metricMatcherCount > 1 then "" else t.metric
  if t.cb.clauses = [] then throw "no clauses generated"
  return (metric, t.cb.clauses, t.cb.args)

/-- The ids that the subselect of a clause gives, none if a parameter is missing. -/
def Clause.labelIds (r : Regex) (label : List LabelRow) (args : List String) (clause : Clause) :
    Option (List Nat) :=
  match clause.argIndexes.map fun i => args[i - 1]? with
  | [some key, some value] =>
    some ((label.filter fun l => l.key = key ∧ clause.query.op.holds r l.value value).map (·.id))
  | _ => none

/-- The operator `&&` on arrays. -/
def overlap (xs ys : List Nat) : Bool := xs.any fun x => x ∈ ys

/-- None if a parameter is missing. -/
def Clause.eval (r : Regex) (label : List LabelRow) (args : List String) (labels : List Nat)
    (clause : Clause) : Option Bool := do
  let ids ← clause.labelIds r label args
  return overlap labels ids != clause.query.negated

/-- The clauses joined by `AND`. -/
def evalClauses (r : Regex) (label : List LabelRow) (args : List String) (labels : List Nat) :
    List Clause → Option Bool
  | [] => some true
  | clause :: clauses => do
    let first ← clause.eval r label args labels
    let rest ← evalClauses r label args labels clauses
    return first && rest

end TimescalePrometheus.Query.SubQueries
