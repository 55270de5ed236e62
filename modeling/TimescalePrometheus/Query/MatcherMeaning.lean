import TimescalePrometheus.Query.SubQueries
import TimescalePrometheus.Sql.Encodings
import TimescalePrometheus.Sql.FunctionEdits

/-!
The clauses for a list of matchers select the series that PromQL selects.
-/

namespace TimescalePrometheus.Query.MatcherMeaning

open Sql.Tables Sql.Series Sql.FunctionEdits Sql.Invariant Sql.Encodings Query.SubQueries

theorem countParameters_append {text rest : List Char} (h : '%' ∉ text) :
    countParameters (text ++ rest) = countParameters rest := by
  induction text with
  | nil => rfl
  | cons c text ih =>
    simp only [List.mem_cons, not_or] at h
    rw [List.cons_append, countParameters.eq_2 _ _ fun _ hc _ => h.1 hc.symm, ih h.2]

theorem countParameters_sql (q : SubQuery) : countParameters q.sql.toList = 2 := by
  obtain ⟨negated, op⟩ := q
  have hnot : '%' ∉ (if negated then "NOT " else "").toList := by cases negated <;> decide
  have hop : '%' ∉ op.sql.toList := by cases op <;> decide
  simp only [SubQuery.sql, String.toList_append, List.append_assoc, countParameters_append hnot]
  rw [countParameters_append (by simp)]
  rw [show "WHERE l.key = $%d and l.value ".toList =
    "WHERE l.key = $".toList ++ '%' :: 'd' :: " and l.value ".toList by simp,
    List.append_assoc, countParameters_append (by simp)]
  simp only [List.cons_append, countParameters.eq_1]
  rw [countParameters_append (by simp), countParameters_append hop]
  rfl

theorem addClause_eq (cb : ClauseBuilder) (q : SubQuery) (key value : String) :
    cb.addClause q [key, value] =
      .ok ⟨cb.clauses ++ [⟨q, [cb.args.length + 1, cb.args.length + 2]⟩],
        cb.args ++ [key, value]⟩ := by
  simp only [ClauseBuilder.addClause, fillInParameters, countParameters_sql]
  rfl

/-- An equality on the metric name. -/
def namesMetric (m : Matcher) : Bool := m.type = .matchEqual ∧ m.name = metricNameLabelName

/-- The translation after one more matcher. -/
def Translation.add (r : Regex) (t : Translation) (m : Matcher) : Translation where
  metric := if namesMetric m then m.value else t.metric
  metricMatcherCount := if namesMetric m then t.metricMatcherCount + 1 else t.metricMatcherCount
  cb := ⟨t.cb.clauses ++ [⟨(subQueryFor r m).1, [t.cb.args.length + 1, t.cb.args.length + 2]⟩],
    t.cb.args ++ [m.name, (subQueryFor r m).2]⟩

theorem addMatcher_eq (r : Regex) (t : Translation) (m : Matcher) :
    addMatcher r t m = .ok (Translation.add r t m) := by
  simp only [addMatcher, addClause_eq, Translation.add, namesMetric, decide_eq_true_eq]
  rfl

theorem foldlM_addMatcher (r : Regex) (t : Translation) (matchers : List Matcher) :
    matchers.foldlM (addMatcher r) t = .ok (matchers.foldl (Translation.add r) t) := by
  induction matchers generalizing t with
  | nil => rfl
  | cons m matchers ih =>
    rw [List.foldlM_cons, addMatcher_eq]
    exact ih (Translation.add r t m)

/-- The metric that the translation names. -/
def singleMetric (matchers : List Matcher) : String :=
  match matchers.filter namesMetric with
  | [m] => m.value
  | _ => ""

theorem foldl_add_metric (r : Regex) (t : Translation) (matchers : List Matcher) :
    (matchers.foldl (Translation.add r) t).metricMatcherCount =
        t.metricMatcherCount + (matchers.filter namesMetric).length ∧
      (matchers.foldl (Translation.add r) t).metric =
        ((matchers.filter namesMetric).getLast?.map (·.value)).getD t.metric := by
  induction matchers generalizing t with
  | nil => exact ⟨rfl, rfl⟩
  | cons m matchers ih =>
    obtain ⟨hcount, hmetric⟩ := ih (Translation.add r t m)
    rw [List.foldl_cons, hcount, hmetric]
    cases hname : namesMetric m with
    | true =>
      simp only [Translation.add, hname, if_true, List.filter_cons_of_pos, List.length_cons,
        List.getLast?_cons]
      refine ⟨by omega, ?_⟩
      cases (matchers.filter namesMetric).getLast? <;> rfl
    | false => simp [Translation.add, hname]

theorem foldl_add_clauses (r : Regex) (t : Translation) (matchers : List Matcher) :
    (matchers.foldl (Translation.add r) t).cb.clauses.length =
      t.cb.clauses.length + matchers.length := by
  induction matchers generalizing t with
  | nil => rfl
  | cons m matchers ih =>
    rw [List.foldl_cons, ih]
    simp only [Translation.add, List.length_append, List.length_cons, List.length_nil]
    omega

theorem buildSubQueries_eq (r : Regex) {matchers : List Matcher} (hne : matchers ≠ []) :
    buildSubQueries r matchers = .ok (singleMetric matchers,
      (matchers.foldl (Translation.add r) {}).cb.clauses,
      (matchers.foldl (Translation.add r) {}).cb.args) := by
  have hclauses : (matchers.foldl (Translation.add r) {}).cb.clauses ≠ [] := by
    intro hnil
    have hlength := foldl_add_clauses r {} matchers
    rw [hnil] at hlength
    simp only [List.length_nil, Nat.zero_add] at hlength
    exact hne (List.length_eq_zero_iff.mp hlength.symm)
  obtain ⟨hcount, hmetric⟩ := foldl_add_metric r {} matchers
  have hsingle : (if (matchers.foldl (Translation.add r) {}).metricMatcherCount > 1 then ""
      else (matchers.foldl (Translation.add r) {}).metric) = singleMetric matchers := by
    rw [hcount, hmetric, singleMetric]
    match matchers.filter namesMetric with
    | [] => rfl
    | [m] => rfl
    | m :: m' :: rest => simp
  simp only [buildSubQueries, foldlM_addMatcher]
  change (if (matchers.foldl (Translation.add r) {}).cb.clauses = [] then _ else _) = _
  rw [if_neg hclauses]
  change Except.ok _ = _
  rw [hsingle]

section Evaluation

variable {r : Regex} {label : List LabelRow} {args : List String} {labels : List Nat}

theorem labelIds_append {clause : Clause} {ids : List Nat}
    (h : clause.labelIds r label args = some ids) (more : List String) :
    clause.labelIds r label (args ++ more) = some ids := by
  unfold Clause.labelIds at h ⊢
  split at h
  · rename_i key value hparams
    have hlength : clause.argIndexes.length = 2 := by simpa using congrArg List.length hparams
    obtain ⟨i, j, hindexes⟩ := List.length_eq_two.mp hlength
    simp only [hindexes, List.map_cons, List.map_nil, List.cons.injEq, and_true] at hparams ⊢
    have hi := (List.getElem?_eq_some_iff.mp hparams.1).1
    have hj := (List.getElem?_eq_some_iff.mp hparams.2).1
    rw [List.getElem?_append_left hi, List.getElem?_append_left hj, hparams.1, hparams.2]
    exact h
  · simp at h

theorem eval_append {clause : Clause} {b : Bool}
    (h : clause.eval r label args labels = some b) (more : List String) :
    clause.eval r label (args ++ more) labels = some b := by
  unfold Clause.eval at h ⊢
  cases hids : clause.labelIds r label args with
  | none => simp [hids] at h
  | some ids =>
    rw [hids] at h
    rw [labelIds_append hids]
    exact h

theorem evalClauses_append {clauses : List Clause} {b : Bool}
    (h : evalClauses r label args labels clauses = some b) (more : List String) :
    evalClauses r label (args ++ more) labels clauses = some b := by
  induction clauses generalizing b with
  | nil => exact h
  | cons clause clauses ih =>
    simp only [evalClauses, Option.bind_eq_bind, Option.bind_eq_some_iff] at h ⊢
    obtain ⟨first, hfirst, rest, hrest, hb⟩ := h
    exact ⟨first, eval_append hfirst more, rest, ih hrest, hb⟩

theorem evalClauses_concat {clauses : List Clause} {clause : Clause} {b b' : Bool}
    (h : evalClauses r label args labels clauses = some b)
    (h' : clause.eval r label args labels = some b') :
    evalClauses r label args labels (clauses ++ [clause]) = some (b && b') := by
  induction clauses generalizing b with
  | nil =>
    simp only [evalClauses, Option.some.injEq] at h
    subst h
    simp [evalClauses, h']
  | cons first clauses ih =>
    simp only [evalClauses, Option.bind_eq_bind, Option.bind_eq_some_iff] at h
    obtain ⟨x, hx, y, hy, hb⟩ := h
    simp only [Option.pure_def, Option.some.injEq] at hb
    simp [evalClauses, hx, ih hy, ← hb, Bool.and_assoc]

/-- The labels that the subselect of a template gives for a key and a parameter. -/
def selected (r : Regex) (label : List LabelRow) (q : SubQuery) (key value : String) :
    List Nat :=
  (label.filter fun l => l.key = key ∧ q.op.holds r l.value value).map (·.id)

theorem mem_selected {q : SubQuery} {key value : String} {id : Nat} :
    id ∈ selected r label q key value ↔
      ∃ l ∈ label, l.key = key ∧ q.op.holds r l.value value = true ∧ l.id = id := by
  simp [selected, and_assoc]

theorem overlap_eq_true {xs ys : List Nat} : overlap xs ys = true ↔ ∃ x ∈ xs, x ∈ ys := by
  simp [overlap]

theorem eval_new (q : SubQuery) (key value : String) :
    Clause.eval r label (args ++ [key, value]) labels
      ⟨q, [args.length + 1, args.length + 2]⟩ =
        some (overlap labels (selected r label q key value) != q.negated) := by
  simp [Clause.eval, Clause.labelIds, selected]

/-- What the clause of a matcher says about a label array. -/
def clauseHolds (r : Regex) (label : List LabelRow) (labels : List Nat) (m : Matcher) : Bool :=
  overlap labels (selected r label (subQueryFor r m).1 m.name (subQueryFor r m).2) !=
    (subQueryFor r m).1.negated

theorem evalClauses_foldl_add {t : Translation} {b : Bool} (matchers : List Matcher)
    (ht : evalClauses r label t.cb.args labels t.cb.clauses = some b) :
    evalClauses r label (matchers.foldl (Translation.add r) t).cb.args labels
      (matchers.foldl (Translation.add r) t).cb.clauses =
        some (b && matchers.all (clauseHolds r label labels)) := by
  induction matchers generalizing t b with
  | nil => simpa using ht
  | cons m matchers ih =>
    have hnew : evalClauses r label (Translation.add r t m).cb.args labels
        (Translation.add r t m).cb.clauses = some (b && clauseHolds r label labels m) :=
      evalClauses_concat (evalClauses_append ht _) (eval_new _ _ _)
    rw [List.foldl_cons, ih hnew, List.all_cons, Bool.and_assoc]

theorem buildSubQueries_eval (r : Regex) {matchers : List Matcher} (hne : matchers ≠ []) :
    ∃ clauses args, buildSubQueries r matchers = .ok (singleMetric matchers, clauses, args) ∧
      ∀ label labels, evalClauses r label args labels clauses =
        some (matchers.all (clauseHolds r label labels)) := by
  refine ⟨_, _, buildSubQueries_eq r hne, fun label labels => ?_⟩
  rw [evalClauses_foldl_add (b := true) matchers rfl, Bool.true_and]

end Evaluation

/-- The value PromQL compares a matcher with: the empty string if the series does not
have the label. -/
def labelValue (labels : LabelSet) (name : String) : String :=
  ((labels.find? fun kv => kv.1 = name).map (·.2)).getD ""

/-- The array holds the ids of the labels of the set, which are all stored. -/
def Carries (c : Catalog) (labels : LabelSet) (array : List Nat) : Prop :=
  ∀ kv, kv ∈ labels ↔ ∃ id ∈ array, c.labelId? kv.1 kv.2 = some id

theorem carries_of_isLabelArray {c : Catalog} {metricName : String} {labels : LabelSet}
    {array : List Nat} (hlabels : LabelsWellFormed c)
    (h : IsLabelArray c metricName labels array) : Carries c labels array :=
  fun _ => h.mem_iff hlabels

/-- With the anchors of `anchorValue`, a search in the database is a full match. -/
def AnchorsAgree (r : Regex) (m : Matcher) : Prop :=
  m.type = .matchRegexp ∨ m.type = .matchNotRegexp →
    ∀ value, r.search value (anchorValue m.value) = r.fullMatch m.value value

section Meaning

variable {r : Regex} {c : Catalog} {labels : LabelSet} {array : List Nat}

theorem overlap_selected_iff (hlabels : LabelsWellFormed c) (hcarries : Carries c labels array)
    (q : SubQuery) (key value : String) :
    overlap array (selected r c.label q key value) = true ↔
      ∃ v, (key, v) ∈ labels ∧ q.op.holds r v value = true := by
  simp only [overlap_eq_true, mem_selected]
  constructor
  · rintro ⟨id, hid, l, hl, rfl, hop, rfl⟩
    exact ⟨l.value, (hcarries _).mpr ⟨l.id, hid, labelId?_of_mem hlabels hl⟩, hop⟩
  · rintro ⟨v, hmem, hop⟩
    obtain ⟨id, hid, hlabel⟩ := (hcarries _).mp hmem
    obtain ⟨l, hl, hkey, hvalue, rfl⟩ := Catalog.exists_of_labelId? hlabel
    exact ⟨l.id, hid, l, hl, hkey, hvalue ▸ hop, rfl⟩

theorem labelValue_of_mem (hkeys : (labels.map (·.1)).Nodup) {key value : String}
    (h : (key, value) ∈ labels) : labelValue labels key = value := by
  unfold labelValue
  cases hfind : labels.find? fun kv => kv.1 = key with
  | none => simpa using List.find?_eq_none.mp hfind _ h
  | some kv =>
    have hkey := List.find?_some hfind
    simp only [decide_eq_true_eq] at hkey
    rw [List.inj_on_of_nodup_map hkeys (List.mem_of_find?_eq_some hfind) h hkey]
    rfl

theorem labelValue_of_not_mem {key : String} (h : ∀ value, (key, value) ∉ labels) :
    labelValue labels key = "" := by
  have hfind : (labels.find? fun kv => kv.1 = key) = none := by
    apply List.find?_eq_none.mpr
    rintro ⟨k, v⟩ hkv
    simp only [decide_eq_true_eq]
    rintro rfl
    exact h v hkv
  rw [labelValue, hfind]
  rfl

theorem exists_label_iff (hkeys : (labels.map (·.1)).Nodup) {φ : String → Bool}
    (hempty : φ "" = false) (key : String) :
    (∃ v, (key, v) ∈ labels ∧ φ v = true) ↔ φ (labelValue labels key) = true := by
  constructor
  · rintro ⟨v, hmem, hφ⟩
    rw [labelValue_of_mem hkeys hmem]
    exact hφ
  · intro hφ
    by_contra hnone
    push Not at hnone
    by_cases hmem : ∃ v, (key, v) ∈ labels
    · obtain ⟨v, hmem⟩ := hmem
      rw [labelValue_of_mem hkeys hmem] at hφ
      exact hnone v hmem hφ
    · push Not at hmem
      rw [labelValue_of_not_mem hmem, hempty] at hφ
      simp at hφ

theorem overlap_ne_negated (hlabels : LabelsWellFormed c) (hkeys : (labels.map (·.1)).Nodup)
    (hcarries : Carries c labels array) (q : SubQuery) (key value : String)
    {φ : String → Bool} (hempty : φ "" = q.negated)
    (hop : ∀ v, q.op.holds r v value = (φ v != q.negated)) :
    (overlap array (selected r c.label q key value) != q.negated) =
      φ (labelValue labels key) := by
  have hiff := overlap_selected_iff (r := r) hlabels hcarries q key value
  have hexists := exists_label_iff hkeys (φ := fun v => q.op.holds r v value)
    (by rw [hop, hempty]; simp) key
  have heq : overlap array (selected r c.label q key value) =
      q.op.holds r (labelValue labels key) value :=
    Bool.eq_iff_iff.mpr (hiff.trans hexists)
  rw [heq, hop]
  cases φ (labelValue labels key) <;> cases q.negated <;> rfl

theorem clauseHolds_eq_matches (hlabels : LabelsWellFormed c) (hkeys : (labels.map (·.1)).Nodup)
    (hcarries : Carries c labels array) (m : Matcher) (hanchor : AnchorsAgree r m) :
    clauseHolds r c.label array m = m.matches r (labelValue labels m.name) := by
  have hmain : ∀ negated op value, m.matches r "" = negated →
      (∀ v, ValueOp.holds r op v value = (m.matches r v != negated)) →
      (overlap array (selected r c.label ⟨negated, op⟩ m.name value) != negated) =
        m.matches r (labelValue labels m.name) := fun negated op value hempty hop =>
    overlap_ne_negated hlabels hkeys hcarries ⟨negated, op⟩ m.name value hempty hop
  obtain ⟨type, name, value⟩ := m
  cases type with
  | matchEqual =>
    cases hempty : Matcher.matches r ⟨.matchEqual, name, value⟩ "" <;>
      simp only [clauseHolds, subQueryFor, hempty] <;>
      exact hmain _ _ _ hempty fun v => by simp [ValueOp.holds, Matcher.matches]
  | matchNotEqual =>
    cases hempty : Matcher.matches r ⟨.matchNotEqual, name, value⟩ "" <;>
      simp only [clauseHolds, subQueryFor, hempty] <;>
      exact hmain _ _ _ hempty fun v => by simp [ValueOp.holds, Matcher.matches]
  | matchRegexp =>
    have hfull := hanchor (.inl rfl)
    cases hempty : Matcher.matches r ⟨.matchRegexp, name, value⟩ "" <;>
      simp only [clauseHolds, subQueryFor, hempty] <;>
      exact hmain _ _ _ hempty fun v => by simp [ValueOp.holds, Matcher.matches, hfull]
  | matchNotRegexp =>
    have hfull := hanchor (.inr rfl)
    cases hempty : Matcher.matches r ⟨.matchNotRegexp, name, value⟩ "" <;>
      simp only [clauseHolds, subQueryFor, hempty] <;>
      exact hmain _ _ _ hempty fun v => by simp [ValueOp.holds, Matcher.matches, hfull]

/-- The conjunction of the clauses holds of a stored series exactly if the series
satisfies every matcher. -/
theorem buildSubQueries_meaning (matchers : List Matcher) (hne : matchers ≠ [])
    (hanchor : ∀ m ∈ matchers, AnchorsAgree r m) (hlabels : LabelsWellFormed c)
    (hkeys : (labels.map (·.1)).Nodup) (hcarries : Carries c labels array) :
    ∃ metric clauses args, buildSubQueries r matchers = .ok (metric, clauses, args) ∧
      evalClauses r c.label args array clauses =
        some (matchers.all fun m => m.matches r (labelValue labels m.name)) := by
  obtain ⟨clauses, args, hbuild, heval⟩ := buildSubQueries_eval r hne
  refine ⟨_, clauses, args, hbuild, ?_⟩
  have hall : matchers.all (clauseHolds r c.label array) =
      matchers.all fun m => m.matches r (labelValue labels m.name) := by
    rw [Bool.eq_iff_iff, List.all_eq_true, List.all_eq_true]
    refine forall₂_congr fun m hm => ?_
    rw [clauseHolds_eq_matches hlabels hkeys hcarries m (hanchor m hm)]
  rw [heval, hall]

/-- Engines that know the expression `.*` only. -/
def anyRegex : Regex where
  fullMatch re _ := re = ".*"
  search _ pattern := pattern = "^.*$"

theorem buildSubQueries_meaning_cpu : ∃ c array metric clauses args,
    getOrCreateLabelArray "cpu" [("__name__", "cpu"), ("job", "node")] Catalog.empty =
      .ok array c ∧
    buildSubQueries anyRegex [⟨.matchEqual, "__name__", "cpu"⟩, ⟨.matchNotEqual, "job", "db"⟩,
      ⟨.matchRegexp, "zone", ".*"⟩, ⟨.matchNotRegexp, "zone", ".*"⟩] =
        .ok (metric, clauses, args) ∧
    evalClauses anyRegex c.label args array clauses = some false := by
  have h := eq_ok_of_transaction (a := [1, 2]) (c := Catalog.empty)
    (x := getOrCreateLabelArray "cpu" [("__name__", "cpu"), ("job", "node")]) (by decide +kernel)
  obtain ⟨hedits, hencodes⟩ := getOrCreateLabelArray_edits (A := fun _ _ => True) h
  have hwf := wellFormed_empty.edits hedits
  have hkeys : (([("__name__", "cpu"), ("job", "node")] : LabelSet).map (·.1)).Nodup := by simp
  obtain ⟨metric, clauses, args, hbuild, heval⟩ := buildSubQueries_meaning (r := anyRegex)
    [⟨.matchEqual, "__name__", "cpu"⟩, ⟨.matchNotEqual, "job", "db"⟩,
      ⟨.matchRegexp, "zone", ".*"⟩, ⟨.matchNotRegexp, "zone", ".*"⟩] (by simp)
    (by simp [AnchorsAgree, anyRegex, anchorValue]) hwf.labels hkeys
    (carries_of_isLabelArray hwf.labels (isLabelArray_of_encodes hwf.positions hkeys hencodes))
  exact ⟨_, _, metric, clauses, args, h, hbuild, heval⟩

end Meaning

end TimescalePrometheus.Query.MatcherMeaning
