import TimescalePrometheus.Sql.NameLabels

/-!
Label sets and series ids along runs without drops: the array of a label set can be
decoded at any later time, and a series id stands for one label set.
-/

namespace TimescalePrometheus.Sql.SeriesIdentity

open Lib.Runs Lib.Transactions Sql.Tables Sql.Series Sql.CatalogEdits Sql.FunctionEdits
open Sql.Invariant Sql.Encodings Sql.CatalogRuns Sql.NameLabels

/-- No action of the list is a drop. -/
def NoDrops (actions : List Action) : Prop := ∀ a ∈ actions, a.isDrop = false

theorem run_edits {c : Catalog} {actions : List Action} (h : NoDrops actions) :
    Edits (fun _ _ => True) c (run step c actions) := by
  induction actions generalizing c with
  | nil => exact .refl
  | cons a actions ih =>
    have hfirst : Edits (fun _ _ => True) c (step c a) :=
      step_edits a (by cases a <;> simp [Action.Stores]) (h a List.mem_cons_self)
    exact hfirst.trans (ih fun b hb => h b (List.mem_cons_of_mem _ hb))

/-- The label set read back from an array by the three decoding functions. -/
structure Decodes (c : Catalog) (array : List Nat) (labels : LabelSet) : Prop where
  labelsInfo : ((labelsInfo c array).map fun l => (l.key, l.value)).Perm labels
  keyValueArray : ((keyValueArray c array).1.zip (keyValueArray c array).2).Perm labels
  jsonb : ∀ key value, jsonb c array key = some value ↔ (key, value) ∈ labels

theorem decodes_of_encodes {c : Catalog} {metricName : String} {labels : LabelSet}
    {array : List Nat} (hwf : WellFormed c) (hkeys : (labels.map (·.1)).Nodup)
    (h : Encodes c metricName labels array) : Decodes c array labels := by
  have harray := isLabelArray_of_encodes hwf.positions hkeys h
  refine ⟨harray.labelsInfo_perm hwf.labels hkeys, ?_, harray.jsonb_eq_some_iff hwf.labels hkeys⟩
  rw [keyValueArray_zip]
  exact harray.labelsInfo_perm hwf.labels hkeys

/-- A call of one of the two functions `get_or_create_label_array`. -/
inductive ArrayCall where
  | kv (metricName : String) (labels : LabelSet)
  | jsonb (js : LabelSet)

/-- The labels that the call is for. -/
def ArrayCall.labels : ArrayCall → LabelSet
  | .kv _ labels => labels
  | .jsonb js => js

/-- The metric whose key positions the call uses. -/
def ArrayCall.metricName : ArrayCall → Option String
  | .kv metricName _ => some metricName
  | .jsonb js => jsonMetricName js

def ArrayCall.call : ArrayCall → Tx (List Nat)
  | .kv metricName labels => getOrCreateLabelArray metricName labels
  | .jsonb js => getOrCreateLabelArrayJsonb js

theorem arrayCall_edits {A : String → LabelSet → Prop} {c c' : Catalog} {a : ArrayCall}
    {array : List Nat} (h : a.call c = .ok array c') :
    ∃ metricName, a.metricName = some metricName ∧ Edits A c c' ∧
      Encodes c' metricName a.labels array := by
  cases a with
  | kv metricName labels =>
    exact ⟨metricName, rfl, getOrCreateLabelArray_edits h⟩
  | jsonb js =>
    cases hname : jsonMetricName js with
    | none => simp [ArrayCall.call, getOrCreateLabelArrayJsonb, hname] at h
    | some metricName =>
      rw [ArrayCall.call, getOrCreateLabelArrayJsonb_eq hname] at h
      exact ⟨metricName, hname, getOrCreateLabelArray_edits h⟩

/-- The array has each label at the position of its key and zeros elsewhere, and is
decoded to the label set in every state that a run without drops reaches later. -/
theorem labelArray_decodes {before : List Action} (hbefore : NoDrops before) (a : ArrayCall)
    (hkeys : (a.labels.map (·.1)).Nodup) {array : List Nat} {c : Catalog}
    (h : a.call (run step Catalog.empty before) = .ok array c) :
    (∃ metricName, a.metricName = some metricName ∧
      IsLabelArray c metricName a.labels array) ∧
    ∀ later, NoDrops later → Decodes (run step c later) array a.labels := by
  obtain ⟨metricName, hmetric, hedits, hencodes⟩ := arrayCall_edits (A := fun _ _ => True) h
  have hwf : WellFormed c := (wellFormed_empty.edits (run_edits hbefore)).edits hedits
  refine ⟨⟨metricName, hmetric, isLabelArray_of_encodes hwf.positions hkeys hencodes⟩, ?_⟩
  intro later hlater
  exact decodes_of_encodes (wellFormed_run hwf later) hkeys (hencodes.edits (run_edits hlater))

theorem labelArray_decodes_cpu : ∃ c,
    (ArrayCall.kv "cpu" [("__name__", "cpu"), ("zone", "eu")]).call
      (run step Catalog.empty [.labelArray "cpu" [("__name__", "cpu"), ("job", "node")]]) =
        .ok [1, 0, 3] c ∧
    Decodes (run step c [.labelId "job" "db"]) [1, 0, 3]
      [("__name__", "cpu"), ("zone", "eu")] := by
  have h := eq_ok_of_transaction (x := (ArrayCall.kv "cpu" [("__name__", "cpu"),
    ("zone", "eu")]).call) (a := [1, 0, 3])
    (c := run step Catalog.empty [.labelArray "cpu" [("__name__", "cpu"), ("job", "node")]])
    (by decide +kernel)
  refine ⟨_, h, ?_⟩
  exact (labelArray_decodes (by simp [NoDrops, Action.isDrop]) _ (by simp [ArrayCall.labels])
    h).2 [.labelId "job" "db"] (by simp [NoDrops, Action.isDrop])

theorem Stored.edits {A : String → LabelSet → Prop} {c c' : Catalog} {metricName : String}
    {labels : LabelSet} {id : Nat} (h : Stored c metricName labels id) (hedits : Edits A c c') :
    Stored c' metricName labels id := by
  obtain ⟨array, hencodes, m, hm, hname, p, s, hp, hs, hid, hlabels⟩ := h
  obtain ⟨m', hm', hname', htable', -⟩ := Edits.metric_mem hedits hm
  obtain ⟨p', hp', -, -, hrows⟩ := Edits.partition_eq hedits hp
  exact ⟨array, hencodes.edits hedits, m', hm', hname'.trans hname, p', s, htable' ▸ hp',
    hrows s hs, hid, hlabels⟩

theorem Stored.id_eq_iff {c : Catalog} {metricName metricName' : String}
    {labels labels' : LabelSet} {id id' : Nat} (hwf : WellFormed c)
    (hset : NamedSet metricName labels) (hset' : NamedSet metricName' labels')
    (h : Stored c metricName labels id) (h' : Stored c metricName' labels' id') :
    id = id' ↔ ∀ kv, kv ∈ labels ↔ kv ∈ labels' := by
  obtain ⟨array, hencodes, m, hm, rfl, p, s, hp, hs, rfl, rfl⟩ := h
  obtain ⟨array', hencodes', m', hm', rfl, p', s', hp', hs', rfl, rfl⟩ := h'
  have harray := isLabelArray_of_encodes hwf.positions hset.1 hencodes
  have harray' := isLabelArray_of_encodes hwf.positions hset'.1 hencodes'
  constructor
  · intro hid kv
    obtain ⟨-, rfl⟩ := hwf.series.idInj _ p hp _ p' hp' s hs s' hs' hid
    rw [harray.mem_iff hwf.labels, harray'.mem_iff hwf.labels]
  · intro hsame
    obtain rfl := hwf.metrics.nameInj m hm m' hm' (hset.metricName_eq hset' hsame)
    obtain rfl : p = p' := by simpa [hp] using hp'
    have hlabels := harray.unique harray' hsame (List.ne_nil_of_mem hset.2)
    rw [hwf.series.labelsInj _ p hp s hs s' hs' hlabels]

/-- A call of one of the two functions that give a series its id. -/
inductive SeriesCall where
  | kv (metricName : String) (labels : LabelSet)
  | jsonb (label : LabelSet)

/-- The labels that the call is for. -/
def SeriesCall.labels : SeriesCall → LabelSet
  | .kv _ labels => labels
  | .jsonb label => label

def SeriesCall.call : SeriesCall → Tx Nat
  | .kv metricName labels => do
    let (_, id) ← getOrCreateSeriesIdForKvArray metricName labels
    return id
  | .jsonb label => getOrCreateSeriesId label

/-- The keys are different and the label `__name__` is the name of the metric. -/
def SeriesCall.Proper : SeriesCall → Prop
  | .kv metricName labels => NamedSet metricName labels
  | .jsonb label => (label.map (·.1)).Nodup ∧ metricNameLabelName ∈ label.map (·.1)

theorem namedSet_jsonMetricName {label : LabelSet} {metricName : String}
    (hkeys : (label.map (·.1)).Nodup) (h : jsonMetricName label = some metricName) :
    NamedSet metricName label := by
  obtain ⟨kv, hfind, rfl⟩ := Option.map_eq_some_iff.mp h
  have hkey := List.find?_some hfind
  simp only [decide_eq_true_eq] at hkey
  exact ⟨hkeys, hkey ▸ List.mem_of_find?_eq_some hfind⟩

theorem seriesCall_stored {A : String → LabelSet → Prop} (hA : ∀ metricName labels,
    A metricName labels) {c c' : Catalog} {a : SeriesCall} {id : Nat} (hproper : a.Proper)
    (h : a.call c = .ok id c') :
    Edits A c c' ∧ ∃ metricName, NamedSet metricName a.labels ∧
      Stored c' metricName a.labels id := by
  cases a with
  | kv metricName labels =>
    simp only [SeriesCall.call, bind_eq_ok, pure_eq_ok] at h
    obtain ⟨⟨tableName, id'⟩, c₁, hcall, rfl, rfl⟩ := h
    obtain ⟨hedits, hstored⟩ := getOrCreateSeriesIdForKvArray_edits (hA metricName labels) hcall
    exact ⟨hedits, metricName, hproper, hstored⟩
  | jsonb label =>
    cases hname : jsonMetricName label with
    | none => simp [SeriesCall.call, getOrCreateSeriesId, hname] at h
    | some metricName =>
      obtain ⟨hedits, hstored⟩ := getOrCreateSeriesId_edits hname (hA metricName label) h
      exact ⟨hedits, metricName, namedSet_jsonMetricName hproper.1 hname, hstored⟩

/-- Two calls of a run without drops return the same id exactly if they were given
the same label set. -/
theorem seriesId_eq_iff {before between : List Action} (hbefore : NoDrops before)
    (hbetween : NoDrops between) (first second : SeriesCall) (hfirst : first.Proper)
    (hsecond : second.Proper) {id₁ id₂ : Nat} {c₁ c₂ : Catalog}
    (h₁ : first.call (run step Catalog.empty before) = .ok id₁ c₁)
    (h₂ : second.call (run step c₁ between) = .ok id₂ c₂) :
    id₁ = id₂ ↔ first.labels.Perm second.labels := by
  obtain ⟨hedits₁, name₁, hset₁, hstored₁⟩ :=
    seriesCall_stored (A := fun _ _ => True) (fun _ _ => trivial) hfirst h₁
  obtain ⟨hedits₂, name₂, hset₂, hstored₂⟩ :=
    seriesCall_stored (A := fun _ _ => True) (fun _ _ => trivial) hsecond h₂
  have hwf : WellFormed c₂ := (((wellFormed_empty.edits (run_edits hbefore)).edits hedits₁).edits
    (run_edits hbetween)).edits hedits₂
  have hkept : Stored c₂ name₁ first.labels id₁ :=
    Stored.edits (Stored.edits hstored₁ (run_edits hbetween)) hedits₂
  rw [Stored.id_eq_iff hwf hset₁ hset₂ hkept hstored₂, List.perm_ext_iff_of_nodup
    (List.Nodup.of_map _ hset₁.1) (List.Nodup.of_map _ hset₂.1)]

theorem seriesId_eq_iff_cpu : ∃ id₁ id₂ c₁ c₂,
    (SeriesCall.kv "cpu" [("__name__", "cpu"), ("job", "node")]).call
      (run step Catalog.empty []) = .ok id₁ c₁ ∧
    (SeriesCall.jsonb [("job", "node"), ("__name__", "cpu")]).call
      (run step c₁ [.labelKeyPos "cpu" "zone"]) = .ok id₂ c₂ ∧
    (id₁ = id₂ ↔ List.Perm [("__name__", "cpu"), ("job", "node")]
      [("job", "node"), ("__name__", "cpu")]) := by
  have h₁ := eq_ok_of_transaction (a := 1) (c := run step Catalog.empty [])
    (x := (SeriesCall.kv "cpu" [("__name__", "cpu"), ("job", "node")]).call) (by decide +kernel)
  have h₂ := eq_ok_of_transaction (a := 1)
    (x := (SeriesCall.jsonb [("job", "node"), ("__name__", "cpu")]).call)
    (c := run step (transaction
      (SeriesCall.kv "cpu" [("__name__", "cpu"), ("job", "node")]).call
      (run step Catalog.empty [])).2 [.labelKeyPos "cpu" "zone"]) (by decide +kernel)
  refine ⟨_, _, _, _, h₁, h₂, ?_⟩
  exact seriesId_eq_iff (by simp [NoDrops]) (by simp [NoDrops, Action.isDrop]) _ _
    (by simp [SeriesCall.Proper, NamedSet, metricNameLabelName])
    (by simp [SeriesCall.Proper, metricNameLabelName]) h₁ h₂

end TimescalePrometheus.Sql.SeriesIdentity
