import TimescalePrometheus.Sql.FunctionEdits

/-!
The columns of the two views of a metric. The functions that generate them may
add label keys, but a key that has its columns keeps them.
-/

namespace TimescalePrometheus.Sql.ViewColumns

open Lib.Transactions Sql.Names Sql.Tables Sql.LabelKeys Sql.CatalogEdits Sql.FunctionEdits

/-- The label key whose columns stand for the given key in a view. -/
def viewKey (labelKey : String) : String :=
  if labelKey ∈ reservedColumnNames then "label_" ++ labelKey else labelKey

def columnName (row : LabelKeyRow) (id : Bool) : String :=
  if id then row.idColumnName else row.valueColumnName

def labelKey? (c : Catalog) (key : String) : Option LabelKeyRow :=
  c.labelKey.find? fun k => k.key = key

/-- The column that stands for a key in the view with values or with ids, if its
label key is stored. -/
def column? (c : Catalog) (id : Bool) (key : String) : Option String :=
  (labelKey? c (viewKey key)).map fun row => columnName row id

/-- The row that `create_label_key` inserts next. -/
def newLabelKey (c : Catalog) (key : String) : LabelKeyRow :=
  let id := c.lastValue .labelKey + 1
  { id, key
    valueColumnName := pgNameUnique key (toString id)
    idColumnName := pgNameUnique (key ++ "_id") (toString id ++ "_id") }

/-- Label keys are told apart by their ids, from which the column names of long keys
are made. -/
structure KeysWellFormed (c : Catalog) : Prop where
  bound : ∀ k ∈ c.labelKey, k.id ≤ c.lastValue .labelKey
  idInj : ∀ k ∈ c.labelKey, ∀ k' ∈ c.labelKey, k.id = k'.id → k = k'
  value : ∀ k ∈ c.labelKey, k.valueColumnName = pgNameUnique k.key (toString k.id)
  idName : ∀ k ∈ c.labelKey,
    k.idColumnName = pgNameUnique (k.key ++ "_id") (toString k.id ++ "_id")

theorem KeysWellFormed.of_eq {c c' : Catalog} (h : KeysWellFormed c)
    (hkeys : c'.labelKey = c.labelKey)
    (hlast : c.lastValue .labelKey ≤ c'.lastValue .labelKey) : KeysWellFormed c' := by
  refine ⟨?_, ?_, ?_, ?_⟩ <;> rw [hkeys]
  · exact fun k hk => (h.bound k hk).trans hlast
  · exact h.idInj
  · exact h.value
  · exact h.idName

/-- The catalogs differ in added label keys only, and in how far the sequences are. -/
structure KeysGrow (c c' : Catalog) : Prop where
  unobserved : Unobserved c c'
  keys : c.labelKey <+: c'.labelKey
  seriesView : c'.seriesView = c.seriesView
  metricView : c'.metricView = c.metricView
  wellFormed : KeysWellFormed c → KeysWellFormed c'

namespace KeysGrow

variable {c c' c'' : Catalog}

theorem refl (c : Catalog) : KeysGrow c c :=
  ⟨.refl c, List.prefix_rfl, rfl, rfl, id⟩

theorem trans (h : KeysGrow c c') (h' : KeysGrow c' c'') : KeysGrow c c'' :=
  ⟨h.unobserved.trans h'.unobserved, h.keys.trans h'.keys,
    h'.seriesView.trans h.seriesView, h'.metricView.trans h.metricView,
    fun hwf => h'.wellFormed (h.wellFormed hwf)⟩

end KeysGrow

variable {c : Catalog}

theorem column?_of_keys {c' : Catalog} (h : c.labelKey <+: c'.labelKey) {id : Bool}
    {key column : String} (hcolumn : column? c id key = some column) :
    column? c' id key = some column := by
  obtain ⟨row, hrow, rfl⟩ := Option.map_eq_some_iff.mp hcolumn
  obtain ⟨rows, hrows⟩ := h
  unfold labelKey? at hrow
  unfold column? labelKey?
  rw [← hrows, List.find?_append, hrow, Option.some_or, Option.map_some]

theorem createLabelKey_eq_of_none {key : String} (hnone : labelKey? c key = none) :
    createLabelKey key c = .ok (newLabelKey c key) { c with
      labelKey := c.labelKey ++ [newLabelKey c key]
      lastValue := Function.update c.lastValue .labelKey (c.lastValue .labelKey + 1) } := by
  have hnext : nextval .labelKey c = .ok (c.lastValue .labelKey + 1) { c with
      lastValue := Function.update c.lastValue .labelKey (c.lastValue .labelKey + 1) } :=
    nextval_eq_ok.mpr ⟨rfl, rfl⟩
  have hfind : (c.labelKey.find? fun k => k.key = key) = none := hnone
  unfold createLabelKey
  rw [bind_of_ok hnext, get_bind]
  simp only [hfind]
  rfl

theorem keysGrow_newLabelKey {key : String} :
    KeysGrow c { c with
      labelKey := c.labelKey ++ [newLabelKey c key]
      lastValue := Function.update c.lastValue .labelKey (c.lastValue .labelKey + 1) } where
  unobserved := ⟨rfl, rfl, rfl, rfl, fun _ => rfl, (unobserved_bump c .labelKey).lastValue⟩
  keys := List.prefix_append _ _
  seriesView := rfl
  metricView := rfl
  wellFormed hwf := by
    have hlt : ∀ k ∈ c.labelKey, k.id < (newLabelKey c key).id :=
      fun k hk => Nat.lt_succ_of_le (hwf.bound k hk)
    refine ⟨?_, ?_, ?_, ?_⟩ <;> simp only [List.mem_append, List.mem_singleton]
    · rintro k (hk | rfl)
      · rw [Function.update_self]
        exact (hlt k hk).le
      · rw [Function.update_self]
        exact le_rfl
    · rintro k (hk | rfl) k' (hk' | rfl) heq
      · exact hwf.idInj k hk k' hk' heq
      · exact absurd heq (hlt k hk).ne
      · exact absurd heq.symm (hlt k' hk').ne
      · rfl
    · rintro k (hk | rfl)
      · exact hwf.value k hk
      · rfl
    · rintro k (hk | rfl)
      · exact hwf.idName k hk
      · rfl

theorem getOrCreateLabelKey_returns (c : Catalog) (key : String) :
    Returns (getOrCreateLabelKey key) c fun row c' =>
      KeysGrow c c' ∧ labelKey? c' key = some row ∧
        c'.lastValue .labelKey ≤ c.lastValue .labelKey +
          if (labelKey? c key).isNone then 1 else 0 := by
  apply returns_get_bind
  cases hkey : labelKey? c key with
  | some row =>
    have hfind : (c.labelKey.find? fun k => k.key = key) = some row := hkey
    simp only [hfind]
    exact returns_pure ⟨.refl c, hkey, by simp⟩
  | none =>
    have hfind : (c.labelKey.find? fun k => k.key = key) = none := hkey
    simp only [hfind]
    refine ⟨_, _, createLabelKey_eq_of_none hkey, keysGrow_newLabelKey, ?_, by simp⟩
    unfold labelKey? at hkey ⊢
    rw [List.find?_append, hkey]
    simp [newLabelKey]

theorem getLabelKeyColumnNameForView_returns (c : Catalog) (key : String) (id : Bool) :
    Returns (getLabelKeyColumnNameForView key id) c fun column c' =>
      KeysGrow c c' ∧ column? c' id key = some column ∧
        c'.lastValue .labelKey ≤ c.lastValue .labelKey +
          if (labelKey? c (viewKey key)).isNone then 1 else 0 := by
  refine (getOrCreateLabelKey_returns c (viewKey key)).bind ?_
  rintro row c' ⟨hgrow, hrow, hlast⟩
  refine returns_pure ⟨hgrow, ?_, hlast⟩
  rw [column?, hrow]
  rfl

/-- The listed columns are those of the keys of the listed rows. -/
def Columns (c : Catalog) (id : Bool) (rows : List LabelKeyPositionRow) (columns : List String) :
    Prop :=
  List.Forall₂ (fun row column => column? c id row.key = some column) rows columns

section Columns

variable {c' : Catalog} {id : Bool} {rows more : List LabelKeyPositionRow}
  {columns columns' : List String}

theorem Columns.grow (h : Columns c id rows columns) (hkeys : c.labelKey <+: c'.labelKey) :
    Columns c' id rows columns :=
  h.imp fun _ _ hcolumn => column?_of_keys hkeys hcolumn

theorem Columns.prefix_of_append (h : Columns c id rows columns)
    (h' : Columns c id (rows ++ more) columns') : columns <+: columns' := by
  induction h generalizing columns' with
  | nil => exact List.nil_prefix
  | cons hcolumn _ ih =>
    cases h' with
    | cons hcolumn' hrest =>
      obtain rfl := Option.some.inj (hcolumn.symm.trans hcolumn')
      exact (List.prefix_cons_inj _).mpr (ih hrest)

theorem Columns.exists_of_mem (h : Columns c id rows columns) {row : LabelKeyPositionRow}
    (hrow : row ∈ rows) : ∃ column ∈ columns, column? c id row.key = some column := by
  induction h with
  | nil => simp at hrow
  | @cons row' column rows columns hcolumn _ ih =>
    rcases List.mem_cons.mp hrow with rfl | hrow
    · exact ⟨column, List.mem_cons_self, hcolumn⟩
    · obtain ⟨column', hmem, hcolumn'⟩ := ih hrow
      exact ⟨column', List.mem_cons_of_mem _ hmem, hcolumn'⟩

end Columns

/-- How many of the listed keys have no columns yet. -/
def missing (c : Catalog) (rows : List LabelKeyPositionRow) : Nat :=
  rows.countP fun row => (labelKey? c (viewKey row.key)).isNone

theorem KeysGrow.missing_le {c' : Catalog} (h : KeysGrow c c') (rows : List LabelKeyPositionRow) :
    missing c' rows ≤ missing c rows := by
  refine List.countP_mono_left fun row _ hrow => ?_
  rw [Option.isNone_iff_eq_none] at hrow ⊢
  obtain ⟨more, hmore⟩ := h.keys
  unfold labelKey? at hrow ⊢
  rw [← hmore, List.find?_append, Option.or_eq_none_iff] at hrow
  exact hrow.1

theorem Columns.missing_eq_zero {id : Bool} {rows : List LabelKeyPositionRow}
    {columns : List String} (h : Columns c id rows columns) : missing c rows = 0 := by
  refine List.countP_eq_zero.mpr fun row hrow hnone => ?_
  obtain ⟨column, -, hcolumn⟩ := h.exists_of_mem hrow
  rw [column?, Option.isNone_iff_eq_none.mp hnone] at hcolumn
  simp at hcolumn

theorem labelKeyColumns_returns (c : Catalog) (id : Bool) (rows : List LabelKeyPositionRow) :
    Returns (labelKeyColumns id rows) c fun columns c' => KeysGrow c c' ∧
      columns.map (·.1) = rows.map (·.pos) ∧ Columns c' id rows (columns.map (·.2)) ∧
      c'.lastValue .labelKey ≤ c.lastValue .labelKey + missing c rows := by
  induction rows generalizing c with
  | nil => exact returns_pure ⟨.refl c, rfl, .nil, Nat.le_add_right _ _⟩
  | cons row rows ih =>
    refine (getLabelKeyColumnNameForView_returns c row.key id).bind ?_
    rintro column c₁ ⟨hgrow, hcolumn, hlast⟩
    refine (ih c₁).bind ?_
    rintro columns c₂ ⟨hgrow', hpos, hcolumns, hlast'⟩
    refine returns_pure ⟨hgrow.trans hgrow', ?_, ?_, ?_⟩
    · simp [hpos]
    · exact .cons (column?_of_keys hgrow'.keys hcolumn) hcolumns
    · have hmissing := hgrow.missing_le rows
      have hcons : missing c (row :: rows) = missing c rows +
          if (labelKey? c (viewKey row.key)).isNone then 1 else 0 := List.countP_cons
      omega

/-- The rows whose keys have a column in the views of the metric, in the order in
which they were inserted. -/
def labelRows (c : Catalog) (metricName : String) : List LabelKeyPositionRow :=
  c.labelKeyPosition.filter fun p => p.metricName = metricName ∧ p.key ≠ metricNameLabelName

theorem labelValueCols_returns {metricName : String} (id : Bool)
    (hasc : (labelRows c metricName).Pairwise fun p q => p.pos < q.pos) :
    Returns (labelValueCols metricName id) c fun columns c' =>
      KeysGrow c c' ∧ Columns c' id (labelRows c metricName) columns ∧
        c'.lastValue .labelKey ≤ c.lastValue .labelKey + missing c (labelRows c metricName) := by
  apply returns_get_bind
  refine (labelKeyColumns_returns c id (labelRows c metricName)).bind ?_
  rintro columns c' ⟨hgrow, hpos, hcolumns, hlast⟩
  refine returns_pure ⟨hgrow, ?_, hlast⟩
  have hsorted : (columns.map (·.1)).Pairwise (· ≤ ·) := by
    rw [hpos, List.pairwise_map]
    exact hasc.imp fun h => h.le
  rw [(List.pairwise_map.mp hsorted).insertionSort_eq]
  exact hcolumns

def view (c : Catalog) (id : Bool) : String → Option (List String) :=
  if id then c.metricView else c.seriesView

def setView (c : Catalog) (id : Bool) (tableName : String) (columns : List String) : Catalog :=
  if id then { c with metricView := Function.update c.metricView tableName (some columns) }
  else { c with seriesView := Function.update c.seriesView tableName (some columns) }

/-- The columns before those of the label keys. -/
def fixedColumns (id : Bool) : List String :=
  if id then ["time", "value", "series_id", "labels"] else ["series_id", "labels"]

/-- Either view of a metric. -/
def createView (id : Bool) (metricName : String) : Tx Unit := do
  let labelCols ← labelValueCols metricName id
  let c ← get
  match c.metric? metricName with
  | none => throw .noDataFound
  | some m =>
    let columns := fixedColumns id ++ labelCols
    checkView (view c id m.tableName) columns
    set (setView c id m.tableName columns)

@[simp] theorem setView_labelKey (id : Bool) (tableName : String) (columns : List String) :
    (setView c id tableName columns).labelKey = c.labelKey := by
  cases id <;> rfl

@[simp] theorem setView_labelKeyPosition (id : Bool) (tableName : String)
    (columns : List String) :
    (setView c id tableName columns).labelKeyPosition = c.labelKeyPosition := by
  cases id <;> rfl

@[simp] theorem setView_metric (id : Bool) (tableName : String) (columns : List String) :
    (setView c id tableName columns).metric = c.metric := by
  cases id <;> rfl

@[simp] theorem setView_lastValue (id : Bool) (tableName : String) (columns : List String) :
    (setView c id tableName columns).lastValue = c.lastValue := by
  cases id <;> rfl

theorem view_setView (id id' : Bool) (tableName tableName' : String) (columns : List String) :
    view (setView c id tableName columns) id' tableName' =
      if id' = id ∧ tableName' = tableName then some columns else view c id' tableName' := by
  cases id <;> cases id' <;> by_cases ht : tableName' = tableName <;>
    simp [view, setView, ht]

theorem createSeriesView_eq : createSeriesView = createView false := rfl

theorem createMetricView_eq : createMetricView = createView true := rfl

theorem KeysGrow.view_eq {c' : Catalog} (h : KeysGrow c c') (id : Bool) :
    view c' id = view c id := by
  unfold view
  rw [h.seriesView, h.metricView]

theorem KeysGrow.metric?_eq {c' : Catalog} (h : KeysGrow c c') (metricName : String) :
    c'.metric? metricName = c.metric? metricName := by
  unfold Catalog.metric?
  rw [h.unobserved.metric]

theorem KeysGrow.labelRows_eq {c' : Catalog} (h : KeysGrow c c') (metricName : String) :
    labelRows c' metricName = labelRows c metricName := by
  unfold labelRows
  rw [h.unobserved.position]

theorem createView_eq {metricName : String} (id : Bool) {m : MetricRow}
    (hasc : (labelRows c metricName).Pairwise fun p q => p.pos < q.pos)
    (hmetric : c.metric? metricName = some m) :
    ∃ columns c', KeysGrow c c' ∧ Columns c' id (labelRows c metricName) columns ∧
      c'.lastValue .labelKey ≤ c.lastValue .labelKey + missing c (labelRows c metricName) ∧
      createView id metricName c =
        if ¬ (fixedColumns id ++ columns).Nodup then .error .duplicateColumn c'
        else if ¬ ((view c id m.tableName).getD []) <+: fixedColumns id ++ columns then
          .error .invalidViewChange c'
        else .ok () (setView c' id m.tableName (fixedColumns id ++ columns)) := by
  obtain ⟨columns, c', hok, hgrow, hcolumns, hlast⟩ := labelValueCols_returns id hasc
  refine ⟨columns, c', hgrow, hcolumns, hlast, ?_⟩
  unfold createView
  rw [bind_of_ok hok, get_bind]
  simp only [hgrow.metric?_eq, hmetric]
  change (checkView (view c' id m.tableName) (fixedColumns id ++ columns) >>= _) c' = _
  rw [hgrow.view_eq]
  unfold checkView
  split
  · rfl
  · split
    · rfl
    · rfl

end TimescalePrometheus.Sql.ViewColumns
