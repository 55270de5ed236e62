import TimescalePrometheus.Sql.ViewColumns
import TimescalePrometheus.Sql.CatalogRuns

/-!
Where the label keys of a metric stand in its label arrays, and what this means for
its views, when sessions that add keys run between each other.
-/

namespace TimescalePrometheus.Sql.KeyPositions

open Lib.Runs Lib.Transactions Sql.Tables Sql.Metrics Sql.LabelKeys Sql.Series Sql.Retention
open Sql.CatalogEdits Sql.FunctionEdits Sql.Sequences Sql.Invariant Sql.ViewColumns

/-- A key has one position in a metric. The name of the metric stands at 1 and the other
keys fill the positions from 2 on, in the order in which they were recorded. -/
structure PositionsDense (c : Catalog) : Prop where
  keyNodup : (c.labelKeyPosition.map fun p => (p.metricName, p.key)).Nodup
  named : ∀ p ∈ c.labelKeyPosition, p.key = metricNameLabelName → p.pos = 1
  dense : ∀ metricName, (labelRows c metricName).map (·.pos) =
    List.range' 2 (labelRows c metricName).length

/-- A metric with keys has its two views, which list the columns of the keys in the order
of their positions and no column twice. -/
structure ViewsWellFormed (c : Catalog) : Prop where
  positions : PositionsDense c
  keys : KeysWellFormed c
  names : ∀ m ∈ c.metric, ∀ m' ∈ c.metric,
    m.metricName = m'.metricName ↔ m.tableName = m'.tableName
  owned : ∀ id t columns, view c id t = some columns → ∃ m ∈ c.metric, m.tableName = t
  current : ∀ m ∈ c.metric, ∀ id columns, view c id m.tableName = some columns →
    ∃ labelCols, columns = fixedColumns id ++ labelCols ∧
      Columns c id (labelRows c m.metricName) labelCols
  nodup : ∀ id t columns, view c id t = some columns → columns.Nodup
  viewed : ∀ p ∈ c.labelKeyPosition, ∃ m ∈ c.metric, m.metricName = p.metricName ∧
    ∀ id, (view c id m.tableName).isSome

theorem viewsWellFormed_empty : ViewsWellFormed Catalog.empty where
  positions := ⟨List.nodup_nil, by simp [Catalog.empty], fun _ => rfl⟩
  keys := ⟨by simp [Catalog.empty], by simp [Catalog.empty], by simp [Catalog.empty],
    by simp [Catalog.empty]⟩
  names := by simp [Catalog.empty]
  owned id t columns h := by cases id <;> simp [view, Catalog.empty] at h
  current := by simp [Catalog.empty]
  nodup id t columns h := by cases id <;> simp [view, Catalog.empty] at h
  viewed := by simp [Catalog.empty]

section Positions

variable {c : Catalog}

theorem PositionsDense.of_eq {c' : Catalog} (h : PositionsDense c)
    (hposition : c'.labelKeyPosition = c.labelKeyPosition) : PositionsDense c' := by
  refine ⟨?_, ?_, ?_⟩ <;> simp only [labelRows, hposition]
  · exact h.keyNodup
  · exact h.named
  · exact h.dense

theorem PositionsDense.ascending (h : PositionsDense c) (metricName : String) :
    (labelRows c metricName).Pairwise fun p q => p.pos < q.pos := by
  rw [← List.pairwise_map (f := LabelKeyPositionRow.pos) (R := (· < ·)), h.dense]
  exact List.pairwise_lt_range'

theorem PositionsDense.posInj (h : PositionsDense c) {p q : LabelKeyPositionRow}
    (hp : p ∈ c.labelKeyPosition) (hq : q ∈ c.labelKeyPosition)
    (hname : p.metricName = q.metricName) (hpos : p.pos = q.pos) : p = q := by
  have hrow : ∀ r ∈ c.labelKeyPosition, r.metricName = q.metricName →
      r.key ≠ metricNameLabelName → r ∈ labelRows c q.metricName :=
    fun r hr hr' hkey => List.mem_filter.mpr ⟨hr, by simp [hr', hkey]⟩
  have hlower : ∀ r ∈ labelRows c q.metricName, 2 ≤ r.pos := by
    intro r hr
    have hmem : r.pos ∈ (labelRows c q.metricName).map (·.pos) := List.mem_map_of_mem hr
    rw [h.dense] at hmem
    exact (List.mem_range'_1.mp hmem).1
  by_cases hpkey : p.key = metricNameLabelName <;> by_cases hqkey : q.key = metricNameLabelName
  · exact List.inj_on_of_nodup_map h.keyNodup hp hq (by rw [hname, hpkey, hqkey])
  · have := hlower q (hrow q hq rfl hqkey)
    have := h.named p hp hpkey
    omega
  · have := hlower p (hrow p hp hname hpkey)
    have := h.named q hq hqkey
    omega
  · have hnodup : ((labelRows c q.metricName).map (·.pos)).Nodup := by
      rw [h.dense]
      exact List.nodup_range'
    exact List.inj_on_of_nodup_map hnodup (hrow p hp hname hpkey) (hrow q hq rfl hqkey) hpos

theorem PositionsDense.nextPosition_eq (h : PositionsDense c) (metricName : String)
    {key : String} (hkey : key ≠ metricNameLabelName) :
    nextPosition c metricName key = 2 + (labelRows c metricName).length := by
  have hmax : maxPos c metricName = none ∧ labelRows c metricName = [] ∨
      maxPos c metricName = some (1 + (labelRows c metricName).length) := by
    cases htop : maxPos c metricName with
    | none =>
      refine .inl ⟨rfl, List.filter_eq_nil_iff.mpr ?_⟩
      intro p hp hrow
      simp only [decide_eq_true_eq] at hrow
      obtain ⟨top, htop', -⟩ := le_maxPos hp hrow.1
      simp [htop] at htop'
    | some top =>
      obtain ⟨hmem, hle⟩ := List.max?_eq_some_iff.mp htop
      obtain ⟨p, hp, rfl⟩ := List.mem_map.mp hmem
      simp only [List.mem_filter, decide_eq_true_eq] at hp
      have hrows : ∀ q ∈ labelRows c metricName, q.pos ≤ p.pos := by
        intro q hq
        obtain ⟨hq, hrow⟩ := List.mem_filter.mp hq
        simp only [decide_eq_true_eq] at hrow
        exact hle _ (List.mem_map_of_mem (List.mem_filter.mpr ⟨hq, by simpa using hrow.1⟩))
      -- the last of the recorded keys has the top position, if there is one
      have hlast : labelRows c metricName ≠ [] → 1 + (labelRows c metricName).length ≤ p.pos := by
        intro hne
        have hlen := List.length_pos_iff.mpr hne
        have hin : 1 + (labelRows c metricName).length ∈
            (labelRows c metricName).map (·.pos) := by
          rw [h.dense, List.mem_range'_1]
          omega
        obtain ⟨q, hq, hqpos⟩ := List.mem_map.mp hin
        exact hqpos ▸ hrows q hq
      right
      by_cases hpkey : p.key = metricNameLabelName
      · have hpos := h.named p hp.1 hpkey
        by_cases hne : labelRows c metricName = []
        · simp [hpos, hne]
        · have := hlast hne
          have := List.length_pos_iff.mpr hne
          omega
      · have hin : p.pos ∈ (labelRows c metricName).map (·.pos) :=
          List.mem_map_of_mem (List.mem_filter.mpr ⟨hp.1, by simp [hp.2, hpkey]⟩)
        have hne : labelRows c metricName ≠ [] := by
          rintro hnil
          simp [hnil] at hin
        have := hlast hne
        rw [h.dense, List.mem_range'_1] at hin
        congr 1
        omega
  obtain ⟨hnone, hnil⟩ | hsome := hmax
  · simp [nextPosition, hkey, hnone, hnil]
  · simp only [nextPosition, hkey, if_false, hsome]
    omega

end Positions

/-- Both views of the metric were generated anew, for the keys it has; `last` bounds the
ids of the label keys. -/
structure Regenerated (c c' : Catalog) (m : MetricRow) (last : Nat) : Prop where
  position : c'.labelKeyPosition = c.labelKeyPosition
  metric : c'.metric = c.metric
  keys : c.labelKey <+: c'.labelKey
  wellFormed : KeysWellFormed c'
  lastValue : c'.lastValue .labelKey ≤ last
  others : ∀ id t, t ≠ m.tableName → view c' id t = view c id t
  own : ∀ id, ∃ columns, view c' id m.tableName = some (fixedColumns id ++ columns) ∧
    Columns c' id (labelRows c m.metricName) columns ∧ (fixedColumns id ++ columns).Nodup

/-- A view of the metric would list a column twice, once the label keys it needs are
stored. -/
def Clashes (c : Catalog) (metricName : String) (last : Nat) : Prop :=
  ∃ c' id columns, KeysWellFormed c' ∧ c'.lastValue .labelKey ≤ last ∧
    Columns c' id (labelRows c metricName) columns ∧ ¬ (fixedColumns id ++ columns).Nodup

section Regenerate

variable {c : Catalog} {m : MetricRow}

theorem createView_cases (id : Bool) (hkeys : KeysWellFormed c)
    (hasc : (labelRows c m.metricName).Pairwise fun p q => p.pos < q.pos)
    (hmetric : c.metric? m.metricName = some m)
    (hextends : ∀ c' columns, c.labelKey <+: c'.labelKey →
      Columns c' id (labelRows c m.metricName) columns →
        ((view c id m.tableName).getD []) <+: fixedColumns id ++ columns) :
    (∃ columns c', KeysGrow c c' ∧ Columns c' id (labelRows c m.metricName) columns ∧
      c'.lastValue .labelKey ≤ c.lastValue .labelKey + missing c (labelRows c m.metricName) ∧
      (fixedColumns id ++ columns).Nodup ∧ createView id m.metricName c =
        .ok () (setView c' id m.tableName (fixedColumns id ++ columns))) ∨
    Clashes c m.metricName
        (c.lastValue .labelKey + missing c (labelRows c m.metricName)) ∧
      ∃ c', createView id m.metricName c = .error .duplicateColumn c' := by
  obtain ⟨columns, c', hgrow, hcolumns, hlast, heq⟩ := createView_eq id hasc hmetric
  rw [if_neg (not_not_intro (hextends c' columns hgrow.keys hcolumns))] at heq
  by_cases hnodup : (fixedColumns id ++ columns).Nodup
  · rw [if_neg (not_not_intro hnodup)] at heq
    exact .inl ⟨columns, c', hgrow, hcolumns, hlast, hnodup, heq⟩
  · rw [if_pos hnodup] at heq
    exact .inr ⟨⟨c', id, columns, hgrow.wellFormed hkeys, hlast, hcolumns, hnodup⟩, c', heq⟩

theorem regenerate_cases (hkeys : KeysWellFormed c)
    (hasc : (labelRows c m.metricName).Pairwise fun p q => p.pos < q.pos)
    (hmetric : c.metric? m.metricName = some m)
    (hextends : ∀ id c' columns, c.labelKey <+: c'.labelKey →
      Columns c' id (labelRows c m.metricName) columns →
        ((view c id m.tableName).getD []) <+: fixedColumns id ++ columns) :
    (∃ c₁ c', createSeriesView m.metricName c = .ok () c₁ ∧
      createMetricView m.metricName c₁ = .ok () c' ∧
      Regenerated c c' m (c.lastValue .labelKey + missing c (labelRows c m.metricName))) ∨
    Clashes c m.metricName (c.lastValue .labelKey + missing c (labelRows c m.metricName)) ∧
      ((∃ c', createSeriesView m.metricName c = .error .duplicateColumn c') ∨
        ∃ c₁ c', createSeriesView m.metricName c = .ok () c₁ ∧
          createMetricView m.metricName c₁ = .error .duplicateColumn c') := by
  rw [createSeriesView_eq, createMetricView_eq]
  obtain ⟨columns, c₁, hgrow, hcolumns, hlast, hnodup, hseries⟩ | ⟨hclash, c₁, herror⟩ :=
    createView_cases false hkeys hasc hmetric (hextends false)
  swap
  · exact .inr ⟨hclash, .inl ⟨c₁, herror⟩⟩
  -- the second view sees the catalog as the first one left it
  set c₂ := setView c₁ false m.tableName (fixedColumns false ++ columns) with hc₂
  have hrows : labelRows c₂ m.metricName = labelRows c m.metricName := by
    rw [← hgrow.labelRows_eq, labelRows, labelRows, hc₂, setView_labelKeyPosition]
  have hlabelKey : c.labelKey <+: c₂.labelKey := by
    rw [hc₂, setView_labelKey]
    exact hgrow.keys
  have hlast₂ : c₂.lastValue .labelKey = c₁.lastValue .labelKey := by
    rw [hc₂, setView_lastValue]
  have hkeys₂ : KeysWellFormed c₂ :=
    (hgrow.wellFormed hkeys).of_eq (setView_labelKey ..) hlast₂.ge
  have hmetric₂ : c₂.metric? m.metricName = some m := by
    rw [← hmetric, ← hgrow.metric?_eq, Catalog.metric?, Catalog.metric?, hc₂, setView_metric]
  have hviewOther : ∀ t, view c₂ true t = view c true t := by
    intro t
    rw [hc₂, view_setView, if_neg (by simp), hgrow.view_eq]
  -- and finds all the label keys it needs
  have hmissing : missing c₂ (labelRows c m.metricName) = 0 := by
    have hzero := hcolumns.missing_eq_zero
    unfold missing labelKey? at hzero ⊢
    rwa [hc₂, setView_labelKey]
  obtain ⟨columns', c₃, hgrow', hcolumns', hlast', hnodup', hmetricView⟩ |
      ⟨hclash, c₃, herror⟩ :=
    createView_cases true hkeys₂ (hrows ▸ hasc) hmetric₂ (by
      intro c' columns' hstarts hcolumns'
      rw [hviewOther]
      rw [hrows] at hcolumns'
      exact hextends true c' columns' (hlabelKey.trans hstarts) hcolumns')
  swap
  · refine .inr ⟨?_, .inr ⟨c₂, c₃, hseries, herror⟩⟩
    obtain ⟨c', id, columns', hkeys', hle, hcolumns', hrepeat⟩ := hclash
    rw [hrows, hmissing, Nat.add_zero, hlast₂] at hle
    rw [hrows] at hcolumns'
    exact ⟨c', id, columns', hkeys', hle.trans hlast, hcolumns', hrepeat⟩
  rw [hrows, hmissing, Nat.add_zero, hlast₂] at hlast'
  refine .inl ⟨c₂, _, hseries, hmetricView, ?_⟩
  have hstarts : c₁.labelKey <+: c₃.labelKey := by
    have := hgrow'.keys
    rwa [hc₂, setView_labelKey] at this
  rw [hrows] at hcolumns'
  constructor
  · rw [setView_labelKeyPosition, hgrow'.unobserved.position, hc₂, setView_labelKeyPosition,
      hgrow.unobserved.position]
  · rw [setView_metric, hgrow'.unobserved.metric, hc₂, setView_metric, hgrow.unobserved.metric]
  · rw [setView_labelKey]
    exact hgrow.keys.trans hstarts
  · exact (hgrow'.wellFormed hkeys₂).of_eq (setView_labelKey ..) (by rw [setView_lastValue])
  · rw [setView_lastValue]
    exact hlast'.trans hlast
  · intro id t ht
    rw [view_setView, if_neg (by simp [ht]), hgrow'.view_eq, hc₂, view_setView,
      if_neg (by simp [ht]), hgrow.view_eq]
  · intro id
    cases id with
    | false =>
      refine ⟨columns, ?_, hcolumns.grow ?_, hnodup⟩
      · rw [view_setView, if_neg (by simp), hgrow'.view_eq, hc₂, view_setView, if_pos ⟨rfl, rfl⟩]
      · rw [setView_labelKey]
        exact hstarts
    | true =>
      refine ⟨columns', ?_, hcolumns'.grow ?_, hnodup'⟩
      · rw [view_setView, if_pos ⟨rfl, rfl⟩]
      · simp only [setView_labelKey, List.prefix_rfl]

end Regenerate

section Record

variable {c : Catalog} {m : MetricRow} {key : String}

theorem labelRows_withPosition (c : Catalog) (metricName key metricName' : String) :
    labelRows (withPosition c metricName key) metricName' = labelRows c metricName' ++
      if metricName = metricName' ∧ key ≠ metricNameLabelName then
        [{ metricName, key, pos := nextPosition c metricName key }]
      else [] := by
  unfold labelRows withPosition
  rw [List.filter_append, List.filter_singleton]
  simp only [Bool.cond_eq_ite, decide_eq_true_eq]

theorem PositionsDense.withPosition (h : PositionsDense c) {metricName key : String}
    (hnew : c.position? metricName key = none) :
    PositionsDense (withPosition c metricName key) where
  keyNodup := by
    simp only [CatalogEdits.withPosition, List.map_append, List.map_singleton]
    refine List.nodup_append'.mpr ⟨h.keyNodup, List.nodup_singleton _, ?_⟩
    rw [List.disjoint_singleton]
    intro hmem
    obtain ⟨p, hp, heq⟩ := List.mem_map.mp hmem
    obtain ⟨hname, hkey⟩ := Prod.mk.inj heq
    exact Catalog.position?_eq_none_iff.mp hnew p hp ⟨hname, hkey⟩
  named := by
    simp only [CatalogEdits.withPosition, List.mem_append, List.mem_singleton]
    rintro p (hp | rfl) hkey
    · exact h.named p hp hkey
    · simp [nextPosition, show key = metricNameLabelName from hkey]
  dense metricName' := by
    rw [labelRows_withPosition]
    split
    · rename_i hrow
      obtain ⟨rfl, hkey⟩ := hrow
      rw [List.map_append, List.length_append, h.dense, List.map_singleton,
        h.nextPosition_eq metricName hkey, List.length_singleton, List.range'_concat,
        Nat.one_mul]
    · rw [List.append_nil, h.dense]

theorem ViewsWellFormed.missing_eq_zero (h : ViewsWellFormed c) (metricName : String) :
    missing c (labelRows c metricName) = 0 := by
  cases hrows : labelRows c metricName with
  | nil => rfl
  | cons p rows =>
    have hp : p ∈ labelRows c metricName := by simp [hrows]
    obtain ⟨hp, hname⟩ := List.mem_filter.mp hp
    simp only [decide_eq_true_eq] at hname
    obtain ⟨m, hm, hmetric, hview⟩ := h.viewed p hp
    obtain ⟨columns, hcolumns⟩ := Option.isSome_iff_exists.mp (hview false)
    obtain ⟨labelCols, -, hlabelCols⟩ := h.current m hm false columns hcolumns
    rw [hmetric, hname.1, hrows] at hlabelCols
    exact hlabelCols.missing_eq_zero

theorem ViewsWellFormed.view_extends (h : ViewsWellFormed c) (hm : m ∈ c.metric) {c' : Catalog}
    (hkeys : c.labelKey <+: c'.labelKey) {id : Bool} {more : List LabelKeyPositionRow}
    {columns : List String} (hcolumns : Columns c' id (labelRows c m.metricName ++ more) columns) :
    ((view c id m.tableName).getD []) <+: fixedColumns id ++ columns := by
  cases hview : view c id m.tableName with
  | none => exact List.nil_prefix
  | some old =>
    obtain ⟨labelCols, rfl, hold⟩ := h.current m hm id old hview
    exact (List.prefix_append_right_inj _).mpr ((hold.grow hkeys).prefix_of_append hcolumns)

theorem ViewsWellFormed.missing_withPosition_le (h : ViewsWellFormed c) {c₀ : Catalog}
    (hgrow : KeysGrow c c₀) (metricName key : String) :
    missing c₀ (labelRows (withPosition c metricName key) metricName) ≤ 1 := by
  have hold := hgrow.missing_le (labelRows c metricName)
  rw [h.missing_eq_zero] at hold
  rw [labelRows_withPosition, missing, List.countP_append]
  split
  · have hone := List.countP_le_length
      (p := fun row : LabelKeyPositionRow => (labelKey? c₀ (viewKey row.key)).isNone)
      (l := [{ metricName, key, pos := nextPosition c metricName key }])
    exact Nat.add_le_add hold hone
  · exact hold.trans (Nat.zero_le 1)

theorem recordKey_cases (h : ViewsWellFormed c) (hmetric : c.metric? m.metricName = some m)
    (hnew : c.position? m.metricName key = none) :
    (∃ c', recordKey m.metricName key (nextPosition c m.metricName key) c =
        .ok (nextPosition c m.metricName key) c' ∧
      Regenerated (withPosition c m.metricName key) c' m (c.lastValue .labelKey + 2)) ∨
    Clashes (withPosition c m.metricName key) m.metricName (c.lastValue .labelKey + 2) ∧
      ∃ c', recordKey m.metricName key (nextPosition c m.metricName key) c =
        .error .duplicateColumn c' := by
  obtain ⟨row, c₀, hkeyOk, hgrow, -, hlast⟩ := getOrCreateLabelKey_returns c key
  have hnone : c₀.position? m.metricName key = none := by
    rw [hgrow.unobserved.position?_eq, hnew]
  let d := withPosition c₀ m.metricName key
  have hposition : d.labelKeyPosition = (withPosition c m.metricName key).labelKeyPosition := by
    simp only [d, withPosition]
    rw [hgrow.unobserved.nextPosition_eq, hgrow.unobserved.position]
  have hrows : labelRows d m.metricName =
      labelRows (withPosition c m.metricName key) m.metricName := by
    rw [labelRows, labelRows, hposition]
  have hrecord : recordKey m.metricName key (nextPosition c m.metricName key) c =
      (createSeriesView m.metricName >>= fun _ => createMetricView m.metricName >>= fun _ =>
        pure (nextPosition c m.metricName key)) d := by
    unfold recordKey
    rw [bind_of_ok hkeyOk, ← hgrow.unobserved.nextPosition_eq]
    change (if (c₀.position? m.metricName key).isSome then _ else _ : Tx Nat) c₀ = _
    rw [hnone]
    rfl
  have hasc : (labelRows d m.metricName).Pairwise fun p q => p.pos < q.pos := by
    rw [hrows]
    exact (h.positions.withPosition hnew).ascending m.metricName
  have hkeys : KeysWellFormed d := (hgrow.wellFormed h.keys).of_eq rfl le_rfl
  have hmetric₀ : d.metric? m.metricName = some m := (hgrow.metric?_eq _).trans hmetric
  have hextends : ∀ id c' columns, d.labelKey <+: c'.labelKey →
      Columns c' id (labelRows d m.metricName) columns →
        ((view d id m.tableName).getD []) <+: fixedColumns id ++ columns := by
    intro id c' columns hstarts hcolumns
    rw [hrows, labelRows_withPosition] at hcolumns
    have hview := h.view_extends (Catalog.mem_of_metric? hmetric).1 (hgrow.keys.trans hstarts)
      hcolumns
    rw [← hgrow.view_eq] at hview
    exact hview
  have hbound : d.lastValue .labelKey + missing d (labelRows d m.metricName) ≤
      c.lastValue .labelKey + 2 := by
    have hmissing : missing d (labelRows (withPosition c m.metricName key) m.metricName) ≤ 1 :=
      h.missing_withPosition_le hgrow m.metricName key
    have hsame : d.lastValue = c₀.lastValue := rfl
    rw [hrows, hsame]
    split at hlast <;> omega
  rw [hrecord]
  obtain ⟨c₁, c', hseries, hmetricView, hregen⟩ | ⟨hclash, herror⟩ :=
    regenerate_cases hkeys hasc hmetric₀ hextends
  · refine .inl ⟨c', ?_, ?_⟩
    · rw [bind_of_ok hseries, bind_of_ok hmetricView]
      rfl
    · refine ⟨hregen.position.trans hposition, hregen.metric.trans hgrow.unobserved.metric,
        hgrow.keys.trans hregen.keys, hregen.wellFormed, hregen.lastValue.trans hbound, ?_, ?_⟩
      · intro id t ht
        rw [hregen.others id t ht]
        exact congrFun (hgrow.view_eq id) t
      · intro id
        rw [← hrows]
        exact hregen.own id
  · refine .inr ⟨?_, ?_⟩
    · obtain ⟨c', id, columns, hkeys', hle, hcolumns, hrepeat⟩ := hclash
      rw [hrows] at hcolumns
      exact ⟨c', id, columns, hkeys', hle.trans hbound, hcolumns, hrepeat⟩
    · obtain ⟨c', hseries⟩ | ⟨c₁, c', hseries, hmetricView⟩ := herror
      · exact ⟨c', (bind_eq_error _ _ _ _ _).mpr (.inl hseries)⟩
      · refine ⟨c', ?_⟩
        rw [bind_of_ok hseries]
        exact (bind_eq_error _ _ _ _ _).mpr (.inl hmetricView)

end Record

/-- Positions and the columns of views stay, and more are added after them. -/
structure Grows (c c' : Catalog) : Prop where
  positions : c.labelKeyPosition <+: c'.labelKeyPosition
  views : ∀ id t columns, view c id t = some columns →
    ∃ columns', view c' id t = some columns' ∧ columns <+: columns'

theorem Grows.refl (c : Catalog) : Grows c c :=
  ⟨List.prefix_rfl, fun _ _ columns h => ⟨columns, h, List.prefix_rfl⟩⟩

theorem Grows.trans {c c' c'' : Catalog} (h : Grows c c') (h' : Grows c' c'') : Grows c c'' := by
  refine ⟨h.positions.trans h'.positions, ?_⟩
  intro id t columns hview
  obtain ⟨columns', hview', hstarts⟩ := h.views id t columns hview
  obtain ⟨columns'', hview'', hstarts'⟩ := h'.views id t columns' hview'
  exact ⟨columns'', hview'', hstarts.trans hstarts'⟩

theorem Grows.position?_eq {c c' : Catalog} (h : Grows c c') {metricName key : String}
    {pos : Nat} (hpos : c.position? metricName key = some pos) :
    c'.position? metricName key = some pos := by
  obtain ⟨more, hmore⟩ := h.positions
  obtain ⟨p, hfind, hp⟩ := Option.map_eq_some_iff.mp hpos
  unfold Catalog.position?
  rw [← hmore, List.find?_append, hfind, Option.some_or, Option.map_some, hp]

/-- From a well-formed catalog the change leads to a well-formed one that has grown. -/
def Kept (c c' : Catalog) : Prop := ViewsWellFormed c → ViewsWellFormed c' ∧ Grows c c'

theorem Kept.refl (c : Catalog) : Kept c c := fun h => ⟨h, .refl c⟩

theorem Kept.trans {c c' c'' : Catalog} (h : Kept c c') (h' : Kept c' c'') : Kept c c'' := by
  intro hwf
  obtain ⟨hwf', hgrows⟩ := h hwf
  obtain ⟨hwf'', hgrows'⟩ := h' hwf'
  exact ⟨hwf'', hgrows.trans hgrows'⟩

section Kept

variable {c c' : Catalog}

theorem Kept.of_frame (hkeys : c'.labelKey = c.labelKey)
    (hlast : c.lastValue .labelKey ≤ c'.lastValue .labelKey)
    (hposition : c'.labelKeyPosition = c.labelKeyPosition)
    (hviews : c'.seriesView = c.seriesView ∧ c'.metricView = c.metricView)
    (hback : ∀ m' ∈ c'.metric, ∃ m ∈ c.metric, m.metricName = m'.metricName ∧
      m.tableName = m'.tableName)
    (hforth : ∀ m ∈ c.metric, ∃ m' ∈ c'.metric, m'.metricName = m.metricName ∧
      m'.tableName = m.tableName) : Kept c c' := by
  intro h
  have hview : ∀ id, view c' id = view c id := fun id => by
    unfold view
    rw [hviews.1, hviews.2]
  have hrows : ∀ metricName, labelRows c' metricName = labelRows c metricName := fun _ => by
    unfold labelRows
    rw [hposition]
  refine ⟨⟨h.positions.of_eq hposition, h.keys.of_eq hkeys hlast, ?_, ?_, ?_, ?_, ?_⟩,
    hposition ▸ List.prefix_rfl, ?_⟩
  · intro m₁ hm₁ m₂ hm₂
    obtain ⟨n₁, hn₁, hname₁, htable₁⟩ := hback m₁ hm₁
    obtain ⟨n₂, hn₂, hname₂, htable₂⟩ := hback m₂ hm₂
    rw [← hname₁, ← hname₂, ← htable₁, ← htable₂]
    exact h.names n₁ hn₁ n₂ hn₂
  · intro id t columns hcolumns
    rw [hview] at hcolumns
    obtain ⟨m, hm, rfl⟩ := h.owned id t columns hcolumns
    obtain ⟨m', hm', -, htable⟩ := hforth m hm
    exact ⟨m', hm', htable⟩
  · intro m' hm' id columns hcolumns
    obtain ⟨m, hm, hname, htable⟩ := hback m' hm'
    rw [hview, ← htable] at hcolumns
    rw [hrows, ← hname]
    obtain ⟨labelCols, rfl, hlabelCols⟩ := h.current m hm id columns hcolumns
    exact ⟨labelCols, rfl, hlabelCols.grow (hkeys ▸ List.prefix_rfl)⟩
  · intro id t columns hcolumns
    rw [hview] at hcolumns
    exact h.nodup id t columns hcolumns
  · intro p hp
    rw [hposition] at hp
    obtain ⟨m, hm, hname, hsome⟩ := h.viewed p hp
    obtain ⟨m', hm', hname', htable⟩ := hforth m hm
    refine ⟨m', hm', hname'.trans hname, fun id => ?_⟩
    rw [hview, htable]
    exact hsome id
  · intro id t columns hcolumns
    exact ⟨columns, by rw [hview, hcolumns], List.prefix_rfl⟩

theorem Kept.of_metric_eq (hkeys : c'.labelKey = c.labelKey)
    (hlast : c.lastValue .labelKey ≤ c'.lastValue .labelKey)
    (hposition : c'.labelKeyPosition = c.labelKeyPosition)
    (hviews : c'.seriesView = c.seriesView ∧ c'.metricView = c.metricView)
    (hmetric : c'.metric = c.metric) : Kept c c' :=
  .of_frame hkeys hlast hposition hviews (fun m hm => ⟨m, hmetric ▸ hm, rfl, rfl⟩)
    fun m hm => ⟨m, hmetric ▸ hm, rfl, rfl⟩

theorem ViewsWellFormed.grows_of_regenerated {m : MetricRow} {key : String} {last : Nat}
    (h : ViewsWellFormed c) (hm : m ∈ c.metric)
    (hregen : Regenerated (withPosition c m.metricName key) c' m last) : Grows c c' := by
  constructor
  · rw [hregen.position]
    exact List.prefix_append _ _
  · intro id t columns hview
    by_cases ht : t = m.tableName
    · subst ht
      obtain ⟨labelCols, hown, hlabelCols, -⟩ := hregen.own id
      rw [labelRows_withPosition] at hlabelCols
      have hstarts := h.view_extends hm hregen.keys hlabelCols
      rw [hview] at hstarts
      exact ⟨_, hown, hstarts⟩
    · exact ⟨columns, (hregen.others id t ht).trans hview, List.prefix_rfl⟩

theorem Kept.of_regenerated {m : MetricRow} {key : String} {last : Nat}
    (hmetric : c.metric? m.metricName = some m) (hnew : c.position? m.metricName key = none)
    (hregen : Regenerated (withPosition c m.metricName key) c' m last) : Kept c c' := by
  intro h
  have hm := (Catalog.mem_of_metric? hmetric).1
  have hrows : ∀ metricName, labelRows c' metricName =
      labelRows (withPosition c m.metricName key) metricName := by
    intro metricName
    rw [labelRows, labelRows, hregen.position]
  have hkeys : c.labelKey <+: c'.labelKey := hregen.keys
  have hothers : ∀ id t, t ≠ m.tableName → view c' id t = view c id t := hregen.others
  have hpositions : PositionsDense c' :=
    (h.positions.withPosition hnew).of_eq hregen.position
  refine ⟨⟨hpositions, hregen.wellFormed, ?_, ?_, ?_, ?_, ?_⟩, h.grows_of_regenerated hm hregen⟩
  · rw [hregen.metric]
    exact h.names
  · intro id t columns hview
    rw [hregen.metric]
    by_cases ht : t = m.tableName
    · exact ⟨m, hm, ht.symm⟩
    · rw [hothers id t ht] at hview
      exact h.owned id t columns hview
  · intro m' hm' id columns hview
    rw [hregen.metric] at hm'
    by_cases ht : m'.tableName = m.tableName
    · obtain ⟨labelCols, hown, hlabelCols, -⟩ := hregen.own id
      rw [ht, hown] at hview
      refine ⟨labelCols, (Option.some.inj hview).symm, ?_⟩
      rw [hrows, (h.names m' hm' m hm).mpr ht]
      exact hlabelCols
    · rw [hothers id _ ht] at hview
      obtain ⟨labelCols, rfl, hlabelCols⟩ := h.current m' hm' id columns hview
      refine ⟨labelCols, rfl, ?_⟩
      have hne : ¬ (m.metricName = m'.metricName ∧ key ≠ metricNameLabelName) :=
        fun heq => ht ((h.names m' hm' m hm).mp heq.1.symm)
      rw [hrows, labelRows_withPosition, if_neg hne, List.append_nil]
      exact hlabelCols.grow hkeys
  · intro id t columns hview
    by_cases ht : t = m.tableName
    · subst ht
      obtain ⟨labelCols, hown, -, hnodup⟩ := hregen.own id
      rw [hown] at hview
      exact Option.some.inj hview ▸ hnodup
    · rw [hothers id t ht] at hview
      exact h.nodup id t columns hview
  · have hown : ∀ id, (view c' id m.tableName).isSome := by
      intro id
      obtain ⟨labelCols, hown, -⟩ := hregen.own id
      simp [hown]
    rw [hregen.position, hregen.metric]
    simp only [withPosition, List.mem_append, List.mem_singleton]
    rintro p (hp | rfl)
    · obtain ⟨m', hm', hname, hsome⟩ := h.viewed p hp
      refine ⟨m', hm', hname, fun id => ?_⟩
      by_cases ht : m'.tableName = m.tableName
      · rw [ht]
        exact hown id
      · rw [hothers id _ ht]
        exact hsome id
    · exact ⟨m, hm, rfl, hown⟩

theorem withLabel_kept (c : Catalog) (key value : String) : Kept c (withLabel c key value) :=
  .of_metric_eq rfl (by simp [withLabel]) rfl ⟨rfl, rfl⟩ rfl

theorem getOrCreateLabelId_kept {key value : String} {id : Nat}
    (h : getOrCreateLabelId key value c = .ok id c') : Kept c c' := by
  obtain ⟨-, rfl⟩ | ⟨-, -, rfl⟩ := getOrCreateLabelId_eq_ok h
  · exact .refl _
  · exact withLabel_kept c key value

theorem createMetricTable_kept {metricName : String} {m : MetricRow}
    (hnone : c.metric? metricName = none) (h : createMetricTable metricName c = .ok m c') :
    Kept c c' ∧ c'.metric? metricName = some m := by
  obtain ⟨rfl, hfresh, hmake⟩ := createMetricTable_eq_ok hnone h
  obtain ⟨-, labelId, c₁, hlabel, -, rfl⟩ := makeMetricTable_eq_ok hmake
  have hmetric : ∀ d : Catalog, d.metric = c.metric ++ [newMetric c metricName] →
      d.metric? metricName = some (newMetric c metricName) := by
    intro d hd
    have hfind : (c.metric.find? fun m => m.metricName = metricName) = none := hnone
    rw [Catalog.metric?, hd, List.find?_append, hfind]
    simp [newMetric]
  have hkept : ∀ d : Catalog, d.metric = c.metric ++ [newMetric c metricName] →
      d.labelKey = c.labelKey → d.lastValue .labelKey = c.lastValue .labelKey →
      d.labelKeyPosition = c.labelKeyPosition → d.seriesView = c.seriesView →
      d.metricView = c.metricView → Kept c d := by
    intro d hd hkeys hlast hposition hseries hmetricView hwf
    have hview : ∀ id, view d id = view c id := fun id => by
      unfold view
      rw [hseries, hmetricView]
    have hrows : ∀ metricName, labelRows d metricName = labelRows c metricName := fun _ => by
      unfold labelRows
      rw [hposition]
    refine ⟨⟨hwf.positions.of_eq hposition, hwf.keys.of_eq hkeys hlast.ge, ?_, ?_, ?_, ?_, ?_⟩,
      hposition ▸ List.prefix_rfl, ?_⟩
    · rw [hd]
      simp only [List.mem_append, List.mem_singleton]
      rintro m₁ (hm₁ | rfl) m₂ (hm₂ | rfl)
      · exact hwf.names m₁ hm₁ m₂ hm₂
      · exact iff_of_false (hfresh m₁ hm₁).1 (hfresh m₁ hm₁).2
      · exact iff_of_false (hfresh m₂ hm₂).1.symm (hfresh m₂ hm₂).2.symm
      · exact iff_of_true rfl rfl
    · intro id t columns hcolumns
      rw [hview] at hcolumns
      obtain ⟨m, hm, ht⟩ := hwf.owned id t columns hcolumns
      exact ⟨m, by simp [hd, hm], ht⟩
    · rw [hd]
      simp only [List.mem_append, List.mem_singleton]
      rintro m (hm | rfl) id columns hcolumns
      · rw [hview] at hcolumns
        obtain ⟨labelCols, rfl, hlabelCols⟩ := hwf.current m hm id columns hcolumns
        rw [hrows]
        exact ⟨labelCols, rfl, hlabelCols.grow (hkeys ▸ List.prefix_rfl)⟩
      · rw [hview] at hcolumns
        obtain ⟨m, hm, ht⟩ := hwf.owned id _ columns hcolumns
        exact absurd ht (hfresh m hm).2
    · intro id t columns hcolumns
      rw [hview] at hcolumns
      exact hwf.nodup id t columns hcolumns
    · rw [hposition]
      intro p hp
      obtain ⟨m, hm, hname, hsome⟩ := hwf.viewed p hp
      exact ⟨m, by simp [hd, hm], hname, fun id => by rw [hview]; exact hsome id⟩
    · intro id t columns hcolumns
      exact ⟨columns, by rw [hview, hcolumns], List.prefix_rfl⟩
  obtain ⟨-, rfl⟩ | ⟨-, -, rfl⟩ := getOrCreateLabelId_eq_ok hlabel
  · exact ⟨hkept _ rfl rfl (by simp) rfl rfl rfl, hmetric _ rfl⟩
  · exact ⟨hkept _ rfl rfl (by simp [withLabel]) rfl rfl rfl, hmetric _ rfl⟩

theorem getOrCreateMetricTableName_kept {metricName : String} {m : MetricRow} {new : Bool}
    (h : getOrCreateMetricTableName metricName c = .ok (m, new) c') :
    Kept c c' ∧ c'.metric? metricName = some m := by
  obtain ⟨hmetric, rfl⟩ | ⟨hnone, hcreate⟩ := getOrCreateMetricTableName_eq_ok h
  · exact ⟨.refl _, hmetric⟩
  · exact createMetricTable_kept hnone hcreate

theorem lockedNewPos_kept {metricName key : String} {pos : Nat}
    (h : lockedNewPos metricName key c = .ok pos c') : Kept c c' := by
  simp only [lockedNewPos, bind_eq_ok, get_eq_ok] at h
  obtain ⟨⟨m, new⟩, c₁, hmetric, _, _, ⟨rfl, rfl⟩, h⟩ := h
  obtain ⟨hkept, hmetric⟩ := getOrCreateMetricTableName_kept hmetric
  obtain ⟨hm, rfl⟩ := Catalog.mem_of_metric? hmetric
  cases hpos : c₁.position? m.metricName key with
  | some found =>
    rw [hpos] at h
    obtain ⟨-, rfl⟩ := (pure_eq_ok _ _ _ _).mp h
    exact hkept
  | none =>
    simp only [hpos] at h
    intro hwf
    obtain ⟨hwf₁, hgrows⟩ := hkept hwf
    obtain ⟨c₂, hok, hregen⟩ | ⟨-, c₂, herror⟩ := recordKey_cases hwf₁ hmetric hpos
    · rw [hok] at h
      cases h
      obtain ⟨hwf₂, hgrows₂⟩ := Kept.of_regenerated hmetric hpos hregen hwf₁
      exact ⟨hwf₂, hgrows.trans hgrows₂⟩
    · rw [herror] at h
      cases h

theorem getOrCreateLabelKeyPos_kept {metricName key : String} {pos : Nat}
    (h : getOrCreateLabelKeyPos metricName key c = .ok pos c') : Kept c c' := by
  simp only [getOrCreateLabelKeyPos, getNewPosForKey_eq, bind_eq_ok, get_eq_ok] at h
  obtain ⟨_, _, ⟨rfl, rfl⟩, h⟩ := h
  cases hpos : c.position? metricName key with
  | some found =>
    rw [hpos] at h
    obtain ⟨-, rfl⟩ := (pure_eq_ok _ _ _ _).mp h
    exact .refl _
  | none =>
    rw [hpos] at h
    simp only [bind_eq_ok, get_eq_ok] at h
    obtain ⟨_, _, ⟨rfl, rfl⟩, h⟩ := h
    rw [hpos] at h
    exact lockedNewPos_kept h

theorem coalesce_kept {α : Type} {found : Option α} {otherwise : Tx α} {a : α}
    (hotherwise : ∀ a c', otherwise c = .ok a c' → Kept c c')
    (h : coalesce found otherwise c = .ok a c') : Kept c c' := by
  cases found with
  | some b =>
    obtain ⟨-, rfl⟩ := (pure_eq_ok _ _ _ _).mp h
    exact .refl _
  | none => exact hotherwise a c' h

theorem idxVal_kept {metricName : String} {snapshot : Catalog} {labels : LabelSet}
    {rows : List (Nat × Nat)} (h : idxVal metricName snapshot labels c = .ok rows c') :
    Kept c c' := by
  induction labels generalizing c rows with
  | nil =>
    obtain ⟨-, rfl⟩ := (pure_eq_ok _ _ _ _).mp h
    exact .refl _
  | cons kv rest ih =>
    simp only [idxVal, bind_eq_ok, pure_eq_ok] at h
    obtain ⟨idx, c₁, hidx, val, c₂, hval, rows', c₃, hrest, -, rfl⟩ := h
    refine (coalesce_kept (fun _ _ => getOrCreateLabelKeyPos_kept) hidx).trans ?_
    exact (coalesce_kept (fun _ _ => getOrCreateLabelId_kept) hval).trans (ih hrest)

theorem getOrCreateLabelArray_kept {metricName : String} {labels : LabelSet}
    {array : List Nat} (h : getOrCreateLabelArray metricName labels c = .ok array c') :
    Kept c c' := by
  simp only [getOrCreateLabelArray, bind_eq_ok, get_eq_ok, pure_eq_ok] at h
  obtain ⟨_, _, ⟨rfl, rfl⟩, rows, _, hrows, -, rfl⟩ := h
  exact idxVal_kept hrows

theorem findOrCreateSeries_kept {m : MetricRow} {array : List Nat} {id : Nat}
    (h : findOrCreateSeries m array c = .ok id c') : Kept c c' := by
  simp only [findOrCreateSeries, bind_eq_ok, get_eq_ok] at h
  obtain ⟨_, _, ⟨rfl, rfl⟩, h⟩ := h
  cases hseries : c.dataSeries m.tableName with
  | none => simp [hseries] at h
  | some p =>
    simp only [hseries] at h
    cases hfind : SeriesPartition.findLabels p array with
    | some s =>
      simp only [hfind, pure_eq_ok] at h
      obtain ⟨-, rfl⟩ := h
      exact .refl _
    | none =>
      simp only [hfind] at h
      obtain ⟨-, -, rfl⟩ := createSeries_eq_ok hseries hfind h
      exact .of_metric_eq rfl (by simp [withSeries]) rfl ⟨rfl, rfl⟩ rfl

theorem getOrCreateSeriesIdForKvArray_kept {metricName : String} {labels : LabelSet}
    {r : String × Nat} (h : getOrCreateSeriesIdForKvArray metricName labels c = .ok r c') :
    Kept c c' := by
  simp only [getOrCreateSeriesIdForKvArray, bind_eq_ok, pure_eq_ok] at h
  obtain ⟨⟨m, new⟩, c₁, hmetric, array, c₂, harray, id, c₃, hseries, -, rfl⟩ := h
  refine (getOrCreateMetricTableName_kept hmetric).1.trans ?_
  exact (getOrCreateLabelArray_kept harray).trans (findOrCreateSeries_kept hseries)

theorem getOrCreateSeriesId_kept {label : LabelSet} {id : Nat}
    (h : getOrCreateSeriesId label c = .ok id c') : Kept c c' := by
  cases hname : jsonMetricName label with
  | none => simp [getOrCreateSeriesId, hname] at h
  | some metricName =>
    simp only [getOrCreateSeriesId, hname, bind_eq_ok, getOrCreateLabelArrayJsonb_eq hname] at h
    obtain ⟨⟨m, new⟩, c₁, hmetric, array, c₂, harray, hseries⟩ := h
    refine (getOrCreateMetricTableName_kept hmetric).1.trans ?_
    exact (getOrCreateLabelArray_kept harray).trans (findOrCreateSeries_kept hseries)

theorem insertData_kept {newChunk : Int → Chunk} {tableName : String} {rows : List DataRow}
    {u : Unit} (h : insertData newChunk tableName rows c = .ok u c') : Kept c c' := by
  simp only [insertData, bind_eq_ok, get_eq_ok] at h
  obtain ⟨_, _, ⟨rfl, rfl⟩, h⟩ := h
  cases hdata : c.data tableName with
  | none => simp [hdata] at h
  | some table =>
    simp only [hdata, set_eq_ok] at h
    subst h
    exact .of_metric_eq rfl le_rfl rfl ⟨rfl, rfl⟩ rfl

theorem dropMetricChunks_kept {metricName : String} {olderThan : Int} {dropped : Bool}
    (h : dropMetricChunks metricName olderThan c = .ok dropped c') : Kept c c' := by
  simp only [dropMetricChunks, bind_eq_ok, get_eq_ok] at h
  obtain ⟨⟨m, new⟩, c₁, hmetric, _, _, ⟨rfl, rfl⟩, h⟩ := h
  refine (getOrCreateMetricTableName_kept hmetric).1.trans ?_
  cases hdata : c₁.data m.tableName with
  | none => simp [hdata] at h
  | some table =>
    cases hseries : c₁.dataSeries m.tableName with
    | none => simp [hdata, hseries] at h
    | some p =>
      cases htight : tightOlderThan table olderThan with
      | none =>
        simp only [hdata, hseries, htight, pure_eq_ok] at h
        obtain ⟨-, rfl⟩ := h
        exact .refl _
      | some tight =>
        simp only [hdata, hseries, htight, bind_eq_ok, set_eq_ok, pure_eq_ok] at h
        obtain ⟨_, _, rfl, -, rfl⟩ := h
        exact .of_metric_eq rfl le_rfl rfl ⟨rfl, rfl⟩ rfl

theorem completeMetric_kept (c : Catalog) (metricId : Nat) :
    Kept c { c with metric := c.metric.map (completed metricId) } := by
  refine .of_frame rfl le_rfl rfl ⟨rfl, rfl⟩ ?_ ?_
  · intro m' hm'
    obtain ⟨m, hm, rfl⟩ := List.mem_map.mp hm'
    exact ⟨m, hm, (completed_metricName metricId m).symm, (completed_tableName metricId m).symm⟩
  · exact fun m hm => ⟨_, List.mem_map_of_mem hm, completed_metricName metricId m,
      completed_tableName metricId m⟩

theorem transaction_kept {α : Type} {x : Tx α} (hadvance : Respects Advance x c)
    (hok : ∀ a c', x c = .ok a c' → Kept c c') : Kept c (transaction x c).2 := by
  unfold transaction
  cases hx : x c with
  | ok a c' => exact hok a c' hx
  | error e c' =>
    have hle : Advance c c' := hadvance.of_error hx
    exact .of_metric_eq rfl (hle .labelKey) rfl ⟨rfl, rfl⟩ rfl

theorem step_kept (c : Catalog) (a : CatalogRuns.Action) : Kept c (CatalogRuns.step c a) := by
  cases a with
  | metricTableName metricName =>
    apply transaction_kept (getOrCreateMetricTableName_advance metricName c)
    exact fun _ _ h => (getOrCreateMetricTableName_kept h).1
  | finalize metricId => exact completeMetric_kept c metricId
  | labelId key value =>
    apply transaction_kept (getOrCreateLabelId_advance key value c)
    exact fun _ _ h => getOrCreateLabelId_kept h
  | labelKeyPos metricName key =>
    apply transaction_kept (getOrCreateLabelKeyPos_advance metricName key c)
    exact fun _ _ h => getOrCreateLabelKeyPos_kept h
  | labelArray metricName labels =>
    apply transaction_kept (getOrCreateLabelArray_advance metricName labels c)
    exact fun _ _ h => getOrCreateLabelArray_kept h
  | seriesIdForKvArray metricName labels =>
    apply transaction_kept (getOrCreateSeriesIdForKvArray_advance metricName labels c)
    exact fun _ _ h => getOrCreateSeriesIdForKvArray_kept h
  | seriesId label =>
    apply transaction_kept (getOrCreateSeriesId_advance label c)
    exact fun _ _ h => getOrCreateSeriesId_kept h
  | insertData newChunk tableName rows =>
    apply transaction_kept (insertData_advance newChunk tableName rows c)
    exact fun _ _ h => insertData_kept h
  | dropMetricChunks metricName olderThan =>
    apply transaction_kept (dropMetricChunks_advance metricName olderThan c)
    exact fun _ _ h => dropMetricChunks_kept h

theorem run_kept (c : Catalog) (actions : List CatalogRuns.Action) :
    Kept c (run CatalogRuns.step c actions) := by
  induction actions generalizing c with
  | nil => exact .refl c
  | cons a actions ih => exact (step_kept c a).trans (ih (CatalogRuns.step c a))

end Kept

end TimescalePrometheus.Sql.KeyPositions
