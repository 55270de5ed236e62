import TimescalePrometheus.Sql.LabelArrays

/-!
The invariant of the catalog, and that every edit and every drop keeps it.
-/

namespace TimescalePrometheus.Sql.Invariant

open Sql.Tables Sql.LabelKeys Sql.Series Sql.Retention Sql.CatalogEdits Sql.LabelArrays

/-- Label ids are positive, were handed out by the sequence and name one label
each; a pair has one label. -/
structure LabelsWellFormed (c : Catalog) : Prop where
  bound : ∀ l ∈ c.label, 0 < l.id ∧ l.id ≤ c.lastValue .label
  idInj : ∀ l ∈ c.label, ∀ l' ∈ c.label, l.id = l'.id → l = l'
  pairInj : ∀ l ∈ c.label, ∀ l' ∈ c.label, l.key = l'.key → l.value = l'.value → l = l'

/-- A key has one position in a metric and a position has one key; the first
position is that of the metric's name. -/
structure PositionsWellFormed (c : Catalog) : Prop where
  keyInj : ∀ p ∈ c.labelKeyPosition, ∀ q ∈ c.labelKeyPosition,
    p.metricName = q.metricName → p.key = q.key → p = q
  posInj : ∀ p ∈ c.labelKeyPosition, ∀ q ∈ c.labelKeyPosition,
    p.metricName = q.metricName → p.pos = q.pos → p = q
  first : ∀ p ∈ c.labelKeyPosition, 0 < p.pos ∧ (p.pos = 1 ↔ p.key = metricNameLabelName)

/-- Metrics are told apart by id, name and table, and have their two tables. -/
structure MetricsWellFormed (c : Catalog) : Prop where
  bound : ∀ m ∈ c.metric, m.id ≤ c.lastValue .metric
  idInj : ∀ m ∈ c.metric, ∀ m' ∈ c.metric, m.id = m'.id → m = m'
  nameInj : ∀ m ∈ c.metric, ∀ m' ∈ c.metric, m.metricName = m'.metricName → m = m'
  tableInj : ∀ m ∈ c.metric, ∀ m' ∈ c.metric, m.tableName = m'.tableName → m = m'
  partition : ∀ m ∈ c.metric, ∃ p, c.dataSeries m.tableName = some p ∧ p.checkMetric = m.id
  data : ∀ m ∈ c.metric, (c.data m.tableName).isSome
  ofPartition : ∀ t p, c.dataSeries t = some p → ∃ m ∈ c.metric, m.tableName = t

/-- Series ids and, inside a partition, label arrays are unique; the constants of
a partition's constraints stay what they were when the metric was created. -/
structure SeriesWellFormed (c : Catalog) : Prop where
  check : ∀ t p, c.dataSeries t = some p → ∀ s ∈ p.rows,
    SeriesPartition.check p s.metricId s.labels = true
  bound : ∀ t p, c.dataSeries t = some p → ∀ s ∈ p.rows, s.id ≤ c.lastValue .seriesId
  idInj : ∀ t p, c.dataSeries t = some p → ∀ t' p', c.dataSeries t' = some p' →
    ∀ s ∈ p.rows, ∀ s' ∈ p'.rows, s.id = s'.id → t = t' ∧ s = s'
  labelsInj : ∀ t p, c.dataSeries t = some p → ∀ s ∈ p.rows, ∀ s' ∈ p.rows,
    s.labels = s'.labels → s = s'
  labelBound : ∀ t p, c.dataSeries t = some p → ∀ s ∈ p.rows, ∀ l ∈ s.labels,
    l ≤ c.lastValue .label
  checkBound : ∀ t p, c.dataSeries t = some p →
    0 < p.checkLabel ∧ p.checkLabel ≤ c.lastValue .label
  checkRow : ∀ m ∈ c.metric, ∀ p, c.dataSeries m.tableName = some p →
    ∀ l ∈ c.label, l.id = p.checkLabel →
      l.key = metricNameLabelName ∧ l.value = m.metricName

/-- What every run keeps. -/
structure WellFormed (c : Catalog) : Prop where
  labels : LabelsWellFormed c
  positions : PositionsWellFormed c
  metrics : MetricsWellFormed c
  series : SeriesWellFormed c

theorem metric?_of_mem {c : Catalog} (hwf : WellFormed c) {m : MetricRow} (hm : m ∈ c.metric) :
    c.metric? m.metricName = some m := by
  cases hfind : c.metric? m.metricName with
  | none => exact absurd rfl (Catalog.metric?_eq_none_iff.mp hfind m hm)
  | some m' =>
    obtain ⟨hm', hname⟩ := Catalog.mem_of_metric? hfind
    rw [hwf.metrics.nameInj m' hm' m hm hname]

theorem wellFormed_empty : WellFormed Catalog.empty where
  labels := ⟨by simp [Catalog.empty], by simp [Catalog.empty], by simp [Catalog.empty]⟩
  positions := ⟨by simp [Catalog.empty], by simp [Catalog.empty], by simp [Catalog.empty]⟩
  metrics := ⟨by simp [Catalog.empty], by simp [Catalog.empty], by simp [Catalog.empty],
    by simp [Catalog.empty], by simp [Catalog.empty], by simp [Catalog.empty],
    by simp [Catalog.empty]⟩
  series := ⟨by simp [Catalog.empty], by simp [Catalog.empty], by simp [Catalog.empty],
    by simp [Catalog.empty], by simp [Catalog.empty], by simp [Catalog.empty],
    by simp [Catalog.empty]⟩

section Lookups

variable {c : Catalog}

theorem labelId?_of_mem (h : LabelsWellFormed c) {l : LabelRow} (hl : l ∈ c.label) :
    c.labelId? l.key l.value = some l.id := by
  cases hid : c.labelId? l.key l.value with
  | none => exact absurd ⟨rfl, rfl⟩ (Catalog.labelId?_eq_none_iff.mp hid l hl)
  | some id =>
    obtain ⟨l', hl', hkey, hvalue, rfl⟩ := Catalog.exists_of_labelId? hid
    rw [h.pairInj l' hl' l hl hkey hvalue]

theorem labelById?_of_mem (h : LabelsWellFormed c) {l : LabelRow} (hl : l ∈ c.label) :
    c.labelById? l.id = some l := by
  cases hfind : c.labelById? l.id with
  | none =>
    have := List.find?_eq_none.mp hfind l hl
    simp at this
  | some l' =>
    have hid := List.find?_some hfind
    simp only [decide_eq_true_eq] at hid
    rw [h.idInj l' (List.mem_of_find?_eq_some hfind) l hl hid]

theorem mem_of_labelById? {id : Nat} {l : LabelRow} (h : c.labelById? id = some l) :
    l ∈ c.label ∧ l.id = id := by
  have hid := List.find?_some h
  simp only [decide_eq_true_eq] at hid
  exact ⟨List.mem_of_find?_eq_some h, hid⟩

theorem position?_name (h : PositionsWellFormed c) {metricName key : String} {pos : Nat}
    (hpos : c.position? metricName key = some pos) :
    0 < pos ∧ (pos = 1 ↔ key = metricNameLabelName) := by
  obtain ⟨p, hp, rfl, rfl, rfl⟩ := Catalog.exists_of_position? hpos
  exact h.first p hp

theorem position?_inj (h : PositionsWellFormed c) {metricName key key' : String} {pos : Nat}
    (hpos : c.position? metricName key = some pos)
    (hpos' : c.position? metricName key' = some pos) : key = key' := by
  obtain ⟨p, hp, hpm, rfl, hpp⟩ := Catalog.exists_of_position? hpos
  obtain ⟨q, hq, hqm, rfl, hqp⟩ := Catalog.exists_of_position? hpos'
  rw [h.posInj p hp q hq (hpm.trans hqm.symm) (hpp.trans hqp.symm)]

end Lookups

section Preserved

variable {A : String → LabelSet → Prop} {c c' : Catalog}

theorem LabelsWellFormed.edit (h : LabelsWellFormed c) (hedit : Edit A c c') :
    LabelsWellFormed c' := by
  cases hedit with
  | unobserved hu =>
    refine ⟨?_, by rw [hu.label]; exact h.idInj, by rw [hu.label]; exact h.pairInj⟩
    intro l hl
    rw [hu.label] at hl
    exact ⟨(h.bound l hl).1, (h.bound l hl).2.trans (hu.lastValue .label)⟩
  | addLabel key value hnew =>
    have hfresh := Catalog.labelId?_eq_none_iff.mp hnew
    refine ⟨?_, ?_, ?_⟩
    · intro l hl
      simp only [withLabel, List.mem_append, List.mem_singleton, Function.update_self] at hl ⊢
      rcases hl with hl | rfl
      · have := h.bound l hl
        omega
      · simp
    · intro l hl l' hl' hid
      simp only [withLabel, List.mem_append, List.mem_singleton] at hl hl'
      rcases hl with hl | rfl <;> rcases hl' with hl' | rfl
      · exact h.idInj l hl l' hl' hid
      · have := (h.bound l hl).2
        simp only at hid
        omega
      · have := (h.bound l' hl').2
        simp only at hid
        omega
      · rfl
    · intro l hl l' hl' hkey hvalue
      simp only [withLabel, List.mem_append, List.mem_singleton] at hl hl'
      rcases hl with hl | rfl <;> rcases hl' with hl' | rfl
      · exact h.pairInj l hl l' hl' hkey hvalue
      · exact absurd ⟨hkey, hvalue⟩ (hfresh l hl)
      · exact absurd ⟨hkey.symm, hvalue.symm⟩ (hfresh l' hl')
      · rfl
  | addPosition => exact ⟨h.bound, h.idInj, h.pairInj⟩
  | addMetric metricName labelId =>
    exact ⟨fun l hl => by simpa [withMetric] using h.bound l hl, h.idInj, h.pairInj⟩
  | completeMetric => exact ⟨h.bound, h.idInj, h.pairInj⟩
  | addSeries m p labels array =>
    exact ⟨fun l hl => by simpa [withSeries] using h.bound l hl, h.idInj, h.pairInj⟩

theorem le_maxPos {metricName : String} {q : LabelKeyPositionRow}
    (hq : q ∈ c.labelKeyPosition) (hname : q.metricName = metricName) :
    ∃ top, maxPos c metricName = some top ∧ q.pos ≤ top := by
  have hmem : q.pos ∈ (c.labelKeyPosition.filter fun p => p.metricName = metricName).map
      (·.pos) :=
    List.mem_map_of_mem (List.mem_filter.mpr ⟨hq, by simpa using hname⟩)
  cases hmax : maxPos c metricName with
  | none =>
    rw [maxPos, List.max?_eq_none_iff] at hmax
    simp [hmax] at hmem
  | some top => exact ⟨top, rfl, (List.max?_eq_some_iff.mp hmax).2 _ hmem⟩

theorem PositionsWellFormed.nextPosition_first (h : PositionsWellFormed c)
    (metricName key : String) :
    0 < nextPosition c metricName key ∧
      (nextPosition c metricName key = 1 ↔ key = metricNameLabelName) := by
  unfold nextPosition
  by_cases hkey : key = metricNameLabelName
  · simp [hkey]
  · simp only [hkey, if_false, iff_false]
    cases hmax : maxPos c metricName with
    | none => simp
    | some top =>
      obtain ⟨q, hq, hqtop⟩ := List.mem_map.mp (List.max?_eq_some_iff.mp hmax).1
      have := (h.first q (List.mem_filter.mp hq).1).1
      simp only
      omega

theorem PositionsWellFormed.nextPosition_new (h : PositionsWellFormed c)
    {metricName key : String} (hnew : c.position? metricName key = none)
    {q : LabelKeyPositionRow} (hq : q ∈ c.labelKeyPosition)
    (hname : q.metricName = metricName) : q.pos ≠ nextPosition c metricName key := by
  intro heq
  have hfirst := h.nextPosition_first metricName key
  by_cases hkey : key = metricNameLabelName
  · have hqkey := (h.first q hq).2.mp (heq.trans (hfirst.2.mpr hkey))
    exact Catalog.position?_eq_none_iff.mp hnew q hq ⟨hname, hqkey.trans hkey.symm⟩
  · obtain ⟨top, hmax, hle⟩ := le_maxPos hq hname
    simp only [nextPosition, hkey, if_false, hmax] at heq
    omega

theorem PositionsWellFormed.edit (h : PositionsWellFormed c) (hedit : Edit A c c') :
    PositionsWellFormed c' := by
  cases hedit with
  | unobserved hu =>
    refine ⟨?_, ?_, ?_⟩ <;> rw [hu.position]
    exacts [h.keyInj, h.posInj, h.first]
  | addPosition metricName key hnew =>
    have hfresh := Catalog.position?_eq_none_iff.mp hnew
    refine ⟨?_, ?_, ?_⟩
    · intro p hp q hq hname hkey
      simp only [withPosition, List.mem_append, List.mem_singleton] at hp hq
      rcases hp with hp | rfl <;> rcases hq with hq | rfl
      · exact h.keyInj p hp q hq hname hkey
      · exact absurd ⟨hname, hkey⟩ (hfresh p hp)
      · exact absurd ⟨hname.symm, hkey.symm⟩ (hfresh q hq)
      · rfl
    · intro p hp q hq hname hpos
      simp only [withPosition, List.mem_append, List.mem_singleton] at hp hq
      rcases hp with hp | rfl <;> rcases hq with hq | rfl
      · exact h.posInj p hp q hq hname hpos
      · exact absurd hpos (h.nextPosition_new hnew hp hname)
      · exact absurd hpos.symm (h.nextPosition_new hnew hq hname.symm)
      · rfl
    · intro p hp
      simp only [withPosition, List.mem_append, List.mem_singleton] at hp
      rcases hp with hp | rfl
      · exact h.first p hp
      · exact h.nextPosition_first metricName key
  | addLabel | addMetric | completeMetric | addSeries => exact ⟨h.keyInj, h.posInj, h.first⟩

theorem MetricsWellFormed.completeMetric (h : MetricsWellFormed c) (metricId : Nat) :
    MetricsWellFormed { c with metric := c.metric.map (completed metricId) } := by
  refine ⟨?_, ?_, ?_, ?_, ?_, ?_, ?_⟩
  case refine_7 =>
    intro t p hp
    obtain ⟨m, hm, ht⟩ := h.ofPartition t p hp
    exact ⟨_, List.mem_map_of_mem hm, (completed_tableName metricId m).trans ht⟩
  all_goals
    simp only [List.forall_mem_map, completed_id, completed_metricName, completed_tableName]
  · exact h.bound
  · exact fun m hm m' hm' heq => congrArg _ (h.idInj m hm m' hm' heq)
  · exact fun m hm m' hm' heq => congrArg _ (h.nameInj m hm m' hm' heq)
  · exact fun m hm m' hm' heq => congrArg _ (h.tableInj m hm m' hm' heq)
  · exact h.partition
  · exact h.data

theorem MetricsWellFormed.addMetric (h : MetricsWellFormed c) {metricName : String}
    {labelId : Nat} (hnew : ∀ m ∈ c.metric, m.metricName ≠ metricName ∧
      m.tableName ≠ (newMetric c metricName).tableName) :
    MetricsWellFormed (withMetric c metricName labelId) := by
  have hmem : ∀ m, m ∈ (withMetric c metricName labelId).metric ↔
      m ∈ c.metric ∨ m = newMetric c metricName := by simp [withMetric]
  have hid : ∀ m ∈ c.metric, m.id ≠ (newMetric c metricName).id := by
    intro m hm heq
    have := h.bound m hm
    simp only [newMetric] at heq
    omega
  refine ⟨?_, ?_, ?_, ?_, ?_, ?_, ?_⟩
  · intro m hm
    rcases (hmem m).mp hm with hm | rfl
    · have := h.bound m hm
      simp only [withMetric, newMetric, Function.update_self]
      omega
    · simp [withMetric]
  · intro m hm m' hm' heq
    rcases (hmem m).mp hm with hm | rfl <;> rcases (hmem m').mp hm' with hm' | rfl
    · exact h.idInj m hm m' hm' heq
    · exact absurd heq (hid m hm)
    · exact absurd heq.symm (hid m' hm')
    · rfl
  · intro m hm m' hm' heq
    rcases (hmem m).mp hm with hm | rfl <;> rcases (hmem m').mp hm' with hm' | rfl
    · exact h.nameInj m hm m' hm' heq
    · exact absurd heq (hnew m hm).1
    · exact absurd heq.symm (hnew m' hm').1
    · rfl
  · intro m hm m' hm' heq
    rcases (hmem m).mp hm with hm | rfl <;> rcases (hmem m').mp hm' with hm' | rfl
    · exact h.tableInj m hm m' hm' heq
    · exact absurd heq (hnew m hm).2
    · exact absurd heq.symm (hnew m' hm').2
    · rfl
  · intro m hm
    rcases (hmem m).mp hm with hm | rfl
    · simpa [withMetric, (hnew m hm).2] using h.partition m hm
    · exact ⟨_, Function.update_self .., rfl⟩
  · intro m hm
    rcases (hmem m).mp hm with hm | rfl
    · simpa [withMetric, (hnew m hm).2] using h.data m hm
    · simp [withMetric]
  · intro t p hp
    by_cases ht : t = (newMetric c metricName).tableName
    · exact ⟨_, (hmem _).mpr (.inr rfl), ht.symm⟩
    · simp only [withMetric, Function.update_of_ne ht] at hp
      obtain ⟨m, hm, hmt⟩ := h.ofPartition t p hp
      exact ⟨m, (hmem m).mpr (.inl hm), hmt⟩

theorem MetricsWellFormed.addSeries (h : MetricsWellFormed c) {t : String}
    {p : SeriesPartition} {metricId : Nat} {array : List Nat} (hp : c.dataSeries t = some p) :
    MetricsWellFormed (withSeries c t p metricId array) := by
  refine ⟨?_, h.idInj, h.nameInj, h.tableInj, ?_, h.data, ?_⟩
  · intro m hm
    simpa [withSeries] using h.bound m hm
  · intro m hm
    obtain ⟨p', hp', hcheck⟩ := h.partition m hm
    by_cases ht : m.tableName = t
    · subst ht
      obtain rfl : p = p' := by simpa [hp] using hp'
      exact ⟨_, Function.update_self .., hcheck⟩
    · exact ⟨p', by simp [withSeries, ht, hp'], hcheck⟩
  · intro t' p' hp'
    by_cases ht : t' = t
    · exact ht ▸ h.ofPartition t p hp
    · simp only [withSeries, Function.update_of_ne ht] at hp'
      exact h.ofPartition t' p' hp'

theorem MetricsWellFormed.edit (h : MetricsWellFormed c) (hedit : Edit A c c') :
    MetricsWellFormed c' := by
  cases hedit with
  | unobserved hu =>
    refine ⟨?_, ?_, ?_, ?_, ?_, ?_, ?_⟩ <;> rw [hu.metric]
    · exact fun m hm => (h.bound m hm).trans (hu.lastValue .metric)
    · exact h.idInj
    · exact h.nameInj
    · exact h.tableInj
    · simpa only [hu.series] using h.partition
    · simpa only [hu.data] using h.data
    · simpa only [hu.series] using h.ofPartition
  | addLabel key value =>
    exact ⟨fun m hm => by simpa [withLabel] using h.bound m hm, h.idInj, h.nameInj,
      h.tableInj, h.partition, h.data, h.ofPartition⟩
  | addPosition =>
    exact ⟨h.bound, h.idInj, h.nameInj, h.tableInj, h.partition, h.data, h.ofPartition⟩
  | addMetric metricName labelId hlabel hnew hseries => exact h.addMetric hnew
  | completeMetric metricId => exact h.completeMetric metricId
  | addSeries m p labels array hmetric hseries => exact h.addSeries hseries

theorem SeriesWellFormed.unobserved (h : SeriesWellFormed c) (hu : Unobserved c c') :
    SeriesWellFormed c' := by
  refine ⟨?_, ?_, ?_, ?_, ?_, ?_, ?_⟩ <;> rw [hu.series]
  · exact h.check
  · exact fun t p hp s hs => (h.bound t p hp s hs).trans (hu.lastValue .seriesId)
  · exact h.idInj
  · exact h.labelsInj
  · exact fun t p hp s hs l hl => (h.labelBound t p hp s hs l hl).trans (hu.lastValue .label)
  · exact fun t p hp =>
      ⟨(h.checkBound t p hp).1, (h.checkBound t p hp).2.trans (hu.lastValue .label)⟩
  · rw [hu.metric, hu.label]
    exact h.checkRow

theorem SeriesWellFormed.addLabel (h : SeriesWellFormed c) (key value : String) :
    SeriesWellFormed (withLabel c key value) := by
  have hle : c.lastValue .label ≤ (withLabel c key value).lastValue .label := by
    simp [withLabel]
  refine ⟨h.check, ?_, h.idInj, h.labelsInj, ?_, ?_, ?_⟩
  · intro t p hp s hs
    simpa [withLabel] using h.bound t p hp s hs
  · exact fun t p hp s hs l hl => (h.labelBound t p hp s hs l hl).trans hle
  · exact fun t p hp => ⟨(h.checkBound t p hp).1, (h.checkBound t p hp).2.trans hle⟩
  · intro m hm p hp l hl heq
    simp only [withLabel, List.mem_append, List.mem_singleton] at hl
    rcases hl with hl | rfl
    · exact h.checkRow m hm p hp l hl heq
    · -- the new id is above every id that a partition checks for
      have hbound := (h.checkBound m.tableName p hp).2
      simp only at heq
      omega

theorem SeriesWellFormed.addMetric (h : SeriesWellFormed c) (hlabels : LabelsWellFormed c)
    {metricName : String} {labelId : Nat}
    (hlabel : c.labelId? metricNameLabelName metricName = some labelId)
    (hnew : ∀ m ∈ c.metric, m.metricName ≠ metricName ∧
      m.tableName ≠ (newMetric c metricName).tableName) :
    SeriesWellFormed (withMetric c metricName labelId) := by
  obtain ⟨l₀, hl₀, hkey₀, hvalue₀, rfl⟩ := Catalog.exists_of_labelId? hlabel
  -- the new partition has no rows, so whatever is said about rows is as before
  have hold : ∀ t p, (withMetric c metricName l₀.id).dataSeries t = some p →
      c.dataSeries t = some p ∨ t = (newMetric c metricName).tableName ∧
        p.rows = [] ∧ p.checkLabel = l₀.id := by
    intro t p hp
    by_cases ht : t = (newMetric c metricName).tableName
    · subst ht
      simp only [withMetric, Function.update_self, Option.some.injEq] at hp
      subst hp
      exact .inr ⟨rfl, rfl, rfl⟩
    · simp only [withMetric, Function.update_of_ne ht] at hp
      exact .inl hp
  have hrows : ∀ t p, (withMetric c metricName l₀.id).dataSeries t = some p →
      ∀ s ∈ p.rows, c.dataSeries t = some p := by
    intro t p hp s hs
    rcases hold t p hp with hp | ⟨-, hnil, -⟩
    · exact hp
    · simp [hnil] at hs
  have hlast : (withMetric c metricName l₀.id).lastValue .label = c.lastValue .label ∧
      (withMetric c metricName l₀.id).lastValue .seriesId = c.lastValue .seriesId := by
    simp [withMetric]
  refine ⟨?_, ?_, ?_, ?_, ?_, ?_, ?_⟩
  · exact fun t p hp s hs => h.check t p (hrows t p hp s hs) s hs
  · rw [hlast.2]
    exact fun t p hp s hs => h.bound t p (hrows t p hp s hs) s hs
  · exact fun t p hp t' p' hp' s hs s' hs' =>
      h.idInj t p (hrows t p hp s hs) t' p' (hrows t' p' hp' s' hs') s hs s' hs'
  · exact fun t p hp s hs => h.labelsInj t p (hrows t p hp s hs) s hs
  · rw [hlast.1]
    exact fun t p hp s hs => h.labelBound t p (hrows t p hp s hs) s hs
  · intro t p hp
    rw [hlast.1]
    rcases hold t p hp with hp | ⟨-, -, hcheck⟩
    · exact h.checkBound t p hp
    · exact hcheck ▸ hlabels.bound l₀ hl₀
  · intro m hm p hp l hl heq
    simp only [withMetric, List.mem_append, List.mem_singleton] at hm
    rcases hm with hm | rfl
    · simp only [withMetric, Function.update_of_ne (hnew m hm).2] at hp
      exact h.checkRow m hm p hp l hl heq
    · simp only [withMetric, Function.update_self, Option.some.injEq] at hp
      subst hp
      rw [hlabels.idInj l hl l₀ hl₀ heq]
      exact ⟨hkey₀, hvalue₀⟩

theorem SeriesWellFormed.addSeries (h : SeriesWellFormed c) (hlabels : LabelsWellFormed c)
    {m : MetricRow} {p : SeriesPartition} {labels : LabelSet} {array : List Nat}
    (hp : c.dataSeries m.tableName = some p)
    (hcheck : SeriesPartition.check p m.id array = true)
    (hnew : SeriesPartition.findLabels p array = none)
    (hencodes : Encodes c m.metricName labels array) :
    SeriesWellFormed (withSeries c m.tableName p m.id array) := by
  let new : SeriesRow := ⟨c.lastValue .seriesId + 1, m.id, array⟩
  have hold : ∀ t p', (withSeries c m.tableName p m.id array).dataSeries t = some p' →
      ∃ p₀, c.dataSeries t = some p₀ ∧ p'.checkLabel = p₀.checkLabel ∧
        p'.checkMetric = p₀.checkMetric ∧
        ∀ s ∈ p'.rows, s ∈ p₀.rows ∨ t = m.tableName ∧ s = new := by
    intro t p' hp'
    by_cases ht : t = m.tableName
    · subst ht
      simp only [withSeries, Function.update_self, Option.some.injEq] at hp'
      subst hp'
      refine ⟨p, hp, rfl, rfl, ?_⟩
      intro s hs
      simpa [new] using hs
    · simp only [withSeries, Function.update_of_ne ht] at hp'
      exact ⟨p', hp', rfl, rfl, fun s hs => .inl hs⟩
  have hfresh : ∀ t p₀, c.dataSeries t = some p₀ → ∀ s ∈ p₀.rows, s.id ≠ new.id := by
    intro t p₀ hp₀ s hs heq
    have := h.bound t p₀ hp₀ s hs
    simp only [new] at heq
    omega
  have hnotin : ∀ s ∈ p.rows, s.labels ≠ array := by
    intro s hs
    simpa using List.find?_eq_none.mp hnew s hs
  have hlast : (withSeries c m.tableName p m.id array).lastValue .label =
      c.lastValue .label := by simp [withSeries]
  refine ⟨?_, ?_, ?_, ?_, ?_, ?_, ?_⟩
  · intro t p' hp' s hs
    obtain ⟨p₀, hp₀, hlabel, hmetric, hrows⟩ := hold t p' hp'
    unfold SeriesPartition.check
    rw [hlabel, hmetric]
    rcases hrows s hs with hs | ⟨rfl, rfl⟩
    · exact h.check t p₀ hp₀ s hs
    · obtain rfl : p = p₀ := by simpa [hp] using hp₀
      exact hcheck
  · intro t p' hp' s hs
    obtain ⟨p₀, hp₀, -, -, hrows⟩ := hold t p' hp'
    rcases hrows s hs with hs | ⟨rfl, rfl⟩
    · have := h.bound t p₀ hp₀ s hs
      simp only [withSeries, Function.update_self]
      omega
    · simp [withSeries, new]
  · intro t p' hp' t' p'' hp'' s hs s' hs' heq
    obtain ⟨p₀, hp₀, -, -, hrows⟩ := hold t p' hp'
    obtain ⟨p₁, hp₁, -, -, hrows'⟩ := hold t' p'' hp''
    rcases hrows s hs with hs | ⟨rfl, rfl⟩ <;> rcases hrows' s' hs' with hs' | ⟨rfl, rfl⟩
    · exact h.idInj t p₀ hp₀ t' p₁ hp₁ s hs s' hs' heq
    · exact absurd heq (hfresh t p₀ hp₀ s hs)
    · exact absurd heq.symm (hfresh t' p₁ hp₁ s' hs')
    · exact ⟨rfl, rfl⟩
  · intro t p' hp' s hs s' hs' heq
    obtain ⟨p₀, hp₀, -, -, hrows⟩ := hold t p' hp'
    rcases hrows s hs with hs | ⟨rfl, rfl⟩ <;> rcases hrows s' hs' with hs' | ⟨ht, rfl⟩
    · exact h.labelsInj t p₀ hp₀ s hs s' hs' heq
    · obtain rfl : p = p₀ := by simpa [ht, hp] using hp₀
      exact absurd heq (hnotin s hs)
    · obtain rfl : p = p₀ := by simpa [hp] using hp₀
      exact absurd heq.symm (hnotin s' hs')
    · rfl
  · intro t p' hp' s hs l hl
    obtain ⟨p₀, hp₀, -, -, hrows⟩ := hold t p' hp'
    rw [hlast]
    rcases hrows s hs with hs | ⟨rfl, rfl⟩
    · exact h.labelBound t p₀ hp₀ s hs l hl
    · obtain rfl | ⟨kv, -, hid⟩ := Encodes.mem_array hencodes hl
      · exact Nat.zero_le _
      · obtain ⟨row, hrow, -, -, rfl⟩ := Catalog.exists_of_labelId? hid
        exact (hlabels.bound row hrow).2
  · intro t p' hp'
    obtain ⟨p₀, hp₀, hlabel, -, -⟩ := hold t p' hp'
    rw [hlast, hlabel]
    exact h.checkBound t p₀ hp₀
  · intro m' hm' p' hp' l hl heq
    obtain ⟨p₀, hp₀, hlabel, -, -⟩ := hold m'.tableName p' hp'
    exact h.checkRow m' hm' p₀ hp₀ l hl (heq.trans hlabel)

theorem SeriesWellFormed.edit (h : SeriesWellFormed c) (hlabels : LabelsWellFormed c)
    (hedit : Edit A c c') : SeriesWellFormed c' := by
  cases hedit with
  | unobserved hu => exact h.unobserved hu
  | addLabel key value => exact h.addLabel key value
  | addPosition =>
    exact ⟨h.check, h.bound, h.idInj, h.labelsInj, h.labelBound, h.checkBound, h.checkRow⟩
  | addMetric metricName labelId hlabel hnew => exact h.addMetric hlabels hlabel hnew
  | completeMetric metricId =>
    refine ⟨h.check, h.bound, h.idInj, h.labelsInj, h.labelBound, h.checkBound, ?_⟩
    simp only [List.forall_mem_map, completed_tableName, completed_metricName]
    exact h.checkRow
  | addSeries m p labels array hmetric hseries hcheck hnew hadm hencodes =>
    exact h.addSeries hlabels hseries hcheck hnew hencodes

theorem WellFormed.edit (h : WellFormed c) (hedit : Edit A c c') : WellFormed c' :=
  ⟨h.labels.edit hedit, h.positions.edit hedit, h.metrics.edit hedit,
    h.series.edit h.labels hedit⟩

theorem WellFormed.edits (h : WellFormed c) (hedits : Edits A c c') : WellFormed c' := by
  induction hedits with
  | refl => exact h
  | tail _ hedit ih => exact ih.edit hedit

end Preserved

end TimescalePrometheus.Sql.Invariant
