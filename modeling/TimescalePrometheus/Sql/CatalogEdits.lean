import TimescalePrometheus.Sql.Retention

/-!
What the functions of the catalog can do to it.
-/

namespace TimescalePrometheus.Sql.CatalogEdits

open Sql.Names Sql.Tables Sql.LabelKeys Sql.Series

/-- `array` is the label array of the label set under the positions and the
label ids that the catalog has now. -/
def Encodes (c : Catalog) (metricName : String) (labels : LabelSet) (array : List Nat) : Prop :=
  ∃ rows : List (Nat × Nat),
    List.Forall₂ (fun kv row => c.position? metricName kv.1 = some row.1 ∧
      c.labelId? kv.1 kv.2 = some row.2) labels rows ∧ array = arrayOf rows

/-- A new row of the label table. -/
def withLabel (c : Catalog) (key value : String) : Catalog :=
  let id := c.lastValue .label + 1
  { c with
    label := c.label ++ [{ id, key, value }]
    lastValue := Function.update c.lastValue .label id }

/-- A new position of a key. -/
def withPosition (c : Catalog) (metricName key : String) : Catalog :=
  let pos := nextPosition c metricName key
  { c with labelKeyPosition := c.labelKeyPosition ++ [{ metricName, key, pos }] }

/-- The row that `create_metric_table` inserts next. -/
def newMetric (c : Catalog) (metricName : String) : MetricRow :=
  let id := c.lastValue .metric + 1
  { id, metricName, tableName := pgNameUnique metricName (toString id) }

/-- A new metric with its tables. -/
def withMetric (c : Catalog) (metricName : String) (labelId : Nat) : Catalog :=
  let new := newMetric c metricName
  let partition : SeriesPartition := { checkLabel := labelId, checkMetric := new.id, rows := [] }
  { c with
    metric := c.metric ++ [new]
    data := Function.update c.data new.tableName (some { chunks := [], rows := [] })
    dataSeries := Function.update c.dataSeries new.tableName (some partition)
    lastValue := Function.update c.lastValue .metric new.id }

/-- A new series. -/
def withSeries (c : Catalog) (tableName : String) (p : SeriesPartition) (metricId : Nat)
    (labels : List Nat) : Catalog :=
  let id := c.lastValue .seriesId + 1
  let partition := { p with rows := p.rows ++ [{ id, metricId, labels }] }
  { c with
    dataSeries := Function.update c.dataSeries tableName (some partition)
    lastValue := Function.update c.lastValue .seriesId id }

def completed (metricId : Nat) (m : MetricRow) : MetricRow :=
  if m.id = metricId then { m with creationCompleted := true } else m

/-- The two catalogs have the same labels, positions, metrics and series; they may
differ in label key rows, views, data rows and in how far the sequences are. -/
structure Unobserved (c c' : Catalog) : Prop where
  label : c'.label = c.label
  position : c'.labelKeyPosition = c.labelKeyPosition
  metric : c'.metric = c.metric
  series : c'.dataSeries = c.dataSeries
  data : ∀ t, (c'.data t).isSome = (c.data t).isSome
  lastValue : ∀ q, c.lastValue q ≤ c'.lastValue q

theorem Unobserved.refl (c : Catalog) : Unobserved c c :=
  ⟨rfl, rfl, rfl, rfl, fun _ => rfl, fun _ => le_rfl⟩

theorem Unobserved.trans {c c' c'' : Catalog} (h : Unobserved c c') (h' : Unobserved c' c'') :
    Unobserved c c'' :=
  ⟨h'.label.trans h.label, h'.position.trans h.position, h'.metric.trans h.metric,
    h'.series.trans h.series, fun t => (h'.data t).trans (h.data t),
    fun q => (h.lastValue q).trans (h'.lastValue q)⟩

theorem Unobserved.position?_eq {c c' : Catalog} (h : Unobserved c c')
    (metricName key : String) :
    c'.position? metricName key = c.position? metricName key := by
  unfold Catalog.position?
  rw [h.position]

theorem Unobserved.nextPosition_eq {c c' : Catalog} (h : Unobserved c c')
    (metricName key : String) :
    nextPosition c' metricName key = nextPosition c metricName key := by
  unfold nextPosition maxPos
  rw [h.position]

/-- One change of the catalog. `A` says for which metric name and label set a
series may be stored. -/
inductive Edit (A : String → LabelSet → Prop) (c : Catalog) : Catalog → Prop where
  | unobserved {c' : Catalog} (h : Unobserved c c') : Edit A c c'
  | addLabel (key value : String) (hnew : c.labelId? key value = none) :
      Edit A c (withLabel c key value)
  | addPosition (metricName key : String) (hnew : c.position? metricName key = none) :
      Edit A c (withPosition c metricName key)
  | addMetric (metricName : String) (labelId : Nat)
      (hlabel : c.labelId? metricNameLabelName metricName = some labelId)
      (hnew : ∀ m ∈ c.metric, m.metricName ≠ metricName ∧
        m.tableName ≠ (newMetric c metricName).tableName)
      (hseries : c.dataSeries (newMetric c metricName).tableName = none) :
      Edit A c (withMetric c metricName labelId)
  | completeMetric (metricId : Nat) :
      Edit A c { c with metric := c.metric.map (completed metricId) }
  | addSeries (m : MetricRow) (p : SeriesPartition) (labels : LabelSet) (array : List Nat)
      (hmetric : m ∈ c.metric) (hseries : c.dataSeries m.tableName = some p)
      (hcheck : SeriesPartition.check p m.id array = true)
      (hnew : SeriesPartition.findLabels p array = none)
      (hadm : A m.metricName labels) (hencodes : Encodes c m.metricName labels array) :
      Edit A c (withSeries c m.tableName p m.id array)

/-- A sequence of edits. -/
abbrev Edits (A : String → LabelSet → Prop) : Catalog → Catalog → Prop :=
  Relation.ReflTransGen (Edit A)

section Stable

variable {A : String → LabelSet → Prop} {c c' : Catalog}

theorem Edit.label_mem (h : Edit A c c') {l : LabelRow} (hl : l ∈ c.label) :
    l ∈ c'.label := by
  cases h with
  | unobserved h => rw [h.label]; exact hl
  | addLabel key value hnew => simp [withLabel, hl]
  | addPosition | addMetric | completeMetric | addSeries => exact hl

theorem Edit.lastValue_le (h : Edit A c c') (q : Sequence) :
    c.lastValue q ≤ c'.lastValue q := by
  cases h with
  | unobserved h => exact h.lastValue q
  | addLabel key value hnew => cases q <;> simp [withLabel]
  | addPosition | completeMetric => exact le_rfl
  | addMetric metricName labelId => cases q <;> simp [withMetric, newMetric]
  | addSeries m p labels array => cases q <;> simp [withSeries]

theorem Edit.labelId?_eq (h : Edit A c c') {key value : String} {id : Nat}
    (hid : c.labelId? key value = some id) : c'.labelId? key value = some id := by
  cases h with
  | unobserved h => rw [Catalog.labelId?, h.label]; exact hid
  | addLabel key' value' hnew =>
    obtain ⟨l, hfind, hl⟩ := Option.map_eq_some_iff.mp hid
    unfold Catalog.labelId? withLabel
    rw [List.find?_append, hfind]
    simp [hl]
  | addPosition | addMetric | completeMetric | addSeries => exact hid

theorem Edit.position?_eq (h : Edit A c c') {metricName key : String} {pos : Nat}
    (hpos : c.position? metricName key = some pos) :
    c'.position? metricName key = some pos := by
  cases h with
  | unobserved h => rw [Catalog.position?, h.position]; exact hpos
  | addPosition metricName' key' hnew =>
    obtain ⟨p, hfind, hp⟩ := Option.map_eq_some_iff.mp hpos
    unfold Catalog.position? withPosition
    rw [List.find?_append, hfind]
    simp [hp]
  | addLabel | addMetric | completeMetric | addSeries => exact hpos

theorem completed_metricName (metricId : Nat) (m : MetricRow) :
    (completed metricId m).metricName = m.metricName := by
  unfold completed
  split <;> rfl

theorem completed_tableName (metricId : Nat) (m : MetricRow) :
    (completed metricId m).tableName = m.tableName := by
  unfold completed
  split <;> rfl

theorem completed_id (metricId : Nat) (m : MetricRow) :
    (completed metricId m).id = m.id := by
  unfold completed
  split <;> rfl

theorem Edit.metric_mem (h : Edit A c c') {m : MetricRow} (hm : m ∈ c.metric) :
    ∃ m' ∈ c'.metric, m'.metricName = m.metricName ∧ m'.tableName = m.tableName ∧
      m'.id = m.id := by
  cases h with
  | unobserved h => exact ⟨m, h.metric ▸ hm, rfl, rfl, rfl⟩
  | addMetric metricName labelId => exact ⟨m, by simp [withMetric, hm], rfl, rfl, rfl⟩
  | completeMetric metricId =>
    exact ⟨completed metricId m, List.mem_map_of_mem hm, completed_metricName metricId m,
      completed_tableName metricId m, completed_id metricId m⟩
  | addLabel | addPosition | addSeries => exact ⟨m, hm, rfl, rfl, rfl⟩

theorem Edit.metric_cases (h : Edit A c c') {m' : MetricRow} (hm' : m' ∈ c'.metric) :
    (∃ m ∈ c.metric, m'.metricName = m.metricName ∧ m'.tableName = m.tableName) ∨
      ∃ p, c'.dataSeries m'.tableName = some p ∧
        c'.labelId? metricNameLabelName m'.metricName = some p.checkLabel := by
  cases h with
  | unobserved h => exact .inl ⟨m', h.metric ▸ hm', rfl, rfl⟩
  | addMetric metricName labelId hlabel =>
    simp only [withMetric, List.mem_append, List.mem_singleton] at hm'
    rcases hm' with hm' | rfl
    · exact .inl ⟨m', hm', rfl, rfl⟩
    · exact .inr ⟨_, Function.update_self .., hlabel⟩
  | completeMetric metricId =>
    obtain ⟨m, hm, rfl⟩ := List.mem_map.mp hm'
    exact .inl ⟨m, hm, completed_metricName metricId m, completed_tableName metricId m⟩
  | addLabel | addPosition | addSeries => exact .inl ⟨m', hm', rfl, rfl⟩

theorem Edit.partition_eq (h : Edit A c c') {t : String} {p : SeriesPartition}
    (hp : c.dataSeries t = some p) :
    ∃ p', c'.dataSeries t = some p' ∧ p'.checkLabel = p.checkLabel ∧
      p'.checkMetric = p.checkMetric ∧ ∀ s ∈ p.rows, s ∈ p'.rows := by
  cases h with
  | unobserved h => exact ⟨p, by rw [h.series, hp], rfl, rfl, fun s hs => hs⟩
  | addMetric metricName labelId hlabel hnew hseries =>
    have hne : t ≠ (newMetric c metricName).tableName := by
      rintro rfl
      simp [hseries] at hp
    exact ⟨p, by simp [withMetric, hne, hp], rfl, rfl, fun s hs => hs⟩
  | addSeries m p₀ labels array hmetric hseries =>
    by_cases ht : t = m.tableName
    · subst ht
      obtain rfl : p₀ = p := by simpa [hseries] using hp
      exact ⟨_, Function.update_self .., rfl, rfl, fun s hs => by simp [hs]⟩
    · exact ⟨p, by simp [withSeries, ht, hp], rfl, rfl, fun s hs => hs⟩
  | addLabel | addPosition | completeMetric => exact ⟨p, hp, rfl, rfl, fun s hs => hs⟩

theorem Edit.row_cases (h : Edit A c c') {t : String} {p' : SeriesPartition} {s : SeriesRow}
    (hp' : c'.dataSeries t = some p') (hs : s ∈ p'.rows) :
    (∃ p, c.dataSeries t = some p ∧ s ∈ p.rows) ∨
      ∃ m ∈ c.metric, ∃ labels, m.tableName = t ∧ A m.metricName labels ∧
        Encodes c m.metricName labels s.labels := by
  cases h with
  | unobserved h => exact .inl ⟨p', h.series ▸ hp', hs⟩
  | addMetric metricName labelId =>
    by_cases ht : t = (newMetric c metricName).tableName
    · subst ht
      simp only [withMetric, Function.update_self, Option.some.injEq] at hp'
      subst hp'
      simp at hs
    · simp only [withMetric, Function.update_of_ne ht] at hp'
      exact .inl ⟨p', hp', hs⟩
  | addSeries m p labels array hmetric hseries hcheck hnew hadm hencodes =>
    by_cases ht : t = m.tableName
    · subst ht
      simp only [withSeries, Function.update_self, Option.some.injEq] at hp'
      subst hp'
      simp only [List.mem_append, List.mem_singleton] at hs
      rcases hs with hs | rfl
      · exact .inl ⟨p, hseries, hs⟩
      · exact .inr ⟨m, hmetric, labels, rfl, hadm, hencodes⟩
    · simp only [withSeries, Function.update_of_ne ht] at hp'
      exact .inl ⟨p', hp', hs⟩
  | addLabel | addPosition | completeMetric => exact .inl ⟨p', hp', hs⟩

theorem Encodes.edit {metricName : String} {labels : LabelSet} {array : List Nat}
    (henc : Encodes c metricName labels array) (h : Edit A c c') :
    Encodes c' metricName labels array := by
  obtain ⟨rows, hrows, harray⟩ := henc
  refine ⟨rows, hrows.imp ?_, harray⟩
  rintro kv row ⟨hpos, hid⟩
  exact ⟨h.position?_eq hpos, h.labelId?_eq hid⟩

theorem Encodes.edits {metricName : String} {labels : LabelSet} {array : List Nat}
    (henc : Encodes c metricName labels array) (h : Edits A c c') :
    Encodes c' metricName labels array := by
  induction h with
  | refl => exact henc
  | tail _ hedit ih => exact ih.edit hedit

theorem Edits.labelId?_eq (h : Edits A c c') {key value : String} {id : Nat}
    (hid : c.labelId? key value = some id) : c'.labelId? key value = some id := by
  induction h with
  | refl => exact hid
  | tail _ hedit ih => exact hedit.labelId?_eq ih

theorem Edits.position?_eq (h : Edits A c c') {metricName key : String} {pos : Nat}
    (hpos : c.position? metricName key = some pos) :
    c'.position? metricName key = some pos := by
  induction h with
  | refl => exact hpos
  | tail _ hedit ih => exact hedit.position?_eq ih

theorem Edits.metric_mem (h : Edits A c c') {m : MetricRow} (hm : m ∈ c.metric) :
    ∃ m' ∈ c'.metric, m'.metricName = m.metricName ∧ m'.tableName = m.tableName ∧
      m'.id = m.id := by
  induction h with
  | refl => exact ⟨m, hm, rfl, rfl, rfl⟩
  | tail _ hedit ih =>
    obtain ⟨m₁, hm₁, hname₁, htable₁, hid₁⟩ := ih
    obtain ⟨m₂, hm₂, hname₂, htable₂, hid₂⟩ := hedit.metric_mem hm₁
    exact ⟨m₂, hm₂, hname₂.trans hname₁, htable₂.trans htable₁, hid₂.trans hid₁⟩

theorem Edits.partition_eq (h : Edits A c c') {t : String} {p : SeriesPartition}
    (hp : c.dataSeries t = some p) :
    ∃ p', c'.dataSeries t = some p' ∧ p'.checkLabel = p.checkLabel ∧
      p'.checkMetric = p.checkMetric ∧ ∀ s ∈ p.rows, s ∈ p'.rows := by
  induction h with
  | refl => exact ⟨p, hp, rfl, rfl, fun s hs => hs⟩
  | tail _ hedit ih =>
    obtain ⟨p₁, hp₁, hlabel₁, hmetric₁, hrows₁⟩ := ih
    obtain ⟨p₂, hp₂, hlabel₂, hmetric₂, hrows₂⟩ := hedit.partition_eq hp₁
    exact ⟨p₂, hp₂, hlabel₂.trans hlabel₁, hmetric₂.trans hmetric₁,
      fun s hs => hrows₂ s (hrows₁ s hs)⟩

end Stable

end TimescalePrometheus.Sql.CatalogEdits
