import TimescalePrometheus.Sql.CatalogEdits

/-!
The functions of the catalog only ever edit it: one theorem for each function
says which edits a call that returns amounts to, and what it returns.
-/

namespace TimescalePrometheus.Sql.FunctionEdits

open Lib.Transactions Sql.Names Sql.Tables Sql.Metrics Sql.LabelKeys Sql.Series Sql.Retention
open Sql.CatalogEdits

variable {A : String → LabelSet → Prop} {c c' : Catalog}

theorem nextval_eq_ok {q : Sequence} {n : Nat} :
    nextval q c = .ok n c' ↔ n = c.lastValue q + 1 ∧
      c' = { c with lastValue := Function.update c.lastValue q (c.lastValue q + 1) } := by
  simp only [nextval, bind_eq_ok, get_eq_ok, set_eq_ok, pure_eq_ok]
  constructor
  · rintro ⟨_, _, ⟨rfl, rfl⟩, _, _, rfl, rfl, rfl⟩
    exact ⟨rfl, rfl⟩
  · rintro ⟨rfl, rfl⟩
    exact ⟨c, c, ⟨rfl, rfl⟩, .unit, _, rfl, rfl, rfl⟩

theorem unobserved_bump (c : Catalog) (q : Sequence) :
    Unobserved c { c with lastValue := Function.update c.lastValue q (c.lastValue q + 1) } := by
  refine ⟨rfl, rfl, rfl, rfl, fun _ => rfl, ?_⟩
  intro q'
  by_cases hq : q' = q
  · subst hq
    simp
  · simp [hq]

theorem getNewLabelId_eq_ok {key value : String} {id : Nat}
    (hnew : c.labelId? key value = none) (h : getNewLabelId key value c = .ok id c') :
    id = c.lastValue .label + 1 ∧ c' = withLabel c key value := by
  simp only [getNewLabelId, bind_eq_ok, get_eq_ok, nextval_eq_ok] at h
  obtain ⟨_, _, ⟨rfl, rfl⟩, _, _, ⟨rfl, rfl⟩, h⟩ := h
  have hstill : Catalog.labelId?
      { c with lastValue := Function.update c.lastValue .label (c.lastValue .label + 1) }
      key value = none := hnew
  rw [hstill] at h
  simp only [bind_eq_ok, set_eq_ok, pure_eq_ok] at h
  obtain ⟨_, _, rfl, rfl, rfl⟩ := h
  exact ⟨rfl, rfl⟩

theorem labelId?_withLabel {key value : String} (hnew : c.labelId? key value = none) :
    (withLabel c key value).labelId? key value = some (c.lastValue .label + 1) := by
  have hfind : (c.label.find? fun l => l.key = key ∧ l.value = value) = none := by
    simpa [Catalog.labelId?] using hnew
  unfold Catalog.labelId? withLabel
  rw [List.find?_append, hfind]
  simp

theorem getOrCreateLabelId_eq_ok {key value : String} {id : Nat}
    (h : getOrCreateLabelId key value c = .ok id c') :
    c.labelId? key value = some id ∧ c' = c ∨
      c.labelId? key value = none ∧ id = c.lastValue .label + 1 ∧ c' = withLabel c key value := by
  simp only [getOrCreateLabelId, bind_eq_ok, get_eq_ok] at h
  obtain ⟨_, _, ⟨rfl, rfl⟩, h⟩ := h
  cases hid : c.labelId? key value with
  | some found =>
    rw [hid] at h
    simp only [pure_eq_ok] at h
    exact .inl ⟨congrArg some h.1, h.2.symm⟩
  | none =>
    rw [hid] at h
    exact .inr ⟨rfl, getNewLabelId_eq_ok hid h⟩

theorem nextval_ne_error {q : Sequence} {e : Abort} : nextval q c ≠ .error e c' := by
  simp only [nextval, ne_eq, bind_eq_error, get_ne_error, set_ne_error, pure_ne_error, and_false,
    exists_false, or_self, not_false_eq_true]

theorem getOrCreateLabelId_ne_error {key value : String} {e : Abort} :
    getOrCreateLabelId key value c ≠ .error e c' := by
  intro h
  simp only [getOrCreateLabelId, bind_eq_error, get_ne_error, get_eq_ok, false_or] at h
  obtain ⟨_, _, ⟨rfl, rfl⟩, h⟩ := h
  cases hid : c.labelId? key value with
  | some id => simp [hid] at h
  | none =>
    simp only [hid, getNewLabelId, bind_eq_error, nextval_ne_error, get_ne_error, get_eq_ok,
      false_or] at h
    obtain ⟨id, c₁, -, _, _, ⟨rfl, rfl⟩, h⟩ := h
    cases hid₁ : c₁.labelId? key value with
    | some id => simp [hid₁] at h
    | none =>
      simp only [hid₁, bind_eq_error, set_ne_error, pure_ne_error, and_false, exists_false,
        or_self] at h

theorem getOrCreateLabelId_returns (key value : String) (c : Catalog) :
    ∃ id c', getOrCreateLabelId key value c = .ok id c' := by
  cases h : getOrCreateLabelId key value c with
  | error e c' => exact absurd h getOrCreateLabelId_ne_error
  | ok id c' => exact ⟨id, c', rfl⟩

theorem getOrCreateLabelId_edits {key value : String} {id : Nat}
    (h : getOrCreateLabelId key value c = .ok id c') :
    Edits A c c' ∧ c'.labelId? key value = some id := by
  obtain ⟨hid, rfl⟩ | ⟨hnone, rfl, rfl⟩ := getOrCreateLabelId_eq_ok h
  · exact ⟨.refl, hid⟩
  · exact ⟨.single (.addLabel key value hnone), labelId?_withLabel hnone⟩

theorem makeMetricTable_eq_ok {new : MetricRow} (h : makeMetricTable new c = .ok () c') :
    c.data new.tableName = none ∧ ∃ labelId c₁,
      getOrCreateLabelId metricNameLabelName new.metricName
        { c with data := Function.update c.data new.tableName (some ⟨[], []⟩) } =
          .ok labelId c₁ ∧
      c₁.dataSeries new.tableName = none ∧
      c' = { c₁ with
        dataSeries := Function.update c₁.dataSeries new.tableName
          (some ⟨labelId, new.id, []⟩) } := by
  simp only [makeMetricTable, bind_eq_ok, get_eq_ok] at h
  obtain ⟨_, _, ⟨rfl, rfl⟩, h⟩ := h
  split at h
  · simp at h
  · rename_i hdata
    simp only [bind_eq_ok, set_eq_ok, get_eq_ok] at h
    obtain ⟨_, _, rfl, labelId, c₁, hlabel, _, _, ⟨rfl, rfl⟩, h⟩ := h
    split at h
    · simp at h
    · rename_i hseries
      simp only [set_eq_ok] at h
      exact ⟨by simpa using hdata, labelId, c₁, hlabel, by simpa using hseries, h.symm⟩

theorem withMetric_withLabel (c : Catalog) (key value metricName : String) (labelId : Nat) :
    withMetric (withLabel c key value) metricName labelId =
      { withLabel { c with
          metric := c.metric ++ [newMetric c metricName]
          lastValue := Function.update c.lastValue .metric (c.lastValue .metric + 1)
          data := Function.update c.data (newMetric c metricName).tableName
            (some ⟨[], []⟩) } key value with
        dataSeries := Function.update c.dataSeries (newMetric c metricName).tableName
          (some ⟨labelId, (newMetric c metricName).id, []⟩) } := by
  simp [withMetric, withLabel, newMetric, Function.update_comm]

theorem createMetricTable_eq_ok {metricName : String} {m : MetricRow}
    (hnone : c.metric? metricName = none) (h : createMetricTable metricName c = .ok m c') :
    m = newMetric c metricName ∧
      (∀ m ∈ c.metric, m.metricName ≠ metricName ∧
        m.tableName ≠ (newMetric c metricName).tableName) ∧
      makeMetricTable (newMetric c metricName)
        { c with
          metric := c.metric ++ [newMetric c metricName]
          lastValue := Function.update c.lastValue .metric (c.lastValue .metric + 1) } =
        .ok () c' := by
  simp only [createMetricTable, bind_eq_ok, get_eq_ok, nextval_eq_ok] at h
  obtain ⟨_, _, ⟨rfl, rfl⟩, _, _, ⟨rfl, rfl⟩, h⟩ := h
  split at h
  · have hstill : Catalog.metric?
        { c with lastValue := Function.update c.lastValue .metric (c.lastValue .metric + 1) }
        metricName = none := hnone
    rw [hstill] at h
    simp at h
  · rename_i hconflict
    simp only [bind_eq_ok, set_eq_ok, pure_eq_ok] at h
    obtain ⟨_, _, rfl, _, c₂, hmake, rfl, rfl⟩ := h
    refine ⟨rfl, fun m hm => ?_, hmake⟩
    simp only [Bool.not_eq_true, List.any_eq_false, decide_eq_true_eq, not_or] at hconflict
    exact (hconflict m hm).2

theorem createMetricTable_edits {metricName : String} {m : MetricRow}
    (hnone : c.metric? metricName = none) (h : createMetricTable metricName c = .ok m c') :
    Edits A c c' ∧ m ∈ c'.metric ∧ m.metricName = metricName ∧
      c'.data m.tableName = some ⟨[], []⟩ := by
  obtain ⟨rfl, hnew, hmake⟩ := createMetricTable_eq_ok hnone h
  obtain ⟨hdata, labelId, c₁, hlabel, hseries, rfl⟩ := makeMetricTable_eq_ok hmake
  obtain ⟨hid, rfl⟩ | ⟨hid, rfl, rfl⟩ := getOrCreateLabelId_eq_ok hlabel
  · refine ⟨.single (.addMetric metricName labelId hid hnew hseries), ?_, rfl, ?_⟩
    · simp
    · exact Function.update_self ..
  · have hfirst : Edit A c (withLabel c metricNameLabelName metricName) :=
      .addLabel _ _ hid
    have hsecond : Edit A (withLabel c metricNameLabelName metricName)
        (withMetric (withLabel c metricNameLabelName metricName) metricName
          (c.lastValue .label + 1)) :=
      .addMetric metricName _ (labelId?_withLabel hid) hnew hseries
    rw [withMetric_withLabel] at hsecond
    refine ⟨.tail (.single hfirst) hsecond, ?_, rfl, ?_⟩
    · simp [withLabel]
    · exact Function.update_self ..

theorem createMetricTable_metric {metricName : String} {m : MetricRow}
    (hnone : c.metric? metricName = none) (h : createMetricTable metricName c = .ok m c') :
    c'.metric = c.metric ++ [newMetric c metricName] := by
  obtain ⟨-, -, hmake⟩ := createMetricTable_eq_ok hnone h
  obtain ⟨-, labelId, c₁, hlabel, -, rfl⟩ := makeMetricTable_eq_ok hmake
  obtain ⟨-, rfl⟩ | ⟨-, -, rfl⟩ := getOrCreateLabelId_eq_ok hlabel <;> rfl

theorem getOrCreateMetricTableName_eq_ok {metricName : String} {m : MetricRow} {new : Bool}
    (h : getOrCreateMetricTableName metricName c = .ok (m, new) c') :
    c.metric? metricName = some m ∧ c' = c ∨
      c.metric? metricName = none ∧ createMetricTable metricName c = .ok m c' := by
  simp only [getOrCreateMetricTableName, bind_eq_ok, get_eq_ok] at h
  obtain ⟨_, _, ⟨rfl, rfl⟩, h⟩ := h
  cases hmetric : c.metric? metricName with
  | some found =>
    rw [hmetric] at h
    simp only [pure_eq_ok, Prod.mk.injEq] at h
    obtain ⟨⟨rfl, -⟩, rfl⟩ := h
    exact .inl ⟨rfl, rfl⟩
  | none =>
    rw [hmetric] at h
    simp only [bind_eq_ok, pure_eq_ok, Prod.mk.injEq] at h
    obtain ⟨_, _, hcreate, ⟨rfl, -⟩, rfl⟩ := h
    exact .inr ⟨rfl, hcreate⟩

theorem getOrCreateMetricTableName_edits {metricName : String} {m : MetricRow} {new : Bool}
    (h : getOrCreateMetricTableName metricName c = .ok (m, new) c') :
    Edits A c c' ∧ m ∈ c'.metric ∧ m.metricName = metricName := by
  obtain ⟨hmetric, rfl⟩ | ⟨hnone, hcreate⟩ := getOrCreateMetricTableName_eq_ok h
  · exact ⟨.refl, Catalog.mem_of_metric? hmetric⟩
  · obtain ⟨hedits, hm, hname, -⟩ := createMetricTable_edits (A := A) hnone hcreate
    exact ⟨hedits, hm, hname⟩

theorem unobserved_trans : ∀ c c' c'' : Catalog,
    Unobserved c c' → Unobserved c' c'' → Unobserved c c'' :=
  fun _ _ _ h h' => h.trans h'

theorem nextval_unobserved (q : Sequence) (c : Catalog) :
    Respects Unobserved (nextval q) c := unobserved_bump c q

theorem createLabelKey_unobserved (newKey : String) (c : Catalog) :
    Respects Unobserved (createLabelKey newKey) c := by
  apply respects_bind unobserved_trans (nextval_unobserved _ c)
  intro id c₁ _
  apply respects_get_bind
  split
  · exact respects_pure (.refl _) _
  · apply respects_bind unobserved_trans
    · exact respects_set ⟨rfl, rfl, rfl, rfl, fun _ => rfl, fun _ => le_rfl⟩
    · intro _ c₂ _
      exact respects_pure (.refl _) _

theorem getOrCreateLabelKey_unobserved (key : String) (c : Catalog) :
    Respects Unobserved (getOrCreateLabelKey key) c := by
  apply respects_get_bind
  split
  · exact respects_pure (.refl _) _
  · exact createLabelKey_unobserved key c

theorem labelKeyColumns_unobserved (id : Bool) (rows : List LabelKeyPositionRow) (c : Catalog) :
    Respects Unobserved (labelKeyColumns id rows) c := by
  induction rows generalizing c with
  | nil => exact respects_pure (.refl _) _
  | cons row rows ih =>
    apply respects_bind unobserved_trans
    · apply respects_bind unobserved_trans (getOrCreateLabelKey_unobserved _ c)
      intro _ c₁ _
      exact respects_pure (.refl _) _
    · intro column c₁ _
      apply respects_bind unobserved_trans (ih c₁)
      intro columns c₂ _
      exact respects_pure (.refl _) _

theorem labelValueCols_unobserved (metricName : String) (id : Bool) (c : Catalog) :
    Respects Unobserved (labelValueCols metricName id) c := by
  apply respects_get_bind
  apply respects_bind unobserved_trans (labelKeyColumns_unobserved id _ c)
  intro columns c₁ _
  exact respects_pure (.refl _) _

theorem checkView_respects_eq (old : Option (List String)) (columns : List String)
    (c : Catalog) : Respects Eq (checkView old columns) c := by
  unfold checkView
  split
  · exact respects_throw rfl _
  · split
    · exact respects_throw rfl _
    · exact respects_pure rfl _

theorem checkView_set_unobserved (old : Option (List String)) (columns : List String)
    {c c' : Catalog} (h : Unobserved c c') :
    Respects Unobserved (checkView old columns >>= fun _ => set c') c := by
  have hcheck := checkView_respects_eq old columns c
  apply respects_bind unobserved_trans
  · exact hcheck.mono fun _ _ h => h ▸ .refl _
  · intro _ c₂ hok
    obtain rfl := hcheck.of_ok hok
    exact respects_set h

theorem createSeriesView_unobserved (metricName : String) (c : Catalog) :
    Respects Unobserved (createSeriesView metricName) c := by
  apply respects_bind unobserved_trans (labelValueCols_unobserved metricName false c)
  intro labelCols c₁ _
  apply respects_get_bind
  split
  · exact respects_throw (.refl _) _
  · exact checkView_set_unobserved _ _ ⟨rfl, rfl, rfl, rfl, fun _ => rfl, fun _ => le_rfl⟩

theorem createMetricView_unobserved (metricName : String) (c : Catalog) :
    Respects Unobserved (createMetricView metricName) c := by
  apply respects_bind unobserved_trans (labelValueCols_unobserved metricName true c)
  intro labelCols c₁ _
  apply respects_get_bind
  split
  · exact respects_throw (.refl _) _
  · exact checkView_set_unobserved _ _ ⟨rfl, rfl, rfl, rfl, fun _ => rfl, fun _ => le_rfl⟩

theorem position?_withPosition {metricName key : String}
    (hnew : c.position? metricName key = none) :
    (withPosition c metricName key).position? metricName key =
      some (nextPosition c metricName key) := by
  have hfind : (c.labelKeyPosition.find? fun p =>
      p.metricName = metricName ∧ p.key = key) = none := by
    simpa [Catalog.position?] using hnew
  unfold Catalog.position? withPosition
  rw [List.find?_append, hfind]
  simp

theorem getNewPosForKey_edits {metricName key : String} {pos : Nat}
    (h : getNewPosForKey metricName key c = .ok pos c') :
    Edits A c c' ∧ c'.position? metricName key = some pos := by
  simp only [getNewPosForKey, bind_eq_ok, get_eq_ok] at h
  obtain ⟨_, _, ⟨rfl, rfl⟩, h⟩ := h
  cases hfirst : c.position? metricName key with
  | some found =>
    rw [hfirst] at h
    simp only [pure_eq_ok] at h
    obtain ⟨rfl, rfl⟩ := h
    exact ⟨.refl, hfirst⟩
  | none =>
    rw [hfirst] at h
    simp only [bind_eq_ok, get_eq_ok] at h
    obtain ⟨⟨m, new⟩, c₁, hmetric, _, _, ⟨rfl, rfl⟩, h⟩ := h
    have hmetricEdits := (getOrCreateMetricTableName_edits (A := A) hmetric).1
    cases hsecond : c₁.position? metricName key with
    | some found =>
      rw [hsecond] at h
      simp only [pure_eq_ok] at h
      obtain ⟨rfl, rfl⟩ := h
      exact ⟨hmetricEdits, hsecond⟩
    | none =>
      rw [hsecond] at h
      simp only [bind_eq_ok, get_eq_ok] at h
      obtain ⟨_, c₂, hkey, _, _, ⟨rfl, rfl⟩, h⟩ := h
      have hkeyUnobserved := (getOrCreateLabelKey_unobserved _ _).of_ok hkey
      have hnone : c₂.position? metricName key = none := by
        rw [hkeyUnobserved.position?_eq, hsecond]
      simp only [hnone, Option.isSome_none, Bool.false_eq_true, if_false, bind_eq_ok,
        set_eq_ok, pure_eq_ok] at h
      obtain ⟨_, _, hset, _, c₃, hseries, _, c₄, hmetricView, rfl, rfl⟩ := h
      rw [← hkeyUnobserved.nextPosition_eq] at hset ⊢
      obtain rfl : withPosition c₂ metricName key = _ := hset
      have hviews := ((createSeriesView_unobserved _ _).of_ok hseries).trans
        ((createMetricView_unobserved _ _).of_ok hmetricView)
      constructor
      · exact hmetricEdits.tail (.unobserved hkeyUnobserved) |>.tail
          (.addPosition _ _ hnone) |>.tail (.unobserved hviews)
      · rw [hviews.position?_eq, position?_withPosition hnone]

theorem getOrCreateLabelKeyPos_edits {metricName key : String} {pos : Nat}
    (h : getOrCreateLabelKeyPos metricName key c = .ok pos c') :
    Edits A c c' ∧ c'.position? metricName key = some pos := by
  simp only [getOrCreateLabelKeyPos, bind_eq_ok, get_eq_ok] at h
  obtain ⟨_, _, ⟨rfl, rfl⟩, h⟩ := h
  cases hpos : c.position? metricName key with
  | some found =>
    rw [hpos] at h
    simp only [pure_eq_ok] at h
    obtain ⟨rfl, rfl⟩ := h
    exact ⟨.refl, hpos⟩
  | none =>
    rw [hpos] at h
    exact getNewPosForKey_edits h

theorem idxVal_edits {metricName : String} {snapshot : Catalog} {labels : LabelSet}
    {rows : List (Nat × Nat)} (hsnapshot : Edits A snapshot c)
    (h : idxVal metricName snapshot labels c = .ok rows c') :
    Edits A c c' ∧ List.Forall₂ (fun kv row => c'.position? metricName kv.1 = some row.1 ∧
      c'.labelId? kv.1 kv.2 = some row.2) labels rows := by
  induction labels generalizing c rows with
  | nil =>
    simp only [idxVal, pure_eq_ok] at h
    obtain ⟨rfl, rfl⟩ := h
    exact ⟨.refl, .nil⟩
  | cons kv labels ih =>
    obtain ⟨key, value⟩ := kv
    simp only [idxVal, bind_eq_ok, pure_eq_ok] at h
    obtain ⟨idx, c₁, hidx, val, c₂, hval, rest, c₃, hrest, rfl, rfl⟩ := h
    have hposition : Edits A c c₁ ∧ c₁.position? metricName key = some idx := by
      cases hpos : snapshot.position? metricName key with
      | some pos =>
        rw [hpos] at hidx
        simp only [coalesce, pure_eq_ok] at hidx
        obtain ⟨rfl, rfl⟩ := hidx
        exact ⟨.refl, hsnapshot.position?_eq hpos⟩
      | none =>
        rw [hpos] at hidx
        exact getOrCreateLabelKeyPos_edits hidx
    have hlabel : Edits A c₁ c₂ ∧ c₂.labelId? key value = some val := by
      cases hid : snapshot.labelId? key value with
      | some id =>
        rw [hid] at hval
        simp only [coalesce, pure_eq_ok] at hval
        obtain ⟨rfl, rfl⟩ := hval
        exact ⟨.refl, Edits.labelId?_eq (hsnapshot.trans hposition.1) hid⟩
      | none =>
        rw [hid] at hval
        exact getOrCreateLabelId_edits hval
    have hfirst := hposition.1.trans hlabel.1
    obtain ⟨hedits, hrows⟩ := ih (hsnapshot.trans hfirst) hrest
    refine ⟨hfirst.trans hedits, .cons ⟨?_, ?_⟩ hrows⟩
    · exact Edits.position?_eq (hlabel.1.trans hedits) hposition.2
    · exact hedits.labelId?_eq hlabel.2

theorem getOrCreateLabelArray_edits {metricName : String} {labels : LabelSet}
    {array : List Nat} (h : getOrCreateLabelArray metricName labels c = .ok array c') :
    Edits A c c' ∧ Encodes c' metricName labels array := by
  simp only [getOrCreateLabelArray, bind_eq_ok, get_eq_ok, pure_eq_ok] at h
  obtain ⟨_, _, ⟨rfl, rfl⟩, rows, c₁, hrows, rfl, rfl⟩ := h
  obtain ⟨hedits, hlookup⟩ := idxVal_edits (A := A) .refl hrows
  exact ⟨hedits, rows, hlookup, rfl⟩

theorem getOrCreateLabelArrayJsonb_eq {js : LabelSet} {metricName : String}
    (hname : jsonMetricName js = some metricName) :
    getOrCreateLabelArrayJsonb js = getOrCreateLabelArray metricName js := by
  unfold getOrCreateLabelArrayJsonb
  rw [hname]

theorem createSeries_eq_ok {metricId id : Nat} {tableName : String} {array : List Nat}
    {p : SeriesPartition} (hseries : c.dataSeries tableName = some p)
    (hnew : SeriesPartition.findLabels p array = none)
    (h : createSeries metricId tableName array c = .ok id c') :
    SeriesPartition.check p metricId array = true ∧ id = c.lastValue .seriesId + 1 ∧
      c' = withSeries c tableName p metricId array := by
  simp only [createSeries, bind_eq_ok, get_eq_ok, nextval_eq_ok] at h
  obtain ⟨_, _, ⟨rfl, rfl⟩, _, _, ⟨rfl, rfl⟩, h⟩ := h
  simp only [hseries, hnew] at h
  split at h
  · simp at h
  · rename_i hcheck
    simp only [bind_eq_ok, set_eq_ok, pure_eq_ok] at h
    obtain ⟨_, _, rfl, rfl, rfl⟩ := h
    exact ⟨by simpa using hcheck, rfl, rfl⟩

theorem findOrCreateSeries_edits {m m' : MetricRow} {labels : LabelSet} {array : List Nat}
    {id : Nat} (hmetric : m' ∈ c.metric) (htable : m'.tableName = m.tableName)
    (hid : m'.id = m.id) (hadm : A m'.metricName labels)
    (hencodes : Encodes c m'.metricName labels array)
    (h : findOrCreateSeries m array c = .ok id c') :
    Edits A c c' ∧ ∃ p s, c'.dataSeries m.tableName = some p ∧ s ∈ p.rows ∧ s.id = id ∧
      s.labels = array := by
  simp only [findOrCreateSeries, bind_eq_ok, get_eq_ok] at h
  obtain ⟨_, _, ⟨rfl, rfl⟩, h⟩ := h
  cases hseries : c.dataSeries m.tableName with
  | none => simp [hseries] at h
  | some p =>
    simp only [hseries] at h
    cases hfind : SeriesPartition.findLabels p array with
    | some s =>
      simp only [hfind, pure_eq_ok] at h
      obtain ⟨rfl, rfl⟩ := h
      have hlabels := List.find?_some hfind
      simp only [decide_eq_true_eq] at hlabels
      exact ⟨.refl, p, s, hseries, List.mem_of_find?_eq_some hfind, rfl, hlabels⟩
    | none =>
      simp only [hfind] at h
      obtain ⟨hcheck, rfl, rfl⟩ := createSeries_eq_ok hseries hfind h
      rw [← hid] at hcheck ⊢
      rw [← htable] at hseries ⊢
      refine ⟨.single (.addSeries m' p labels array hmetric hseries hcheck hfind hadm hencodes),
        _, ⟨_, m'.id, array⟩, Function.update_self .., ?_, rfl, rfl⟩
      simp

/-- What a call of one of the series functions leaves behind: the array of its
label set, and a series with that array under the returned id. -/
def Stored (c : Catalog) (metricName : String) (labels : LabelSet) (id : Nat) : Prop :=
  ∃ array, Encodes c metricName labels array ∧ ∃ m ∈ c.metric, m.metricName = metricName ∧
    ∃ p s, c.dataSeries m.tableName = some p ∧ s ∈ p.rows ∧ s.id = id ∧ s.labels = array

theorem seriesTail_edits {metricName : String} {labels : LabelSet} {m : MetricRow}
    {array : List Nat} {id : Nat} {c₁ c₂ : Catalog} (hadm : A metricName labels)
    (hm : m ∈ c₁.metric) (hname : m.metricName = metricName)
    (harray : getOrCreateLabelArray metricName labels c₁ = .ok array c₂)
    (h : findOrCreateSeries m array c₂ = .ok id c') :
    Edits A c₁ c' ∧ Stored c' metricName labels id := by
  obtain ⟨hedits, hencodes⟩ := getOrCreateLabelArray_edits (A := A) harray
  obtain ⟨m₂, hm₂, hname₂, htable₂, hid₂⟩ := hedits.metric_mem hm
  rw [hname] at hname₂
  subst hname₂
  obtain ⟨hseries, p, s, hp, hs, hsid, hlabels⟩ :=
    findOrCreateSeries_edits hm₂ htable₂ hid₂ hadm hencodes h
  obtain ⟨m₃, hm₃, hname₃, htable₃, -⟩ := hseries.metric_mem hm₂
  refine ⟨hedits.trans hseries, array, hencodes.edits hseries, m₃, hm₃, hname₃, p, s, ?_,
    hs, hsid, hlabels⟩
  rw [htable₃, htable₂]
  exact hp

theorem getOrCreateSeriesIdForKvArray_edits {metricName tableName : String}
    {labels : LabelSet} {id : Nat} (hadm : A metricName labels)
    (h : getOrCreateSeriesIdForKvArray metricName labels c = .ok (tableName, id) c') :
    Edits A c c' ∧ Stored c' metricName labels id := by
  simp only [getOrCreateSeriesIdForKvArray, bind_eq_ok, pure_eq_ok, Prod.mk.injEq] at h
  obtain ⟨⟨m, new⟩, c₁, hmetric, array, c₂, harray, seriesId, c₃, hseries, ⟨-, rfl⟩, rfl⟩ := h
  obtain ⟨hedits, hm, hname⟩ := getOrCreateMetricTableName_edits (A := A) hmetric
  obtain ⟨htail, hstored⟩ := seriesTail_edits hadm hm hname harray hseries
  exact ⟨hedits.trans htail, hstored⟩

theorem getOrCreateSeriesId_edits {label : LabelSet} {metricName : String} {id : Nat}
    (hname : jsonMetricName label = some metricName) (hadm : A metricName label)
    (h : getOrCreateSeriesId label c = .ok id c') :
    Edits A c c' ∧ Stored c' metricName label id := by
  simp only [getOrCreateSeriesId, hname, bind_eq_ok, getOrCreateLabelArrayJsonb_eq hname] at h
  obtain ⟨⟨m, new⟩, c₁, hmetric, array, c₂, harray, hseries⟩ := h
  obtain ⟨hedits, hm, hmname⟩ := getOrCreateMetricTableName_edits (A := A) hmetric
  obtain ⟨htail, hstored⟩ := seriesTail_edits hadm hm hmname harray hseries
  exact ⟨hedits.trans htail, hstored⟩

end TimescalePrometheus.Sql.FunctionEdits
