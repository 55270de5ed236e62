import TimescalePrometheus.Sql.FunctionEdits

/-!
No function moves a sequence back, not even one that aborts.
-/

namespace TimescalePrometheus.Sql.Sequences

open Lib.Transactions Sql.Tables Sql.Metrics Sql.LabelKeys Sql.Series Sql.Retention Sql.CatalogEdits
open Sql.FunctionEdits

/-- No sequence goes back. -/
def Advance (c c' : Catalog) : Prop := ∀ q, c.lastValue q ≤ c'.lastValue q

theorem advance_refl (c : Catalog) : Advance c c := fun _ => le_rfl

theorem advance_trans (c c' c'' : Catalog) (h : Advance c c') (h' : Advance c' c'') :
    Advance c c'' := fun q => (h q).trans (h' q)

theorem advance_set {c d : Catalog} (h : d.lastValue = c.lastValue) :
    Respects Advance (set d : Tx PUnit) c := fun _ => h ▸ le_rfl

theorem advance_set_bind {α : Type} {x : PUnit → Tx α} {c d : Catalog}
    (h : d.lastValue = c.lastValue) (hx : Respects Advance (x .unit) d) :
    Respects Advance (set d >>= x) c := by
  apply respects_bind advance_trans (advance_set h)
  intro _ c₁ hset
  simp only [set_eq_ok] at hset
  subst hset
  exact hx

theorem unobserved_advance {α : Type} {x : Tx α} {c : Catalog} (h : Respects Unobserved x c) :
    Respects Advance x c := h.mono fun _ _ h => h.lastValue

theorem nextval_advance (q : Sequence) (c : Catalog) : Respects Advance (nextval q) c :=
  unobserved_advance (nextval_unobserved q c)

theorem getNewLabelId_advance (key value : String) (c : Catalog) :
    Respects Advance (getNewLabelId key value) c := by
  apply respects_bind advance_trans (nextval_advance _ c)
  intro id c₁ _
  apply respects_get_bind
  split
  · exact respects_pure (advance_refl _) _
  · refine advance_set_bind ?_ ?_
    · rfl
    · exact respects_pure (advance_refl _) _

theorem getOrCreateLabelId_advance (key value : String) (c : Catalog) :
    Respects Advance (getOrCreateLabelId key value) c := by
  apply respects_get_bind
  split
  · exact respects_pure (advance_refl _) _
  · exact getNewLabelId_advance key value c

theorem makeMetricTable_advance (new : MetricRow) (c : Catalog) :
    Respects Advance (makeMetricTable new) c := by
  apply respects_get_bind
  dsimp only
  split
  · exact advance_refl c
  · refine advance_set_bind ?_ ?_
    · rfl
    · apply respects_bind advance_trans (getOrCreateLabelId_advance _ _ _)
      intro labelId c₁ _
      apply respects_get_bind
      split
      · exact advance_refl c₁
      · exact advance_set rfl

theorem createMetricTable_advance (metricName : String) (c : Catalog) :
    Respects Advance (createMetricTable metricName) c := by
  apply respects_bind advance_trans (nextval_advance _ c)
  intro newId c₁ _
  apply respects_get_bind
  dsimp only
  split
  · split
    · exact respects_pure (advance_refl _) _
    · exact respects_throw (advance_refl _) _
  · refine advance_set_bind ?_ ?_
    · rfl
    · apply respects_bind advance_trans (makeMetricTable_advance _ _)
      intro _ c₂ _
      exact respects_pure (advance_refl _) _

theorem getOrCreateMetricTableName_advance (metricName : String) (c : Catalog) :
    Respects Advance (getOrCreateMetricTableName metricName) c := by
  apply respects_get_bind
  split
  · exact respects_pure (advance_refl _) _
  · apply respects_bind advance_trans (createMetricTable_advance metricName c)
    intro m c₁ _
    exact respects_pure (advance_refl _) _

theorem recordKey_advance (metricName key : String) (position : Nat) (c : Catalog) :
    Respects Advance (recordKey metricName key position) c := by
  apply respects_bind advance_trans (unobserved_advance (getOrCreateLabelKey_unobserved key c))
  intro row c₁ _
  apply respects_get_bind
  dsimp only
  split
  · exact advance_refl c₁
  · refine advance_set_bind ?_ ?_
    · rfl
    · apply respects_bind advance_trans
        (unobserved_advance (createSeriesView_unobserved metricName _))
      intro _ c₂ _
      apply respects_bind advance_trans
        (unobserved_advance (createMetricView_unobserved metricName c₂))
      intro _ c₃ _
      exact respects_pure (advance_refl _) _

theorem lockedNewPos_advance (metricName key : String) (c : Catalog) :
    Respects Advance (lockedNewPos metricName key) c := by
  apply respects_bind advance_trans (getOrCreateMetricTableName_advance metricName c)
  intro m c₁ _
  apply respects_get_bind
  split
  · exact respects_pure (advance_refl _) _
  · exact recordKey_advance metricName key _ c₁

theorem getNewPosForKey_advance (metricName key : String) (c : Catalog) :
    Respects Advance (getNewPosForKey metricName key) c := by
  rw [getNewPosForKey_eq]
  apply respects_get_bind
  split
  · exact respects_pure (advance_refl _) _
  · exact lockedNewPos_advance metricName key c

theorem getOrCreateLabelKeyPos_advance (metricName key : String) (c : Catalog) :
    Respects Advance (getOrCreateLabelKeyPos metricName key) c := by
  apply respects_get_bind
  split
  · exact respects_pure (advance_refl _) _
  · exact getNewPosForKey_advance metricName key c

theorem coalesce_advance {α : Type} (found : Option α) {otherwise : Tx α} {c : Catalog}
    (h : Respects Advance otherwise c) : Respects Advance (coalesce found otherwise) c := by
  cases found with
  | some a => exact respects_pure (advance_refl _) _
  | none => exact h

theorem idxVal_advance (metricName : String) (snapshot : Catalog) (labels : LabelSet)
    (c : Catalog) : Respects Advance (idxVal metricName snapshot labels) c := by
  induction labels generalizing c with
  | nil => exact respects_pure (advance_refl _) _
  | cons kv labels ih =>
    apply respects_bind advance_trans
      (coalesce_advance _ (getOrCreateLabelKeyPos_advance metricName kv.1 c))
    intro idx c₁ _
    apply respects_bind advance_trans
      (coalesce_advance _ (getOrCreateLabelId_advance kv.1 kv.2 c₁))
    intro val c₂ _
    apply respects_bind advance_trans (ih c₂)
    intro rows c₃ _
    exact respects_pure (advance_refl _) _

theorem getOrCreateLabelArray_advance (metricName : String) (labels : LabelSet)
    (c : Catalog) : Respects Advance (getOrCreateLabelArray metricName labels) c := by
  apply respects_get_bind
  apply respects_bind advance_trans (idxVal_advance metricName c labels c)
  intro rows c₁ _
  exact respects_pure (advance_refl _) _

theorem getOrCreateLabelArrayJsonb_advance (js : LabelSet) (c : Catalog) :
    Respects Advance (getOrCreateLabelArrayJsonb js) c := by
  unfold getOrCreateLabelArrayJsonb
  split
  · exact getOrCreateLabelArray_advance _ js c
  · exact respects_throw (advance_refl _) _

theorem createSeries_advance (metricId : Nat) (tableName : String) (array : List Nat)
    (c : Catalog) : Respects Advance (createSeries metricId tableName array) c := by
  apply respects_bind advance_trans (nextval_advance _ c)
  intro id c₁ _
  apply respects_get_bind
  split
  · exact respects_throw (advance_refl _) _
  · dsimp only
    split
    · exact advance_refl c₁
    · split
      · exact respects_pure (advance_refl _) _
      · refine advance_set_bind ?_ ?_
        · rfl
        · exact respects_pure (advance_refl _) _

theorem findOrCreateSeries_advance (m : MetricRow) (array : List Nat) (c : Catalog) :
    Respects Advance (findOrCreateSeries m array) c := by
  apply respects_get_bind
  split
  · exact respects_throw (advance_refl _) _
  · split
    · exact respects_pure (advance_refl _) _
    · exact createSeries_advance _ _ array c

theorem getOrCreateSeriesId_advance (label : LabelSet) (c : Catalog) :
    Respects Advance (getOrCreateSeriesId label) c := by
  unfold getOrCreateSeriesId
  split
  · exact respects_throw (advance_refl _) _
  · apply respects_bind advance_trans (getOrCreateMetricTableName_advance _ c)
    intro m c₁ _
    apply respects_bind advance_trans (getOrCreateLabelArrayJsonb_advance label c₁)
    intro array c₂ _
    exact findOrCreateSeries_advance _ array c₂

theorem getOrCreateSeriesIdForKvArray_advance (metricName : String) (labels : LabelSet)
    (c : Catalog) : Respects Advance (getOrCreateSeriesIdForKvArray metricName labels) c := by
  apply respects_bind advance_trans (getOrCreateMetricTableName_advance _ c)
  intro m c₁ _
  apply respects_bind advance_trans (getOrCreateLabelArray_advance metricName labels c₁)
  intro array c₂ _
  apply respects_bind advance_trans (findOrCreateSeries_advance _ array c₂)
  intro id c₃ _
  exact respects_pure (advance_refl _) _

theorem insertData_advance (newChunk : Int → Chunk) (tableName : String)
    (rows : List DataRow) (c : Catalog) :
    Respects Advance (insertData newChunk tableName rows) c := by
  apply respects_get_bind
  split
  · exact respects_throw (advance_refl _) _
  · exact advance_set rfl

theorem dropMetricChunks_advance (metricName : String) (olderThan : Int) (c : Catalog) :
    Respects Advance (dropMetricChunks metricName olderThan) c := by
  apply respects_bind advance_trans (getOrCreateMetricTableName_advance _ c)
  intro m c₁ _
  apply respects_get_bind
  split
  · split
    · exact respects_pure (advance_refl _) _
    · refine advance_set_bind ?_ ?_
      · rfl
      · exact respects_pure (advance_refl _) _
  · exact respects_throw (advance_refl _) _

end TimescalePrometheus.Sql.Sequences
