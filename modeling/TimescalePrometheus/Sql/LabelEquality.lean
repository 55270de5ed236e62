import Mathlib.Data.Finset.Card
import TimescalePrometheus.Sql.LabelRetention
import TimescalePrometheus.Sql.NameLabels

/-!
The three functions `eq` on label arrays, compared with equality of label sets.
-/

namespace TimescalePrometheus.Sql.LabelEquality

open Lib.Runs Sql.Tables Sql.Series Sql.CatalogEdits Sql.Invariant Sql.LabelArrays Sql.Encodings
open Sql.Drops Sql.CatalogRuns Sql.LabelRetention Sql.NameLabels

/-- `array_length(array, 1)`, which is NULL for an empty array. -/
def arrayLength {α : Type} (array : List α) : Option Nat :=
  if array.isEmpty then none else some array.length

/-- `x = y`, NULL if one of them is. -/
def sqlEq (x y : Option Nat) : Option Bool :=
  match x, y with
  | some x, some y => some (x == y)
  | _, _ => none

/-- `x AND y`. -/
def sqlAnd (x y : Option Bool) : Option Bool :=
  match x, y with
  | some false, _ => some false
  | _, some false => some false
  | some true, some true => some true
  | _, _ => none

/-- `array @> elements`. -/
def contains {α : Type} [DecidableEq α] (array elements : List α) : Bool :=
  elements.all fun x => x ∈ array

/-- `eq(label_array, label_array)`. -/
def eqLabels (labels1 labels2 : List Nat) : Option Bool :=
  sqlAnd (sqlEq (arrayLength labels1) (arrayLength labels2))
    (some (contains labels1 (labels2.drop 1)))

/-- A JSON object with text values. The type `jsonb` keeps one value for each key. -/
structure JsonLabels where
  pairs : LabelSet
  nodup : (pairs.map (·.1)).Nodup

/-- `labels - '__name__'`. -/
def JsonLabels.withoutName (j : JsonLabels) : LabelSet :=
  j.pairs.filter fun kv => kv.1 ≠ metricNameLabelName

/-- The ids of the labels, -1 for a pair that is not stored. -/
def matcher (c : Catalog) (labels : JsonLabels) : List Int :=
  labels.withoutName.map fun kv => ((c.labelId? kv.1 kv.2).map Int.ofNat).getD (-1)

/-- `eq(label_array, matcher_positive)`. -/
def eqMatchers (labels1 : List Nat) (matchers : List Int) : Option Bool :=
  sqlAnd (sqlEq (arrayLength labels1) ((arrayLength matchers).map (· + 1)))
    (some (contains (labels1.map Int.ofNat) matchers))

/-- `count_jsonb_keys(j)`. -/
def countJsonbKeys (j : LabelSet) : Nat := (j.map (·.1)).length

/-- `eq(label_array, jsonb)`. -/
def eqJson (c : Catalog) (labels : List Nat) (jsonLabels : JsonLabels) : Option Bool :=
  sqlAnd (sqlEq (arrayLength labels) (some (countJsonbKeys jsonLabels.withoutName + 1)))
    (some (contains (labels.map Int.ofNat) (matcher c jsonLabels)))

theorem sqlAnd_sqlEq_eq_true {x y : Nat} {b : Bool} :
    sqlAnd (sqlEq (some x) (some y)) (some b) = some true ↔ x = y ∧ b = true := by
  unfold sqlEq
  by_cases h : x = y
  · subst h
    cases b <;> simp [sqlAnd]
  · have hbeq : (x == y) = false := by simpa using h
    simp [sqlAnd, hbeq, h]

theorem arrayLength_of_ne_nil {α : Type} {array : List α} (h : array ≠ []) :
    arrayLength array = some array.length := by
  simp [arrayLength, h]

theorem contains_eq_true {α : Type} [DecidableEq α] {array elements : List α} :
    contains array elements = true ↔ ∀ x ∈ elements, x ∈ array := by
  simp [contains]

theorem eqMatchers_matcher (c : Catalog) (labels : List Nat) (j : JsonLabels) :
    eqMatchers labels (matcher c j) =
      if j.withoutName = [] then none else eqJson c labels j := by
  unfold eqMatchers eqJson
  split
  · rename_i hnil
    have hmatcher : matcher c j = [] := by simp [matcher, hnil]
    rw [hmatcher]
    cases arrayLength labels <;> rfl
  · rename_i hne
    have hmatcher : matcher c j ≠ [] := by simpa [matcher] using hne
    rw [arrayLength_of_ne_nil hmatcher]
    simp [matcher, countJsonbKeys]

/-- Every label of a series stands at the position that its key has in the metric. -/
def KeysInPlace (c : Catalog) : Prop :=
  ∀ m ∈ c.metric, ∀ p, c.dataSeries m.tableName = some p → ∀ s ∈ p.rows,
    InPlace c m.metricName s.labels

/-- The label set has one value for each key. -/
def DistinctKeys (_ : String) (labels : LabelSet) : Prop := (labels.map (·.1)).Nodup

section Stored

variable {c c' : Catalog}

theorem KeysInPlace.edit (h : KeysInPlace c) (hwf : WellFormed c) (hedit : Edit DistinctKeys c c') :
    KeysInPlace c' := by
  intro m' hm' p' hp' s hs
  have hwf' := hwf.edit hedit
  obtain ⟨p, hp, hsold⟩ | ⟨m, hm, labels, htable, hkeys, hencodes⟩ := hedit.row_cases hp' hs
  · obtain ⟨m, hm, htable⟩ := hwf.metrics.ofPartition _ p hp
    rintro i _ hget l hl rfl
    have hold := label_mem_of_edit hwf hedit hl hp hsold (List.mem_of_getElem? hget)
    rw [metric_mem_of_edit hwf' hedit hm hm' htable.symm]
    exact hedit.position?_eq (h m hm p (htable ▸ hp) s hsold i _ hget l hold rfl)
  · rw [metric_mem_of_edit hwf' hedit hm hm' htable.symm]
    exact (isLabelArray_of_encodes hwf'.positions hkeys (hencodes.edit hedit)).inPlace hwf'.labels

theorem KeysInPlace.edits (h : KeysInPlace c) (hwf : WellFormed c)
    (hedits : Edits DistinctKeys c c') : KeysInPlace c' := by
  induction hedits with
  | refl => exact h
  | tail hpre hedit ih => exact ih.edit (hwf.edits hpre) hedit

theorem KeysInPlace.shrunk (h : KeysInPlace c) (hs : Shrunk c c') : KeysInPlace c' := by
  intro m hm p' hp' s hsr i id hget l hl hid
  obtain ⟨p, hp, -, -, hrows⟩ := hs.partition m.tableName p' hp'
  rw [Catalog.position?, hs.position]
  exact h m (hs.metric ▸ hm) p hp s (hrows s hsr) i id hget l (hs.label l hl) hid

theorem keysInPlace_step (h : KeysInPlace c) (hwf : WellFormed c) {a : Action}
    (hstores : a.Stores DistinctKeys) : KeysInPlace (step c a) := by
  by_cases hdrop : a.isDrop = false
  · exact h.edits hwf (step_edits a hstores hdrop)
  · cases a with
    | dropMetricChunks metricName olderThan =>
      obtain ⟨hedits, -⟩ | ⟨m, table, p, cut, -, -, hseries, hcut, heq⟩ :=
        step_drop (A := DistinctKeys) hwf metricName olderThan
      · exact h.edits hwf hedits
      · rw [heq]
        exact h.shrunk (dropBefore_shrunk hseries hcut)
    | _ => simp [Action.isDrop] at hdrop

theorem keysInPlace_run {actions : List Action} (hstores : ∀ a ∈ actions, a.Stores DistinctKeys)
    (h : KeysInPlace c) (hwf : WellFormed c) : KeysInPlace (run step c actions) := by
  induction actions generalizing c with
  | nil => exact h
  | cons a actions ih =>
    exact ih (fun b hb => hstores b (List.mem_cons_of_mem _ hb))
      (keysInPlace_step h hwf (hstores a List.mem_cons_self)) (wellFormed_step hwf a)

end Stored

/-- `labels` is the label set of a series with this array, `__name__` left out: every id
of the array is still the id of a label, and these are the labels. -/
structure IsLabelSet (c : Catalog) (array : List Nat) (labels : Finset (String × String)) :
    Prop where
  stored : ∀ id ∈ array, id ≠ 0 → ∃ l ∈ c.label, l.id = id
  eq : labels = (((labelsInfo c array).map fun l => (l.key, l.value)).filter
    fun kv => kv.1 ≠ metricNameLabelName).toFinset

theorem IsLabelSet.mem_iff {c : Catalog} {array : List Nat} {labels : Finset (String × String)}
    (h : IsLabelSet c array labels) (hlabels : LabelsWellFormed c) {kv : String × String} :
    kv ∈ labels ↔ kv.1 ≠ metricNameLabelName ∧
      ∃ id ∈ array, c.labelId? kv.1 kv.2 = some id := by
  rw [h.eq, List.mem_toFinset, List.mem_filter, mem_labelsInfo_pair hlabels, decide_eq_true_eq,
    and_comm]

def JsonLabels.labelSet (j : JsonLabels) : Finset (String × String) := j.withoutName.toFinset

theorem JsonLabels.card_labelSet (j : JsonLabels) :
    j.labelSet.card = countJsonbKeys j.withoutName := by
  rw [labelSet, List.toFinset_card_of_nodup, countJsonbKeys, List.length_map]
  exact (List.Nodup.of_map _ j.nodup).filter _

/-- The array of a stored series: the label of the metric's name comes first, and no other
label is a name. -/
structure NameFirst (c : Catalog) (array : List Nat) : Prop where
  nodup : ((labelsInfo c array).map fun l => (l.key, l.value)).Nodup
  cons : ∃ first rest, array = first :: rest ∧ first ≠ 0 ∧
    (∀ l ∈ c.label, l.id = first → l.key = metricNameLabelName) ∧
    ∀ l ∈ c.label, l.id ∈ rest → l.key ≠ metricNameLabelName

section Arrays

variable {c : Catalog} {array array' : List Nat} {A B : Finset (String × String)}

theorem nameFirst_of_stored (hwf : WellFormed c) (h : KeysInPlace c) {t : String}
    {p : SeriesPartition} (hp : c.dataSeries t = some p) {s : SeriesRow} (hs : s ∈ p.rows) :
    NameFirst c s.labels := by
  obtain ⟨m, hm, rfl⟩ := hwf.metrics.ofPartition t p hp
  have hplace := h m hm p hp s hs
  have hcheck := hwf.series.check _ p hp s hs
  simp only [SeriesPartition.check, decide_eq_true_eq] at hcheck
  obtain ⟨rest, hcons⟩ := List.head?_eq_some_iff.mp hcheck.1
  refine ⟨hplace.nodup_labelsInfo, p.checkLabel, rest, hcons,
    Nat.ne_of_gt (hwf.series.checkBound _ p hp).1,
    fun l hl hid => (hwf.series.checkRow m hm p hp l hl hid).1, ?_⟩
  intro l hl hid hkey
  obtain ⟨i, hget⟩ := List.getElem?_of_mem hid
  have hpos := hplace (i + 1) l.id (by rw [hcons, List.getElem?_cons_succ, hget]) l hl rfl
  have hfirst := (position?_name hwf.positions hpos).2.mpr hkey
  omega

theorem NameFirst.length_eq (h : NameFirst c array) (hlabels : LabelsWellFormed c)
    (hA : IsLabelSet c array A) : array.length = 1 + A.card + array.count 0 := by
  obtain ⟨first, rest, rfl, hfirst, hname, hothers⟩ := h.cons
  obtain ⟨l₀, hl₀, hid₀⟩ := hA.stored first List.mem_cons_self hfirst
  have hinfo : labelsInfo c (first :: rest) = l₀ :: labelsInfo c rest := by
    rw [labelsInfo, List.filterMap_cons_some (hid₀ ▸ labelById?_of_mem hlabels hl₀)]
    rfl
  have hrest : ∀ kv ∈ (labelsInfo c rest).map (fun l => (l.key, l.value)),
      decide (kv.1 ≠ metricNameLabelName) = true := by
    intro kv hkv
    obtain ⟨l, hl, rfl⟩ := List.mem_map.mp hkv
    obtain ⟨id, hid, hfind⟩ := List.mem_filterMap.mp hl
    obtain ⟨hmem, rfl⟩ := mem_of_labelById? hfind
    exact decide_eq_true (hothers l hmem hid)
  have hnodup := h.nodup
  rw [hinfo, List.map_cons, List.nodup_cons] at hnodup
  have hcard : A.card = (labelsInfo c rest).length := by
    rw [hA.eq, hinfo, List.map_cons, List.filter_cons_of_neg (by simp [hname l₀ hl₀ hid₀]),
      List.filter_eq_self.mpr hrest, List.toFinset_card_of_nodup hnodup.2, List.length_map]
  have hids := congrArg List.length
    (labelsInfo_ids hlabels fun id hid => hA.stored id (List.mem_cons_of_mem _ hid))
  rw [List.length_map, ← List.countP_eq_length_filter] at hids
  have hsplit := List.length_eq_countP_add_countP (fun id : Nat => decide (id ≠ 0)) (l := rest)
  have hzeros : rest.countP (fun id => ¬ decide (id ≠ 0) = true) = rest.count 0 := by
    rw [List.count]
    exact List.countP_congr fun id _ => by simp
  rw [List.count_cons_of_ne hfirst, List.length_cons]
  omega

theorem NameFirst.tail_subset_iff (h' : NameFirst c array') (hlabels : LabelsWellFormed c)
    (hA : IsLabelSet c array A) (hB : IsLabelSet c array' B) :
    (∀ x ∈ array'.drop 1, x ∈ array) ↔ B ⊆ A ∧ (0 ∈ array' → 0 ∈ array) := by
  obtain ⟨first, rest, rfl, hfirst, hname, hothers⟩ := h'.cons
  rw [List.drop_one, List.tail_cons]
  constructor
  · intro hsubset
    constructor
    · intro kv hkv
      obtain ⟨hkey, id, hid, hlabel⟩ := (hB.mem_iff hlabels).mp hkv
      refine (hA.mem_iff hlabels).mpr ⟨hkey, id, hsubset id ?_, hlabel⟩
      rcases List.mem_cons.mp hid with rfl | hid
      · obtain ⟨l, hl, hlkey, -, hlid⟩ := Catalog.exists_of_labelId? hlabel
        exact absurd (hlkey.symm.trans (hname l hl hlid)) hkey
      · exact hid
    · intro hzero
      exact hsubset 0 ((List.mem_cons.mp hzero).resolve_left hfirst.symm)
  · rintro ⟨hsubset, hzero⟩ x hx
    by_cases hx0 : x = 0
    · subst hx0
      exact hzero (List.mem_cons_of_mem _ hx)
    · obtain ⟨l, hl, rfl⟩ := hB.stored x (List.mem_cons_of_mem _ hx) hx0
      have hlabel := labelId?_of_mem hlabels hl
      have hmem : (l.key, l.value) ∈ B := (hB.mem_iff hlabels).mpr
        ⟨hothers l hl hx, l.id, List.mem_cons_of_mem _ hx, hlabel⟩
      obtain ⟨-, id, hid, hlabel'⟩ := (hA.mem_iff hlabels).mp (hsubset hmem)
      obtain rfl : l.id = id := by simpa [hlabel] using hlabel'
      exact hid

theorem NameFirst.ne_nil (h : NameFirst c array) : array ≠ [] := by
  obtain ⟨first, rest, rfl, -⟩ := h.cons
  exact List.cons_ne_nil _ _

theorem eqLabels_iff (h : NameFirst c array) (h' : NameFirst c array')
    (hlabels : LabelsWellFormed c) (hA : IsLabelSet c array A) (hB : IsLabelSet c array' B) :
    eqLabels array array' = some true ↔
      array.length = array'.length ∧ B ⊆ A ∧ (0 ∈ array' → 0 ∈ array) := by
  rw [eqLabels, arrayLength_of_ne_nil h.ne_nil, arrayLength_of_ne_nil h'.ne_nil,
    sqlAnd_sqlEq_eq_true, contains_eq_true, h'.tail_subset_iff hlabels hA hB]

theorem eqJson_iff (h : NameFirst c array) (hlabels : LabelsWellFormed c)
    (hA : IsLabelSet c array A) (j : JsonLabels) :
    eqJson c array j = some true ↔ array.length = j.labelSet.card + 1 ∧ j.labelSet ⊆ A := by
  rw [eqJson, arrayLength_of_ne_nil h.ne_nil, sqlAnd_sqlEq_eq_true, contains_eq_true,
    j.card_labelSet]
  refine and_congr_right fun _ => ?_
  have hmem : ∀ kv : String × String, kv.1 ≠ metricNameLabelName →
      (((c.labelId? kv.1 kv.2).map Int.ofNat).getD (-1) ∈ array.map Int.ofNat ↔ kv ∈ A) := by
    intro kv hkey
    rw [hA.mem_iff hlabels]
    cases hid : c.labelId? kv.1 kv.2 with
    | none => simp
    | some id =>
      rw [Option.map_some, Option.getD_some, List.mem_map]
      constructor
      · rintro ⟨id', hid', heq⟩
        obtain rfl := Int.ofNat.inj heq
        exact ⟨hkey, id', hid', rfl⟩
      · rintro ⟨-, id', hid', heq⟩
        obtain rfl := Option.some.inj heq
        exact ⟨id, hid', rfl⟩
  simp only [matcher, List.forall_mem_map, Finset.subset_iff, JsonLabels.labelSet,
    List.mem_toFinset]
  refine forall₂_congr fun kv hkv => hmem kv ?_
  simpa using (List.mem_filter.mp hkv).2

end Arrays

/-- The arrays of two label sets have the same number of zeros if the sets are equal; and
if the second set is a part of the first, the first array has no zero, unless the
arrays differ in length anyway. -/
def Comparable (array array' : List Nat) (A B : Finset (String × String)) : Prop :=
  (A = B → array.count 0 = array'.count 0) ∧
    (B ⊂ A → array.length = array'.length → 0 ∉ array)

/-- For all stored series of a reachable catalog, and all JSON objects: `eq` means
equality of the label sets exactly if the arrays are comparable, and `eq` with an object
means equality with it exactly if a series with these labels has no zero in its array. -/
theorem eq_means_equality_iff {actions : List Action}
    (hstores : ∀ a ∈ actions, a.Stores DistinctKeys) {t t' : String} {p p' : SeriesPartition}
    {a b : SeriesRow} (hp : (run step Catalog.empty actions).dataSeries t = some p)
    (ha : a ∈ p.rows) (hp' : (run step Catalog.empty actions).dataSeries t' = some p')
    (hb : b ∈ p'.rows) {A B : Finset (String × String)}
    (hA : IsLabelSet (run step Catalog.empty actions) a.labels A)
    (hB : IsLabelSet (run step Catalog.empty actions) b.labels B) (j : JsonLabels) :
    ((eqLabels a.labels b.labels = some true ↔ A = B) ↔ Comparable a.labels b.labels A B) ∧
      ((eqJson (run step Catalog.empty actions) a.labels j = some true ↔ A = j.labelSet) ↔
        (A = j.labelSet → 0 ∉ a.labels)) := by
  have hwf := wellFormed_run wellFormed_empty actions
  have hplace := keysInPlace_run hstores (by simp [KeysInPlace, Catalog.empty]) wellFormed_empty
  have hfirst := nameFirst_of_stored hwf hplace hp ha
  have hfirst' := nameFirst_of_stored hwf hplace hp' hb
  have hlen := hfirst.length_eq hwf.labels hA
  have hlen' := hfirst'.length_eq hwf.labels hB
  have hzero : 0 ∈ a.labels ↔ 0 < a.labels.count 0 := List.count_pos_iff.symm
  have hzero' : 0 ∈ b.labels ↔ 0 < b.labels.count 0 := List.count_pos_iff.symm
  rw [eqLabels_iff hfirst hfirst' hwf.labels hA hB, eqJson_iff hfirst hwf.labels hA j]
  constructor
  · constructor
    · intro hmeans
      refine ⟨fun heq => ?_, fun hpart hsame hmem => ?_⟩
      · have hlength := (hmeans.mpr heq).1
        rw [heq] at hlen
        omega
      · exact hpart.ne (hmeans.mp ⟨hsame, hpart.subset, fun _ => hmem⟩).symm
    · rintro ⟨hequal, hpart⟩
      constructor
      · rintro ⟨hlength, hsubset, hzeros⟩
        by_contra hne
        have hproper : B ⊂ A := hsubset.ssubset_of_ne (Ne.symm hne)
        have hcard := Finset.card_lt_card hproper
        -- the second array has more zeros than the first, which has none
        have hnone := hpart hproper hlength
        exact hnone (hzeros (hzero'.mpr (by omega)))
      · rintro rfl
        have hcount := hequal rfl
        exact ⟨by omega, subset_rfl, fun hmem => hzero.mpr (hcount ▸ hzero'.mp hmem)⟩
  · constructor
    · intro hmeans heq
      have hlength := (hmeans.mpr heq).1
      rw [← heq] at hlength
      rw [hzero]
      omega
    · intro hnone
      constructor
      · rintro ⟨hlength, hsubset⟩
        exact (Finset.eq_of_subset_of_card_le hsubset (by omega)).symm
      · intro heq
        have hcount := hzero.not.mp (hnone heq)
        exact ⟨by rw [← heq]; omega, heq ▸ subset_rfl⟩

/-- The key `zone` is the second one of `cpu` and the first one of `mem`. -/
def twoMetrics : List Action :=
  [.seriesIdForKvArray "cpu" [("__name__", "cpu"), ("job", "node")],
   .seriesIdForKvArray "cpu" [("__name__", "cpu"), ("zone", "eu")],
   .seriesIdForKvArray "mem" [("__name__", "mem"), ("zone", "eu")]]

def zoneObject : JsonLabels := ⟨[("zone", "eu")], by decide⟩

theorem cpuPartition_twoMetrics : (run step Catalog.empty twoMetrics).dataSeries "cpu" =
    some ⟨1, 1, [⟨1, 1, [1, 2]⟩, ⟨2, 1, [1, 0, 3]⟩]⟩ := by
  decide +kernel

theorem memPartition_twoMetrics : (run step Catalog.empty twoMetrics).dataSeries "mem" =
    some ⟨4, 2, [⟨3, 2, [4, 3]⟩]⟩ := by
  decide +kernel

theorem eq_means_equality_twoMetrics :
    ((eqLabels [1, 2] [4, 3] = some true ↔
        ({("job", "node")} : Finset (String × String)) = {("zone", "eu")}) ↔
      Comparable [1, 2] [4, 3] {("job", "node")} {("zone", "eu")}) ∧
    ((eqJson (run step Catalog.empty twoMetrics) [1, 2] zoneObject = some true ↔
        {("job", "node")} = zoneObject.labelSet) ↔
      ({("job", "node")} = zoneObject.labelSet → 0 ∉ [1, 2])) :=
  eq_means_equality_iff (a := ⟨1, 1, [1, 2]⟩) (b := ⟨3, 2, [4, 3]⟩)
    (by simp [twoMetrics, Action.Stores, DistinctKeys]) cpuPartition_twoMetrics (by simp)
    memPartition_twoMetrics (by simp) ⟨by decide +kernel, by decide +kernel⟩
    ⟨by decide +kernel, by decide +kernel⟩ zoneObject

/-- Two series with the label set `zone="eu"`, one with a zero in its array: `eq` tells them
apart, and it tells the first one from the object with this label. -/
theorem not_eq_twoMetrics : ∃ p p' : SeriesPartition, ∃ a ∈ p.rows, ∃ b ∈ p'.rows,
    (run step Catalog.empty twoMetrics).dataSeries "cpu" = some p ∧
    (run step Catalog.empty twoMetrics).dataSeries "mem" = some p' ∧
    IsLabelSet (run step Catalog.empty twoMetrics) a.labels {("zone", "eu")} ∧
    IsLabelSet (run step Catalog.empty twoMetrics) b.labels {("zone", "eu")} ∧
    eqLabels a.labels b.labels = some false ∧
    zoneObject.labelSet = {("zone", "eu")} ∧
    eqJson (run step Catalog.empty twoMetrics) a.labels zoneObject = some false :=
  ⟨_, _, ⟨2, 1, [1, 0, 3]⟩, by simp, ⟨3, 2, [4, 3]⟩, by simp, cpuPartition_twoMetrics,
    memPartition_twoMetrics, ⟨by decide +kernel, by decide +kernel⟩,
    ⟨by decide +kernel, by decide +kernel⟩, by decide +kernel, by decide +kernel,
    by decide +kernel⟩

end TimescalePrometheus.Sql.LabelEquality
