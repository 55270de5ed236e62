import Mathlib.Algebra.Group.Nat.Defs
import Mathlib.Data.List.Nodup
import TimescalePrometheus.Sql.KeyPositions

/-!
Which sets of label keys give a metric views without a repeated column.
-/

namespace TimescalePrometheus.Sql.ColumnClashes

open Lib.Runs Lib.Transactions Sql.Names Sql.Tables Sql.Metrics Sql.LabelKeys Sql.Series
open Sql.CatalogEdits Sql.FunctionEdits Sql.ViewColumns Sql.KeyPositions

/-- The label names that Prometheus allows: `[a-zA-Z_][a-zA-Z0-9_]*`. -/
def isLabelName (name : String) : Bool :=
  match name.toList with
  | [] => false
  | first :: rest =>
    (first.isAlpha || first = '_') && rest.all fun char => char.isAlphanum || char = '_'

theorem ascii_of_isLabelName {name : String} (h : isLabelName name) : Ascii name := by
  intro char hchar
  apply utf8Size_of_isAlphanum
  unfold isLabelName at h
  cases hlist : name.toList with
  | nil => simp [hlist] at hchar
  | cons first rest =>
    rw [hlist] at h hchar
    simp only [Bool.and_eq_true, Bool.or_eq_true, List.all_eq_true] at h
    rcases List.mem_cons.mp hchar with rfl | hrest
    · simp only [Bool.or_eq_true]
      exact h.1.imp (fun halpha => by simp [Char.isAlphanum, halpha]) id
    · simpa only [Bool.or_eq_true] using h.2 char hrest

/-- What `create_label_key` appends to the key and to the id of its row. -/
def ending (id : Bool) : String := if id then "_id" else ""

theorem ascii_ending (id : Bool) : Ascii (ending id) := by
  cases id <;> intro char hchar
  · simp [ending] at hchar
  · obtain rfl | rfl | rfl : char = '_' ∨ char = 'i' ∨ char = 'd' := by
      simpa [ending] using hchar
    all_goals decide

theorem ascii_viewKey {key : String} (h : Ascii key) : Ascii (viewKey key) := by
  unfold viewKey
  split
  · refine Ascii.append ?_ h
    intro char hchar
    obtain rfl | rfl | rfl | rfl | rfl | rfl : char = 'l' ∨ char = 'a' ∨ char = 'b' ∨ char = 'e' ∨
        char = 'l' ∨ char = '_' := by simpa using hchar
    all_goals decide
  · exact h

theorem label_not_reserved (key : String) : "label_" ++ key ∉ reservedColumnNames := by
  simp only [reservedColumnNames, List.mem_cons, List.not_mem_nil, or_false, not_or]
  refine ⟨?_, ?_, ?_, ?_⟩ <;> intro h <;> have hlist := congrArg String.toList h <;>
    simp at hlist

theorem viewKey_eq_iff {key key' : String} : viewKey key = viewKey key' ↔
    key = key' ∨ key ∈ reservedColumnNames ∧ key' = "label_" ++ key ∨
      key' ∈ reservedColumnNames ∧ key = "label_" ++ key' := by
  have hinj : ∀ k k' : String, "label_" ++ k = "label_" ++ k' ↔ k = k' := by
    intro k k'
    refine ⟨fun h => ?_, fun h => by rw [h]⟩
    have hlist := congrArg String.toList h
    rw [String.toList_append, String.toList_append] at hlist
    exact String.toList_injective (List.append_cancel_left hlist)
  unfold viewKey
  by_cases h : key ∈ reservedColumnNames <;> by_cases h' : key' ∈ reservedColumnNames
  · have hne : key' ≠ "label_" ++ key := by
      rintro rfl
      exact label_not_reserved key h'
    have hne' : key ≠ "label_" ++ key' := by
      rintro rfl
      exact label_not_reserved key' h
    simp [h, h', hinj, hne, hne']
  · have hne : key ≠ key' := by
      rintro rfl
      exact h' h
    simp [h, h', hne, eq_comm]
  · have hne : key ≠ key' := by
      rintro rfl
      exact h h'
    simp [h, h', hne]
  · simp [h, h']

theorem viewKey_append_mem_iff {key : String} {id : Bool} :
    viewKey key ++ ending id ∈ fixedColumns id ↔ id = true ∧ key = "series" := by
  cases id with
  | false =>
    simp only [ending, fixedColumns, Bool.false_eq_true, if_false, false_and, iff_false,
      String.append_empty, viewKey]
    intro hmem
    have hreserved : ∀ name ∈ ["series_id", "labels"], name ∈ reservedColumnNames := by decide
    split at hmem
    · exact label_not_reserved key (hreserved _ hmem)
    · rename_i hkey
      exact hkey (hreserved _ hmem)
  | true =>
    have hsplit : viewKey key ++ "_id" ∈ fixedColumns true ↔ viewKey key = "series" := by
      have hcancel : viewKey key ++ "_id" = "series_id" ↔ viewKey key = "series" := by
        refine ⟨fun h => ?_, fun h => by rw [h]; rfl⟩
        have hlist := congrArg String.toList h
        rw [String.toList_append] at hlist
        exact String.toList_injective
          (List.append_cancel_right (hlist.trans (by rfl : _ = "series".toList ++ "_id".toList)))
      have hlast : ∀ name : String, name.toList.getLast? ≠ some 'd' →
          viewKey key ++ "_id" ≠ name := by
        rintro name hname rfl
        apply hname
        simp [String.toList_append]
      simp only [fixedColumns, if_true, List.mem_cons, List.not_mem_nil, or_false]
      simp [hcancel, hlast]
    simp only [ending, if_true, hsplit, true_and]
    have hseries : viewKey "series" = "series" := by decide
    rw [← hseries, viewKey_eq_iff, hseries]
    constructor
    · rintro (h | ⟨-, h⟩ | ⟨h, -⟩)
      · exact h
      · have hlist := congrArg String.toList h
        simp at hlist
      · exact absurd h (by decide)
    · exact .inl

section Column

variable {c : Catalog} {id : Bool} {key key' column column' : String}

theorem column?_eq_some (hkeys : KeysWellFormed c) (h : column? c id key = some column) :
    ∃ row ∈ c.labelKey, row.key = viewKey key ∧
      column = pgNameUnique (viewKey key ++ ending id) (toString row.id ++ ending id) := by
  obtain ⟨row, hfind, rfl⟩ := Option.map_eq_some_iff.mp h
  have hrow := List.mem_of_find?_eq_some hfind
  have hkey := List.find?_some hfind
  simp only [decide_eq_true_eq] at hkey
  refine ⟨row, hrow, hkey, ?_⟩
  cases id with
  | false => simpa [columnName, ending, hkey] using hkeys.value row hrow
  | true => simpa [columnName, ending, hkey] using hkeys.idName row hrow

theorem length_append_ending (id : Bool) {n : Nat} (h : n < 2 ^ 31) :
    (toString n ++ ending id).length < 62 := by
  have hdigits := length_toString_nat h.le
  have hending : (ending id).length ≤ 3 := by cases id <;> decide
  rw [String.length_append]
  omega

theorem column_eq_iff (hkeys : KeysWellFormed c) (hlast : c.lastValue .labelKey < 2 ^ 31)
    (hkey : Ascii key) (hkey' : Ascii key') (h : column? c id key = some column)
    (h' : column? c id key' = some column') : column = column' ↔ viewKey key = viewKey key' := by
  constructor
  · intro heq
    obtain ⟨row, hrow, hrowKey, rfl⟩ := column?_eq_some hkeys h
    obtain ⟨row', hrow', hrowKey', rfl⟩ := column?_eq_some hkeys h'
    have hid := length_append_ending id ((hkeys.bound row hrow).trans_lt hlast)
    have hid' := length_append_ending id ((hkeys.bound row' hrow').trans_lt hlast)
    obtain hname | hsame := pgNameUnique_eq ((ascii_viewKey hkey).append (ascii_ending id))
      ((ascii_viewKey hkey').append (ascii_ending id)) (ascii_ending id) hid hid' heq
    · have hlist := congrArg String.toList hname
      rw [String.toList_append, String.toList_append] at hlist
      exact String.toList_injective (List.append_cancel_right hlist)
    · rw [← hrowKey, ← hrowKey', hkeys.idInj row hrow row' hrow' hsame]
  · intro heq
    unfold column? at h h'
    rw [heq, h'] at h
    exact (Option.some.inj h).symm

theorem column_mem_fixed_iff (hkeys : KeysWellFormed c) (hlast : c.lastValue .labelKey < 2 ^ 31)
    (hkey : Ascii key) (h : column? c id key = some column) :
    column ∈ fixedColumns id ↔ id = true ∧ key = "series" := by
  obtain ⟨row, hrow, -, rfl⟩ := column?_eq_some hkeys h
  have hname := (ascii_viewKey hkey).append (ascii_ending id)
  by_cases hlen : (viewKey key ++ ending id).length < 62
  · rw [pgNameUnique_of_short _ hname hlen, viewKey_append_mem_iff]
  · -- a cut name has 62 characters
    refine iff_of_false ?_ ?_
    · intro hmem
      have hlong := length_pgNameUnique_of_long hname
        ((ascii_toString row.id).append (ascii_ending id)) (by omega)
        (length_append_ending id ((hkeys.bound row hrow).trans_lt hlast))
      have hshort : ∀ id, ∀ name ∈ fixedColumns id, name.length < 62 := by decide
      exact absurd hlong (hshort id _ hmem).ne
    · rintro ⟨rfl, rfl⟩
      exact hlen (by decide)

end Column

/-- No key has the id column `series_id`, and no key is what a reserved key is renamed
to. -/
def ClashFree (keys : List String) : Prop :=
  "series" ∉ keys ∧ ∀ key ∈ reservedColumnNames, key ∈ keys → "label_" ++ key ∉ keys

instance (keys : List String) : Decidable (ClashFree keys) :=
  inferInstanceAs (Decidable (_ ∧ _))

theorem ClashFree.congr {keys keys' : List String}
    (h : ∀ key, key ≠ metricNameLabelName → (key ∈ keys ↔ key ∈ keys')) :
    ClashFree keys ↔ ClashFree keys' := by
  have hseries : "series" ∈ keys ↔ "series" ∈ keys' := h _ (by decide)
  have hreserved : ∀ key ∈ reservedColumnNames, (key ∈ keys ↔ key ∈ keys') :=
    fun key hkey => h key (by revert key; decide)
  have hrenamed : ∀ key ∈ reservedColumnNames, ("label_" ++ key ∈ keys ↔ "label_" ++ key ∈ keys') :=
    fun key hkey => h _ (by revert key; decide)
  unfold ClashFree
  rw [hseries]
  refine and_congr_right fun _ => forall₂_congr fun key hkey => ?_
  rw [hreserved key hkey, hrenamed key hkey]

section Views

variable {c : Catalog} {id : Bool} {rows : List LabelKeyPositionRow} {columns : List String}

theorem Columns.nodup_iff (h : Columns c id rows columns) (hrows : rows.Nodup) :
    columns.Nodup ↔ ∀ p ∈ rows, ∀ q ∈ rows,
      column? c id p.key = column? c id q.key → p = q := by
  have hmap : columns.map some = rows.map fun row => column? c id row.key := by
    induction h with
    | nil => rfl
    | cons hcolumn _ ih =>
      rw [List.map_cons, List.map_cons, hcolumn, ih (List.nodup_cons.mp hrows).2]
  rw [← List.nodup_map_iff_inj_on hrows, ← hmap,
    List.nodup_map_iff (Option.some_injective String)]

theorem Columns.exists_of_mem_columns (h : Columns c id rows columns) {column : String}
    (hcolumn : column ∈ columns) : ∃ row ∈ rows, column? c id row.key = some column := by
  induction h with
  | nil => simp at hcolumn
  | @cons row column' rows columns hhead _ ih =>
    rcases List.mem_cons.mp hcolumn with rfl | hcolumn
    · exact ⟨row, List.mem_cons_self, hhead⟩
    · obtain ⟨row', hrow', h'⟩ := ih hcolumn
      exact ⟨row', List.mem_cons_of_mem _ hrow', h'⟩

theorem nodup_fixed_append_iff (hkeys : KeysWellFormed c)
    (hlast : c.lastValue .labelKey < 2 ^ 31) (hrows : (rows.map (·.key)).Nodup)
    (hnames : ∀ row ∈ rows, Ascii row.key) (h : Columns c id rows columns) :
    (fixedColumns id ++ columns).Nodup ↔ (id = true → "series" ∉ rows.map (·.key)) ∧
      ∀ key ∈ reservedColumnNames, key ∈ rows.map (·.key) →
        "label_" ++ key ∉ rows.map (·.key) := by
  have hfixed : (fixedColumns id).Nodup := by cases id <;> decide
  have hdisjoint : (fixedColumns id).Disjoint columns ↔
      (id = true → "series" ∉ rows.map (·.key)) := by
    constructor
    · rintro hdisjoint rfl hseries
      obtain ⟨row, hrow, hkey⟩ := List.mem_map.mp hseries
      obtain ⟨column, hmem, hcolumn⟩ := h.exists_of_mem hrow
      exact hdisjoint
        ((column_mem_fixed_iff hkeys hlast (hnames row hrow) hcolumn).mpr ⟨rfl, hkey⟩) hmem
    · intro hseries column hfix hmem
      obtain ⟨row, hrow, hcolumn⟩ := Columns.exists_of_mem_columns h hmem
      obtain ⟨hid, hkey⟩ := (column_mem_fixed_iff hkeys hlast (hnames row hrow) hcolumn).mp hfix
      exact hseries hid (List.mem_map.mpr ⟨row, hrow, hkey⟩)
  have hcolumns : columns.Nodup ↔ ∀ key ∈ reservedColumnNames, key ∈ rows.map (·.key) →
      "label_" ++ key ∉ rows.map (·.key) := by
    have hsame : ∀ p ∈ rows, ∀ q ∈ rows, column? c id p.key = column? c id q.key ↔
        viewKey p.key = viewKey q.key := by
      intro p hp q hq
      obtain ⟨column, -, hcolumn⟩ := h.exists_of_mem hp
      obtain ⟨column', -, hcolumn'⟩ := h.exists_of_mem hq
      rw [hcolumn, hcolumn', Option.some.injEq]
      exact column_eq_iff hkeys hlast (hnames p hp) (hnames q hq) hcolumn hcolumn'
    rw [Columns.nodup_iff h (List.Nodup.of_map _ hrows)]
    constructor
    · rintro hinj key hkey hmem hrenamed
      obtain ⟨p, hp, rfl⟩ := List.mem_map.mp hmem
      obtain ⟨q, hq, hqkey⟩ := List.mem_map.mp hrenamed
      obtain rfl := hinj p hp q hq
        ((hsame p hp q hq).mpr (viewKey_eq_iff.mpr (.inr (.inl ⟨hkey, hqkey⟩))))
      exact label_not_reserved p.key (hqkey ▸ hkey)
    · intro hfree p hp q hq heq
      have hp' : p.key ∈ rows.map (·.key) := List.mem_map_of_mem hp
      have hq' : q.key ∈ rows.map (·.key) := List.mem_map_of_mem hq
      obtain hkey | ⟨hkey, hqkey⟩ | ⟨hkey, hpkey⟩ := viewKey_eq_iff.mp ((hsame p hp q hq).mp heq)
      · exact List.inj_on_of_nodup_map hrows hp hq hkey
      · exact absurd (hqkey ▸ hq') (hfree p.key hkey hp')
      · exact absurd (hpkey ▸ hp') (hfree q.key hkey hq')
  rw [List.nodup_append', hdisjoint, hcolumns]
  tauto

/-- The keys of a metric that have columns in its views. -/
def keysOf (c : Catalog) (metricName : String) : List String :=
  (labelRows c metricName).map (·.key)

theorem mem_keysOf {metricName key : String} : key ∈ keysOf c metricName ↔
    key ≠ metricNameLabelName ∧ (c.position? metricName key).isSome := by
  rw [← not_iff_not, not_and, Bool.not_eq_true, Option.isSome_eq_false_iff,
    Option.isNone_iff_eq_none, Catalog.position?_eq_none_iff]
  simp only [keysOf, labelRows, List.mem_map, List.mem_filter, decide_eq_true_eq]
  constructor
  · intro hnot hkey p hp hrow
    exact hnot ⟨p, ⟨hp, hrow.1, hrow.2 ▸ hkey⟩, hrow.2⟩
  · rintro hnone ⟨p, ⟨hp, hname, hkey⟩, rfl⟩
    exact hnone hkey p hp ⟨hname, rfl⟩

theorem nodup_keysOf (h : PositionsDense c) (metricName : String) :
    (keysOf c metricName).Nodup := by
  have hrows : (labelRows c metricName).Nodup :=
    (List.Nodup.of_map _ h.keyNodup).filter _
  refine (List.nodup_map_iff_inj_on hrows).mpr fun p hp q hq hkey => ?_
  obtain ⟨hp, hpname⟩ := List.mem_filter.mp hp
  obtain ⟨hq, hqname⟩ := List.mem_filter.mp hq
  simp only [decide_eq_true_eq] at hpname hqname
  exact List.inj_on_of_nodup_map h.keyNodup hp hq (by rw [hpname.1, hqname.1, hkey])

/-- The columns that the two views of the metric would list are all different. -/
def ColumnsDistinct (c : Catalog) (metricName : String) : Prop :=
  ∀ id, Returns (labelValueCols metricName id) c fun columns _ =>
    (fixedColumns id ++ columns).Nodup

theorem columnsDistinct_iff {metricName : String} (hpositions : PositionsDense c)
    (hkeys : KeysWellFormed c)
    (hroom : c.lastValue .labelKey + missing c (labelRows c metricName) < 2 ^ 31)
    (hnames : ∀ key ∈ keysOf c metricName, Ascii key) :
    ColumnsDistinct c metricName ↔ ClashFree (keysOf c metricName) := by
  have hrows : ∀ row ∈ labelRows c metricName, Ascii row.key :=
    fun row hrow => hnames _ (List.mem_map_of_mem hrow)
  have hview : ∀ id, (Returns (labelValueCols metricName id) c fun columns _ =>
      (fixedColumns id ++ columns).Nodup) ↔ (id = true → "series" ∉ keysOf c metricName) ∧
        ∀ key ∈ reservedColumnNames, key ∈ keysOf c metricName →
          "label_" ++ key ∉ keysOf c metricName := by
    intro id
    obtain ⟨columns, c', hok, hgrow, hcolumns, hlast⟩ :=
      labelValueCols_returns id (hpositions.ascending metricName)
    have hnodup := nodup_fixed_append_iff (hgrow.wellFormed hkeys) (hlast.trans_lt hroom)
      (nodup_keysOf hpositions metricName) hrows hcolumns
    exact ⟨fun hreturns => hnodup.mp (hreturns.of_ok hok),
      fun hfree => ⟨columns, c', hok, hnodup.mpr hfree⟩⟩
  unfold ColumnsDistinct ClashFree
  simp only [hview, Bool.forall_bool, Bool.false_eq_true, false_imp_iff, true_and, true_imp_iff]
  tauto

end Views

section Insertion

variable {c c' : Catalog} {m : MetricRow} {key : String}

theorem clashFree_of_wellFormed (h : ViewsWellFormed c) (hlast : c.lastValue .labelKey < 2 ^ 31)
    {metricName : String} (hnames : ∀ key ∈ keysOf c metricName, Ascii key) :
    ClashFree (keysOf c metricName) := by
  cases hrows : labelRows c metricName with
  | nil => simp [ClashFree, keysOf, hrows]
  | cons p rows =>
    have hp : p ∈ labelRows c metricName := by simp [hrows]
    obtain ⟨hp, hname⟩ := List.mem_filter.mp hp
    simp only [decide_eq_true_eq] at hname
    obtain ⟨m, hm, hmetric, hview⟩ := h.viewed p hp
    obtain ⟨columns, hcolumns⟩ := Option.isSome_iff_exists.mp (hview true)
    obtain ⟨labelCols, rfl, hlabelCols⟩ := h.current m hm true columns hcolumns
    rw [hmetric, hname.1] at hlabelCols
    obtain ⟨hseries, hfree⟩ := (nodup_fixed_append_iff h.keys hlast
      (nodup_keysOf h.positions metricName) (fun row hrow => hnames _ (List.mem_map_of_mem hrow))
      hlabelCols).mp (h.nodup true _ _ hcolumns)
    exact ⟨hseries rfl, hfree⟩

/-- The metric has one more key, and everything else that the next key depends on is as
before. -/
structure KeyAdded (c c' : Catalog) (m : MetricRow) (key : String) : Prop where
  wellFormed : ViewsWellFormed c'
  metric : c'.metric? m.metricName = some m
  lastValue : c'.lastValue .labelKey ≤ c.lastValue .labelKey + 2
  grows : Grows c c'
  keys : ∀ k, k ≠ metricNameLabelName →
    (k ∈ keysOf c' m.metricName ↔ k ∈ keysOf c m.metricName ∨ k = key)

theorem keysOf_withPosition (c : Catalog) (metricName key : String) (k : String)
    (hk : k ≠ metricNameLabelName) :
    k ∈ keysOf (withPosition c metricName key) metricName ↔
      k ∈ keysOf c metricName ∨ k = key := by
  unfold keysOf
  rw [labelRows_withPosition, List.map_append, List.mem_append]
  by_cases hkey : key = metricNameLabelName
  · rw [if_neg (by simp [hkey]), List.map_nil, hkey]
    simp [hk]
  · rw [if_pos ⟨rfl, hkey⟩, List.map_singleton, List.mem_singleton]

theorem getOrCreateLabelKeyPos_of_some {metricName : String} {pos : Nat}
    (hpos : c.position? metricName key = some pos) :
    getOrCreateLabelKeyPos metricName key c = .ok pos c := by
  rw [getOrCreateLabelKeyPos, get_bind]
  simp only [hpos]
  rfl

theorem getOrCreateLabelKeyPos_of_none (hmetric : c.metric? m.metricName = some m)
    (hpos : c.position? m.metricName key = none) :
    getOrCreateLabelKeyPos m.metricName key c =
      recordKey m.metricName key (nextPosition c m.metricName key) c := by
  have hfound : getOrCreateMetricTableName m.metricName c = .ok (m, false) c := by
    rw [getOrCreateMetricTableName, get_bind]
    simp only [hmetric]
    rfl
  have hlocked : lockedNewPos m.metricName key c =
      recordKey m.metricName key (nextPosition c m.metricName key) c := by
    unfold lockedNewPos
    rw [bind_of_ok hfound, get_bind]
    simp only [hpos]
  rw [getOrCreateLabelKeyPos, get_bind]
  simp only [hpos]
  rw [getNewPosForKey_eq, get_bind]
  simp only [hpos]
  exact hlocked

theorem getOrCreateLabelKeyPos_cases (key : String) (h : ViewsWellFormed c)
    (hmetric : c.metric? m.metricName = some m)
    (hroom : c.lastValue .labelKey + 2 < 2 ^ 31) (hkey : Ascii key)
    (hnames : ∀ k ∈ keysOf c m.metricName, Ascii k) :
    ClashFree (key :: keysOf c m.metricName) ∧
      (∃ pos c', getOrCreateLabelKeyPos m.metricName key c = .ok pos c' ∧ KeyAdded c c' m key) ∨
    ¬ ClashFree (key :: keysOf c m.metricName) ∧
      ∃ e c', getOrCreateLabelKeyPos m.metricName key c = .error e c' := by
  cases hpos : c.position? m.metricName key with
  | some pos =>
    have hmem : ∀ k, k ≠ metricNameLabelName →
        (k ∈ key :: keysOf c m.metricName ↔ k ∈ keysOf c m.metricName) := by
      intro k hk
      rw [List.mem_cons, or_iff_right_iff_imp]
      rintro rfl
      exact mem_keysOf.mpr ⟨hk, by simp [hpos]⟩
    refine .inl ⟨(ClashFree.congr hmem).mpr (clashFree_of_wellFormed h (by omega) hnames), pos,
      c, getOrCreateLabelKeyPos_of_some hpos, ⟨h, hmetric, by omega, .refl c, ?_⟩⟩
    intro k hk
    rw [← hmem k hk, List.mem_cons, or_comm]
    simp only [or_comm, or_self_left]
  | none =>
    have hkeys := keysOf_withPosition c m.metricName key
    have hfree : ClashFree (keysOf (withPosition c m.metricName key) m.metricName) ↔
        ClashFree (key :: keysOf c m.metricName) :=
      ClashFree.congr fun k hk => by rw [hkeys k hk, List.mem_cons, or_comm]
    have hnodup := nodup_keysOf (h.positions.withPosition hpos) m.metricName
    have hascii : ∀ row ∈ labelRows (withPosition c m.metricName key) m.metricName,
        Ascii row.key := by
      intro row hrow
      have hmem : row.key ∈ keysOf (withPosition c m.metricName key) m.metricName :=
        List.mem_map_of_mem hrow
      obtain hold | hnew := (hkeys row.key (mem_keysOf.mp hmem).1).mp hmem
      · exact hnames _ hold
      · rwa [hnew]
    rw [getOrCreateLabelKeyPos_of_none hmetric hpos, ← hfree]
    obtain ⟨c', hok, hregen⟩ | ⟨⟨c', id, columns, hwf, hlast, hcolumns, hrepeat⟩, c'', herror⟩ :=
      recordKey_cases h hmetric hpos
    · obtain ⟨hwf', hgrows⟩ := Kept.of_regenerated hmetric hpos hregen h
      obtain ⟨columns, -, hcolumns, hdistinct⟩ := hregen.own true
      obtain ⟨hseries, hrest⟩ := (nodup_fixed_append_iff hregen.wellFormed
        (hregen.lastValue.trans_lt hroom) hnodup hascii hcolumns).mp hdistinct
      refine .inl ⟨⟨hseries rfl, hrest⟩, _, c', hok, hwf', ?_, hregen.lastValue, hgrows, ?_⟩
      · rw [Catalog.metric?, hregen.metric]
        exact hmetric
      · intro k hk
        rw [← hkeys k hk, keysOf, keysOf, labelRows, labelRows, hregen.position]
    · refine .inr ⟨fun hclash => hrepeat ?_, _, c'', herror⟩
      exact (nodup_fixed_append_iff hwf (hlast.trans_lt hroom) hnodup hascii hcolumns).mpr
        ⟨fun _ => hclash.1, hclash.2⟩

theorem returns_getOrCreateLabelId (c : Catalog) (key value : String) :
    Returns (getOrCreateLabelId key value) c fun _ c' => c' = c ∨ c' = withLabel c key value := by
  obtain ⟨id, c', hcall⟩ := getOrCreateLabelId_returns key value c
  refine ⟨id, c', hcall, ?_⟩
  obtain ⟨-, rfl⟩ | ⟨-, -, rfl⟩ := getOrCreateLabelId_eq_ok hcall
  · exact .inl rfl
  · exact .inr rfl

theorem KeyAdded.labelStored (h : KeyAdded c c' m key) (snapshot : Catalog) (value : String) :
    Returns (coalesce (snapshot.labelId? key value) (getOrCreateLabelId key value)) c'
      fun _ c'' => KeyAdded c c'' m key := by
  cases snapshot.labelId? key value with
  | some id => exact ⟨id, c', rfl, h⟩
  | none =>
    obtain ⟨id, c'', hok, rfl | rfl⟩ := returns_getOrCreateLabelId c' key value
    · exact ⟨id, _, hok, h⟩
    · obtain ⟨hwf, hgrows⟩ := withLabel_kept c' key value h.wellFormed
      exact ⟨id, _, hok, hwf, h.metric, by simpa [withLabel] using h.lastValue,
        h.grows.trans hgrows, h.keys⟩

theorem coalesce_position {snapshot : Catalog} {metricName : String}
    (hsnapshot : ∀ pos, snapshot.position? metricName key = some pos →
      c.position? metricName key = some pos) :
    coalesce (snapshot.position? metricName key) (getOrCreateLabelKeyPos metricName key) c =
      getOrCreateLabelKeyPos metricName key c := by
  cases hpos : snapshot.position? metricName key with
  | none => rfl
  | some pos => exact (getOrCreateLabelKeyPos_of_some (hsnapshot pos hpos)).symm

theorem idxVal_cons_ok_iff {snapshot c₂ : Catalog} {metricName value : String} {pos val : Nat}
    {rest : LabelSet}
    (hpos : coalesce (snapshot.position? metricName key) (getOrCreateLabelKeyPos metricName key) c =
      .ok pos c')
    (hval : coalesce (snapshot.labelId? key value) (getOrCreateLabelId key value) c' =
      .ok val c₂) :
    (∃ rows d, idxVal metricName snapshot ((key, value) :: rest) c = .ok rows d) ↔
      ∃ rows d, idxVal metricName snapshot rest c₂ = .ok rows d := by
  simp only [idxVal, bind_of_ok hpos, bind_of_ok hval, bind_eq_ok, pure_eq_ok]
  constructor
  · rintro ⟨_, _, rows, d, hok, -, -⟩
    exact ⟨rows, d, hok⟩
  · rintro ⟨rows, d, hok⟩
    exact ⟨_, d, rows, d, hok, rfl, rfl⟩

theorem idxVal_ok_iff {snapshot : Catalog} {labels : LabelSet}
    (hsnapshot : ∀ key pos, snapshot.position? m.metricName key = some pos →
      c.position? m.metricName key = some pos)
    (h : ViewsWellFormed c) (hmetric : c.metric? m.metricName = some m)
    (hroom : c.lastValue .labelKey + 2 * labels.length < 2 ^ 31)
    (hnames : ∀ key ∈ keysOf c m.metricName ++ labels.map (·.1), Ascii key) :
    (∃ rows c', idxVal m.metricName snapshot labels c = .ok rows c') ↔
      ClashFree (keysOf c m.metricName ++ labels.map (·.1)) := by
  induction labels generalizing c with
  | nil =>
    refine iff_of_true ⟨[], c, rfl⟩ ?_
    rw [List.map_nil, List.append_nil] at hnames ⊢
    exact clashFree_of_wellFormed h (by simpa using hroom) hnames
  | cons kv rest ih =>
    obtain ⟨key, value⟩ := kv
    simp only [List.length_cons] at hroom
    have hfirst := coalesce_position (hsnapshot key)
    have hmem : ∀ k, k ∈ keysOf c m.metricName ++ ((key, value) :: rest).map (·.1) ↔
        k ∈ key :: keysOf c m.metricName ∨ k ∈ rest.map (·.1) := by
      intro k
      simp only [List.map_cons, List.mem_append, List.mem_cons]
      tauto
    obtain ⟨-, pos, c₁, hpos, hkey⟩ | ⟨hclash, e, c₁, herror⟩ :=
      getOrCreateLabelKeyPos_cases key h hmetric (by omega)
        (hnames key ((hmem key).mpr (.inl List.mem_cons_self)))
        (fun k hk => hnames k ((hmem k).mpr (.inl (List.mem_cons_of_mem _ hk))))
    · obtain ⟨val, c₂, hval, hadded⟩ := hkey.labelStored snapshot value
      have hlast := hadded.lastValue
      have hsnapshot₂ : ∀ key' pos', snapshot.position? m.metricName key' = some pos' →
          c₂.position? m.metricName key' = some pos' :=
        fun key' pos' hsome => hadded.grows.position?_eq (hsnapshot key' pos' hsome)
      have hnames₂ : ∀ k ∈ keysOf c₂ m.metricName ++ rest.map (·.1), Ascii k := by
        intro k hk
        rcases List.mem_append.mp hk with hk | hk
        · apply hnames k
          rw [hmem, List.mem_cons]
          obtain hold | hnew := (hadded.keys k (mem_keysOf.mp hk).1).mp hk
          · exact .inl (.inr hold)
          · exact .inl (.inl hnew)
        · exact hnames k ((hmem k).mpr (.inr hk))
      rw [idxVal_cons_ok_iff (hfirst.trans hpos) hval,
        ih hsnapshot₂ hadded.wellFormed hadded.metric (by omega) hnames₂]
      refine ClashFree.congr fun k hk => ?_
      rw [hmem, List.mem_append, hadded.keys k hk, List.mem_cons, or_comm (a := k = key)]
    · refine iff_of_false ?_ ?_
      · rintro ⟨rows, c', hok⟩
        rw [idxVal, bind_eq_ok] at hok
        obtain ⟨pos, c₂, hpos, -⟩ := hok
        rw [hfirst, herror] at hpos
        cases hpos
      · rintro ⟨hseries, hfree⟩
        refine hclash ⟨fun hmem' => hseries ((hmem _).mpr (.inl hmem')), ?_⟩
        intro k hk hmem' hrenamed
        exact hfree k hk ((hmem k).mpr (.inl hmem')) ((hmem _).mpr (.inl hrenamed))

/-- The metric with the listed keys recorded as well. -/
def withKeys (c : Catalog) (metricName : String) : List String → Catalog
  | [] => c
  | key :: keys =>
    match c.position? metricName key with
    | some _ => withKeys c metricName keys
    | none => withKeys (withPosition c metricName key) metricName keys

theorem withKeys_spec (h : PositionsDense c) (metricName : String) (keys : List String) :
    PositionsDense (withKeys c metricName keys) ∧
      (withKeys c metricName keys).labelKey = c.labelKey ∧
      (withKeys c metricName keys).lastValue = c.lastValue ∧
      missing c (labelRows (withKeys c metricName keys) metricName) ≤
        missing c (labelRows c metricName) + keys.length ∧
      ∀ k, k ≠ metricNameLabelName → (k ∈ keysOf (withKeys c metricName keys) metricName ↔
        k ∈ keysOf c metricName ++ keys) := by
  induction keys generalizing c with
  | nil => exact ⟨h, rfl, rfl, by simp [withKeys], fun k _ => by simp [withKeys]⟩
  | cons key keys ih =>
    cases hpos : c.position? metricName key with
    | some pos =>
      simp only [withKeys, hpos]
      obtain ⟨hdense, hkeys, hlast, hmissing, hmem⟩ := ih h
      refine ⟨hdense, hkeys, hlast, hmissing.trans (by simp), fun k hk => ?_⟩
      rw [hmem k hk, List.mem_append, List.mem_append, List.mem_cons]
      have hold : k = key → k ∈ keysOf c metricName := by
        rintro rfl
        exact mem_keysOf.mpr ⟨hk, by simp [hpos]⟩
      tauto
    | none =>
      simp only [withKeys, hpos]
      obtain ⟨hdense, hkeys, hlast, hmissing, hmem⟩ := ih (h.withPosition hpos)
      refine ⟨hdense, hkeys, hlast, ?_, fun k hk => ?_⟩
      · have hstep : missing c (labelRows (withPosition c metricName key) metricName) ≤
            missing c (labelRows c metricName) + 1 := by
          rw [labelRows_withPosition, missing, missing, List.countP_append]
          refine Nat.add_le_add_left ((List.countP_le_length).trans ?_) _
          split <;> simp
        have hsame : missing (withPosition c metricName key)
            (labelRows (withKeys (withPosition c metricName key) metricName keys)
              metricName) ≤ missing (withPosition c metricName key)
                (labelRows (withPosition c metricName key) metricName) + keys.length := hmissing
        change missing c _ ≤ missing c _ + keys.length at hsame
        rw [List.length_cons]
        omega
      · rw [hmem k hk, List.mem_append, keysOf_withPosition c metricName key k hk,
          List.mem_append, List.mem_cons, or_assoc]

end Insertion

/-- For a metric of a reachable catalog and the labels of a series, all with names that
Prometheus allows: the columns of both views are different, and the label array of the
series can be created, exactly if no key is `series` and none is what one of the others
is renamed to. The serial column of the label keys has to have ids left for new keys. -/
theorem columns_distinct_iff_clashFree (actions : List CatalogRuns.Action) (metricName : String)
    (labels : LabelSet)
    (hmetric : ((run CatalogRuns.step Catalog.empty actions).metric? metricName).isSome)
    (hroom : (run CatalogRuns.step Catalog.empty actions).lastValue .labelKey +
      2 * labels.length < 2 ^ 31)
    (hnames : ∀ key ∈ keysOf (run CatalogRuns.step Catalog.empty actions) metricName ++
      labels.map (·.1), isLabelName key) :
    (ColumnsDistinct (withKeys (run CatalogRuns.step Catalog.empty actions) metricName
        (labels.map (·.1))) metricName ∧
      ∃ array c', getOrCreateLabelArray metricName labels
        (run CatalogRuns.step Catalog.empty actions) = .ok array c') ↔
    ClashFree (keysOf (run CatalogRuns.step Catalog.empty actions) metricName ++
      labels.map (·.1)) := by
  set c := run CatalogRuns.step Catalog.empty actions with hc
  have h : ViewsWellFormed c := (run_kept Catalog.empty actions viewsWellFormed_empty).1
  obtain ⟨m, hm⟩ := Option.isSome_iff_exists.mp hmetric
  obtain ⟨-, rfl⟩ := Catalog.mem_of_metric? hm
  have hascii : ∀ key ∈ keysOf c m.metricName ++ labels.map (·.1), Ascii key :=
    fun key hkey => ascii_of_isLabelName (hnames key hkey)
  have harray : (∃ array c', getOrCreateLabelArray m.metricName labels c = .ok array c') ↔
      ClashFree (keysOf c m.metricName ++ labels.map (·.1)) := by
    rw [← idxVal_ok_iff (fun _ _ hpos => hpos) h hm hroom hascii]
    simp only [getOrCreateLabelArray, bind_eq_ok, get_eq_ok, pure_eq_ok]
    constructor
    · rintro ⟨_, _, _, _, ⟨rfl, rfl⟩, rows, c', hrows, -⟩
      exact ⟨rows, c', hrows⟩
    · rintro ⟨rows, c', hrows⟩
      exact ⟨_, c', c, c, ⟨rfl, rfl⟩, rows, c', hrows, rfl, rfl⟩
  obtain ⟨hdense, hkeys, hlast, hmissing, hmem⟩ :=
    withKeys_spec h.positions m.metricName (labels.map (·.1))
  rw [h.missing_eq_zero, List.length_map] at hmissing
  have hcolumns : ColumnsDistinct (withKeys c m.metricName (labels.map (·.1))) m.metricName ↔
      ClashFree (keysOf c m.metricName ++ labels.map (·.1)) := by
    rw [← ClashFree.congr hmem]
    refine columnsDistinct_iff hdense (h.keys.of_eq hkeys (by rw [hlast])) ?_ ?_
    · have hsame : missing (withKeys c m.metricName (labels.map (·.1)))
          (labelRows (withKeys c m.metricName (labels.map (·.1))) m.metricName) =
            missing c (labelRows (withKeys c m.metricName (labels.map (·.1))) m.metricName) := by
        unfold missing labelKey?
        rw [hkeys]
      rw [hsame, hlast]
      omega
    · intro key hkey
      exact hascii key ((hmem key (mem_keysOf.mp hkey).1).mp hkey)
  rw [harray, hcolumns, and_self]

/-- The catalog of a metric that has no keys yet. -/
def oneMetric : List CatalogRuns.Action := [.metricTableName "cpu"]

theorem columns_distinct_cpu :
    ColumnsDistinct (withKeys (run CatalogRuns.step Catalog.empty oneMetric) "cpu"
        ["__name__", "time"]) "cpu" ∧
      ∃ array c', getOrCreateLabelArray "cpu" [("__name__", "cpu"), ("time", "0")]
        (run CatalogRuns.step Catalog.empty oneMetric) = .ok array c' :=
  (columns_distinct_iff_clashFree oneMetric "cpu" [("__name__", "cpu"), ("time", "0")]
    (by decide +kernel) (by decide +kernel) (by decide +kernel)).mpr (by decide +kernel)

/-- The id column of the key `series` is `series_id`, which the metric view already has. -/
theorem seriesKey_clashes :
    ¬ (ColumnsDistinct (withKeys (run CatalogRuns.step Catalog.empty oneMetric) "cpu"
        ["__name__", "series"]) "cpu" ∧
      ∃ array c', getOrCreateLabelArray "cpu" [("__name__", "cpu"), ("series", "a")]
        (run CatalogRuns.step Catalog.empty oneMetric) = .ok array c') := by
  rintro ⟨-, array, c', hok⟩
  have herror : (match getOrCreateLabelArray "cpu" [("__name__", "cpu"), ("series", "a")]
      (run CatalogRuns.step Catalog.empty oneMetric) with
    | .ok _ _ => none
    | .error e _ => some e) = some Abort.duplicateColumn := by decide +kernel
  rw [hok] at herror
  cases herror

end TimescalePrometheus.Sql.ColumnClashes
