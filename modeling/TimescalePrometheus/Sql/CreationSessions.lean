import TimescalePrometheus.Lib.Upserts
import TimescalePrometheus.Sql.SeriesIdentity

/-!
Sessions that create series at the same time, each taken statement by statement: the functions of
`Series`, as they run with concurrent writers. A sequence may hand out any number that no row of its
table has. The views are left out, and the locks that only keep tables from being dropped.
-/

namespace TimescalePrometheus.Sql.CreationSessions

open Lib Lib.Upserts Sql.Tables Sql.LabelKeys Sql.Series Sql.Invariant Sql.Encodings Sql.NameLabels
open Sql.SeriesIdentity

/-- A row by its unique columns; its value is its id, or the position of a key. -/
inductive Key where
  | metric (metricName : String)
  | labelKey (key : String)
  | position (metricName key : String)
  | label (key value : String)
  /-- A row of the series partition of the metric. -/
  | series (metricId : Nat) (labels : List Nat)
  deriving DecidableEq

/-- Where the value of a new row comes from: a sequence, or the positions of a metric. -/
def Key.source : Key → Sequence ⊕ String
  | .metric _ => .inl .metric
  | .labelKey _ => .inl .labelKey
  | .position metricName _ => .inr metricName
  | .label _ _ => .inl .label
  | .series _ _ => .inl .seriesId

/-- A session; what it locks is the data table of a metric. -/
abbrev Session := Program Key Nat String Nat

def getNewLabelId (keyName valueName : String) (next : Nat → Session) : Session :=
  .upsert (.label keyName valueName) next next

def getOrCreateLabelId (keyName valueName : String) (next : Nat → Session) : Session :=
  .select (.label keyName valueName) next (getNewLabelId keyName valueName next)

/-- The session that inserts the row also runs its trigger, `make_metric_table`. -/
def createMetricTable (metricName : String) (next : Nat → Session) : Session :=
  .upsert (.metric metricName)
    (fun id => getOrCreateLabelId metricNameLabelName metricName fun _ => next id) next

def getOrCreateMetricTableName (metricName : String) (next : Nat → Session) : Session :=
  .select (.metric metricName) next (createMetricTable metricName next)

def createLabelKey (newKey : String) (next : Nat → Session) : Session :=
  .upsert (.labelKey newKey) next next

def getOrCreateLabelKey (key : String) (next : Nat → Session) : Session :=
  .select (.labelKey key) next (createLabelKey key next)

def getNewPosForKey (metricName keyName : String) (next : Nat → Session) : Session :=
  .select (.position metricName keyName) next <|
    getOrCreateMetricTableName metricName fun _ =>
      .lock metricName <|
        .select (.position metricName keyName) next <|
          getOrCreateLabelKey keyName fun _ =>
            .upsert (.position metricName keyName) next fun _ => .raise

def getOrCreateLabelKeyPos (metricName key : String) (next : Nat → Session) : Session :=
  .select (.position metricName key) next (getNewPosForKey metricName key next)

/-- The rows of the `idx_val` query; its left joins are the first selects. -/
def idxVal (metricName : String) : LabelSet → (List (Nat × Nat) → Session) → Session
  | [], next => next []
  | (key, value) :: rest, next =>
    let withVal idx val := idxVal metricName rest fun rows => next ((idx, val) :: rows)
    let withIdx idx := .select (.label key value) (withVal idx)
      (getOrCreateLabelId key value (withVal idx))
    .select (.position metricName key) withIdx (getOrCreateLabelKeyPos metricName key withIdx)

def createSeries (metricId : Nat) (labelArray : List Nat) (next : Nat → Session) : Session :=
  .upsert (.series metricId labelArray) next next

/-- `get_or_create_series_id_for_kv_array`, and `get_or_create_series_id` once it has the name. -/
def getOrCreateSeriesIdForKvArray (metricName : String) (labels : LabelSet) : Session :=
  getOrCreateMetricTableName metricName fun metricId =>
    idxVal metricName labels fun rows =>
      .select (.series metricId (arrayOf rows)) .done
        (createSeries metricId (arrayOf rows) .done)

/-- The statements of a call. -/
def program : SeriesCall → Session
  | .kv metricName labels => getOrCreateSeriesIdForKvArray metricName labels
  | .jsonb label =>
    match jsonMetricName label with
    | none => .raise
    | some metricName => getOrCreateSeriesIdForKvArray metricName label

/-- The label and position tables that the rows make up. -/
def catalogOf (rows : List (Key × Nat)) : Catalog :=
  { Catalog.empty with
    label := rows.filterMap fun
      | (.label key value, id) => some { id, key, value }
      | _ => none
    labelKeyPosition := rows.filterMap fun
      | (.position metricName key, pos) => some { metricName, key, pos }
      | _ => none
    lastValue := fun _ => (rows.map Prod.snd).max?.getD 0 }

def rules : Rules Key Nat String Nat SeriesCall where
  program := program
  guard key := key.source.getRight?
  allowed key value visible rows :=
    match key with
    | .position metricName keyName => value = nextPosition (catalogOf visible) metricName keyName
    | _ => 0 < value ∧ ∀ row ∈ rows, row.1.source = key.source → row.2 ≠ value

theorem mem_label {rows : List (Key × Nat)} {l : LabelRow} :
    l ∈ (catalogOf rows).label ↔ (Key.label l.key l.value, l.id) ∈ rows := by
  simp only [catalogOf, List.mem_filterMap]
  constructor
  · rintro ⟨⟨key, id⟩, hrow, hl⟩
    cases key <;> cases hl
    exact hrow
  · exact fun h => ⟨_, h, rfl⟩

theorem mem_labelKeyPosition {rows : List (Key × Nat)} {p : LabelKeyPositionRow} :
    p ∈ (catalogOf rows).labelKeyPosition ↔ (Key.position p.metricName p.key, p.pos) ∈ rows := by
  simp only [catalogOf, List.mem_filterMap]
  constructor
  · rintro ⟨⟨key, id⟩, hrow, hp⟩
    cases key <;> cases hp
    exact hrow
  · exact fun h => ⟨_, h, rfl⟩

/-- No number is used twice where numbers come from one source, and the first position of a metric
is that of its name. -/
structure Numbered (rows : List (Key × Nat)) : Prop where
  inj : ∀ a ∈ rows, ∀ b ∈ rows, a.1.source = b.1.source → a.2 = b.2 → a = b
  pos : ∀ a ∈ rows, 0 < a.2
  first : ∀ metricName key pos, (Key.position metricName key, pos) ∈ rows →
    (pos = 1 ↔ key = metricNameLabelName)

theorem Numbered.subset {rows rows' : List (Key × Nat)} (h : Numbered rows')
    (hsub : rows ⊆ rows') : Numbered rows :=
  ⟨fun a ha b hb => h.inj a (hsub ha) b (hsub hb), fun a ha => h.pos a (hsub ha),
    fun _ _ _ hrow => h.first _ _ _ (hsub hrow)⟩

theorem nextPosition_spec {visible : List (Key × Nat)} (h : Numbered visible)
    (metricName keyName : String) :
    let pos := nextPosition (catalogOf visible) metricName keyName
    0 < pos ∧ (pos = 1 ↔ keyName = metricNameLabelName) ∧ ∀ key pos',
      (Key.position metricName key, pos') ∈ visible → key ≠ keyName → pos' ≠ pos := by
  have hmax : ∀ key pos', (Key.position metricName key, pos') ∈ visible →
      ∃ top, maxPos (catalogOf visible) metricName = some top ∧ pos' ≤ top := by
    intro key pos' hrow
    have hmem : pos' ∈ ((catalogOf visible).labelKeyPosition.filter fun p =>
        p.metricName = metricName).map (·.pos) :=
      List.mem_map.mpr ⟨⟨metricName, key, pos'⟩,
        List.mem_filter.mpr ⟨mem_labelKeyPosition.mpr hrow, by simp⟩, rfl⟩
    cases htop : maxPos (catalogOf visible) metricName with
    | none => simp [List.max?_eq_none_iff.mp htop] at hmem
    | some top => exact ⟨top, rfl, (List.max?_eq_some_iff.mp htop).2 _ hmem⟩
  simp only [nextPosition]
  split_ifs with hname
  · refine ⟨by decide, by simp [hname], fun key pos' hrow hne hone => hne ?_⟩
    exact ((h.first _ _ _ hrow).mp hone).trans hname.symm
  · cases htop : maxPos (catalogOf visible) metricName with
    | none =>
      refine ⟨by simp, by simp [hname], fun key pos' hrow => ?_⟩
      obtain ⟨top, hsome, -⟩ := hmax key pos' hrow
      simp [htop] at hsome
    | some top =>
      obtain ⟨p, hp, rfl⟩ := List.mem_map.mp (List.max?_eq_some_iff.mp htop).1
      have := h.pos _ (mem_labelKeyPosition.mp (List.mem_filter.mp hp).1)
      refine ⟨by simp, by simp [hname]; omega, fun key pos' hrow _ => ?_⟩
      obtain ⟨top', hsome, hle⟩ := hmax key pos' hrow
      obtain rfl : p.pos = top' := Option.some_inj.mp (htop.symm.trans hsome)
      exact (Nat.lt_succ_of_le hle).ne

theorem keeps_numbered : rules.Keeps Numbered where
  nil := ⟨by simp, by simp, by simp⟩
  subset _ _ hsub h := h.subset hsub
  insert key value visible rows hallowed h hsub hnew hguard := by
    -- what the two ways of numbering have in common
    have hspec : 0 < value ∧ (∀ row ∈ rows, row.1.source = key.source → row.2 ≠ value) ∧
        ∀ metricName keyName, key = .position metricName keyName →
          (value = 1 ↔ keyName = metricNameLabelName) := by
      cases key with
      | position metricName keyName =>
        obtain rfl : value = nextPosition (catalogOf visible) metricName keyName := by
          simpa [rules] using hallowed
        obtain ⟨hpos, hfirst, hfresh⟩ := nextPosition_spec (h.subset hsub) metricName keyName
        refine ⟨hpos, fun row hrow hsource => ?_, by rintro _ _ ⟨⟩; exact hfirst⟩
        obtain ⟨k, pos⟩ := row
        cases k <;> simp only [Key.source, reduceCtorEq, Sum.inr.injEq] at hsource
        subst hsource
        have hseen := (hguard _ hrow).resolve_right (by simp [rules, Key.source])
        exact hfresh _ _ hseen fun hkey => hnew _ hrow (by rw [hkey])
      | metric | labelKey | label | series =>
        simp only [rules, decide_eq_true_eq] at hallowed
        exact ⟨hallowed.1, hallowed.2, by rintro _ _ ⟨⟩⟩
    obtain ⟨hpos, hfresh, hfirst⟩ := hspec
    refine ⟨?_, ?_, ?_⟩
    · intro a ha b hb hsource hvalue
      simp only [List.mem_append, List.mem_singleton] at ha hb
      obtain ha | rfl := ha <;> obtain hb | rfl := hb
      · exact h.inj a ha b hb hsource hvalue
      · exact absurd hvalue (hfresh a ha hsource)
      · exact absurd hvalue.symm (hfresh b hb hsource.symm)
      · rfl
    · intro a ha
      obtain ha | ha := List.mem_append.mp ha
      · exact h.pos a ha
      · exact List.mem_singleton.mp ha ▸ hpos
    · intro metricName keyName pos hrow
      obtain hrow | hrow := List.mem_append.mp hrow
      · exact h.first _ _ _ hrow
      · obtain ⟨rfl, rfl⟩ := Prod.mk.inj (List.mem_singleton.mp hrow)
        exact hfirst _ _ rfl

theorem Numbered.labels {rows : List (Key × Nat)} (h : Numbered rows)
    (hkeys : (rows.map Prod.fst).Nodup) : LabelsWellFormed (catalogOf rows) where
  bound l hl := ⟨h.pos _ (mem_label.mp hl),
    List.le_max?_getD_of_mem (List.mem_map.mpr ⟨_, mem_label.mp hl, rfl⟩)⟩
  idInj := by
    rintro ⟨_, _, _⟩ hl ⟨_, _, _⟩ hl' hid
    have := h.inj _ (mem_label.mp hl) _ (mem_label.mp hl') rfl hid
    simp_all
  pairInj := by
    rintro ⟨_, _, _⟩ hl ⟨_, _, _⟩ hl' rfl rfl
    have := List.inj_on_of_nodup_map hkeys (mem_label.mp hl) (mem_label.mp hl') rfl
    simp_all

theorem Numbered.positions {rows : List (Key × Nat)} (h : Numbered rows)
    (hkeys : (rows.map Prod.fst).Nodup) : PositionsWellFormed (catalogOf rows) where
  keyInj := by
    rintro ⟨_, _, _⟩ hp ⟨_, _, _⟩ hq rfl rfl
    have := List.inj_on_of_nodup_map hkeys (mem_labelKeyPosition.mp hp)
      (mem_labelKeyPosition.mp hq) rfl
    simp_all
  posInj := by
    rintro ⟨_, _, _⟩ hp ⟨_, _, _⟩ hq rfl rfl
    have := h.inj _ (mem_labelKeyPosition.mp hp) _ (mem_labelKeyPosition.mp hq) rfl rfl
    simp_all
  first p hp := ⟨h.pos _ (mem_labelKeyPosition.mp hp),
    h.first _ _ _ (mem_labelKeyPosition.mp hp)⟩

theorem position?_of_mem {rows : List (Key × Nat)} (h : PositionsWellFormed (catalogOf rows))
    {metricName key : String} {pos : Nat} (hrow : (Key.position metricName key, pos) ∈ rows) :
    (catalogOf rows).position? metricName key = some pos := by
  have hp : (⟨metricName, key, pos⟩ : LabelKeyPositionRow) ∈ (catalogOf rows).labelKeyPosition :=
    mem_labelKeyPosition.mpr hrow
  cases hfind : (catalogOf rows).position? metricName key with
  | none => exact absurd ⟨rfl, rfl⟩ (Catalog.position?_eq_none_iff.mp hfind _ hp)
  | some pos' =>
    obtain ⟨q, hq, hname, hkey, rfl⟩ := Catalog.exists_of_position? hfind
    rw [h.keyInj q hq _ hp hname hkey]

/-- The tables have the position and the id of a label. -/
def FoundPair (find : Key → Option Nat) (metricName : String) (kv : String × String)
    (row : Nat × Nat) : Prop :=
  find (.position metricName kv.1) = some row.1 ∧ find (.label kv.1 kv.2) = some row.2

section Returns

variable {find : Key → Option Nat} {held : String → Prop} {next : Nat → Session} {a : Nat}

theorem getOrCreate_yields {key : Key}
    (h : (Program.select key next (.upsert key next next)).Yields find a) :
    ∃ v, find key = some v ∧ (next v).Yields find a := by
  obtain h | ⟨v, hv, h | h⟩ := h
  · exact h
  · exact ⟨v, hv, h⟩
  · exact ⟨v, hv, h⟩

theorem getOrCreateMetricTableName_yields {metricName : String}
    (h : (getOrCreateMetricTableName metricName next).Yields find a) :
    ∃ id, find (.metric metricName) = some id ∧ (next id).Yields find a := by
  obtain h | ⟨id, hid, h | h⟩ := h
  · exact h
  · obtain ⟨-, -, h⟩ := getOrCreate_yields h
    exact ⟨id, hid, h⟩
  · exact ⟨id, hid, h⟩

theorem getOrCreateLabelKeyPos_yields {metricName key : String}
    (h : (getOrCreateLabelKeyPos metricName key next).Yields find a) :
    ∃ pos, find (.position metricName key) = some pos ∧ (next pos).Yields find a := by
  obtain h | h | h := h
  · exact h
  · exact h
  · obtain ⟨-, -, h⟩ := getOrCreateMetricTableName_yields h
    obtain h | h := h
    · exact h
    · obtain ⟨-, -, pos, hpos, h | h⟩ := getOrCreate_yields h
      · exact ⟨pos, hpos, h⟩
      · exact h.elim

theorem idxVal_yields {metricName : String} {labels : LabelSet}
    {next : List (Nat × Nat) → Session} (h : (idxVal metricName labels next).Yields find a) :
    ∃ rows, List.Forall₂ (FoundPair find metricName) labels rows ∧
      (next rows).Yields find a := by
  induction labels generalizing next with
  | nil => exact ⟨[], .nil, h⟩
  | cons kv rest ih =>
    obtain ⟨idx, hidx, h⟩ : ∃ idx, find (.position metricName kv.1) = some idx ∧ _ :=
      Or.elim h id getOrCreateLabelKeyPos_yields
    obtain ⟨val, hval, h⟩ : ∃ val, find (.label kv.1 kv.2) = some val ∧ _ :=
      Or.elim h id getOrCreate_yields
    obtain ⟨rows, hrows, h⟩ := ih h
    exact ⟨(idx, val) :: rows, .cons ⟨hidx, hval⟩ hrows, h⟩

theorem getOrCreateLabelId_guarded {key value : String}
    (h : ∀ v, (next v).Guarded rules.guard held) :
    (getOrCreateLabelId key value next).Guarded rules.guard held :=
  ⟨h, nofun, fun v => ⟨h v, h v⟩⟩

theorem getOrCreateMetricTableName_guarded {metricName : String}
    (h : ∀ v, (next v).Guarded rules.guard held) :
    (getOrCreateMetricTableName metricName next).Guarded rules.guard held :=
  ⟨h, nofun, fun v => ⟨getOrCreateLabelId_guarded fun _ => h v, h v⟩⟩

theorem getOrCreateLabelKeyPos_guarded {metricName key : String}
    (h : ∀ v, (next v).Guarded rules.guard held) :
    (getOrCreateLabelKeyPos metricName key next).Guarded rules.guard held := by
  refine ⟨h, h, getOrCreateMetricTableName_guarded fun _ => ?_⟩
  have hlocked : ∀ v, (next v).Guarded rules.guard fun r => r = metricName ∨ held r :=
    fun v => (h v).mono fun _ => .inr
  have hinsert : (Program.upsert (.position metricName key) next fun _ => .raise).Guarded
      rules.guard fun r => r = metricName ∨ held r :=
    ⟨fun r hr => .inl (Option.some_inj.mp hr).symm, fun v => ⟨hlocked v, trivial⟩⟩
  exact ⟨hlocked, fun _ => hinsert, nofun, fun _ => ⟨hinsert, hinsert⟩⟩

theorem idxVal_guarded {metricName : String} {labels : LabelSet}
    {next : List (Nat × Nat) → Session} (h : ∀ rows, (next rows).Guarded rules.guard held) :
    (idxVal metricName labels next).Guarded rules.guard held := by
  induction labels generalizing next with
  | nil => exact h []
  | cons kv rest ih =>
    have hval : ∀ idx val, (idxVal metricName rest fun rows => next ((idx, val) :: rows)).Guarded
        rules.guard held := fun idx val => ih fun rows => h _
    exact ⟨fun idx => ⟨hval idx, getOrCreateLabelId_guarded (hval idx)⟩,
      getOrCreateLabelKeyPos_guarded fun idx =>
        ⟨hval idx, getOrCreateLabelId_guarded (hval idx)⟩⟩

end Returns

theorem program_guarded (call : SeriesCall) :
    (program call).Guarded rules.guard fun _ => False := by
  have hkv : ∀ metricName labels,
      (getOrCreateSeriesIdForKvArray metricName labels).Guarded rules.guard fun _ => False :=
    fun metricName labels => getOrCreateMetricTableName_guarded fun _ => idxVal_guarded fun _ =>
      ⟨fun _ => trivial, nofun, fun _ => ⟨trivial, trivial⟩⟩
  cases call with
  | kv metricName labels => exact hkv metricName labels
  | jsonb label =>
    simp only [program]
    split
    · trivial
    · exact hkv _ label

/-- The series that a label set stands for has the id. -/
def Found (find : Key → Option Nat) (metricName : String) (labels : LabelSet) (id : Nat) : Prop :=
  ∃ metricId rows, find (.metric metricName) = some metricId ∧
    List.Forall₂ (FoundPair find metricName) labels rows ∧
    find (.series metricId (arrayOf rows)) = some id

theorem found_of_yields {find : Key → Option Nat} {call : SeriesCall} {id : Nat}
    (hproper : call.Proper) (h : (program call).Yields find id) :
    ∃ metricName, NamedSet metricName call.labels ∧ Found find metricName call.labels id := by
  have hkv : ∀ metricName labels, (getOrCreateSeriesIdForKvArray metricName labels).Yields find id →
      Found find metricName labels id := by
    intro metricName labels h
    obtain ⟨metricId, hmetric, h⟩ := getOrCreateMetricTableName_yields h
    obtain ⟨rows, hrows, h⟩ := idxVal_yields h
    obtain ⟨_, hseries, rfl⟩ := getOrCreate_yields h
    exact ⟨metricId, rows, hmetric, hrows, hseries⟩
  cases call with
  | kv metricName labels => exact ⟨metricName, hproper, hkv metricName labels h⟩
  | jsonb label =>
    simp only [program] at h
    split at h
    · exact h.elim
    · rename_i metricName hname
      exact ⟨metricName, namedSet_jsonMetricName hproper.1 hname, hkv metricName label h⟩

theorem Found.id_eq_iff {rows : List (Key × Nat)} {find : Key → Option Nat}
    (hrows : Numbered rows) (hkeys : (rows.map Prod.fst).Nodup)
    (hfind : ∀ key v, find key = some v → (key, v) ∈ rows) {metricName metricName' : String}
    {labels labels' : LabelSet} {id id' : Nat} (hset : NamedSet metricName labels)
    (hset' : NamedSet metricName' labels') (h : Found find metricName labels id)
    (h' : Found find metricName' labels' id') :
    id = id' ↔ ∀ kv, kv ∈ labels ↔ kv ∈ labels' := by
  have hlabels := hrows.labels hkeys
  have hpositions := hrows.positions hkeys
  have harray : ∀ {metricName labels pairs}, NamedSet metricName labels →
      List.Forall₂ (FoundPair find metricName) labels pairs →
      IsLabelArray (catalogOf rows) metricName labels (arrayOf pairs) := by
    intro metricName labels pairs hset hpairs
    refine isLabelArray_of_encodes hpositions hset.1 ⟨pairs, hpairs.imp ?_, rfl⟩
    rintro kv row ⟨hpos, hlabel⟩
    have hl : (⟨row.2, kv.1, kv.2⟩ : LabelRow) ∈ (catalogOf rows).label :=
      mem_label.mpr (hfind _ _ hlabel)
    exact ⟨position?_of_mem hpositions (hfind _ _ hpos), labelId?_of_mem hlabels hl⟩
  obtain ⟨metricId, pairs, hmetric, hpairs, hseries⟩ := h
  obtain ⟨metricId', pairs', hmetric', hpairs', hseries'⟩ := h'
  constructor
  · rintro rfl kv
    have hsame := hrows.inj _ (hfind _ _ hseries) _ (hfind _ _ hseries') rfl rfl
    simp only [Prod.mk.injEq, Key.series.injEq, and_true] at hsame
    rw [(harray hset hpairs).mem_iff hlabels, (harray hset' hpairs').mem_iff hlabels, hsame.2]
  · intro hsame
    obtain rfl := hset.metricName_eq hset' hsame
    have hid : metricId = metricId' := Option.some_inj.mp (hmetric.symm.trans hmetric')
    have hunique := (harray hset hpairs).unique (harray hset' hpairs') hsame
      (List.ne_nil_of_mem hset.2)
    rw [hid, hunique, hseries'] at hseries
    exact (Option.some_inj.mp hseries).symm

/-- However the statements of any number of sessions interleave, and whichever of them abort, two
committed calls have returned the same id exactly if they were given the same label set. -/
theorem concurrent_seriesId_eq_iff (actions : List (Action Nat SeriesCall)) :
    let s := Runs.run (step rules) State.initial actions
    ∀ first id₁ second id₂, (first, id₁) ∈ s.results → (second, id₂) ∈ s.results →
      first.Proper → second.Proper → (id₁ = id₂ ↔ first.labels.Perm second.labels) := by
  intro s first id₁ second id₂ hfirst hsecond hproper₁ hproper₂
  have hinv : Inv rules Numbered s := inv_run keeps_numbered program_guarded actions
  obtain ⟨name₁, hset₁, hfound₁⟩ := found_of_yields hproper₁ (hinv.results _ hfirst)
  obtain ⟨name₂, hset₂, hfound₂⟩ := found_of_yields hproper₂ (hinv.results _ hsecond)
  have hfind : ∀ key v, s.committed key = some v → (key, v) ∈ s.pairs := fun _ _ hv =>
    (s.visible_sublist none).subset ((State.committed_eq_some hinv.keys).mp hv)
  rw [Found.id_eq_iff hinv.pairs hinv.keys hfind hset₁ hset₂ hfound₁ hfound₂,
    List.perm_ext_iff_of_nodup (List.Nodup.of_map _ hset₁.1) (List.Nodup.of_map _ hset₂.1)]

/-- The rows, those of open transactions included, keep the unique constraints of their tables and
the numbering. -/
theorem concurrent_rows_numbered (actions : List (Action Nat SeriesCall)) :
    let s := Runs.run (step rules) State.initial actions
    (s.pairs.map Prod.fst).Nodup ∧ Numbered s.pairs :=
  have hinv : Inv rules Numbered _ := inv_run keeps_numbered program_guarded actions
  ⟨hinv.keys, hinv.pairs⟩

/-- The second session does not find the metric that the first is about to create, and waits for
the first to commit. -/
def twoSessions : List (Action Nat SeriesCall) :=
  [.start 0 (.kv "cpu" [("__name__", "cpu")]), .statement 0 1,
    .start 1 (.jsonb [("__name__", "cpu")]), .statement 1 2, .statement 0 1, .statement 1 2] ++
    List.replicate 14 (.statement 0 1) ++ [.commit 0] ++ List.replicate 5 (.statement 1 2) ++
    [.commit 1]

theorem results_twoSessions : (Runs.run (step rules) State.initial twoSessions).results =
    [(.kv "cpu" [("__name__", "cpu")], 1), (.jsonb [("__name__", "cpu")], 1)] := by
  rfl

theorem concurrent_seriesId_eq_iff_twoSessions :
    let s := Runs.run (step rules) State.initial twoSessions
    s.results.length = 2 ∧ (1 = 1 ↔ [("__name__", "cpu")].Perm [("__name__", "cpu")]) := by
  refine ⟨congrArg List.length results_twoSessions, ?_⟩
  refine concurrent_seriesId_eq_iff twoSessions (.kv "cpu" [("__name__", "cpu")]) 1
    (.jsonb [("__name__", "cpu")]) 1 ?_ ?_ ?_ ?_
  · simp [results_twoSessions]
  · simp [results_twoSessions]
  · simp [SeriesCall.Proper, NamedSet, metricNameLabelName]
  · simp [SeriesCall.Proper, metricNameLabelName]

end TimescalePrometheus.Sql.CreationSessions
