import Mathlib.Data.List.Chain
import Mathlib.Data.List.Nodup
import TimescalePrometheus.Lib.Interning
import TimescalePrometheus.Lib.LengthPrefixed

/-!
The global interner of `labels.go`. Series are told apart by the canonical text of their labels
and by the address of the one `Labels` object that the interner keeps for it. Strings are byte
strings here, since lengths, the order of names and the text itself are all about bytes.
-/

namespace TimescalePrometheus.Ingest.LabelInterner

open Lib.Interning Lib.LengthPrefixed Lib.Runs

/-- `prompb.Label`. -/
structure Label where
  name : Bytes
  value : Bytes
deriving DecidableEq

/-- The object that is interned. -/
structure Labels where
  names : List Bytes
  values : List Bytes
  metricName : Bytes
  str : Bytes
deriving DecidableEq

/-- The bytes of `__name__`. -/
def metricNameLabelName : Bytes := [95, 95, 110, 97, 109, 101, 95, 95]

/-- `comparator` of `getStr`. -/
def less (a b : Label) : Bool := decide (a.name < b.name)

/-- `sort.SliceIsSorted`. -/
def sliceIsSorted : List Label → Bool
  | a :: b :: rest => !less b a && sliceIsSorted (b :: rest)
  | _ => true

/-- `sort.Slice` keeps no order among equal names; lists with distinct names have only one
sorted arrangement. -/
def sortLabels (labels : List Label) : List Label :=
  if sliceIsSorted labels then labels else labels.mergeSort fun a b => !less b a

/-- Four bytes more for each label. -/
def expectedStrLen (labels : List Label) : Nat :=
  labels.foldl (fun n l => n + (l.name.length + l.value.length)) (labels.length * 4)

def maxUint16 : Nat := 65535

/-- Name and value, each after its length. -/
def writeLabel (builder : Bytes) (l : Label) : Bytes :=
  builder ++ field l.name ++ field l.value

/-- The text, and the labels in the order in which the function leaves its argument. -/
def getStr (labels : List Label) : Except String (Bytes × List Label) :=
  if labels.length = 0 then
    .ok ([], labels)
  else
    let labels := sortLabels labels
    if maxUint16 < expectedStrLen labels then
      .error ("series too long, combined series has length " ++ toString (expectedStrLen labels) ++
        ", max length " ++ toString maxUint16)
    else
      .ok (labels.foldl writeLabel [], labels)

/-- The object that a call builds when the interner has none. -/
def newLabels (str : Bytes) (labelPairs : List Label) : Labels :=
  { str := str
    names := labelPairs.map Label.name
    values := labelPairs.map Label.value
    metricName := labelPairs.foldl
      (fun metricName l => if l.name = metricNameLabelName then l.value else metricName) [] }

/-- A list of labels with pairwise distinct names. -/
structure LabelPairs where
  labels : List Label
  distinct : (labels.map Label.name).Nodup

/-- The key that a call asks the interner for, and the object it offers on a miss. The call
itself is `GetLabels` and, on a miss, `SetLabels`: the two steps of the machine. -/
def labelProtosToLabels (labelPairs : LabelPairs) : Except String (Bytes × Labels) :=
  match getStr labelPairs.labels with
  | .error err => .error err
  | .ok (str, sorted) => .ok (str, newLabels str sorted)

abbrev Interner := State LabelPairs String Bytes Labels

def empty : Interner := initial LabelPairs String Bytes Labels

def step : Interner → Action LabelPairs → Interner :=
  Lib.Interning.step labelProtosToLabels

theorem sortLabels_perm (labels : List Label) : (sortLabels labels).Perm labels := by
  unfold sortLabels
  split
  · exact List.Perm.refl labels
  · exact List.mergeSort_perm labels _

theorem not_less_iff (a b : Label) : (!less b a) = true ↔ a.name ≤ b.name := by
  simp [less, List.not_lt]

theorem pairwise_of_sliceIsSorted {labels : List Label} (h : sliceIsSorted labels = true) :
    labels.Pairwise fun a b => a.name ≤ b.name := by
  have : Trans (fun a b : Label => a.name ≤ b.name) (fun a b : Label => a.name ≤ b.name)
      (fun a b : Label => a.name ≤ b.name) := ⟨List.le_trans⟩
  rw [← List.isChain_iff_pairwise]
  induction labels with
  | nil => exact List.isChain_nil
  | cons a labels ih =>
    cases labels with
    | nil => exact List.isChain_singleton a
    | cons b labels =>
      simp only [sliceIsSorted, Bool.and_eq_true, not_less_iff] at h
      exact List.isChain_cons_cons.mpr ⟨h.1, ih h.2⟩

theorem pairwise_mergeSort_less {α : Type} (label : α → Label) (l : List α) :
    (l.mergeSort fun a b => !less (label b) (label a)).Pairwise
      fun a b => (label a).name ≤ (label b).name := by
  have hsorted : (l.mergeSort fun a b => !less (label b) (label a)).Pairwise
      fun a b => (!less (label b) (label a)) = true := by
    refine List.pairwise_mergeSort ?_ ?_ l
    · simp only [not_less_iff]
      exact fun a b c => List.le_trans
    · simp only [Bool.or_eq_true, not_less_iff]
      exact fun a b => List.le_total (label a).name (label b).name
  exact hsorted.imp fun h => (not_less_iff _ _).mp h

theorem sortLabels_sorted (labels : List Label) :
    (sortLabels labels).Pairwise fun a b => a.name ≤ b.name := by
  unfold sortLabels
  split
  · rename_i h
    exact pairwise_of_sliceIsSorted h
  · exact pairwise_mergeSort_less id labels

theorem foldl_expectedStrLen (labels : List Label) (n : Nat) :
    n ≤ labels.foldl (fun n l => n + (l.name.length + l.value.length)) n ∧
      ∀ l ∈ labels, l.name.length + l.value.length ≤
        labels.foldl (fun n l => n + (l.name.length + l.value.length)) n := by
  induction labels generalizing n with
  | nil => simp
  | cons l labels ih =>
    obtain ⟨hn, hall⟩ := ih (n + (l.name.length + l.value.length))
    simp only [List.foldl_cons, List.mem_cons, forall_eq_or_imp]
    exact ⟨by omega, by omega, hall⟩

theorem fits_of_expectedStrLen {labels : List Label} (h : expectedStrLen labels ≤ maxUint16) :
    ∀ l ∈ labels, Fits l.name ∧ Fits l.value := by
  intro l hl
  have hle := (foldl_expectedStrLen labels (labels.length * 4)).2 l hl
  unfold expectedStrLen maxUint16 at h
  unfold Fits
  omega

def fieldsOf (labels : List Label) : List Bytes :=
  labels.flatMap fun l => [l.name, l.value]

theorem fieldsOf_cons (l : Label) (labels : List Label) :
    fieldsOf (l :: labels) = l.name :: l.value :: fieldsOf labels := rfl

theorem fieldsOf_injective {labels labels' : List Label}
    (h : fieldsOf labels = fieldsOf labels') : labels = labels' := by
  induction labels generalizing labels' with
  | nil =>
    cases labels' with
    | nil => rfl
    | cons l labels' => cases h
  | cons l labels ih =>
    cases labels' with
    | nil => cases h
    | cons l' labels' =>
      simp only [fieldsOf_cons, List.cons.injEq] at h
      obtain ⟨hname, hvalue, hrest⟩ := h
      rw [ih hrest, show l = l' by cases l; cases l'; simp_all]

theorem foldl_writeLabel (labels : List Label) (builder : Bytes) :
    labels.foldl writeLabel builder = builder ++ (fieldsOf labels).flatMap field := by
  induction labels generalizing builder with
  | nil => simp [fieldsOf]
  | cons l labels ih =>
    rw [List.foldl_cons, ih]
    simp [writeLabel, fieldsOf]

/-- What a successful `getStr` returns: the labels in the order of their names, and their names
and values as fields of the text, none of them cut. -/
structure Canonical (labels : List Label) (str : Bytes) (sorted : List Label) : Prop where
  perm : sorted.Perm labels
  ordered : sorted.Pairwise fun a b => a.name ≤ b.name
  fits : ∀ b ∈ fieldsOf sorted, Fits b
  str_eq : str = (fieldsOf sorted).flatMap field

theorem canonical_foldl_writeLabel {labels sorted : List Label} (hperm : sorted.Perm labels)
    (hordered : sorted.Pairwise fun a b => a.name ≤ b.name)
    (hlen : expectedStrLen sorted ≤ maxUint16) :
    Canonical labels (sorted.foldl writeLabel []) sorted := by
  refine ⟨hperm, hordered, ?_, foldl_writeLabel _ []⟩
  intro b hb
  obtain ⟨l, hl, hb⟩ := List.mem_flatMap.mp hb
  have hfits := fits_of_expectedStrLen hlen l hl
  simp only [List.mem_cons, List.not_mem_nil, or_false] at hb
  rcases hb with rfl | rfl
  · exact hfits.1
  · exact hfits.2

theorem canonical_of_getStr {labels sorted : List Label} {str : Bytes}
    (h : getStr labels = .ok (str, sorted)) : Canonical labels str sorted := by
  unfold getStr at h
  split at h
  · rename_i hlen
    cases h
    cases List.eq_nil_of_length_eq_zero hlen
    exact ⟨List.Perm.refl _, List.Pairwise.nil, by simp [fieldsOf], rfl⟩
  · simp only at h
    split at h
    · cases h
    · rename_i hlen
      cases h
      exact canonical_foldl_writeLabel (sortLabels_perm labels) (sortLabels_sorted labels)
        (Nat.not_lt.mp hlen)

theorem Canonical.sorted_injective {labels labels' sorted sorted' : List Label} {str : Bytes}
    (h : Canonical labels str sorted) (h' : Canonical labels' str sorted') :
    sorted = sorted' :=
  fieldsOf_injective (flatMap_field_injective h.fits h'.fits (h.str_eq.symm.trans h'.str_eq))

theorem eq_of_name_eq {labels : List Label} (h : (labels.map Label.name).Nodup) {a b : Label}
    (ha : a ∈ labels) (hb : b ∈ labels) (hname : a.name = b.name) : a = b :=
  List.inj_on_of_nodup_map h ha hb hname

theorem Canonical.sorted_of_perm {labels labels' sorted sorted' : List Label} {str str' : Bytes}
    (h : Canonical labels str sorted) (h' : Canonical labels' str' sorted')
    (hnames : (labels.map Label.name).Nodup) (hperm : labels.Perm labels') :
    sorted = sorted' := by
  refine List.Perm.eq_of_pairwise ?_ h.ordered h'.ordered
    (h.perm.trans (hperm.trans h'.perm.symm))
  intro a b ha hb hab hba
  have ha := h.perm.subset ha
  have hb := hperm.symm.subset (h'.perm.subset hb)
  exact eq_of_name_eq hnames ha hb (List.le_antisymm hab hba)

theorem Canonical.str_eq_iff {l l' : LabelPairs} {sorted sorted' : List Label} {str str' : Bytes}
    (h : Canonical l.labels str sorted) (h' : Canonical l'.labels str' sorted') :
    str = str' ↔ ∀ label, label ∈ l.labels ↔ label ∈ l'.labels := by
  rw [← List.perm_ext_iff_of_nodup (List.Nodup.of_map _ l.distinct)
    (List.Nodup.of_map _ l'.distinct)]
  constructor
  · rintro rfl
    have hsorted := h.sorted_injective h'
    exact h.perm.symm.trans (hsorted ▸ h'.perm)
  · intro hperm
    rw [h.str_eq, h'.str_eq, h.sorted_of_perm h' l.distinct hperm]

/-- Two lengths of two bytes for each label, and the bytes of all names and values. -/
def encodedLength (labels : List Label) : Nat :=
  (labels.map fun l => 4 + (l.name.length + l.value.length)).sum

theorem expectedStrLen_eq (labels : List Label) : expectedStrLen labels = encodedLength labels := by
  have hfold : ∀ n, labels.foldl (fun n l => n + (l.name.length + l.value.length)) n +
      labels.length * 4 = n + encodedLength labels := by
    unfold encodedLength
    induction labels with
    | nil => intro n; simp
    | cons l labels ih =>
      intro n
      have hrest := ih (n + (l.name.length + l.value.length))
      simp only [List.foldl_cons, List.length_cons, List.map_cons, List.sum_cons]
      omega
  have htotal := hfold (labels.length * 4)
  unfold expectedStrLen
  omega

theorem encodedLength_perm {labels labels' : List Label} (h : labels.Perm labels') :
    encodedLength labels = encodedLength labels' :=
  (h.map _).sum_nat

theorem Canonical.length_str {labels sorted : List Label} {str : Bytes}
    (h : Canonical labels str sorted) : str.length = encodedLength labels := by
  have hfields : ∀ l : List Label, ((fieldsOf l).flatMap field).length = encodedLength l := by
    intro l
    induction l with
    | nil => rfl
    | cons label l ih =>
      rw [length_flatMap_field] at ih ⊢
      simp only [fieldsOf_cons, List.length_cons, List.map_cons, List.sum_cons,
        encodedLength] at ih ⊢
      omega
  rw [h.str_eq, hfields, encodedLength_perm h.perm]

theorem getStr_eq_error_iff (labels : List Label) :
    (∃ err, getStr labels = .error err) ↔ maxUint16 < encodedLength labels := by
  unfold getStr
  split
  · rename_i hlen
    cases List.eq_nil_of_length_eq_zero hlen
    exact iff_of_false (fun ⟨_, h⟩ => nomatch h) (by decide)
  · simp only [expectedStrLen_eq, encodedLength_perm (sortLabels_perm labels)]
    split
    · rename_i hlen
      exact iff_of_true ⟨_, rfl⟩ hlen
    · rename_i hlen
      exact iff_of_false (fun ⟨_, h⟩ => nomatch h) hlen

/-- `strings.Compare` of the texts. -/
def Labels.compare (l b : Labels) : Int :=
  if l.str = b.str then 0 else if l.str < b.str then -1 else 1

/-- `Equal` compares the texts. -/
def Labels.equal (l b : Labels) : Bool := l.str = b.str

theorem Labels.compare_eq_zero_iff (l b : Labels) : l.compare b = 0 ↔ l.equal b = true := by
  unfold Labels.compare Labels.equal
  split
  · simp [*]
  · split <;> simp [*]

/-- `getStr` rejects exactly the lists whose text would be too long. The text of any other list
is its names and values, each after its true length, and tells lists with distinct names apart
up to their order. -/
theorem getStr_encodes :
    (∀ labels, (∃ err, getStr labels = .error err) ↔ 65535 < encodedLength labels) ∧
    (∀ labels str sorted, getStr labels = .ok (str, sorted) →
      sorted.Perm labels ∧ Framed (fieldsOf sorted) str ∧ str.length = encodedLength labels) ∧
    ∀ (a b : LabelPairs) (str str' : Bytes) (sorted sorted' : List Label),
      getStr a.labels = .ok (str, sorted) → getStr b.labels = .ok (str', sorted') →
        (str = str' ↔ ∀ label, label ∈ a.labels ↔ label ∈ b.labels) ∧
        ((newLabels str sorted).equal (newLabels str' sorted') = true ↔
          ∀ label, label ∈ a.labels ↔ label ∈ b.labels) ∧
        ((newLabels str sorted).compare (newLabels str' sorted') = 0 ↔
          ∀ label, label ∈ a.labels ↔ label ∈ b.labels) := by
  refine ⟨getStr_eq_error_iff, ?_, ?_⟩
  · intro labels str sorted h
    have hcanonical := canonical_of_getStr h
    refine ⟨hcanonical.perm, ?_, hcanonical.length_str⟩
    rw [hcanonical.str_eq]
    exact framed_flatMap_field hcanonical.fits
  · intro a b str str' sorted sorted' ha hb
    have hstr := (canonical_of_getStr ha).str_eq_iff (canonical_of_getStr hb)
    have hequal : (newLabels str sorted).equal (newLabels str' sorted') = true ↔
        ∀ label, label ∈ a.labels ↔ label ∈ b.labels := by
      rw [← hstr]
      exact decide_eq_true_iff
    rw [Labels.compare_eq_zero_iff]
    exact ⟨hstr, hequal, hequal⟩

def metricOnly : LabelPairs := ⟨[⟨metricNameLabelName, [109]⟩], by decide⟩

theorem getStr_encodes_metricOnly : ∃ str sorted,
    getStr metricOnly.labels = .ok (str, sorted) ∧ Framed (fieldsOf sorted) str := by
  have h : getStr metricOnly.labels = .ok (_, _) := rfl
  exact ⟨_, _, h, (getStr_encodes.2.1 _ _ _ h).2.1⟩

/-- The value of `__name__`, or the empty string. -/
def metricNameOf (labels : List Label) : Bytes :=
  ((labels.find? fun l => l.name = metricNameLabelName).map Label.value).getD []

/-- The object describes the labels of the call. -/
structure Describes (object : Labels) (labels : List Label) : Prop where
  names_sorted : object.names.Pairwise (· < ·)
  aligned : object.names.length = object.values.length
  pairs : (object.names.zip object.values).Perm (labels.map fun l => (l.name, l.value))
  metricName : object.metricName = metricNameOf labels
  str : ∃ sorted, getStr labels = .ok (object.str, sorted)

theorem foldl_metricName_of_ne {labels : List Label} (metricName : Bytes)
    (h : ∀ l ∈ labels, l.name ≠ metricNameLabelName) :
    labels.foldl (fun metricName l =>
      if l.name = metricNameLabelName then l.value else metricName) metricName = metricName := by
  induction labels with
  | nil => rfl
  | cons l labels ih =>
    rw [List.foldl_cons, if_neg (h l (by simp))]
    exact ih fun l hl => h l (by simp [hl])

theorem foldl_metricName_of_mem {labels : List Label} (hnames : (labels.map Label.name).Nodup)
    {l : Label} (hl : l ∈ labels) (hname : l.name = metricNameLabelName) (metricName : Bytes) :
    labels.foldl (fun metricName l =>
      if l.name = metricNameLabelName then l.value else metricName) metricName = l.value := by
  induction labels generalizing metricName with
  | nil => cases hl
  | cons head labels ih =>
    rw [List.map_cons, List.nodup_cons] at hnames
    rw [List.foldl_cons]
    rcases List.mem_cons.mp hl with rfl | hl
    · rw [if_pos hname]
      refine foldl_metricName_of_ne l.value fun l' hl' hname' => hnames.1 ?_
      rw [hname, ← hname']
      exact List.mem_map_of_mem hl'
    · exact ih hnames.2 hl _

theorem newLabels_metricName {labels sorted : List Label} (str : Bytes)
    (hperm : sorted.Perm labels) (hnames : (labels.map Label.name).Nodup) :
    (newLabels str sorted).metricName = metricNameOf labels := by
  unfold newLabels metricNameOf
  cases hfind : labels.find? fun l => l.name = metricNameLabelName with
  | none =>
    refine foldl_metricName_of_ne [] fun l hl => ?_
    simpa using List.find?_eq_none.mp hfind l (hperm.subset hl)
  | some l =>
    have hmem := hperm.symm.subset (List.mem_of_find?_eq_some hfind)
    have hname : l.name = metricNameLabelName := by simpa using List.find?_some hfind
    exact foldl_metricName_of_mem ((hperm.map _).nodup_iff.mpr hnames) hmem hname []

theorem describes_newLabels {l : LabelPairs} {str : Bytes} {sorted : List Label}
    (h : getStr l.labels = .ok (str, sorted)) : Describes (newLabels str sorted) l.labels := by
  have hcanonical := canonical_of_getStr h
  have hnodup : (sorted.map Label.name).Nodup :=
    (hcanonical.perm.map _).nodup_iff.mpr l.distinct
  refine ⟨?_, ?_, ?_, newLabels_metricName str hcanonical.perm l.distinct, sorted, h⟩
  · have hle : (sorted.map Label.name).Pairwise (· ≤ ·) :=
      List.pairwise_map.mpr hcanonical.ordered
    exact (hle.and hnodup).imp fun h => Std.lt_of_le_of_ne h.1 h.2
  · simp [newLabels]
  · rw [show (newLabels str sorted).names.zip (newLabels str sorted).values =
        sorted.map fun l => (l.name, l.value) by simp [newLabels, List.zip_map']]
    exact hcanonical.perm.map _

theorem labelProtosToLabels_eq_ok {l : LabelPairs} {str : Bytes} {object : Labels}
    (h : labelProtosToLabels l = .ok (str, object)) :
    ∃ sorted, getStr l.labels = .ok (str, sorted) ∧ object = newLabels str sorted := by
  unfold labelProtosToLabels at h
  split at h
  · cases h
  · rename_i str sorted hstr
    cases h
    exact ⟨sorted, hstr, rfl⟩

/-- In every state that interleaved calls reach, two calls have the same object exactly when
their label sets are equal, and the object of a call describes its labels. -/
theorem interning_consistent (actions : List (Action LabelPairs)) :
    let s := run step empty actions
    (∀ c c' l l' r r', s.calls c = some (.returned l r) → s.calls c' = some (.returned l' r') →
      (r = r' ↔ ∀ label, label ∈ l.labels ↔ label ∈ l'.labels)) ∧
    ∀ c l r, s.calls c = some (.returned l r) →
      ∃ object, s.heap[r]? = some object ∧ Describes object l.labels := by
  intro s
  have hs : Consistent labelProtosToLabels s := consistent_run actions
  constructor
  · intro c c' l l' r r' hcall hcall'
    obtain ⟨str, object, hrequest, _⟩ := hs.holds_of_returned hcall
    obtain ⟨str', object', hrequest', _⟩ := hs.holds_of_returned hcall'
    obtain ⟨sorted, hstr, _⟩ := labelProtosToLabels_eq_ok hrequest
    obtain ⟨sorted', hstr', _⟩ := labelProtosToLabels_eq_ok hrequest'
    have hkey := hs.same_object_iff Labels.str
      (fun a key object h => by obtain ⟨_, _, rfl⟩ := labelProtosToLabels_eq_ok h; rfl)
      hcall hcall' hrequest hrequest'
    exact hkey.trans ((canonical_of_getStr hstr).str_eq_iff (canonical_of_getStr hstr'))
  · intro c l r hcall
    obtain ⟨str, object, hrequest, l', object', hrequest', hget⟩ := hs.holds_of_returned hcall
    obtain ⟨sorted, hstr, _⟩ := labelProtosToLabels_eq_ok hrequest
    obtain ⟨sorted', hstr', rfl⟩ := labelProtosToLabels_eq_ok hrequest'
    -- the object may come from another call with the same text
    have hsorted : sorted = sorted' :=
      (canonical_of_getStr hstr).sorted_injective (canonical_of_getStr hstr')
    exact ⟨_, hget, hsorted ▸ describes_newLabels hstr⟩

-- Two calls miss at the same time; the second one to store gets the object of the first.
theorem interning_consistent_race :
    let s := run step empty
      [.load 0 metricOnly, .load 1 metricOnly, .loadOrStore 1, .loadOrStore 0]
    s.calls 0 = some (.returned metricOnly 1) ∧
      ∃ object, s.heap[1]? = some object ∧ Describes object metricOnly.labels := by
  intro s
  have hcall : s.calls 0 = some (.returned metricOnly 1) := by
    obtain ⟨⟨str, object⟩, hrequest⟩ : ∃ request, labelProtosToLabels metricOnly = .ok request :=
      ⟨_, rfl⟩
    simp [s, step, empty, initial, Lib.Interning.step, load, loadOrStore, State.setCall, hrequest]
  exact ⟨hcall, (interning_consistent _).2 0 _ _ hcall⟩

end TimescalePrometheus.Ingest.LabelInterner
