import TimescalePrometheus.Ingest.WriteRequests
import TimescalePrometheus.Lib.Grouping

/-!
What `parseData` makes of the series of a write request: the samples of each series under its
metric, with the labels object that the interner has for the series.

Nothing is assumed about the label lists. Names may repeat, and then the arrangement that
`sort.Slice` leaves is not determined by the list as a set, so that the algorithm is a
parameter. Other requests use the interner at the same time; it is any state that calls of it
reach, at each access.
-/

namespace TimescalePrometheus.Ingest.ParseData

open LabelInterner (Labels newLabels getStr maxUint16 encodedLength metricNameLabelName)
open WriteRequests (Label Sample TimeSeries ParseError)
open Lib.Grouping Lib.Interning
open Lib.LengthPrefixed (Bytes)
open Lib.Runs

/-- `sort.Slice` with the comparator of `getStr`. Labels with equal names end in some order. -/
structure SliceSort where
  sort : List Label → List Label
  perm : ∀ labels, (sort labels).Perm labels
  ordered : ∀ labels, (sort labels).Pairwise fun a b => a.name ≤ b.name

/-- Sorted lists are left alone. -/
def SliceSort.sortLabels (S : SliceSort) (labels : List Label) : List Label :=
  if LabelInterner.sliceIsSorted (labels.map Label.toPair) then labels else S.sort labels

/-- The key that a call asks for, and the object it offers on a miss. -/
def request (labelPairs : List LabelInterner.Label) : Except String (Bytes × Labels) :=
  match getStr labelPairs with
  | .error err => .error err
  | .ok (str, sorted) => .ok (str, newLabels str sorted)

/-- The interner between two steps of its calls. -/
structure Interner where
  state : State (List LabelInterner.Label) String Bytes Labels
  consistent : Consistent request state

/-- Every interleaving of calls leaves such a state. -/
def Interner.ofRun (actions : List (Action (List LabelInterner.Label))) : Interner :=
  ⟨run (step request) (initial _ _ _ _) actions, consistent_run actions⟩

def Interner.getLabels (interner : Interner) (str : Bytes) : Option Labels :=
  (interner.state.table str).bind fun r => interner.state.heap[r]?

/-- `LoadOrStore`: the object that is kept for the text. -/
def Interner.setLabels (interner : Interner) (str : Bytes) (lset : Labels) : Labels :=
  (interner.getLabels str).getD lset

/-- The samples of a series, `samplesInfo`. -/
structure SamplesInfo where
  labels : Labels
  seriesID : Int
  samples : List Sample
  deriving DecidableEq

/-- The argument as the call leaves it, and what it returns. The interner is looked at twice,
and may have changed in between. -/
def labelProtosToLabels (S : SliceSort) (atLoad atStore : Interner) (labelPairs : List Label) :
    List Label × Except ParseError (Labels × Bytes) :=
  let labelPairs := S.sortLabels labelPairs
  match getStr (labelPairs.map Label.toPair) with
  | .error text => (labelPairs, .error (.label text))
  | .ok (str, pairs) =>
    let labels :=
      match atLoad.getLabels str with
      | some labels => labels
      | none => atStore.setLabels str (newLabels str pairs)
    (labelPairs, .ok (labels, labels.metricName))

/-- What `parseData` leaves and returns. -/
structure Parsed where
  /-- The series as the loop leaves them. -/
  tts : List TimeSeries
  dataSamples : Except ParseError (Groups Bytes SamplesInfo)
  rows : Nat

section Loop

variable (S : SliceSort) (interners : Nat → Interner × Interner)

/-- The loop from series number `i` on. -/
def parseEach (i : Nat) (dataSamples : Groups Bytes SamplesInfo) (rows : Nat) :
    List TimeSeries → Parsed
  | [] => ⟨[], .ok dataSamples, rows⟩
  | t :: tts =>
    if t.samples.elems.length = 0 then
      let rest := parseEach (i + 1) dataSamples rows tts
      { rest with tts := t :: rest.tts }
    else
      let (elems, result) :=
        labelProtosToLabels S (interners i).1 (interners i).2 t.labels.elems
      let t := { t with labels := { t.labels with elems } }
      match result with
      | .error err => ⟨t :: tts, .error err, rows⟩
      | .ok (seriesLabels, metricName) =>
        if metricName = [] then ⟨t :: tts, .error .noMetricName, rows⟩
        else
          let sample : SamplesInfo := ⟨seriesLabels, -1, t.samples.elems⟩
          let rest := parseEach (i + 1) (dataSamples.append metricName sample)
            (rows + t.samples.elems.length) tts
          { rest with tts := { t with samples := {} } :: rest.tts }

/-- If there is no error, the request is then finished and goes to the pool. -/
def parseData (tts : List TimeSeries) : Parsed :=
  parseEach S interners 0 (.empty _ _) 0 tts

end Loop

/-- The count that `InsertData` makes of the map, in the order in which it ranges over it. -/
def numRows (rows : List (Bytes × List SamplesInfo)) : Nat :=
  rows.foldl (fun n entry => entry.2.foldl (fun n si => n + si.samples.length) n) 0

/-- The errors of `Ingest`. -/
inductive IngestError
  | parse (err : ParseError)
  | insert (text : String)
  | incomplete (text : String)

/-- `insertNewData` is what the inserter answers. -/
def ingest (S : SliceSort) (interners : Nat → Interner × Interner)
    (insertNewData : Groups Bytes SamplesInfo → Nat × Option String) (tts : List TimeSeries) :
    Nat × Option IngestError :=
  let parsed := parseData S interners tts
  match parsed.dataSamples with
  | .error err => (0, some (.parse err))
  | .ok data =>
    match insertNewData data with
    | (rowsInserted, some err) => (rowsInserted, some (.insert err))
    | (rowsInserted, none) =>
      if rowsInserted ≠ parsed.rows then
        (rowsInserted, some (.incomplete ("Failed to insert all the data! Expected: " ++
          toString parsed.rows ++ ", Got: " ++ toString rowsInserted)))
      else (rowsInserted, none)

namespace SliceSort

variable (S : SliceSort)

theorem sortLabels_perm (labels : List Label) : (S.sortLabels labels).Perm labels := by
  unfold sortLabels
  split
  · exact List.Perm.refl labels
  · exact S.perm labels

/-- The names and values of a series in the order in which the interner has them. -/
def pairs (labels : List Label) : List LabelInterner.Label :=
  (S.sortLabels labels).map Label.toPair

theorem pairs_perm (labels : List Label) : (S.pairs labels).Perm (labels.map Label.toPair) :=
  (S.sortLabels_perm labels).map _

theorem pairs_sorted (labels : List Label) :
    (S.pairs labels).Pairwise fun a b => a.name ≤ b.name := by
  unfold pairs sortLabels
  split
  · rename_i h
    exact LabelInterner.pairwise_of_sliceIsSorted h
  · rw [List.pairwise_map]
    exact S.ordered labels

/-- The object that a series gets. -/
def seriesLabels (labels : List Label) : Labels :=
  newLabels ((S.pairs labels).foldl LabelInterner.writeLabel []) (S.pairs labels)

end SliceSort

theorem sliceIsSorted_of_pairwise {labels : List LabelInterner.Label}
    (h : labels.Pairwise fun a b => a.name ≤ b.name) :
    LabelInterner.sliceIsSorted labels = true := by
  induction labels with
  | nil => rfl
  | cons a labels ih =>
    rw [List.pairwise_cons] at h
    cases labels with
    | nil => rfl
    | cons b labels =>
      simp only [LabelInterner.sliceIsSorted, Bool.and_eq_true, LabelInterner.not_less_iff]
      exact ⟨h.1 b (by simp), ih h.2⟩

theorem getStr_of_sorted {labels : List LabelInterner.Label}
    (hsorted : labels.Pairwise fun a b => a.name ≤ b.name)
    (hlen : encodedLength labels ≤ maxUint16) :
    getStr labels = .ok (labels.foldl LabelInterner.writeLabel [], labels) := by
  unfold getStr
  split
  · rename_i hnil
    cases List.eq_nil_of_length_eq_zero hnil
    rfl
  · simp only [LabelInterner.sortLabels, sliceIsSorted_of_pairwise hsorted, if_true,
      LabelInterner.expectedStrLen_eq, if_neg (Nat.not_lt.mpr hlen)]

theorem Interner.getLabels_eq {interner : Interner} {str : Bytes}
    {labels sorted : List LabelInterner.Label} {object : Labels}
    (hstr : getStr labels = .ok (str, sorted)) (h : interner.getLabels str = some object) :
    object = newLabels str sorted := by
  obtain ⟨r, hentry, hget⟩ := Option.bind_eq_some_iff.mp h
  obtain ⟨labels', object', hrequest, hget'⟩ := interner.consistent.table str r hentry
  cases hget.symm.trans hget'
  unfold request at hrequest
  split at hrequest
  · cases hrequest
  · rename_i str' sorted' hstr'
    cases hrequest
    have hsorted := (LabelInterner.canonical_of_getStr hstr).sorted_injective
      (LabelInterner.canonical_of_getStr hstr')
    rw [hsorted]

theorem labelProtosToLabels_eq (S : SliceSort) (atLoad atStore : Interner)
    (labelPairs : List Label) :
    labelProtosToLabels S atLoad atStore labelPairs =
      (S.sortLabels labelPairs,
        match getStr (S.pairs labelPairs) with
        | .error text => .error (.label text)
        | .ok (str, sorted) => .ok (newLabels str sorted, (newLabels str sorted).metricName)) := by
  unfold labelProtosToLabels
  simp only [← SliceSort.pairs.eq_1]
  cases hstr : getStr (S.pairs labelPairs) with
  | error text => rfl
  | ok result =>
    obtain ⟨str, sorted⟩ := result
    dsimp only
    cases hload : atLoad.getLabels str with
    | some object => rw [Interner.getLabels_eq hstr hload]
    | none =>
      unfold Interner.setLabels
      cases hstore : atStore.getLabels str with
      | some object => rw [Interner.getLabels_eq hstr hstore]; rfl
      | none => rfl

theorem labelProtosToLabels_of_le (S : SliceSort) (atLoad atStore : Interner)
    {labelPairs : List Label} (hlen : encodedLength (labelPairs.map Label.toPair) ≤ maxUint16) :
    labelProtosToLabels S atLoad atStore labelPairs =
      (S.sortLabels labelPairs,
        .ok (S.seriesLabels labelPairs, (S.seriesLabels labelPairs).metricName)) := by
  rw [← LabelInterner.encodedLength_perm (S.pairs_perm labelPairs)] at hlen
  rw [labelProtosToLabels_eq, getStr_of_sorted (S.pairs_sorted labelPairs) hlen]
  rfl

theorem labelProtosToLabels_of_lt (S : SliceSort) (atLoad atStore : Interner)
    {labelPairs : List Label} (hlen : maxUint16 < encodedLength (labelPairs.map Label.toPair)) :
    ∃ err, labelProtosToLabels S atLoad atStore labelPairs =
      (S.sortLabels labelPairs, .error err) := by
  rw [← LabelInterner.encodedLength_perm (S.pairs_perm labelPairs)] at hlen
  obtain ⟨text, htext⟩ := (LabelInterner.getStr_eq_error_iff _).mpr hlen
  refine ⟨.label text, ?_⟩
  rw [labelProtosToLabels_eq, htext]

/-- The object has the names and values of the list, and as its metric the value of a label
`__name__` if there is one. -/
structure OwnLabels (labels : List Label) (object : Labels) : Prop where
  aligned : object.names.length = object.values.length
  ordered : object.names.Pairwise (· ≤ ·)
  pairs : (object.names.zip object.values).Perm (labels.map fun l => (l.name, l.value))
  metricName :
    (∃ l ∈ labels, l.name = metricNameLabelName ∧ object.metricName = l.value) ∨
      (∀ l ∈ labels, l.name ≠ metricNameLabelName) ∧ object.metricName = []

theorem foldl_metricName (labels : List LabelInterner.Label) (metricName : Bytes) :
    let found := labels.foldl (fun metricName l =>
      if l.name = metricNameLabelName then l.value else metricName) metricName
    (∃ l ∈ labels, l.name = metricNameLabelName ∧ found = l.value) ∨
      (∀ l ∈ labels, l.name ≠ metricNameLabelName) ∧ found = metricName := by
  induction labels generalizing metricName with
  | nil => simp
  | cons l labels ih =>
    simp only [List.foldl_cons, List.exists_mem_cons_iff, List.forall_mem_cons]
    rcases ih (if l.name = metricNameLabelName then l.value else metricName) with hrest | hrest
    · exact .inl (.inr hrest)
    · by_cases hname : l.name = metricNameLabelName
      · rw [if_pos hname] at hrest ⊢
        exact .inl (.inl ⟨hname, hrest.2⟩)
      · rw [if_neg hname] at hrest ⊢
        exact .inr ⟨⟨hname, hrest.1⟩, hrest.2⟩

theorem ownLabels_seriesLabels (S : SliceSort) (labels : List Label) :
    OwnLabels labels (S.seriesLabels labels) := by
  have hmem : ∀ l, l ∈ S.pairs labels ↔ ∃ l' ∈ labels, l'.toPair = l := fun l => by
    rw [(S.pairs_perm labels).mem_iff, List.mem_map]
  refine ⟨?_, List.pairwise_map.mpr (S.pairs_sorted labels), ?_, ?_⟩
  · simp [SliceSort.seriesLabels, newLabels]
  · have hzip : (S.seriesLabels labels).names.zip (S.seriesLabels labels).values =
        (S.pairs labels).map fun l => (l.name, l.value) := by
      simp [SliceSort.seriesLabels, newLabels, List.zip_map']
    rw [hzip]
    simpa [Function.comp_def, Label.toPair] using
      (S.pairs_perm labels).map fun l => (l.name, l.value)
  · rcases foldl_metricName (S.pairs labels) [] with ⟨l, hl, hname, hvalue⟩ | ⟨hne, hvalue⟩
    · obtain ⟨l', hl', rfl⟩ := (hmem l).mp hl
      exact .inl ⟨l', hl', hname, hvalue⟩
    · exact .inr ⟨fun l hl => hne l.toPair ((hmem _).mpr ⟨l, hl, rfl⟩), hvalue⟩

theorem seriesLabels_of_distinct (S : SliceSort) {labels : List Label}
    {l : LabelInterner.LabelPairs} (hl : l.labels = labels.map Label.toPair) {str : Bytes}
    {object : Labels} (h : LabelInterner.labelProtosToLabels l = .ok (str, object)) :
    S.seriesLabels labels = object := by
  obtain ⟨sorted, hstr, rfl⟩ := LabelInterner.labelProtosToLabels_eq_ok h
  have hcanonical := LabelInterner.canonical_of_getStr hstr
  have hlen : ¬maxUint16 < encodedLength l.labels := fun hlong => by
    obtain ⟨err, herr⟩ := (LabelInterner.getStr_eq_error_iff _).mpr hlong
    rw [hstr] at herr
    cases herr
  have hperm : (S.pairs labels).Perm l.labels := hl ▸ S.pairs_perm labels
  have hown := LabelInterner.canonical_foldl_writeLabel hperm (S.pairs_sorted labels) (by
    rw [LabelInterner.expectedStrLen_eq, LabelInterner.encodedLength_perm hperm]
    exact Nat.not_lt.mp hlen)
  have hsorted := hown.sorted_of_perm hcanonical l.distinct (List.Perm.refl _)
  rw [SliceSort.seriesLabels, hown.str_eq, hsorted, ← hcanonical.str_eq]

section Loop

variable (S : SliceSort) (interners : Nat → Interner × Interner)

/-- What the map holds of a series. -/
def info (t : TimeSeries) : SamplesInfo := ⟨S.seriesLabels t.labels.elems, -1, t.samples.elems⟩

/-- The metric of a series. -/
def metricName (t : TimeSeries) : Bytes := (S.seriesLabels t.labels.elems).metricName

/-- The loop skips all other series. -/
def HasSamples (t : TimeSeries) : Prop := t.samples.elems ≠ []

instance : DecidablePred HasSamples := fun t => inferInstanceAs (Decidable (t.samples.elems ≠ []))

theorem HasSamples.length_ne_zero {t : TimeSeries} (h : HasSamples t) :
    t.samples.elems.length ≠ 0 :=
  fun hzero => h (List.eq_nil_of_length_eq_zero hzero)

/-- The series is one that the loop fails at. -/
def Rejected (t : TimeSeries) : Prop :=
  HasSamples t ∧
    (metricName S t = [] ∨ maxUint16 < encodedLength (t.labels.elems.map Label.toPair))

/-- A series after its round of the loop. -/
def detach (t : TimeSeries) : TimeSeries :=
  if HasSamples t then
    { t with labels := { t.labels with elems := S.sortLabels t.labels.elems }, samples := {} }
  else t

theorem samples_detach (t : TimeSeries) : (detach S t).samples.elems = [] := by
  unfold detach
  split
  · rfl
  · rename_i h
    exact Decidable.not_not.mp h

theorem parseEach_of_not_rejected (i : Nat) (dataSamples : Groups Bytes SamplesInfo) (rows : Nat)
    {tts : List TimeSeries} (h : ∀ t ∈ tts, ¬Rejected S t) :
    parseEach S interners i dataSamples rows tts =
      ⟨tts.map (detach S),
        .ok (dataSamples.collect (metricName S) (info S) (tts.filter HasSamples)),
        rows + (tts.map fun t => t.samples.elems.length).sum⟩ := by
  induction tts generalizing i dataSamples rows with
  | nil => rfl
  | cons t tts ih =>
    rw [List.forall_mem_cons] at h
    rw [parseEach]
    by_cases hsamples : HasSamples t
    · have haccepted : metricName S t ≠ [] ∧
          encodedLength (t.labels.elems.map Label.toPair) ≤ maxUint16 := by
        simpa [Rejected, hsamples, not_or] using h.1
      rw [if_neg hsamples.length_ne_zero, labelProtosToLabels_of_le S _ _ haccepted.2]
      have hname : ¬(S.seriesLabels t.labels.elems).metricName = [] := haccepted.1
      simp only [hname, if_false, ih _ _ _ h.2]
      simp [detach, hsamples, Groups.collect, info, metricName, Nat.add_assoc]
    · have hnil : t.samples.elems = [] := Decidable.not_not.mp hsamples
      simp [hnil, ih _ _ _ h.2, detach, hsamples]

theorem parseEach_of_rejected (i : Nat) (dataSamples : Groups Bytes SamplesInfo) (rows : Nat)
    {tts : List TimeSeries} (h : ∃ t ∈ tts, Rejected S t) :
    ∃ err, (parseEach S interners i dataSamples rows tts).dataSamples = .error err := by
  induction tts generalizing i dataSamples rows with
  | nil => simp at h
  | cons t tts ih =>
    rw [List.exists_mem_cons_iff] at h
    rw [parseEach]
    by_cases hsamples : HasSamples t
    · rw [if_neg hsamples.length_ne_zero]
      by_cases hlen : encodedLength (t.labels.elems.map Label.toPair) ≤ maxUint16
      · rw [labelProtosToLabels_of_le S _ _ hlen]
        by_cases hname : (S.seriesLabels t.labels.elems).metricName = []
        · simp [hname]
        · simp only [hname, if_false]
          refine ih _ _ _ (h.resolve_left fun hrejected => ?_)
          exact hrejected.2.elim hname (Nat.not_lt.mpr hlen)
      · obtain ⟨err, herr⟩ := labelProtosToLabels_of_lt S (interners i).1 (interners i).2
          (Nat.not_le.mp hlen)
        rw [herr]
        exact ⟨err, rfl⟩
    · have hnil : t.samples.elems = [] := Decidable.not_not.mp hsamples
      rw [if_pos (by simp [hnil])]
      exact ih _ _ _ (h.resolve_left fun hrejected => hsamples hrejected.1)

/-- `sort.Slice` as a merge sort, which is what the requests in the pool are modelled with. -/
def mergeSort : SliceSort where
  sort labels := labels.mergeSort fun a b => !LabelInterner.less b.toPair a.toPair
  perm labels := List.mergeSort_perm labels _
  ordered := LabelInterner.pairwise_mergeSort_less Label.toPair

def Parsed.err (p : Parsed) : Option ParseError :=
  match p.dataSamples with
  | .ok _ => none
  | .error err => some err

theorem parseEach_refines (i : Nat) (dataSamples : Groups Bytes SamplesInfo) (rows : Nat)
    (tts : List TimeSeries) :
    let p := parseEach mergeSort interners i dataSamples rows tts
    (p.tts, p.err) = WriteRequests.parseEach tts := by
  induction tts generalizing i dataSamples rows with
  | nil => rfl
  | cons t tts ih =>
    rw [parseEach, WriteRequests.parseEach, WriteRequests.parseSeries]
    split
    · simp [Parsed.err, ← ih (i + 1) dataSamples rows]
    · rw [labelProtosToLabels_eq]
      have harg : (WriteRequests.sortLabels t.labels.elems).map Label.toPair =
          mergeSort.pairs t.labels.elems := rfl
      dsimp only
      rw [harg]
      cases hstr : getStr (mergeSort.pairs t.labels.elems) with
      | error text => rfl
      | ok result =>
        obtain ⟨str, sorted⟩ := result
        dsimp only
        split
        · rfl
        · rw [← ih (i + 1) (dataSamples.append (newLabels str sorted).metricName
            ⟨newLabels str sorted, -1, t.samples.elems⟩) (rows + t.samples.elems.length)]
          rfl

end Loop

/-- The whole call, on the request it is given with its own series. -/
theorem parseData_refines (interners : Nat → Interner × Interner)
    (wr : WriteRequests.WriteRequest) :
    let p := parseData mergeSort interners wr.timeseries.elems
    let left := { wr with timeseries := { wr.timeseries with elems := p.tts } }
    WriteRequests.parseData wr =
      match p.dataSamples with
      | .error err => (left, some err)
      | .ok _ => (WriteRequests.finishWriteRequest left, none) := by
  intro p left
  have hloop : (p.tts, p.err) = WriteRequests.parseEach wr.timeseries.elems :=
    parseEach_refines interners 0 (.empty _ _) 0 wr.timeseries.elems
  rw [WriteRequests.parseData, ← hloop, Parsed.err]
  cases p.dataSamples <;> rfl

theorem numRows_eq (rows : List (Bytes × List SamplesInfo)) :
    numRows rows = ((rows.flatMap Prod.snd).map fun si => si.samples.length).sum := by
  rw [numRows, ← List.foldl_flatMap, List.sum_eq_foldl, List.foldl_map]

section Accepted

variable {S : SliceSort} {interners : Nat → Interner × Interner} {tts : List TimeSeries}
  {data : Groups Bytes SamplesInfo}

theorem not_rejected_of_ok (h : (parseData S interners tts).dataSamples = .ok data)
    {t : TimeSeries} (ht : t ∈ tts) : ¬Rejected S t := by
  intro hrejected
  obtain ⟨err, herr⟩ := parseEach_of_rejected S interners 0 (.empty _ _) 0 ⟨t, ht, hrejected⟩
  rw [parseData, herr] at h
  cases h

theorem parseData_of_ok (h : (parseData S interners tts).dataSamples = .ok data) :
    parseData S interners tts =
        ⟨tts.map (detach S), .ok data, (tts.map fun t => t.samples.elems.length).sum⟩ ∧
      data = (Groups.empty _ _).collect (metricName S) (info S) (tts.filter HasSamples) := by
  have haccepted := fun t => not_rejected_of_ok (t := t) h
  rw [parseData, parseEach_of_not_rejected S interners 0 _ 0 haccepted] at h ⊢
  cases h
  exact ⟨by rw [Nat.zero_add], rfl⟩

theorem sum_length_filter (tts : List TimeSeries) (S : SliceSort) :
    (((tts.filter HasSamples).map (info S)).map fun si => si.samples.length).sum =
      (tts.map fun t => t.samples.elems.length).sum := by
  induction tts with
  | nil => rfl
  | cons t tts ih =>
    by_cases hsamples : HasSamples t
    · simp [hsamples, info, ← ih]
    · have hnil : t.samples.elems = [] := Decidable.not_not.mp hsamples
      simp [hsamples, hnil, ← ih]

theorem elements_of_ok (h : (parseData S interners tts).dataSamples = .ok data) :
    data.elements.Perm ((tts.filter HasSamples).map (info S)) := by
  rw [(parseData_of_ok h).2]
  exact Groups.elements_collect _ _ _ _

theorem numRows_of_ok (h : (parseData S interners tts).dataSamples = .ok data)
    {order : List (Bytes × List SamplesInfo)} (horder : order.Perm data.entries) :
    numRows order = (parseData S interners tts).rows := by
  calc numRows order
      = ((order.flatMap Prod.snd).map fun si => si.samples.length).sum := numRows_eq order
    _ = (data.elements.map fun si => si.samples.length).sum :=
        ((horder.flatMap_right Prod.snd).map _).sum_nat
    _ = (((tts.filter HasSamples).map (info S)).map fun si => si.samples.length).sum :=
        ((elements_of_ok h).map _).sum_nat
    _ = (tts.map fun t => t.samples.elems.length).sum := sum_length_filter tts S
    _ = (parseData S interners tts).rows := by rw [(parseData_of_ok h).1]

theorem get_of_ok (h : (parseData S interners tts).dataSamples = .ok data) (name : Bytes) :
    data.get name =
      ((tts.filter HasSamples).filter fun t => metricName S t = name).map (info S) := by
  rw [(parseData_of_ok h).2, Groups.get_collect]
  rfl

theorem exists_series_of_mem (h : (parseData S interners tts).dataSamples = .ok data)
    {entry : Bytes × List SamplesInfo} (hentry : entry ∈ data.entries) {si : SamplesInfo}
    (hsi : si ∈ entry.2) :
    ∃ t ∈ tts, HasSamples t ∧ metricName S t = entry.1 ∧ si = info S t := by
  rw [← Groups.get_of_mem hentry, get_of_ok h] at hsi
  obtain ⟨t, ht, rfl⟩ := List.mem_map.mp hsi
  simp only [List.mem_filter, decide_eq_true_eq] at ht
  exact ⟨t, ht.1.1, ht.1.2, ht.2, rfl⟩

theorem labels_eq_of_str (h : (parseData S interners tts).dataSamples = .ok data) :
    ∀ si ∈ data.elements, ∀ si' ∈ data.elements, si.labels.str = si'.labels.str →
      si.labels = si'.labels := by
  have hcanonical : ∀ si ∈ data.elements, ∃ labels pairs,
      si.labels = newLabels si.labels.str pairs ∧
        LabelInterner.Canonical labels si.labels.str pairs := by
    intro si hsi
    obtain ⟨t, ht, rfl⟩ := List.mem_map.mp ((elements_of_ok h).subset hsi)
    obtain ⟨ht, hsamples⟩ := List.mem_filter.mp ht
    have hlen : encodedLength (S.pairs t.labels.elems) ≤ maxUint16 := by
      rw [LabelInterner.encodedLength_perm (S.pairs_perm t.labels.elems)]
      exact Nat.not_lt.mp fun hlong =>
        not_rejected_of_ok h ht ⟨of_decide_eq_true hsamples, .inr hlong⟩
    exact ⟨_, S.pairs t.labels.elems, rfl, LabelInterner.canonical_of_getStr
      (getStr_of_sorted (S.pairs_sorted t.labels.elems) hlen)⟩
  intro si hsi si' hsi' hstr
  obtain ⟨_, pairs, heq, hpairs⟩ := hcanonical si hsi
  obtain ⟨_, pairs', heq', hpairs'⟩ := hcanonical si' hsi'
  rw [heq, heq', hpairs.sorted_injective (hstr ▸ hpairs'), hstr]

end Accepted

/-- `parseData` fails exactly if a series with samples has no metric name or too long a text.
Otherwise the map holds each series with samples once, under its metric and in the order of the
request, and the number of rows is the number of samples, however one counts them. -/
theorem parseData_exact (S : SliceSort) (interners : Nat → Interner × Interner)
    (tts : List TimeSeries) :
    ((∃ err, (parseData S interners tts).dataSamples = .error err) ↔
      ∃ t ∈ tts, t.samples.elems ≠ [] ∧
        (metricName S t = [] ∨ 65535 < encodedLength (t.labels.elems.map Label.toPair))) ∧
    (∀ data, (parseData S interners tts).dataSamples = .ok data →
      (∀ name, data.get name =
        ((tts.filter HasSamples).filter fun t => metricName S t = name).map (info S)) ∧
      (∀ entry ∈ data.entries, entry.2 = data.get entry.1) ∧
      data.elements.Perm ((tts.filter HasSamples).map (info S)) ∧
      (∀ si ∈ data.elements, si.samples ≠ [] ∧ si.seriesID = -1) ∧
      (parseData S interners tts).rows = (tts.map fun t => t.samples.elems.length).sum ∧
      (∀ order, order.Perm data.entries →
        numRows order = (parseData S interners tts).rows) ∧
      ∀ t ∈ (parseData S interners tts).tts, t.samples.elems = []) ∧
    ∀ t, (info S t).samples = t.samples.elems ∧
      OwnLabels t.labels.elems (info S t).labels ∧
      (info S t).labels.metricName = metricName S t := by
  refine ⟨⟨?_, parseEach_of_rejected S interners 0 _ 0⟩, ?_,
    fun t => ⟨rfl, ownLabels_seriesLabels S t.labels.elems, rfl⟩⟩
  · rintro ⟨err, herr⟩
    by_contra hnone
    have haccepted : ∀ t ∈ tts, ¬Rejected S t := fun t ht hrejected => hnone ⟨t, ht, hrejected⟩
    rw [parseData, parseEach_of_not_rejected S interners 0 _ 0 haccepted] at herr
    cases herr
  · intro data hdata
    have hparsed := (parseData_of_ok hdata).1
    refine ⟨get_of_ok hdata, fun entry h => (Groups.get_of_mem h).symm, elements_of_ok hdata, ?_,
      by rw [hparsed], fun order => numRows_of_ok hdata, ?_⟩
    · intro si hsi
      obtain ⟨t, ht, rfl⟩ := List.mem_map.mp ((elements_of_ok hdata).subset hsi)
      exact ⟨of_decide_eq_true (List.mem_filter.mp ht).2, rfl⟩
    · intro t ht
      rw [hparsed] at ht
      obtain ⟨t', _, rfl⟩ := List.mem_map.mp ht
      exact samples_detach S t'

/-- The insert of a parsed request is never found incomplete. -/
theorem ingest_complete (S : SliceSort) (interners : Nat → Interner × Interner)
    (tts : List TimeSeries) (insertNewData : Groups Bytes SamplesInfo → Nat × Option String)
    (hcount : ∀ data, ∃ order, order.Perm data.entries ∧ (insertNewData data).1 = numRows order)
    (text : String) :
    (ingest S interners insertNewData tts).2 ≠ some (.incomplete text) := by
  unfold ingest
  dsimp only
  split
  · simp
  · rename_i data hdata
    obtain ⟨order, horder, hnum⟩ := hcount data
    split
    · simp
    · rename_i rowsInserted hreply
      have hrows : rowsInserted = (parseData S interners tts).rows := by
        rw [numRows_of_ok hdata horder, hreply] at hnum
        exact hnum
      simp [hrows]

theorem ingest_complete_rows :
    let insertNewData data := (numRows data.entries, none)
    let cpu : Label := { name := metricNameLabelName, value := [99, 112, 117] }
    let tts : List TimeSeries := [{ labels := { elems := [cpu] }, samples := { elems := [{}] } }]
    (ingest mergeSort (fun _ => (.ofRun [], .ofRun [])) insertNewData tts).2 ≠
      some (.incomplete "") :=
  ingest_complete _ _ _ _ (fun data => ⟨data.entries, .refl _, rfl⟩) _

end TimescalePrometheus.Ingest.ParseData
