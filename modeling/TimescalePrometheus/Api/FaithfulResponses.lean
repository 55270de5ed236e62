import Mathlib.Algebra.Group.Nat.Defs
import Mathlib.Data.Bool.AllAny
import Mathlib.Data.Char
import Mathlib.Data.List.Dedup
import Mathlib.Data.List.Lex
import TimescalePrometheus.Api.WrittenText

/-!
The responses of the hand-written writer say the same as those of the JSON encoder for the
response struct: what both decode to is compared.
-/

namespace TimescalePrometheus.Api.Marshal

open Lib.Json Lib.Utf8

/-- The value of a member; of several members with one name the last one counts. -/
def lastOf {β : Type} (members : List (List Char × β)) (name : List Char) : Option β :=
  members.reverse.lookup name

/-- The value of each label name. -/
abbrev LabelSet := List Char → Option (List Char)

/-- What a client reads in a response. -/
structure Content where
  status : List Char
  resultType : List Char
  series : List (LabelSet × List (List Char × List Char))
  warnings : List (List Char)

def decodeString : Value → Option (List Char)
  | .str s => some s
  | _ => none

/-- `null` is an empty list. -/
def decodeList {β : Type} (decodeItem : Value → Option β) : Value → Option (List β)
  | .null => some []
  | .arr items => items.mapM decodeItem
  | _ => none

def decodeMembers : Value → Option (List (List Char × Value))
  | .obj members => some members
  | _ => none

def decodeLabel (member : List Char × Value) : Option (List Char × List Char) := do
  return (member.1, ← decodeString member.2)

def decodeLabels (v : Value) : Option LabelSet := do
  let labels ← (← decodeMembers v).mapM decodeLabel
  return lastOf labels

def decodePoint : Value → Option (List Char × List Char)
  | .arr [.num time, .str value] => some (time, value)
  | _ => none

/-- An element of a vector. -/
def decodeSample (v : Value) : Option (LabelSet × List (List Char × List Char)) := do
  let members ← decodeMembers v
  let labels ← decodeLabels (← lastOf members "metric".toList)
  let point ← decodePoint (← lastOf members "value".toList)
  return (labels, [point])

/-- An element of a matrix. -/
def decodeSeries (v : Value) : Option (LabelSet × List (List Char × List Char)) := do
  let members ← decodeMembers v
  let labels ← decodeLabels (← lastOf members "metric".toList)
  let points ← decodeList decodePoint (← lastOf members "values".toList)
  return (labels, points)

def decodeResult (resultType : List Char) :
    Value → Option (List (LabelSet × List (List Char × List Char))) :=
  if resultType = "vector".toList then decodeList decodeSample
  else if resultType = "matrix".toList then decodeList decodeSeries
  else fun _ => none

/-- The reading of a document. -/
def decodeResponse (v : Value) : Option Content := do
  let members ← decodeMembers v
  let status ← decodeString (← lastOf members "status".toList)
  let data ← decodeMembers (← lastOf members "data".toList)
  let resultType ← decodeString (← lastOf data "resultType".toList)
  let series ← decodeResult resultType (← lastOf data "result".toList)
  let warnings ← decodeList decodeString ((lastOf members "warnings".toList).getD .null)
  return { status := status, resultType := resultType, series := series, warnings := warnings }

variable (strconv : Strconv)

/-- The encoder's own text of a float: with an exponent below 1e-6 and from 1e21 on, and `e-9` in
place of `e-09`. -/
def encodeFloat (f : Float) : List Char :=
  let abs := f.abs
  let fmt := if abs != 0 then if abs < 1e-6 || abs >= 1e21 then Fmt.e else .f else .f
  let b := strconv.appendFloat f fmt
  let n := b.length
  if fmt = .e ∧ 4 ≤ n ∧ b[n - 4]? = some 101 ∧ b[n - 3]? = some 45 ∧ b[n - 2]? = some 48 then
    chars (b.take (n - 2) ++ b.drop (n - 1))
  else chars b

/-- `json.Marshal([...]float64(p.T) / 1000, v)`, with `FormatFloat` of the value. -/
def pointContent (p : Point) : List Char × List Char :=
  (encodeFloat strconv (Float.ofInt p.t.toInt / 1000), chars (strconv.appendFloat p.v .f))

def pointDoc (p : Point) : Value :=
  .arr [.num (pointContent strconv p).1, .str (pointContent strconv p).2]

def sampleDoc (labels : Value) (s : Sample) : Value :=
  .obj [("metric".toList, labels), ("value".toList, pointDoc strconv s.point)]

def seriesDoc (labels points : Value) : Value :=
  .obj [("metric".toList, labels), ("values".toList, points)]

/-- The response struct; its warnings are left out if there are none. -/
def responseDoc (resultType : String) (result : Value) (warnings : List Bytes) : Value :=
  .obj (("status".toList, .str "success".toList) ::
    ("data".toList,
      .obj [("resultType".toList, .str resultType.toList), ("result".toList, result)]) ::
    if warnings = [] then []
    else [("warnings".toList, .arr (warnings.map fun warning => .str (textOf warning)))])

def labelsDoc (labels : List Label) : Value :=
  .obj (labels.map fun l => (l.name.toList, .str l.value.toList))

/-- The last of equal names counts. -/
def labelSet (labels : List Label) : LabelSet :=
  lastOf (labels.map fun l => (l.name.toList, l.value.toList))

/-- The encoder makes a map of the labels and writes it in the order of the keys. -/
def naiveLabels (labels : List Label) : Value :=
  .obj (((labels.map fun l => l.name.toList).dedup.mergeSort fun a b => decide (a ≤ b)).map
    fun name => (name, .str ((labelSet labels name).getD [])))

/-- The encoder writes `null` for a nil slice. -/
def naiveSlice {α : Type} (doc : α → Value) : Slice α → Value
  | none => .null
  | some items => .arr (items.map doc)

/-- The document of the response struct. -/
def naiveVectorResponse (data : Vector) (warnings : List Bytes) : Value :=
  responseDoc "vector"
    (naiveSlice (fun s => sampleDoc strconv (naiveLabels s.metric) s) data) warnings

def naiveMatrixResponse (data : Matrix) (warnings : List Bytes) : Value :=
  responseDoc "matrix"
    (naiveSlice (fun s => seriesDoc (naiveLabels s.metric)
      (naiveSlice (pointDoc strconv) s.points)) data) warnings

theorem reads_labels (labels : List Label) : Reads (labelsText labels) (labelsDoc labels) := by
  refine reads_obj ?_
  rw [List.forall₂_map_left_iff, List.forall₂_map_right_iff, List.forall₂_same]
  intro l _
  have hname := spells_escapeText (encode l.name.toList)
  have hvalue := spells_escapeText (encode l.value.toList)
  rw [textOf_encode] at hname hvalue
  exact readsMember hname (reads_str hvalue)

theorem chars_cleanUp (b : Bytes) : chars (cleanUp .e b).1 =
    if 4 ≤ b.length ∧ b[b.length - 4]? = some 101 ∧ b[b.length - 3]? = some 45 ∧
        b[b.length - 2]? = some 48 then
      chars (b.take (b.length - 2) ++ b.drop (b.length - 1))
    else chars b := by
  obtain ⟨r, rfl⟩ : ∃ r : Bytes, b = r.reverse := ⟨b.reverse, (List.reverse_reverse b).symm⟩
  unfold cleanUp
  rw [List.reverse_reverse]
  match r with
  | [] | [_] | [_, _] | [_, _, _] => simp
  | d :: z :: y :: x :: rest =>
    have hends : (d :: z :: y :: x :: rest).reverse = rest.reverse ++ [x, y, z, d] := by simp
    rw [hends]
    split
    · rename_i hmatch
      obtain ⟨rfl, rfl, rfl, rfl, rfl⟩ : d = _ ∧ z = 48 ∧ y = 45 ∧ x = 101 ∧ rest = _ := by
        simpa using hmatch
      simp [List.take_append, List.drop_append, List.take_of_length_le, List.drop_of_length_le]
    · rename_i hmatch
      rw [if_neg]
      rintro ⟨-, hx, hy, hz⟩
      have hget : ∀ i, (rest.reverse ++ [x, y, z, d])[rest.length + i]? = [x, y, z, d][i]? := by
        intro i
        rw [List.getElem?_append_right (by simp)]
        simp
      have hlen : (rest.reverse ++ [x, y, z, d]).length = rest.length + 4 := by simp
      rw [hlen] at hx hy hz
      obtain rfl : x = 101 := Option.some.inj ((hget 0).symm.trans hx)
      obtain rfl : y = 45 := Option.some.inj ((hget 1).symm.trans hy)
      obtain rfl : z = 48 := Option.some.inj ((hget 2).symm.trans hz)
      exact hmatch d rest rfl rfl

theorem timeText_eq (t : Int64) :
    timeText strconv t = encodeFloat strconv (Float.ofInt t.toInt / 1000) := by
  have hfmt : ∀ f, (if f.abs != 0 then if f.abs < 1e-6 || f.abs >= 1e21 then Fmt.e else .f
      else .f) = jsonFmt f := by
    intro f
    unfold jsonFmt
    cases f.abs != 0 <;> rfl
  unfold timeText jsonFloat encodeFloat seconds
  dsimp only
  rw [hfmt]
  cases jsonFmt (Float.ofInt t.toInt / 1000) with
  | f => rfl
  | e =>
    rw [chars_cleanUp]
    simp only [true_and]

theorem reads_point {p : Point} (hp : strconv.Prints p) :
    Reads (pointText strconv p) (pointDoc strconv p) := by
  have htime := isNumber_timeText hp
  rw [timeText_eq] at htime
  rw [pointText, timeText_eq]
  exact reads_arr (.cons (reads_num htime) (.cons (reads_str (spells_valueText hp)) .nil))

theorem readsMember_plain {value : List Char} {v : Value} (name : List Char)
    (hname : name.all fun c => Plain c) (hvalue : Reads value v) :
    ReadsMember (member name value) (name, v) :=
  readsMember (spells_plain (List.all_iff_forall_prop.1 hname)) hvalue

theorem reads_plain (t : List Char) (h : t.all fun c => Plain c) :
    Reads (quoted t) (.str t) :=
  reads_str (spells_plain (List.all_iff_forall_prop.1 h))

theorem reads_sample {s : Sample} (hp : strconv.Prints s.point) :
    Reads (sampleText strconv s) (sampleDoc strconv (labelsDoc s.metric) s) :=
  reads_obj (.cons (readsMember_plain _ (by decide) (reads_labels s.metric))
    (.cons (readsMember_plain _ (by decide) (reads_point strconv hp)) .nil))

theorem reads_arr_map {α : Type} {text : α → List Char} {doc : α → Value}
    {xs : List α} (h : ∀ x ∈ xs, Reads (text x) (doc x)) :
    Reads (brackets (xs.map text)) (.arr (xs.map doc)) := by
  refine reads_arr ?_
  rw [List.forall₂_map_left_iff, List.forall₂_map_right_iff, List.forall₂_same]
  exact h

theorem reads_series {s : Series} (hpoints : ∀ p ∈ s.points.elems, strconv.Prints p) :
    Reads (seriesText strconv s)
      (seriesDoc (labelsDoc s.metric) (.arr (s.points.elems.map (pointDoc strconv)))) :=
  reads_obj (.cons (readsMember_plain _ (by decide) (reads_labels s.metric))
    (.cons (readsMember_plain _ (by decide) (reads_arr_map fun p hp =>
      reads_point strconv (hpoints p hp))) .nil))

theorem reads_response (resultType : String) (hplain : resultType.toList.all fun c => Plain c)
    {result : List (List Char)} {v : Value} (h : Reads (brackets result) v)
    (warnings : List Bytes) :
    Reads (braces (responseMembers (dataText resultType result) warnings))
      (responseDoc resultType v warnings) := by
  have hstatus := readsMember_plain "status".toList (by decide)
    (reads_plain "success".toList (by decide))
  have htype := readsMember_plain "resultType".toList (by decide)
    (reads_plain resultType.toList hplain)
  have hresult := readsMember_plain "result".toList (by decide) h
  have hdata := readsMember_plain "data".toList (by decide)
    (reads_obj (.cons htype (.cons hresult .nil)))
  refine reads_obj (.cons hstatus (.cons hdata ?_))
  split
  · exact .nil
  · exact .cons (readsMember_plain _ (by decide)
      (reads_arr_map fun warning _ => reads_str (spells_escapeText warning))) .nil

theorem mapM_map {α β γ : Type} {doc : α → β} {decodeItem : β → Option γ} {content : α → γ}
    (h : ∀ x, decodeItem (doc x) = some (content x)) (xs : List α) :
    (xs.map doc).mapM decodeItem = some (xs.map content) := by
  induction xs with
  | nil => rfl
  | cons x xs ih => simp [List.mapM_cons, h, ih]

theorem decodeList_naiveSlice {α β : Type} {doc : α → Value} {decodeItem : Value → Option β}
    {content : α → β} (h : ∀ x, decodeItem (doc x) = some (content x)) (xs : Slice α) :
    decodeList decodeItem (naiveSlice doc xs) = some (xs.elems.map content) := by
  cases xs with
  | none => rfl
  | some xs => exact mapM_map h xs

theorem decodeLabels_map {α : Type} (name value : α → List Char) (xs : List α) :
    decodeLabels (.obj (xs.map fun x => (name x, .str (value x)))) =
      some (lastOf (xs.map fun x => (name x, value x))) := by
  have hmap : (xs.map fun x => (name x, Value.str (value x))).mapM decodeLabel =
      some (xs.map fun x => (name x, value x)) :=
    mapM_map (fun x => show decodeLabel (name x, .str (value x)) = _ from rfl) xs
  rw [decodeLabels, decodeMembers]
  exact (congrArg (· >>= fun labels => some (lastOf labels)) hmap).trans rfl

theorem decodeLabels_labelsDoc (labels : List Label) :
    decodeLabels (labelsDoc labels) = some (labelSet labels) :=
  decodeLabels_map (fun l : Label => l.name.toList) (fun l => l.value.toList) labels

theorem lookup_map_self {names : List (List Char)} (value : List Char → List Char)
    (name : List Char) :
    (names.map fun n => (n, value n)).lookup name =
      if name ∈ names then some (value name) else none := by
  induction names with
  | nil => rfl
  | cons n names ih =>
    rw [List.map_cons, List.lookup_cons, ih]
    rcases Decidable.em (name = n) with rfl | hne
    · simp
    · simp [hne, beq_false_of_ne hne]

theorem labelSet_eq_none_iff (labels : List Label) (name : List Char) :
    labelSet labels name = none ↔ name ∉ labels.map fun l => l.name.toList := by
  rw [labelSet, lastOf, List.lookup_eq_none_iff]
  constructor
  · intro h hmem
    obtain ⟨l, hl, rfl⟩ := List.mem_map.mp hmem
    have hne := h _ (List.mem_reverse.mpr (List.mem_map_of_mem hl))
    exact bne_iff_ne.mp hne rfl
  · intro h p hp
    obtain ⟨l, hl, rfl⟩ := List.mem_map.mp (List.mem_reverse.mp hp)
    exact bne_iff_ne.mpr fun heq => h (heq ▸ List.mem_map_of_mem hl)

theorem decodeLabels_naiveLabels (labels : List Label) :
    decodeLabels (naiveLabels labels) = some (labelSet labels) := by
  refine (decodeLabels_map (fun name => name) (fun name => (labelSet labels name).getD []) _).trans
    (congrArg some (funext fun name => ?_))
  rw [lastOf, ← List.map_reverse, lookup_map_self]
  simp only [List.mem_reverse, List.mem_mergeSort, List.mem_dedup]
  cases hvalue : labelSet labels name with
  | none => rw [if_neg ((labelSet_eq_none_iff labels name).mp hvalue)]
  | some value =>
    have hpresent : name ∈ labels.map fun l => l.name.toList := by
      by_contra habsent
      rw [(labelSet_eq_none_iff labels name).mpr habsent] at hvalue
      cases hvalue
    rw [if_pos hpresent, Option.getD_some]

def sampleContent (s : Sample) : LabelSet × List (List Char × List Char) :=
  (labelSet s.metric, [pointContent strconv s.point])

def seriesContent (s : Series) : LabelSet × List (List Char × List Char) :=
  (labelSet s.metric, s.points.elems.map (pointContent strconv))

/-- The content that a response stands for. -/
def responseContent (resultType : String)
    (series : List (LabelSet × List (List Char × List Char))) (warnings : List Bytes) : Content :=
  { status := "success".toList
    resultType := resultType.toList
    series := series
    warnings := warnings.map textOf }

theorem decodeSample_sampleDoc {labels : Value} (s : Sample)
    (h : decodeLabels labels = some (labelSet s.metric)) :
    decodeSample (sampleDoc strconv labels s) = some (sampleContent strconv s) := by
  have hmetric : decodeSample (sampleDoc strconv labels s) =
      (decodeLabels labels).bind fun metric =>
        some (metric, [pointContent strconv s.point]) := rfl
  rw [hmetric, h]
  rfl

theorem decodeSeries_seriesDoc {labels points : Value} (s : Series)
    (h : decodeLabels labels = some (labelSet s.metric))
    (hpoints : decodeList decodePoint points = some (seriesContent strconv s).2) :
    decodeSeries (seriesDoc labels points) = some (seriesContent strconv s) := by
  have hmembers : decodeSeries (seriesDoc labels points) =
      (decodeLabels labels).bind fun metric =>
        (decodeList decodePoint points).bind fun points => some (metric, points) := rfl
  rw [hmembers, h, hpoints]
  rfl

theorem decodeResponse_responseDoc {resultType : String} {result : Value}
    {series : List (LabelSet × List (List Char × List Char))} (warnings : List Bytes)
    (h : decodeResult resultType.toList result = some series) :
    decodeResponse (responseDoc resultType result warnings) =
      some (responseContent resultType series warnings) := by
  cases warnings with
  | nil =>
    have hmembers : decodeResponse (responseDoc resultType result []) =
        (decodeResult resultType.toList result).bind fun series =>
          some (responseContent resultType series []) := rfl
    rw [hmembers, h]
    rfl
  | cons warning warnings =>
    have hwarnings : ((warning :: warnings).map fun w => Value.str (textOf w)).mapM decodeString =
        some ((warning :: warnings).map textOf) :=
      mapM_map (fun w => show decodeString (.str (textOf w)) = _ from rfl) _
    have hmembers : decodeResponse (responseDoc resultType result (warning :: warnings)) =
        (decodeResult resultType.toList result).bind fun series =>
          (((warning :: warnings).map fun w => Value.str (textOf w)).mapM decodeString).bind
            fun texts => some { responseContent resultType series [] with warnings := texts } :=
      rfl
    rw [hmembers, h, hwarnings]
    rfl

/-- UTF-8 and then JSON. -/
def parseBytes (b : Bytes) : Option Value := (decode b).bind parse

theorem parseBytes_of_wrote {w : ErrorWrapper} {text : List Char} {v : Value}
    (hw : Wrote {} w (text ++ ['\n'])) (h : Reads text v) : parseBytes w.out = some v := by
  rw [parseBytes, hw.out, List.nil_append, decode_encode]
  exact parse_of_reads h (List.forall_mem_singleton.2 rfl)

theorem decode_vector (data : Vector) (labels : List Label → Value)
    (h : ∀ ls, decodeLabels (labels ls) = some (labelSet ls)) :
    decodeResult "vector".toList
        (naiveSlice (fun s => sampleDoc strconv (labels s.metric) s) data) =
      some (data.elems.map (sampleContent strconv)) :=
  decodeList_naiveSlice (fun s => decodeSample_sampleDoc strconv s (h s.metric)) data

theorem decode_matrix (data : Matrix) (labels : List Label → Value)
    (points : Slice Point → Value) (h : ∀ ls, decodeLabels (labels ls) = some (labelSet ls))
    (hpoints : ∀ ps : Slice Point, decodeList decodePoint (points ps) =
      some (ps.elems.map (pointContent strconv))) :
    decodeResult "matrix".toList
        (naiveSlice (fun s => seriesDoc (labels s.metric) (points s.points)) data) =
      some (data.elems.map (seriesContent strconv)) :=
  decodeList_naiveSlice
    (fun s => decodeSeries_seriesDoc strconv s (h s.metric) (hpoints s.points)) data

/-- The response is written without an error, its bytes are one document, and that decodes to
the content, as the naive encoding does. -/
def Faithful (w : ErrorWrapper) (naive : Value) (content : Content) : Prop :=
  w.err = none ∧ (parseBytes w.out).bind decodeResponse = some content ∧
    decodeResponse naive = some content

theorem faithful_vector {data : Vector} {t : Int64}
    (hdata : ∀ sample ∈ data.elems, strconv.Prints sample.point)
    (ht : ∀ sample ∈ data.elems, sample.point.t = t) (warnings : List Bytes) :
    Faithful (marshalVectorResponse neverFails strconv data warnings)
      (naiveVectorResponse strconv data warnings)
      (responseContent "vector" (data.elems.map (sampleContent strconv)) warnings) := by
  have hwrote := wrote_response warnings
    (wrote_marshalVectorData wrote_marshalCommonHeader.err hdata ht)
  have hreads := reads_response "vector" (by decide)
    (reads_arr_map fun s hs => reads_sample strconv (hdata s hs)) warnings
  have hwritten := decode_vector strconv (some data.elems) labelsDoc decodeLabels_labelsDoc
  have hnaive := decode_vector strconv data naiveLabels decodeLabels_naiveLabels
  refine ⟨hwrote.err, ?_, decodeResponse_responseDoc warnings hnaive⟩
  rw [marshalVectorResponse, parseBytes_of_wrote hwrote hreads]
  exact decodeResponse_responseDoc warnings hwritten

theorem faithful_matrix {data : Matrix}
    (hdata : ∀ s ∈ data.elems, ∀ p ∈ s.points.elems, strconv.Prints p) (warnings : List Bytes) :
    Faithful (marshalMatrixResponse neverFails strconv data warnings)
      (naiveMatrixResponse strconv data warnings)
      (responseContent "matrix" (data.elems.map (seriesContent strconv)) warnings) := by
  have hwrote := wrote_response warnings
    (wrote_marshalMatrixData wrote_marshalCommonHeader.err hdata)
  have hreads := reads_response "matrix" (by decide)
    (reads_arr_map fun s hs => reads_series strconv (hdata s hs)) warnings
  have hpoint : ∀ p, decodePoint (pointDoc strconv p) = some (pointContent strconv p) :=
    fun _ => rfl
  have hwritten := decode_matrix strconv (some data.elems) labelsDoc
    (fun ps => .arr (ps.elems.map (pointDoc strconv))) decodeLabels_labelsDoc
    (fun ps => mapM_map hpoint ps.elems)
  have hnaive := decode_matrix strconv data naiveLabels (naiveSlice (pointDoc strconv))
    decodeLabels_naiveLabels (decodeList_naiveSlice hpoint)
  refine ⟨hwrote.err, ?_, decodeResponse_responseDoc warnings hnaive⟩
  rw [marshalMatrixResponse, parseBytes_of_wrote hwrote hreads]
  exact decodeResponse_responseDoc warnings hwritten

/-- Both kinds of responses are faithful, that of a vector if its samples share their time. -/
theorem responses_faithful (vector : Vector) (t : Int64)
    (hvector : ∀ sample ∈ vector.elems, strconv.Prints sample.point)
    (ht : ∀ sample ∈ vector.elems, sample.point.t = t) (matrix : Matrix)
    (hmatrix : ∀ s ∈ matrix.elems, ∀ p ∈ s.points.elems, strconv.Prints p)
    (warnings : List Bytes) :
    Faithful (marshalVectorResponse neverFails strconv vector warnings)
        (naiveVectorResponse strconv vector warnings)
        (responseContent "vector" (vector.elems.map (sampleContent strconv)) warnings) ∧
      Faithful (marshalMatrixResponse neverFails strconv matrix warnings)
        (naiveMatrixResponse strconv matrix warnings)
        (responseContent "matrix" (matrix.elems.map (seriesContent strconv)) warnings) :=
  ⟨faithful_vector strconv hvector ht warnings, faithful_matrix strconv hmatrix warnings⟩

/-- A quotient rounded to a whole number, half to even. -/
def roundedQuotient (num den : Nat) : Nat :=
  let q := num / den
  if 2 * (num % den) < den ∨ 2 * (num % den) = den ∧ q % 2 = 0 then q else q + 1

/-- A positive fraction rounded to `n` significant digits: the digits, and the power of ten with
which they count. -/
def significant (num den n : Nat) : Nat × Int :=
  let places : Int :=
    if den ≤ num then (Nat.toDigits 10 (num / den)).length
    else 1 - ((List.range 400).find? fun j => den ≤ num * 10 ^ j).getD 0
  let exponent := places - n
  let digits := roundedQuotient (num * 10 ^ (-exponent).toNat) (den * 10 ^ exponent.toNat)
  if digits = 10 ^ n then (10 ^ (n - 1), exponent + 1) else (digits, exponent)

/-- The fewest digits from which a float is read back. -/
def shortestDigits (f : Float) (num den : Nat) : Nat × Int :=
  let candidates := (List.range 17).map fun n => significant num den (n + 1)
  (candidates.find? fun c => Float.ofScientific c.1 (c.2 < 0) c.2.natAbs == f.abs).getD
    (significant num den 17)

def padded (width : Nat) (digits : List Char) : List Char :=
  List.replicate (width - digits.length) '0' ++ digits

def decimalText (digits : Nat) (exponent : Int) : Fmt → List Char
  | .f =>
    if 0 ≤ exponent then Nat.toDigits 10 (digits * 10 ^ exponent.toNat)
    else
      let k := (-exponent).toNat
      Nat.toDigits 10 (digits / 10 ^ k) ++ '.' :: padded k (Nat.toDigits 10 (digits % 10 ^ k))
  | .e =>
    let text := Nat.toDigits 10 digits
    let exponent := exponent + (text.length - 1 : Nat)
    text.take 1 ++ (if text.length = 1 then [] else '.' :: text.tail) ++
      ['e', if exponent < 0 then '-' else '+'] ++ padded 2 (Nat.toDigits 10 exponent.natAbs)

def signText : Float.Model.UnpackedFloat.Sign → List Char
  | .positive => []
  | .negative => ['-']

/-- `AppendFloat` of package `strconv`. -/
def shortestFloat : Strconv where
  appendFloat f fmt :=
    encode <|
      match f.toModel.unpack with
      | .notANumber => "NaN".toList
      | .infinity .positive => "+Inf".toList
      | .infinity .negative => "-Inf".toList
      | .zero sign => signText sign ++ decimalText 0 0 fmt
      | .finite sign m e _ =>
        let (digits, exponent) := shortestDigits f (m * 2 ^ e.toNat) (2 ^ (-e).toNat)
        signText sign ++ decimalText digits exponent fmt

theorem responses_faithful_sharedTime :
    let vector : Vector := some
      [⟨⟨1435781430781, 0.1⟩, [⟨"__name__", "a<b"⟩]⟩, ⟨⟨1435781430781, 1 / 0⟩, []⟩]
    let matrix : Matrix := some
      [⟨[⟨"job", "x"⟩], some [⟨-1500, 1e22⟩, ⟨1435781430000, -2⟩]⟩, ⟨[], none⟩]
    pointContent shortestFloat ⟨1435781430781, 0.1⟩ = ("1435781430.781".toList, "0.1".toList) ∧
      Faithful (marshalVectorResponse neverFails shortestFloat vector [[0xFF]])
        (naiveVectorResponse shortestFloat vector [[0xFF]])
        (responseContent "vector" (vector.elems.map (sampleContent shortestFloat)) [[0xFF]]) ∧
      Faithful (marshalMatrixResponse neverFails shortestFloat matrix [[0xFF]])
        (naiveMatrixResponse shortestFloat matrix [[0xFF]])
        (responseContent "matrix" (matrix.elems.map (seriesContent shortestFloat)) [[0xFF]]) := by
  have hprints : ∀ t v, isNumber (chars (shortestFloat.appendFloat (seconds t)
          (jsonFmt (seconds t)))) = true ∧
        (shortestFloat.appendFloat (seconds t) (jsonFmt (seconds t))).length ≤ 64 ∧
        ((shortestFloat.appendFloat v .f).all fun b => b < 128 ∧ Plain (asciiChar b)) = true →
      shortestFloat.Prints ⟨t, v⟩ := by
    rintro t v ⟨hnumber, hlength, hplain⟩
    exact ⟨hnumber, hlength, fun b hb => of_decide_eq_true (List.all_eq_true.mp hplain b hb)⟩
  intro vector matrix
  refine ⟨by decide +kernel, responses_faithful shortestFloat vector 1435781430781 ?_ ?_ matrix ?_
    [[0xFF]]⟩
  · refine List.forall_mem_cons.mpr ⟨?_, List.forall_mem_singleton.mpr ?_⟩
    · exact hprints _ _ (by decide +kernel)
    · exact hprints _ _ (by decide +kernel)
  · exact List.forall_mem_cons.mpr ⟨rfl, List.forall_mem_singleton.mpr rfl⟩
  · refine List.forall_mem_cons.mpr
      ⟨List.forall_mem_cons.mpr ⟨?_, List.forall_mem_singleton.mpr ?_⟩,
        List.forall_mem_singleton.mpr (List.forall_mem_nil _)⟩
    · exact hprints _ _ (by decide +kernel)
    · exact hprints _ _ (by decide +kernel)

end TimescalePrometheus.Api.Marshal
