import TimescalePrometheus.Ingest.LabelInterner
import TimescalePrometheus.Lib.Slices
import TimescalePrometheus.Lib.Wire

/-!
Write requests that are taken from a pool and decoded into once more.
-/

namespace TimescalePrometheus.Ingest.WriteRequests

open Lib.LengthPrefixed (Bytes)
open Lib.Runs Lib.Slices Lib.Wire

/-- `prompb.Label`. -/
structure Label where
  name : Bytes := []
  value : Bytes := []
  unrecognized : Bytes := []
  deriving DecidableEq

/-- `prompb.Sample`. -/
structure Sample where
  /-- The bits of the double. -/
  value : UInt64 := 0
  timestamp : Int64 := 0
  unrecognized : Bytes := []
  deriving DecidableEq

/-- `prompb.TimeSeries`. -/
structure TimeSeries where
  labels : Slice Label := {}
  samples : Slice Sample := {}
  unrecognized : Bytes := []
  deriving DecidableEq

/-- `prompb.WriteRequest`. -/
structure WriteRequest where
  timeseries : Slice TimeSeries := {}
  unrecognized : Bytes := []
  deriving DecidableEq

def Label.reset (_ : Label) : Label := {}

def Label.schema : Schema Label where
  message := "Label"
  field?
    | 1 => some (bytesField "Name" fun b m => { m with name := b })
    | 2 => some (bytesField "Value" fun b m => { m with value := b })
    | _ => none
  unrecognized b m := { m with unrecognized := m.unrecognized ++ b }

def Label.unmarshal : Bytes → Label → Label × Option WireError := Label.schema.unmarshal

def Sample.reset (_ : Sample) : Sample := {}

def Sample.schema : Schema Sample where
  message := "Sample"
  field?
    | 1 => some (fixed64Field "Value" fun v m => { m with value := v })
    | 2 => some (varintField "Timestamp" fun v m => { m with timestamp := v.toInt64 })
    | _ => none
  unrecognized b m := { m with unrecognized := m.unrecognized ++ b }

def Sample.unmarshal : Bytes → Sample → Sample × Option WireError := Sample.schema.unmarshal

/-- The slices keep their arrays. -/
def TimeSeries.reset (m : TimeSeries) : TimeSeries :=
  { labels := m.labels.truncate, samples := m.samples.truncate }

/-- The slice keeps its array. -/
def WriteRequest.reset (m : WriteRequest) : WriteRequest := { timeseries := m.timeseries.truncate }

section Decoders

-- how many slots more than it needs `append` gives to a slice that it moves
variable (grow : Nat → Nat)

def TimeSeries.schema : Schema TimeSeries where
  message := "TimeSeries"
  field?
    | 1 => some (messageField "Labels" fun b m =>
      let (labels, err) := m.labels.extend grow {} Label.reset (Label.unmarshal b)
      ({ m with labels }, err))
    | 2 => some (messageField "Samples" fun b m =>
      let (samples, err) := m.samples.extend grow {} Sample.reset (Sample.unmarshal b)
      ({ m with samples }, err))
    | _ => none
  unrecognized b m := { m with unrecognized := m.unrecognized ++ b }

def TimeSeries.unmarshal : Bytes → TimeSeries → TimeSeries × Option WireError :=
  (TimeSeries.schema grow).unmarshal

def WriteRequest.schema : Schema WriteRequest where
  message := "WriteRequest"
  field?
    | 1 => some (messageField "Timeseries" fun b m =>
      let (timeseries, err) :=
        m.timeseries.extend grow {} TimeSeries.reset (TimeSeries.unmarshal grow b)
      ({ m with timeseries }, err))
    | _ => none
  unrecognized b m := { m with unrecognized := m.unrecognized ++ b }

def WriteRequest.unmarshal : Bytes → WriteRequest → WriteRequest × Option WireError :=
  (WriteRequest.schema grow).unmarshal

end Decoders

def Label.toPair (l : Label) : LabelInterner.Label := ⟨l.name, l.value⟩

/-- `getStr` leaves its argument sorted, also if the text is too long. -/
def sortLabels (labels : List Label) : List Label :=
  if LabelInterner.sliceIsSorted (labels.map Label.toPair) then labels
  else labels.mergeSort fun a b => !LabelInterner.less b.toPair a.toPair

/-- The errors of `parseData`. -/
inductive ParseError
  | label (text : String)
  | noMetricName
  deriving DecidableEq

/-- One round of the loop of `parseData`. -/
def parseSeries (t : TimeSeries) : TimeSeries × Option ParseError :=
  if t.samples.elems.length = 0 then (t, none)
  else
    let t := { t with labels := { t.labels with elems := sortLabels t.labels.elems } }
    match LabelInterner.getStr (t.labels.elems.map Label.toPair) with
    | .error text => (t, some (.label text))
    | .ok (str, pairs) =>
      if (LabelInterner.newLabels str pairs).metricName = [] then (t, some .noMetricName)
      else ({ t with samples := {} }, none)

/-- Up to the first error. -/
def parseEach : List TimeSeries → List TimeSeries × Option ParseError
  | [] => ([], none)
  | t :: rest =>
    match parseSeries t with
    | (t, some err) => (t :: rest, some err)
    | (t, none) =>
      let (rest, err) := parseEach rest
      (t :: rest, err)

/-- The labels are cleared one by one. -/
def finishSeries (ts : TimeSeries) : TimeSeries where
  labels := { ts.labels with elems := ts.labels.elems.map fun _ => ({} : Label) }.truncate
  samples := ts.samples.truncate

/-- `FinishWriteRequest`. -/
def finishWriteRequest (wr : WriteRequest) : WriteRequest where
  timeseries := { wr.timeseries with elems := wr.timeseries.elems.map finishSeries }.truncate

/-- What the call leaves of the request; if it fails, the request is not finished. -/
def parseData (wr : WriteRequest) : WriteRequest × Option ParseError :=
  let (elems, err) := parseEach wr.timeseries.elems
  let wr := { wr with timeseries := { wr.timeseries with elems } }
  match err with
  | some err => (wr, some err)
  | none => (finishWriteRequest wr, none)

inductive Use
  | decode (body : Bytes)
  | parseData
  | finish

/-- One use of the request. -/
def step (grow : Nat → Nat) (wr : WriteRequest) : Use → WriteRequest
  | .decode body => (wr.reset.unmarshal grow body).1
  | .parseData => (parseData wr).1
  | .finish => finishWriteRequest wr

/-- A series without spare capacity. -/
structure Series where
  labels : List Label := []
  samples : List Sample := []
  unrecognized : Bytes := []
  deriving DecidableEq

/-- A request without spare capacity. -/
structure Request where
  series : List Series := []
  unrecognized : Bytes := []
  deriving DecidableEq

def TimeSeries.view (m : TimeSeries) : Series := ⟨m.labels.elems, m.samples.elems, m.unrecognized⟩

def WriteRequest.view (m : WriteRequest) : Request :=
  ⟨m.timeseries.elems.map TimeSeries.view, m.unrecognized⟩

theorem Label.reset_eq (m : Label) : m.reset = {} := rfl

theorem Sample.reset_eq (m : Sample) : m.reset = {} := rfl

theorem TimeSeries.view_reset (m : TimeSeries) : m.reset.view = TimeSeries.view {} := rfl

theorem WriteRequest.view_reset (m : WriteRequest) : m.reset.view = WriteRequest.view {} := rfl

/-- The decoder without slices: an element of a repeated field is decoded from nothing. -/
def Series.schema : Schema Series where
  message := "TimeSeries"
  field?
    | 1 => some (messageField "Labels" fun b m =>
      let (label, err) := Label.unmarshal b {}
      ({ m with labels := m.labels ++ [label] }, err))
    | 2 => some (messageField "Samples" fun b m =>
      let (sample, err) := Sample.unmarshal b {}
      ({ m with samples := m.samples ++ [sample] }, err))
    | _ => none
  unrecognized b m := { m with unrecognized := m.unrecognized ++ b }

def Request.schema : Schema Request where
  message := "WriteRequest"
  field?
    | 1 => some (messageField "Timeseries" fun b m =>
      let (series, err) := Series.schema.unmarshal b {}
      ({ m with series := m.series ++ [series] }, err))
    | _ => none
  unrecognized b m := { m with unrecognized := m.unrecognized ++ b }

variable (grow : Nat → Nat)

theorem TimeSeries.schema_views :
    Schema.Views TimeSeries.view (TimeSeries.schema grow) Series.schema where
  message := rfl
  field n := by
    simp only [TimeSeries.schema, Series.schema]
    split
    · refine .some (messageField_views "Labels" fun b m => ?_)
      obtain ⟨helems, herr⟩ := Slice.extend_zero grow {} Label.reset_eq (Label.unmarshal b) m.labels
      exact Prod.ext (congrArg (Series.mk · _ _) helems) herr
    · refine .some (messageField_views "Samples" fun b m => ?_)
      obtain ⟨helems, herr⟩ :=
        Slice.extend_zero grow {} Sample.reset_eq (Sample.unmarshal b) m.samples
      exact Prod.ext (congrArg (Series.mk _ · _) helems) herr
    · exact .none
  unrecognized _ _ := rfl

theorem WriteRequest.schema_views :
    Schema.Views WriteRequest.view (WriteRequest.schema grow) Request.schema where
  message := rfl
  field n := by
    simp only [WriteRequest.schema, Request.schema]
    split
    · refine .some (messageField_views "Timeseries" fun b m => ?_)
      obtain ⟨helems, herr⟩ := Slice.extend_view grow {} TimeSeries.view TimeSeries.view_reset
        ((TimeSeries.schema_views grow).unmarshal b) m.timeseries
      exact Prod.ext (congrArg (Request.mk · _) helems) herr
    · exact .none
  unrecognized _ _ := rfl

/-- Whatever the history of a request: to decode a body into it gives the error and the
series that a new request gives. -/
theorem unmarshal_recycled (uses : List Use) (body : Bytes) :
    let recycled := (run (step grow) {} uses).reset.unmarshal grow body
    let fresh := WriteRequest.unmarshal grow body {}
    recycled.2 = fresh.2 ∧ recycled.1.view.series = fresh.1.view.series := by
  intro recycled fresh
  have hviews := (WriteRequest.schema_views grow).unmarshal body
  have hsame : Prod.map WriteRequest.view id recycled = Prod.map WriteRequest.view id fresh := by
    calc Prod.map WriteRequest.view id recycled
        = Request.schema.unmarshal body (run (step grow) {} uses).reset.view := hviews _
      _ = Request.schema.unmarshal body (WriteRequest.view {}) := by
          rw [WriteRequest.view_reset]
      _ = Prod.map WriteRequest.view id fresh := (hviews {}).symm
  have herr := congrArg Prod.snd hsame
  have hseries := congrArg (fun result => result.1.series) hsame
  exact ⟨herr, hseries⟩

-- a label without value, decoded where one with a value was before
example : ((run (step fun _ => 0) {} [.decode [0x0A, 12, 0x0A, 6, 0x0A, 1, 97, 0x12, 1, 98,
      0x12, 2, 0x10, 5], .parseData, .finish]).reset.unmarshal (fun _ => 0)
      [0x0A, 5, 0x0A, 3, 0x0A, 1, 97]).1.view.series = [⟨[⟨[97], [], []⟩], [], []⟩] := by
  decide +kernel

end TimescalePrometheus.Ingest.WriteRequests
