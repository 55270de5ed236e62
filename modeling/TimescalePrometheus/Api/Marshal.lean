import TimescalePrometheus.Lib.Json
import TimescalePrometheus.Lib.Utf8

/-!
The writer of `marshal.go`, which puts a query response together piece by piece, with its
buffers, its escapes and the error that it keeps. Strings are byte strings; labels are valid
UTF-8 by their type.
-/

namespace TimescalePrometheus.Api.Marshal

open Lib.Json Lib.Utf8

/-- `float64(t) / 1000` for a time in milliseconds. -/
def seconds (t : Int64) : Float := Float.ofInt t.toInt / 1000

/-- The formats of `AppendFloat` in use. -/
inductive Fmt where
  | f
  | e
deriving DecidableEq

/-- ASCII bytes as characters. -/
def chars (b : Bytes) : List Char := b.map asciiChar

/-- `AppendFloat` to an empty slice, with the shortest precision that reads back. -/
structure Strconv where
  appendFloat : Float → Fmt → Bytes

/-- What an `io.Writer` that has received `out` does with the next bytes: it takes all of them,
or returns an error after some of them. -/
abbrev Writer := Bytes → Bytes → Option (Nat × String)

/-- A writer that takes everything. -/
def neverFails : Writer := fun _ _ => none

/-- `out` is what the writer has received. -/
structure ErrorWrapper where
  out : Bytes := []
  err : Option String := none
  jsonScratch : Bytes := List.replicate 64 0
  floatScratch : Bytes := []

variable (writer : Writer)

/-- One call of the writer below. -/
def write (w : ErrorWrapper) (b : Bytes) : ErrorWrapper :=
  match writer w.out b with
  | none => { w with out := w.out ++ b }
  | some (n, err) => { w with out := w.out ++ b.take n, err := some err }

def writeEach (w : ErrorWrapper) : List Bytes → ErrorWrapper
  | [] => w
  | s :: strings =>
    let w := write writer w s
    if w.err.isSome then w else writeEach w strings

/-- Nothing is written after an error. -/
def writeStrings (w : ErrorWrapper) (strings : List Bytes) : ErrorWrapper :=
  if w.err.isSome then w else writeEach writer w strings

def writeBytes (w : ErrorWrapper) (b : Bytes) : ErrorWrapper :=
  if w.err.isSome then w else write writer w b

/-- The bytes of a literal. -/
def lit (s : String) : Bytes := encode s.toList

def writeFloat (strconv : Strconv) (w : ErrorWrapper) (f : Float) : ErrorWrapper :=
  let b := strconv.appendFloat f .f
  writeBytes writer { w with floatScratch := b } b

/-- The choice of format of encoding/json. -/
def jsonFmt (f : Float) : Fmt :=
  if f.abs != 0 && (f.abs < 1e-6 || f.abs >= 1e21) then .e else .f

/-- The clean-up of `e-09` to `e-9`: the text, and the bytes that it leaves in its buffer. -/
def cleanUp (fmt : Fmt) (b : Bytes) : Bytes × Bytes :=
  match fmt, b.reverse with
  | .e, d :: 48 :: 45 :: 101 :: rest =>
    let text := (d :: 45 :: 101 :: rest).reverse
    (text, text ++ [d])
  | _, _ => (b, b)

/-- A float as encoding/json writes it. -/
def jsonFloat (strconv : Strconv) (f : Float) : Bytes × Bytes :=
  cleanUp (jsonFmt f) (strconv.appendFloat f (jsonFmt f))

/-- `AppendFloat` appends in the scratch buffer as long as the text fits into it. -/
def writeJsonFloat (strconv : Strconv) (w : ErrorWrapper) (f : Float) : ErrorWrapper × Nat :=
  let (text, buffer) := jsonFloat strconv f
  let jsonScratch :=
    if buffer.length ≤ 64 then buffer ++ w.jsonScratch.drop buffer.length else w.jsonScratch
  (writeBytes writer { w with jsonScratch := jsonScratch } text, text.length)

/-- Writes the time of the last sample again. -/
def writeCachedJsonFloat (w : ErrorWrapper) (length : Nat) : ErrorWrapper :=
  writeBytes writer w (w.jsonScratch.take length)

def runeSelf : UInt8 := 0x80

def hex : Bytes := lit "0123456789abcdef"

/-- All ASCII bytes but the control characters, the double quote and the backslash. -/
def safeSet (b : UInt8) : Bool :=
  decide (0x20 ≤ b) && decide (b < runeSelf) && b != 0x22 && b != 0x5C

/-- The bytes of `safeSet` but the angle brackets and the ampersand. -/
def htmlSafeSet (b : UInt8) : Bool :=
  safeSet b && b != 0x26 && b != 0x3C && b != 0x3E

/-- Invalid bytes give the replacement rune. -/
def decodeRuneInString (s : Bytes) : Char × Nat :=
  match decodeRune s with
  | some c => (c, c.utf8Size)
  | none => (replacement, 1)

/-- `if start < i { self.WriteStrings(s[start:i]) }` -/
def flush (w : ErrorWrapper) (chunk : Bytes) : ErrorWrapper :=
  if chunk = [] then w else writeStrings writer w [chunk]

/-- A byte below `RuneSelf` that is not safe. -/
def writeEscape (w : ErrorWrapper) (b : UInt8) : ErrorWrapper :=
  if b = 0x5C then writeStrings writer w [lit "\\\\"]
  else if b = 0x22 then writeStrings writer w [lit "\\\""]
  else if b = 0x0A then writeStrings writer w [lit "\\n"]
  else if b = 0x0D then writeStrings writer w [lit "\\r"]
  else if b = 0x09 then writeStrings writer w [lit "\\t"]
  else
    writeBytes writer (writeStrings writer w [lit "\\u00"])
      [hex.getD (b >>> 4).toNat 0, hex.getD (b &&& 0xF).toNat 0]

/-- The loop of `WriteEscapedString` with `s[start:i]` and `s[i:]` for its indices. -/
def escapeLoop (escapeHTML : Bool) (w : ErrorWrapper) (chunk : Bytes) : Bytes → ErrorWrapper
  | [] => flush writer w chunk
  | b :: rest =>
    if b < runeSelf then
      if htmlSafeSet b || (!escapeHTML && safeSet b) then
        escapeLoop escapeHTML w (chunk ++ [b]) rest
      else
        escapeLoop escapeHTML (writeEscape writer (flush writer w chunk) b) [] rest
    else
      let (c, size) := decodeRuneInString (b :: rest)
      if c = replacement ∧ size = 1 then
        escapeLoop escapeHTML (writeStrings writer (flush writer w chunk) [lit "\\ufffd"]) []
          (rest.drop (size - 1))
      else if c = Char.ofNat 0x2028 ∨ c = Char.ofNat 0x2029 then
        let w := writeStrings writer (flush writer w chunk) [lit "\\u202"]
        escapeLoop escapeHTML (writeBytes writer w [hex.getD (c.toNat &&& 0xF) 0]) []
          (rest.drop (size - 1))
      else
        escapeLoop escapeHTML w (chunk ++ b :: rest.take (size - 1)) (rest.drop (size - 1))
termination_by s => s.length
decreasing_by all_goals simp only [List.length_cons, List.length_drop]; omega

def writeEscapedString (w : ErrorWrapper) (s : Bytes) (escapeHTML : Bool) : ErrorWrapper :=
  if w.err.isSome then w else escapeLoop writer escapeHTML w [] s

/-- `labels.Label`. -/
structure Label where
  name : String
  value : String

/-- `promql.Point`, in milliseconds. -/
structure Point where
  t : Int64
  v : Float

/-- What is assumed of the texts of a point: the time comes out as a JSON number that fits the
scratch buffer, the value as ASCII that needs no escapes. -/
structure Strconv.Prints (strconv : Strconv) (p : Point) : Prop where
  time_number :
    isNumber (chars (strconv.appendFloat (seconds p.t) (jsonFmt (seconds p.t)))) = true
  time_length : (strconv.appendFloat (seconds p.t) (jsonFmt (seconds p.t))).length ≤ 64
  value_plain : ∀ b ∈ strconv.appendFloat p.v .f, b < 128 ∧ Plain (asciiChar b)

/-- `promql.Sample`. -/
structure Sample where
  point : Point
  metric : List Label

/-- A slice is nil or has elements. -/
abbrev Slice (α : Type) := Option (List α)

/-- A nil slice has no elements. -/
def Slice.elems {α : Type} (s : Slice α) : List α := s.getD []

/-- `promql.Series`. -/
structure Series where
  metric : List Label
  points : Slice Point

abbrev Vector := Slice Sample

abbrev Matrix := Slice Series

/-- `open`, without its comma for the first element. -/
def opening (s : String) (i : Nat) : Bytes :=
  if i = 0 then encode s.toList.tail else lit s

def marshalLabel (w : ErrorWrapper) (label : Label × Nat) : ErrorWrapper :=
  let w := writeStrings writer w [opening ",\"" label.2]
  let w := writeEscapedString writer w (encode label.1.name.toList) true
  let w := writeStrings writer w [lit "\":\""]
  let w := writeEscapedString writer w (encode label.1.value.toList) true
  writeStrings writer w [lit "\""]

def marshalLabels (w : ErrorWrapper) (labels : List Label) : ErrorWrapper :=
  labels.zipIdx.foldl (marshalLabel writer) w

def marshalCommonHeader (w : ErrorWrapper) : ErrorWrapper :=
  writeStrings writer w [lit "\x7b\"status\":\"success\",\"data\":"]

def marshalWarning (w : ErrorWrapper) (warning : Bytes × Nat) : ErrorWrapper :=
  let w := writeStrings writer w [opening ",\"" warning.2]
  let w := writeEscapedString writer w warning.1 true
  writeStrings writer w [lit "\""]

/-- The warnings, if there are any. -/
def marshalCommonFooter (w : ErrorWrapper) (warnings : List Bytes) : ErrorWrapper :=
  let w :=
    if warnings.length ≠ 0 then
      let w := writeStrings writer w [lit ",\"warnings\":["]
      let w := warnings.zipIdx.foldl (marshalWarning writer) w
      writeStrings writer w [lit "]"]
    else w
  writeStrings writer w [lit "\x7d\n"]

variable (strconv : Strconv)

def marshalPoint (w : ErrorWrapper) (point : Point × Nat) : ErrorWrapper :=
  let w := writeStrings writer w [opening ",[" point.2]
  let (w, _) := writeJsonFloat writer strconv w (seconds point.1.t)
  let w := writeStrings writer w [lit ",\""]
  let w := writeFloat writer strconv w point.1.v
  writeStrings writer w [lit "\"]"]

def marshalSeries (w : ErrorWrapper) (series : Series × Nat) : ErrorWrapper :=
  let w := writeStrings writer w [opening ",\x7b\"metric\":\x7b" series.2]
  let w := marshalLabels writer w series.1.metric
  let w := writeStrings writer w [lit "\x7d,\"values\":["]
  let w := series.1.points.elems.zipIdx.foldl (marshalPoint writer strconv) w
  writeStrings writer w [lit "]\x7d"]

def marshalMatrixData (w : ErrorWrapper) (data : Matrix) : ErrorWrapper :=
  let w := writeStrings writer w
    [lit "\x7b\"resultType\":\"", lit "matrix", lit "\",\"result\":["]
  let w := data.elems.zipIdx.foldl (marshalSeries writer strconv) w
  writeStrings writer w [lit "]\x7d"]

/-- The time of a sample, written for the first one and taken from the scratch buffer then. -/
def marshalTime (w : ErrorWrapper) (floatLen : Nat) (t : Int64) : ErrorWrapper × Nat :=
  if floatLen = 0 then writeJsonFloat writer strconv w (seconds t)
  else (writeCachedJsonFloat writer w floatLen, floatLen)

/-- The loop of the vector carries the length of the first time along. -/
def marshalSample (s : ErrorWrapper × Nat) (sample : Sample × Nat) : ErrorWrapper × Nat :=
  let (w, floatLen) := s
  let w := writeStrings writer w [opening ",\x7b\"metric\":\x7b" sample.2]
  let w := marshalLabels writer w sample.1.metric
  let w := writeStrings writer w [lit "\x7d,\"value\":["]
  let (w, floatLen) := marshalTime writer strconv w floatLen sample.1.point.t
  let w := writeStrings writer w [lit ",\""]
  let w := writeFloat writer strconv w sample.1.point.v
  let w := writeStrings writer w [lit "\""]
  (writeStrings writer w [lit "]\x7d"], floatLen)

def marshalVectorData (w : ErrorWrapper) (data : Vector) : ErrorWrapper :=
  let w := writeStrings writer w
    [lit "\x7b\"resultType\":\"", lit "vector", lit "\",\"result\":["]
  let (w, _) := data.elems.zipIdx.foldl (marshalSample writer strconv) (w, 0)
  writeStrings writer w [lit "]\x7d"]

def marshalVectorResponse (data : Vector) (warnings : List Bytes) : ErrorWrapper :=
  let w := marshalCommonHeader writer {}
  let w := marshalVectorData writer strconv w data
  marshalCommonFooter writer w warnings

def marshalMatrixResponse (data : Matrix) (warnings : List Bytes) : ErrorWrapper :=
  let w := marshalCommonHeader writer {}
  let w := marshalMatrixData writer strconv w data
  marshalCommonFooter writer w warnings

end TimescalePrometheus.Api.Marshal
