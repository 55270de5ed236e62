import TimescalePrometheus.Ingest.Ingestion
import TimescalePrometheus.Ingest.ParseData
import TimescalePrometheus.Ingest.Pipeline

/-!
The map that `parseData` returns, as the input of the pipeline and of its routines.
-/

namespace TimescalePrometheus.Ingest.ParsedRows

open Lib.Grouping ParseData
open Lib.LengthPrefixed (Bytes)
open WriteRequests (TimeSeries)

/-- The texts that stand for the strings of Go, which are bytes. -/
structure Reading where
  text : Bytes → String
  injective : Function.Injective text

namespace Reading

variable (r : Reading)

/-- The labels object, as the pipeline has it. -/
def labels (l : LabelInterner.Labels) : Samples.Labels :=
  ⟨r.text l.metricName, (l.names.zip l.values).map (Prod.map r.text r.text), r.text l.str⟩

/-- None without samples; `parseData` skips these series. -/
def info? (si : SamplesInfo) : Option Samples.SamplesInfo :=
  if h : si.samples = [] then none
  else some ⟨r.labels si.labels, si.seriesID,
    si.samples.map fun s => ⟨s.timestamp.toInt, s.value⟩, by simpa using h⟩

/-- What the map holds under a metric. -/
def entry (e : Bytes × List SamplesInfo) : String × List Samples.SamplesInfo :=
  (r.text e.1, e.2.filterMap r.info?)

theorem sum_filterMap_info? (infos : List SamplesInfo) :
    ((infos.filterMap r.info?).map fun info => info.samples.length).sum =
      (infos.map fun si => si.samples.length).sum := by
  induction infos with
  | nil => rfl
  | cons si infos ih =>
    by_cases h : si.samples = []
    · simp [info?, h, ih]
    · simp [info?, h, ih]

theorem sum_entry (order : List (Bytes × List SamplesInfo)) :
    (((order.map r.entry).flatMap Prod.snd).map fun info => info.samples.length).sum =
      numRows order := by
  rw [numRows_eq, ← sum_filterMap_info? r, List.filterMap_flatMap, List.flatMap_map]
  rfl

end Reading

variable {S : SliceSort} {interners : Nat → Interner × Interner} {tts : List TimeSeries}
  {data : Groups Bytes SamplesInfo}

theorem entry_of_mem (r : Reading) (h : (parseData S interners tts).dataSamples = .ok data)
    {e : Bytes × List SamplesInfo} (he : e ∈ data.entries) :
    (r.entry e).2 ≠ [] ∧ ∀ info ∈ (r.entry e).2,
      info.labels.metricName = r.text e.1 ∧ info.seriesID = -1 := by
  constructor
  · obtain ⟨si, hsi⟩ := List.exists_mem_of_ne_nil _ (data.nonempty e he)
    obtain ⟨t, -, hsamples, -, rfl⟩ := exists_series_of_mem h he hsi
    refine List.ne_nil_of_mem (List.mem_filterMap.mpr ⟨_, hsi, dif_neg hsamples⟩)
  · intro info hinfo
    obtain ⟨si, hsi, hinfo⟩ := List.mem_filterMap.mp hinfo
    obtain ⟨t, -, hsamples, hname, rfl⟩ := exists_series_of_mem h he hsi
    cases (dif_neg hsamples).symm.trans hinfo
    exact ⟨congrArg r.text hname, rfl⟩

/-- In any order the map is an input of the pipeline: what it has for a metric is what the
metric's routine may receive, the pipeline counts the rows that `parseData` has counted, and the
text that a series is cached under determines its labels. -/
theorem parseData_feeds (r : Reading)
    (h : (parseData S interners tts).dataSamples = .ok data)
    {order : List (Bytes × List SamplesInfo)} (horder : order.Perm data.entries) :
    ∃ rows : Pipeline.Rows, rows.entries = order.map r.entry ∧
      (∀ e ∈ rows.entries, ∃ d : Ingestion.Data e.1, d.infos = e.2) ∧
      ((rows.entries.flatMap Prod.snd).map fun info => info.samples.length).sum =
        (parseData S interners tts).rows ∧
      ∀ si ∈ data.elements, ∀ si' ∈ data.elements,
        (r.labels si.labels).str = (r.labels si'.labels).str →
          r.labels si.labels = r.labels si'.labels := by
  have hentry : ∀ e ∈ order.map r.entry, e.2 ≠ [] ∧ ∀ info ∈ e.2,
      info.labels.metricName = e.1 ∧ info.seriesID = -1 := by
    intro e he
    obtain ⟨e, hmem, rfl⟩ := List.mem_map.mp he
    exact entry_of_mem r h (horder.subset hmem)
  have hnodup : ((order.map r.entry).map Prod.fst).Nodup := by
    rw [List.map_map, show Prod.fst ∘ r.entry = r.text ∘ Prod.fst from rfl, ← List.map_map]
    exact ((horder.map Prod.fst).nodup_iff.mpr data.nodup).map r.injective
  refine ⟨⟨order.map r.entry, hnodup, fun e he => (hentry e he).1⟩, rfl, ?_, ?_, ?_⟩
  · exact fun e he => ⟨⟨e.2, fun info hinfo => ((hentry e he).2 info hinfo).1,
      fun info hinfo => ((hentry e he).2 info hinfo).2⟩, rfl⟩
  · exact (r.sum_entry order).trans (numRows_of_ok h horder)
  · intro si hsi si' hsi' hstr
    rw [labels_eq_of_str h si hsi si' hsi' (r.injective hstr)]

end TimescalePrometheus.Ingest.ParsedRows
