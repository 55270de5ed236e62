import TimescalePrometheus.Ingest.CopierSteps
import TimescalePrometheus.Ingest.Ingestion
import TimescalePrometheus.Sql.Compression

/-!
A copier whose insert meets a compressed chunk calls `decompress_chunks_after` with the
smallest time of the batch and tries once more.
-/

namespace TimescalePrometheus.Ingest.Recovery

open Sql.Tables Sql.Retention Sql.ChunkLayout Sql.Compression Ingest.Samples
open Ingest.Samples.SampleInfoIterator Ingest.SeriesIds Ingest.Pipeline Ingest.CopierSteps
open Ingest.Ingestion

/-- What the database answers if a row falls in a compressed chunk. -/
def refusal : Err := .pg (notPermitted ++ " on chunk")

/-- `exec` is any other error of the statement. -/
def doInsert (exec : Option Err) (newChunk : Int → Chunk) (req : CopyRequest) (h : Hypertable) :
    Except Panic (Option Err × CopyRequest × Hypertable) :=
  match rowsOf req with
  | .error p => .error p
  | .ok (rows, req) =>
    match exec, h.insert newChunk (rows.map toDataRow) with
    | some err, _ => .ok (some err, req, h)
    | none, none => .ok (some refusal, req, h)
    | none, some h => .ok (none, req, h)

/-- What goes wrong while chunks are decompressed. -/
structure Faults where
  delayCompressionJob : Option Err := none
  decompressChunksAfter : List (Option Err) := []

/-- From the least time of the batch on. -/
def decompressChunks (faults : Faults) (pending : PendingBuffer) (h : Hypertable) :
    Option Err × Hypertable :=
  -- milliseconds become microseconds
  let minTime := pending.batch.minSeen * 1000
  match faults.delayCompressionJob with
  | some err => (some err, h)
  | none => h.decompressChunksAfter faults.decompressChunksAfter minTime

/-- Only for rows in compressed chunks. -/
def tryRecovery (faults : Faults) (req : CopyRequest) (err : Err) (h : Hypertable) :
    Option Err × CopyRequest × Hypertable :=
  if recoverable err then
    match decompressChunks faults req.data h with
    | (some _, h) => (some err, req, h)
    | (none, h) =>
      (none, { req with data := { req.data with batch := req.data.batch.resetPosition } }, h)
  else (some err, req, h)

/-- One more attempt after a recovery. -/
def insertErrorFallback (faults : Faults) (exec : Option Err) (newChunk : Int → Chunk)
    (req : CopyRequest) (err : Err) (h : Hypertable) :
    Except Panic (Option Err × CopyRequest × Hypertable) :=
  match tryRecovery faults req err h with
  | (some err, req, h) => .ok (some err, req, h)
  | (none, req, h) => doInsert exec newChunk req h

theorem minSeen_next (t : SampleInfoIterator) : t.next.2.minSeen = t.minSeen := by
  simp only [next]
  split
  · split <;> rfl
  · rfl

theorem minSeen_values {t u : SampleInfoIterator} {row : Row} (h : t.values = some (row, u)) :
    u.minSeen = min t.minSeen row.timestamp := by
  rw [values, Option.bind_eq_bind, Option.bind_eq_some_iff] at h
  obtain ⟨info, -, h⟩ := h
  dsimp only at h
  split_ifs at h
  · cases h
  · rw [Option.bind_eq_bind, Option.bind_eq_some_iff] at h
    obtain ⟨sample, -, h⟩ := h
    cases h
    rfl

theorem minSeen_drain {fuel : Nat} {t u : SampleInfoIterator} {rows : List Row}
    (h : drain fuel t = some (rows, u)) :
    u.minSeen = (rows.map (·.timestamp)).foldl min t.minSeen := by
  induction fuel generalizing t rows with
  | zero => cases h
  | succ fuel ih =>
    rw [drain] at h
    split at h
    · simp only [Option.bind_eq_bind, Option.bind_eq_some_iff, Option.pure_def,
        Option.some.injEq, Prod.mk.injEq, Prod.exists] at h
      obtain ⟨row, v, hvalues, rest, w, hrest, rfl, rfl⟩ := h
      rw [ih hrest, minSeen_values hvalues, minSeen_next, List.map_cons, List.foldl_cons]
    · cases h
      exact minSeen_next t

/-- All rows of the batch of a request. -/
def allRows (req : CopyRequest) : List Row := req.data.batch.sampleInfos.flatMap (·.rows)

theorem minSeen_rowsOf {req req' : CopyRequest} (h : AtStart req.data.batch) {rows : List Row}
    (hrows : rowsOf req = .ok (rows, req')) {minTime : Int}
    (hmin : (rows.map (·.timestamp)).min? = some minTime) (hint64 : minTime < 2 ^ 63) :
    req'.data.batch.minSeen = minTime := by
  unfold rowsOf at hrows
  split at hrows
  · cases hrows
  · rename_i rows' batch hdrain
    split_ifs at hrows
    cases hrows
    have hstart : req.data.batch.minSeen = 2 ^ 63 - 1 := by
      rw [← h]
      rfl
    obtain ⟨hmem, hle⟩ := List.min?_eq_some_iff.mp hmin
    have hfold : ((2 ^ 63 - 1 : Int) :: rows.map (·.timestamp)).min? = some minTime := by
      refine List.min?_eq_some_iff.mpr ⟨List.mem_cons_of_mem _ hmem, ?_⟩
      refine List.forall_mem_cons.mpr ⟨by omega, hle⟩
    rw [List.min?_cons'] at hfold
    rw [minSeen_drain hdrain, hstart]
    exact Option.some.inj hfold

section Retry

variable {newChunk : Int → Chunk} {req : CopyRequest} {h : Hypertable}

theorem doInsert_eq (hstart : AtStart req.data.batch) (newChunk : Int → Chunk) (h : Hypertable) :
    ∃ req', rowsOf req = .ok (allRows req, req') ∧
      req'.data.batch.sampleInfos = req.data.batch.sampleInfos ∧
      ((∃ h', (∀ row ∈ allRows req, h.isCompressedAt (row.timestamp * 1000) = false) ∧
          doInsert none newChunk req h = .ok (none, req', h')) ∨
        ((∃ row ∈ allRows req, h.isCompressedAt (row.timestamp * 1000) = true) ∧
          doInsert none newChunk req h = .ok (some refusal, req', h))) := by
  obtain ⟨req', hrows, -, -, hinfos⟩ := rowsOf_eq hstart
  refine ⟨req', hrows, hinfos, ?_⟩
  simp only [doInsert, hrows]
  by_cases hrefused : ((allRows req).map toDataRow).any fun row => h.isCompressedAt row.time
  · refine .inr ⟨by simpa [toDataRow] using hrefused, ?_⟩
    have hinsert : h.insert newChunk ((allRows req).map toDataRow) = none := if_pos hrefused
    rw [allRows] at hinsert
    rw [hinsert]
  · refine .inl ?_
    have hinsert : h.insert newChunk ((allRows req).map toDataRow) = some _ := if_neg hrefused
    rw [allRows] at hinsert
    rw [hinsert]
    refine ⟨_, ?_, rfl⟩
    simpa [toDataRow] using hrefused

theorem tryRecovery_eq {faults : Faults} {err : Err} {req' : CopyRequest} {h' : Hypertable}
    (hrecovered : tryRecovery faults req err h = (none, req', h')) :
    req'.data.batch = req.data.batch.resetPosition ∧
      h.decompressChunksAfter faults.decompressChunksAfter (req.data.batch.minSeen * 1000) =
        (none, h') := by
  unfold tryRecovery decompressChunks at hrecovered
  split_ifs at hrecovered
  case neg => cases hrecovered
  cases hdelay : faults.delayCompressionJob with
  | some err =>
    rw [hdelay] at hrecovered
    cases hrecovered
  | none =>
    rw [hdelay] at hrecovered
    dsimp only at hrecovered
    split at hrecovered
    · cases hrecovered
    · rename_i hdecompressed
      cases hrecovered
      exact ⟨rfl, hdecompressed⟩

/-- The chunks that hold rows of the batch are open, the insert of the fallback goes
through, and the chunks that end at or before the smallest time are what they were. -/
structure Covered (newChunk : Int → Chunk) (faults : Faults) (before after : Hypertable)
    (req : CopyRequest) (minTime : Int) : Prop where
  decompressed : ∀ row ∈ allRows req, after.isCompressedAt (row.timestamp * 1000) = false
  inserted : ∃ req' written,
    insertErrorFallback faults none newChunk req refusal before = .ok (none, req', written)
  earlier : ∀ chunk ∈ before.table.chunks, chunk.rangeEnd ≤ minTime * 1000 →
    (chunk ∈ after.compressed ↔ chunk ∈ before.compressed)

/-- A batch is refused and the recovery succeeds. The retry is covered exactly if no
compressed chunk ends at or before the smallest time of the batch and the compressed chunks
with rows of the batch start no later than that. -/
theorem tryRecovery_covers_iff {minTime : Int} {req₁ req₂ : CopyRequest} {h₁ h₂ : Hypertable}
    {faults : Faults} (hstart : AtStart req.data.batch)
    (hmin : ((allRows req).map (·.timestamp)).min? = some minTime) (hint64 : minTime < 2 ^ 63)
    (hrefused : doInsert none newChunk req h = .ok (some refusal, req₁, h₁))
    (hrecovered : tryRecovery faults req₁ refusal h₁ = (none, req₂, h₂)) :
    Covered newChunk faults h₁ h₂ req₁ minTime ↔
      ∀ chunk ∈ h.compressed, minTime * 1000 < chunk.rangeEnd ∧
        ((∃ row ∈ allRows req, Chunk.contains chunk (row.timestamp * 1000) = true) →
          chunk.rangeStart ≤ minTime * 1000) := by
  obtain ⟨req', hrows, hinfos, ⟨h', -, hok⟩ | ⟨-, hrefused'⟩⟩ := doInsert_eq hstart newChunk h
  · rw [hok] at hrefused
    cases hrefused
  · rw [hrefused'] at hrefused
    cases hrefused
    obtain ⟨hreset, hcall⟩ := tryRecovery_eq hrecovered
    rw [minSeen_rowsOf hstart hrows hmin hint64] at hcall
    have hsame : allRows req₁ = allRows req := congrArg (List.flatMap SamplesInfo.rows) hinfos
    have hsame₂ : allRows req₂ = allRows req₁ := by
      rw [allRows, hreset]
      rfl
    have hstart₂ : AtStart req₂.data.batch := by
      rw [hreset]
      rfl
    constructor
    · intro hcovered chunk hchunk
      refine ⟨(Hypertable.earlier_unchanged_iff hcall).mp hcovered.earlier chunk hchunk, ?_⟩
      rintro ⟨row, hrow, hcontains⟩
      by_contra hlate
      have hclosed := (Hypertable.isCompressedAt_decompressChunksAfter hcall).mpr
        ⟨chunk, hchunk, not_le.mp hlate, hcontains⟩
      rw [hcovered.decompressed row (hsame ▸ hrow)] at hclosed
      cases hclosed
    · intro hcondition
      have hopen : ∀ row ∈ allRows req₁, h₂.isCompressedAt (row.timestamp * 1000) = false := by
        intro row hrow
        refine Bool.eq_false_iff.mpr fun hclosed => ?_
        obtain ⟨chunk, hchunk, hlate, hcontains⟩ :=
          (Hypertable.isCompressedAt_decompressChunksAfter hcall).mp hclosed
        exact absurd ((hcondition chunk hchunk).2 ⟨row, hsame ▸ hrow, hcontains⟩)
          (not_le.mpr hlate)
      refine ⟨hopen, ?_, (Hypertable.earlier_unchanged_iff hcall).mpr
        fun chunk hchunk => (hcondition chunk hchunk).1⟩
      rw [insertErrorFallback, hrecovered]
      obtain ⟨req₃, -, -, ⟨written, -, hok⟩ | ⟨⟨row, hrow, hclosed⟩, -⟩⟩ :=
        doInsert_eq hstart₂ newChunk h₂
      · exact ⟨req₃, written, hok⟩
      · rw [hopen row (hsame₂ ▸ hrow)] at hclosed
        cases hclosed

end Retry

/-- Two chunks of ten seconds, both compressed. -/
def compressedTable : Hypertable where
  table := ⟨[⟨0, 10000000⟩, ⟨10000000, 20000000⟩], []⟩
  compressed := [⟨0, 10000000⟩, ⟨10000000, 20000000⟩]
  laid := ⟨by decide, by decide, by simp⟩
  compressed_mem := by simp

def requestOf (samples : List Sample) (hne : samples ≠ []) : CopyRequest where
  data := ⟨[], { sampleInfos := [⟨⟨"cpu", [], ""⟩, 1, samples, hne⟩] }⟩
  table := "cpu"

def withinChunk : CopyRequest := requestOf [⟨7000, 0⟩, ⟨5000, 0⟩] (by simp)

theorem covered_withinChunk : ∃ req₁ h₁ req₂ h₂,
    doInsert none (fun _ => ⟨0, 0⟩) withinChunk compressedTable = .ok (some refusal, req₁, h₁) ∧
      tryRecovery {} req₁ refusal h₁ = (none, req₂, h₂) ∧
      Covered (fun _ => ⟨0, 0⟩) {} h₁ h₂ req₁ 5000 := by
  have hrun : ∃ req₁ h₁ req₂ h₂,
      doInsert none (fun _ => ⟨0, 0⟩) withinChunk compressedTable =
          .ok (some refusal, req₁, h₁) ∧
        tryRecovery {} req₁ refusal h₁ = (none, req₂, h₂) := ⟨_, _, _, _, rfl, rfl⟩
  obtain ⟨req₁, h₁, req₂, h₂, hrefused, hrecovered⟩ := hrun
  refine ⟨req₁, h₁, req₂, h₂, hrefused, hrecovered, ?_⟩
  have hstart : AtStart withinChunk.data.batch := rfl
  refine (tryRecovery_covers_iff hstart rfl (by decide) hrefused hrecovered).mpr ?_
  decide

def acrossChunks : CopyRequest := requestOf [⟨5000, 0⟩, ⟨15000, 0⟩] (by simp)

/-- The second chunk starts after the smallest time and stays compressed. -/
theorem not_covered_acrossChunks : ∃ req₁ h₁ req₂ h₂ req₃ h₃,
    doInsert none (fun _ => ⟨0, 0⟩) acrossChunks compressedTable = .ok (some refusal, req₁, h₁) ∧
      tryRecovery {} req₁ refusal h₁ = (none, req₂, h₂) ∧
      h₂.compressed = [⟨10000000, 20000000⟩] ∧
      insertErrorFallback {} none (fun _ => ⟨0, 0⟩) req₁ refusal h₁ =
        .ok (some refusal, req₃, h₃) :=
  ⟨_, _, _, _, _, _, rfl, rfl, rfl, rfl⟩

end TimescalePrometheus.Ingest.Recovery
