import TimescalePrometheus.Sql.ChunkLayout

/-!
Compressed chunks. A hypertable refuses rows for them, and `decompress_chunks_after` opens
the ones it selects, one transaction for each.
-/

namespace TimescalePrometheus.Sql.Compression

open Sql.Tables Sql.Retention Sql.ChunkLayout

/-- The chunks of a table do not overlap, so a chunk is known by its range. -/
structure Hypertable where
  table : DataTable
  /-- The chunks whose `compressed_chunk_id` is not null. -/
  compressed : List Chunk
  laid : Laid table
  compressed_mem : ∀ chunk ∈ compressed, chunk ∈ table.chunks

theorem mem_chunks_insertDataRow (newChunk : Int → Chunk) (table : DataTable) (row : DataRow)
    {chunk : Chunk} (h : chunk ∈ table.chunks) :
    chunk ∈ (insertDataRow newChunk table row).chunks := by
  unfold insertDataRow
  split_ifs
  · exact h
  · exact h
  · exact List.mem_append_left _ h
  · exact h

theorem mem_chunks_insertDataRows (newChunk : Int → Chunk) (rows : List DataRow)
    {table : DataTable} {chunk : Chunk} (h : chunk ∈ table.chunks) :
    chunk ∈ (rows.foldl (insertDataRow newChunk) table).chunks := by
  induction rows generalizing table with
  | nil => exact h
  | cons row rows ih => exact ih (mem_chunks_insertDataRow newChunk table row h)

namespace Hypertable

def isCompressedAt (h : Hypertable) (time : Int) : Bool :=
  h.compressed.any fun chunk => Chunk.contains chunk time

/-- None if a row falls in a compressed chunk: then the statement writes nothing. -/
def insert (newChunk : Int → Chunk) (rows : List DataRow) (h : Hypertable) : Option Hypertable :=
  if rows.any fun row => h.isCompressedAt row.time then none
  else some
    { table := rows.foldl (insertDataRow newChunk) h.table
      compressed := h.compressed
      laid := h.laid.insertDataRows newChunk rows
      compressed_mem := fun chunk hchunk =>
        mem_chunks_insertDataRows newChunk rows (h.compressed_mem chunk hchunk) }

/-- `decompress_chunk`. -/
def decompressChunk (chunk : Chunk) (h : Hypertable) : Hypertable :=
  { h with
    compressed := h.compressed.filter (· ≠ chunk)
    compressed_mem := fun c hc => h.compressed_mem c (List.mem_of_mem_filter hc) }

variable {ε : Type}

/-- The loop over the selected chunks. A round can fail, at the lock or later; the chunks
of the rounds before stay decompressed. -/
def decompressEach : List (Option ε) → List Chunk → Hypertable → Option ε × Hypertable
  | _, [], h => (none, h)
  | faults, chunk :: rest, h =>
    match faults.head?.join with
    | some err => (some err, h)
    | none =>
      -- still compressed?
      let h := if chunk ∈ h.compressed then h.decompressChunk chunk else h
      decompressEach faults.tail rest h

def decompressChunksAfter (faults : List (Option ε)) (minTime : Int) (h : Hypertable) :
    Option ε × Hypertable :=
  let selected := h.table.chunks.filter fun chunk =>
    minTime ≥ chunk.rangeStart ∧ chunk ∈ h.compressed
  decompressEach faults
    (selected.insertionSort fun first second => first.rangeStart ≤ second.rangeStart) h

theorem mem_compressed_decompressEach {faults : List (Option ε)} {chunks : List Chunk}
    {h h' : Hypertable} (hloop : decompressEach faults chunks h = (none, h')) {chunk : Chunk} :
    chunk ∈ h'.compressed ↔ chunk ∈ h.compressed ∧ chunk ∉ chunks := by
  induction chunks generalizing faults h with
  | nil =>
    cases hloop
    simp
  | cons first rest ih =>
    simp only [decompressEach] at hloop
    split at hloop
    · cases hloop
    · rw [ih hloop, List.mem_cons]
      split_ifs with hfirst
      · simp only [decompressChunk, List.mem_filter, decide_eq_true_eq]
        tauto
      · have hne : chunk ∈ h.compressed → chunk ≠ first := by
          rintro hchunk rfl
          exact hfirst hchunk
        tauto

theorem mem_compressed_decompressChunksAfter {faults : List (Option ε)} {minTime : Int}
    {h h' : Hypertable} (hcall : decompressChunksAfter faults minTime h = (none, h'))
    {chunk : Chunk} :
    chunk ∈ h'.compressed ↔ chunk ∈ h.compressed ∧ minTime < chunk.rangeStart := by
  rw [mem_compressed_decompressEach hcall, List.mem_insertionSort, List.mem_filter]
  constructor
  · rintro ⟨hchunk, hnot⟩
    refine ⟨hchunk, lt_of_not_ge fun hstart => hnot ⟨h.compressed_mem chunk hchunk, ?_⟩⟩
    exact decide_eq_true ⟨hstart, hchunk⟩
  · rintro ⟨hchunk, hstart⟩
    refine ⟨hchunk, fun hselected => ?_⟩
    exact absurd (of_decide_eq_true hselected.2).1 (not_le.mpr hstart)

section After

variable {faults : List (Option ε)} {minTime : Int} {h h' : Hypertable}
  (hcall : decompressChunksAfter faults minTime h = (none, h'))

include hcall

theorem isCompressedAt_decompressChunksAfter {time : Int} :
    h'.isCompressedAt time = true ↔
      ∃ chunk ∈ h.compressed, minTime < chunk.rangeStart ∧ Chunk.contains chunk time = true := by
  rw [isCompressedAt, List.any_eq_true]
  refine exists_congr fun chunk => ?_
  rw [mem_compressed_decompressChunksAfter hcall, and_assoc]

theorem earlier_unchanged_iff :
    (∀ chunk ∈ h.table.chunks, chunk.rangeEnd ≤ minTime →
      (chunk ∈ h'.compressed ↔ chunk ∈ h.compressed)) ↔
      ∀ chunk ∈ h.compressed, minTime < chunk.rangeEnd := by
  constructor
  · intro hsame chunk hchunk
    by_contra hearly
    have hmem := h.compressed_mem chunk hchunk
    have hproper := h.laid.proper chunk hmem
    have hkept := (hsame chunk hmem (not_lt.mp hearly)).mpr hchunk
    have hlate := ((mem_compressed_decompressChunksAfter hcall).mp hkept).2
    omega
  · intro hlate chunk _ hend
    refine iff_of_false (fun hafter => ?_) fun hbefore => ?_
    · have hchunk := ((mem_compressed_decompressChunksAfter hcall).mp hafter).1
      exact absurd (hlate chunk hchunk) (not_lt.mpr hend)
    · exact absurd (hlate chunk hbefore) (not_lt.mpr hend)

end After

end Hypertable

end TimescalePrometheus.Sql.Compression
