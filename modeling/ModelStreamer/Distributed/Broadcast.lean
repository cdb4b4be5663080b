/-
  ModelStreamer.Distributed.Broadcast
  ───────────────────────────────────
  **THE BROADCAST LOOP** (`_distributedStreamer.get_chunks`).

  Each rank reads its own share and tells the others.  In a round it fills a
  buffer from its local stream (`prefill`), then the ranks take turns: the
  rank whose turn it is broadcasts a table of what is in its buffer, and
  then the buffer.

    • `prefill`, `act` — the program of one rank, up to its next collective,
    • `Session.ranks` — the programs of all ranks, as parties that enter
      broadcasts,
    • `prefill_spec` — what one filling of the buffer does: the next chunks
      of the local stream, laid out one after the other, at least one as
      long as there is one.
-/
import ModelStreamer.Distributed.Partition
import ModelStreamer.FileStreamer.Stream
import ModelStreamer.Lib.Collective
import ModelStreamer.Lib.Memory
import ModelStreamer.Lib.SerialLayout

namespace ModelStreamer.Distributed

open ModelStreamer.Lib ModelStreamer.FileStreamer

/-! ## §1. Tensors. -/

/-- A row of a metadata tensor. -/
structure Row where
  m0 : Int
  m1 : Int
  m2 : Int
  m3 : Int
  deriving DecidableEq, Repr

def Row.zero : Row := ⟨0, 0, 0, 0⟩

/-- A tensor that is broadcast: a table, or a slice of a buffer. -/
inductive Tensor where
  | int64 (rows : List Row)
  | uint8 (bytes : List UInt8)
  deriving DecidableEq, Repr

inductive Dtype where
  | int64
  | uint8
  deriving DecidableEq, Repr

/-- What has to match between the ranks. -/
def Tensor.shape : Tensor → Dtype × Nat
  | .int64 rows => (.int64, rows.length * 4)
  | .uint8 bytes => (.uint8, bytes.length)

/-- `buffer[offset : offset + size].copy_(bytes)`. -/
def copySlice (buffer : List UInt8) (offset : Nat) (bytes : List UInt8) :
    Except String (List UInt8) :=
  if offset + bytes.length ≤ buffer.length then
    .ok (buffer.take offset ++ bytes ++ buffer.drop (offset + bytes.length))
  else .error "size mismatch"

/-- What `torch.empty` returns: some address, and whatever is there. -/
structure Allocation where
  dataPtr : Nat
  content : Nat → UInt8

/-- `aligned_offset`. -/
def alignedOffset (basePtr currentOffset alignment : Nat) : Nat :=
  if alignment ≤ 1 then currentOffset
  else currentOffset + ((-((basePtr : Int) + currentOffset)) % (alignment : Int)).toNat

/-- Where the slice starts that is aligned. -/
def Allocation.start (raw : Allocation) (alignment : Nat) : Nat :=
  if alignment ≤ 1 then 0 else ((-(raw.dataPtr : Int)) % (alignment : Int)).toNat

/-- The buffer: `alignment` bytes more are allocated. -/
def Allocation.buffer (raw : Allocation) (bytesize alignment : Nat) : List UInt8 :=
  ((List.range (bytesize + alignment)).map raw.content).drop (raw.start alignment)

/-! ## §2. One rank. -/

/-- What does not change in the loop: the fields `stream_files` has set, and
the constants of `get_chunks`. -/
structure Streamer where
  originalGroupRank : Nat
  localGroupGlobalRanks : List Nat
  readingFromStorage : Bool
  rankDictsMap : Int → Nat → Option (Int × Nat × Nat)
  totalChunksToRead : Nat
  maxChunksPerBatch : Nat
  bufferBytesize : Nat
  alignment : Nat
  dataBufferRaw : Allocation
  receivedBufferRaw : Allocation

def Streamer.groupSize (self : Streamer) : Nat := self.localGroupGlobalRanks.length

/-- `data_buffer.data_ptr()`. -/
def Streamer.basePtr (self : Streamer) : Nat :=
  self.dataBufferRaw.dataPtr + self.dataBufferRaw.start self.alignment

/-- What `prefill` works on. -/
structure Batch where
  leftoverChunk : Option Chunk
  /-- what the local stream still yields -/
  stream : List Chunk
  dataBuffer : List UInt8
  batchMetadata : List Row
  currentDataSize : Nat
  chunkCountInBatch : Nat
  deriving DecidableEq, Repr

/-- The leftover chunk, or else the next one of the stream. -/
def nextChunk (b : Batch) : Option Chunk × Batch :=
  match b.leftoverChunk with
  | some item => (some item, { b with leftoverChunk := none })
  | none =>
      match b.stream with
      | [] => (none, b)
      | item :: rest => (some item, { b with stream := rest })

/-- The loop of `prefill`, for `room` more chunks. -/
def prefillLoop (self : Streamer) : Nat → Batch → Except String Batch
  | 0, b => .ok b
  | room + 1, b =>
      match nextChunk b with
      | (none, b) => .ok b
      | (some item, b) =>
          let chunkOffset := alignedOffset self.basePtr b.currentDataSize self.alignment
          if self.bufferBytesize < chunkOffset + item.bytes.length then
            .ok { b with leftoverChunk := some item }
          else
            match copySlice b.dataBuffer chunkOffset item.bytes with
            | .error e => .error e
            | .ok buffer =>
                match self.rankDictsMap item.fileId item.chunkIndex with
                | none => .error "KeyError"
                | some (origReqIdx, origChunkIdx, _) =>
                    prefillLoop self room { b with
                      dataBuffer := buffer
                      batchMetadata := b.batchMetadata.set (b.chunkCountInBatch + 1)
                        ⟨origReqIdx, origChunkIdx, item.bytes.length, chunkOffset⟩
                      currentDataSize := chunkOffset + item.bytes.length
                      chunkCountInBatch := b.chunkCountInBatch + 1 }

/-- `prefill`. -/
def prefill (self : Streamer) (b : Batch) : Except String Batch :=
  let b := { b with currentDataSize := 0, chunkCountInBatch := 0 }
  match if self.readingFromStorage then prefillLoop self self.maxChunksPerBatch b else .ok b with
  | .error e => .error e
  | .ok b => .ok { b with
      batchMetadata := b.batchMetadata.modify 0 (fun row => { row with m0 := b.chunkCountInBatch }) }

/-- Where a rank is in its loops. -/
inductive Pc where
  /-- at the test of the `while` loop -/
  | loop
  /-- at the metadata of a rank's turn, or behind the last turn -/
  | turn (broadcastingRank : Nat)
  /-- at its data -/
  | data (broadcastingRank : Nat)
  /-- at its chunk `j` -/
  | yielding (broadcastingRank j : Nat)
  | finished
  | raised (e : String)
  deriving DecidableEq, Repr

/-- The variables of `get_chunks` and `broadcast`; `rounds` counts the
iterations of the `while` loop. -/
structure Vars where
  pc : Pc
  rounds : Nat
  batch : Batch
  receivedBuffer : List UInt8
  receivedMetadata : List Row
  chunksToRead : Int
  totalBroadcastChunks : Nat
  deriving DecidableEq, Repr

/-- What is yielded: `meta[0]`, `meta[1]` and a slice of the buffer. -/
abbrev Output := Int × Int × List UInt8

def yieldOf (metadata : List Row) (buffer : List UInt8) (j : Nat) : Output :=
  let row := metadata.getD (j + 1) .zero
  (row.m0, row.m1, window buffer row.m3.toNat row.m2.toNat)

/-- `received_metadata_tensor[0, 0]`. -/
def Vars.receivedCount (v : Vars) : Nat := (v.receivedMetadata.getD 0 .zero).m0.toNat

/-- Offset plus size of the last received row. -/
def Vars.totalDataSize (v : Vars) : Nat :=
  let lastMeta := v.receivedMetadata.getD v.receivedCount .zero
  (lastMeta.m3 + lastMeta.m2).toNat

/-- `broadcasting_rank` is this rank. -/
def Streamer.isOwn (self : Streamer) (broadcastingRank : Nat) : Bool :=
  decide (self.localGroupGlobalRanks.getD broadcastingRank 0 = self.originalGroupRank)

/-- After the metadata of the rank's own turn. -/
def sentMetadata (v : Vars) (broadcastingRank : Nat) : Vars :=
  { v with
    chunksToRead := v.chunksToRead - v.batch.chunkCountInBatch
    totalBroadcastChunks := v.totalBroadcastChunks + v.batch.chunkCountInBatch
    pc := if 0 < v.batch.chunkCountInBatch then .data broadcastingRank
      else .turn (broadcastingRank + 1) }

/-- After the metadata of another rank's turn. -/
def gotMetadata (v : Vars) (broadcastingRank : Nat) : Tensor → Vars
  | .int64 rows =>
      let v := { v with receivedMetadata := rows }
      if v.receivedCount = 0 then { v with pc := .turn (broadcastingRank + 1) }
      else { v with
        totalBroadcastChunks := v.totalBroadcastChunks + v.receivedCount
        chunksToRead := v.chunksToRead - v.receivedCount
        pc := .data broadcastingRank }
  | .uint8 _ => { v with pc := .raised "dtype" }

/-- After the data of another rank's turn. -/
def gotData (v : Vars) (broadcastingRank : Nat) : Tensor → Vars
  | .uint8 bytes => { v with
      receivedBuffer := bytes ++ v.receivedBuffer.drop bytes.length
      pc := .yielding broadcastingRank 0 }
  | .int64 _ => { v with pc := .raised "dtype" }

/-- **What a rank does next** in `get_chunks`. -/
def act (self : Streamer) (v : Vars) : Act Nat Tensor Output Vars :=
  match v.pc with
  | .loop =>
      if 0 < v.chunksToRead then
        -- a new round: every rank fills its batch, then they take turns
        match prefill self v.batch with
        | .error e => .silent { v with pc := .raised e }
        | .ok batch => .silent { v with
            batch := batch, rounds := v.rounds + 1, totalBroadcastChunks := 0, pc := .turn 0 }
      else .silent { v with pc := .finished }
  | .turn broadcastingRank =>
      if broadcastingRank < self.groupSize then
        let globalBroadcastingRank := self.localGroupGlobalRanks.getD broadcastingRank 0
        if self.isOwn broadcastingRank then
          .call globalBroadcastingRank (.int64 v.batch.batchMetadata)
            (fun _ => sentMetadata v broadcastingRank)
        else
          .call globalBroadcastingRank (.int64 v.receivedMetadata) (gotMetadata v broadcastingRank)
      -- the round is complete, and none of the ranks had anything to send
      else if v.totalBroadcastChunks = 0 ∧ 0 < v.chunksToRead then
        .silent { v with pc := .raised "No chunks to read" }
      else .silent { v with pc := .loop }
  | .data broadcastingRank =>
      let globalBroadcastingRank := self.localGroupGlobalRanks.getD broadcastingRank 0
      if self.isOwn broadcastingRank then
        .call globalBroadcastingRank (.uint8 (v.batch.dataBuffer.take v.batch.currentDataSize))
          (fun _ => { v with pc := .yielding broadcastingRank 0 })
      else
        .call globalBroadcastingRank (.uint8 (v.receivedBuffer.take v.totalDataSize))
          (gotData v broadcastingRank)
  | .yielding broadcastingRank j =>
      if self.isOwn broadcastingRank then
        -- the sender yields from its own batch, without the transfer
        if j < v.batch.chunkCountInBatch then
          .emit (yieldOf v.batch.batchMetadata v.batch.dataBuffer j)
            { v with pc := .yielding broadcastingRank (j + 1) }
        else .silent { v with pc := .turn (broadcastingRank + 1) }
      else
        -- the others yield out of what they received
        if j < v.receivedCount then
          .emit (yieldOf v.receivedMetadata (v.receivedBuffer.take v.totalDataSize) j)
            { v with pc := .yielding broadcastingRank (j + 1) }
        else .silent { v with pc := .turn (broadcastingRank + 1) }
  | .finished => .halt
  | .raised _ => .halt

/-! ## §3. All ranks. -/

/-- A distributed stream, after `stream_files` on every rank of the group. -/
structure Session where
  /-- the group's ranks in the world -/
  globalRanks : List Nat
  distinct : globalRanks.Nodup
  shares : List Share
  maxChunksPerBatch : Nat
  bufferBytesize : Nat
  alignment : Nat
  dataBufferRaw : Fin globalRanks.length → Allocation
  receivedBufferRaw : Fin globalRanks.length → Allocation
  /-- what the `FileStreamer` of each rank yields -/
  stream : Fin globalRanks.length → List Chunk

namespace Session

variable (S : Session)

/-- The ranks of the group. -/
abbrev Rank := Fin S.globalRanks.length

/-- A rank after `stream_files`. -/
def streamer (r : S.Rank) : Streamer where
  originalGroupRank := S.globalRanks[r]
  localGroupGlobalRanks := S.globalRanks
  readingFromStorage := !(S.shares.getD r []).isEmpty
  rankDictsMap fileId chunkIndex := source S.shares (r, fileId, chunkIndex)
  totalChunksToRead := getTotalNumberOfChunks S.shares
  maxChunksPerBatch := S.maxChunksPerBatch
  bufferBytesize := S.bufferBytesize
  alignment := S.alignment
  dataBufferRaw := S.dataBufferRaw r
  receivedBufferRaw := S.receivedBufferRaw r

/-- An empty table. -/
def zeros : List Row := List.replicate (S.maxChunksPerBatch + 1) .zero

/-- The buffer and table of a rank, before it fills them. -/
def emptyBatch (r : S.Rank) : Batch where
  leftoverChunk := none
  stream := S.stream r
  dataBuffer := (S.dataBufferRaw r).buffer S.bufferBytesize S.alignment
  batchMetadata := S.zeros
  currentDataSize := 0
  chunkCountInBatch := 0

/-- A rank at the start of the `while` loop. -/
def start (r : S.Rank) : Vars where
  pc := .loop
  rounds := 0
  batch := S.emptyBatch r
  receivedBuffer := (S.receivedBufferRaw r).buffer S.bufferBytesize S.alignment
  receivedMetadata := S.zeros
  chunksToRead := (S.streamer r).totalChunksToRead
  totalBroadcastChunks := 0

/-- **The ranks**, as parties. -/
def ranks : Lib.Collective S.Rank Nat Tensor (Dtype × Nat) Output Vars where
  name r := S.globalRanks[r]
  name_injective _ _ h := Fin.ext ((List.Nodup.getElem_inj_iff S.distinct).mp h)
  shape := Tensor.shape
  start := S.start
  act r := act (S.streamer r)

end Session

/-! ## §4. Filling the buffer. -/

/-- The chunks a rank has still to send. -/
def Batch.remaining (b : Batch) : List Chunk := b.leftoverChunk.toList ++ b.stream

theorem nextChunk_none {b b' : Batch} (h : nextChunk b = (none, b')) :
    b' = b ∧ b.remaining = [] := by
  unfold nextChunk at h
  unfold Batch.remaining
  split at h
  · simp at h
  · next hleft =>
      split at h
      · next hstream =>
          obtain ⟨-, rfl⟩ := Prod.mk.inj h
          rw [hleft, hstream]
          exact ⟨rfl, rfl⟩
      · simp at h

theorem nextChunk_some {b b' : Batch} {item : Chunk} (h : nextChunk b = (some item, b')) :
    b.remaining = item :: b'.stream ∧ b'.leftoverChunk = none ∧ b'.dataBuffer = b.dataBuffer ∧
    b'.batchMetadata = b.batchMetadata ∧ b'.currentDataSize = b.currentDataSize ∧
    b'.chunkCountInBatch = b.chunkCountInBatch := by
  unfold nextChunk at h
  unfold Batch.remaining
  split at h
  · next hleft =>
      obtain ⟨hitem, rfl⟩ := Prod.mk.inj h
      rw [hleft, Option.some.inj hitem]
      exact ⟨rfl, rfl, rfl, rfl, rfl, rfl⟩
  · next hleft =>
      split at h
      · simp at h
      · next hstream =>
          obtain ⟨hitem, rfl⟩ := Prod.mk.inj h
          rw [hleft, hstream, Option.some.inj hitem]
          exact ⟨rfl, rfl, rfl, rfl, rfl, rfl⟩

theorem alignedOffset_le (basePtr currentOffset alignment : Nat) :
    currentOffset ≤ alignedOffset basePtr currentOffset alignment := by
  unfold alignedOffset
  split <;> omega

/-- The slice starts at an aligned address, so the first chunk needs no
padding. -/
theorem alignedOffset_zero (self : Streamer) :
    alignedOffset self.basePtr 0 self.alignment = 0 := by
  unfold alignedOffset Streamer.basePtr Allocation.start
  split
  · rfl
  · next halign =>
      have hpos : (0 : Int) < self.alignment := by omega
      have hnn := Int.emod_nonneg (-(self.dataBufferRaw.dataPtr : Int))
        (by omega : (self.alignment : Int) ≠ 0)
      have hdiv := Int.emod_add_mul_ediv (-(self.dataBufferRaw.dataPtr : Int)) self.alignment
      push_cast
      rw [Int.toNat_of_nonneg hnn]
      have hmult : -((self.dataBufferRaw.dataPtr : Int)
          + -(self.dataBufferRaw.dataPtr : Int) % self.alignment + 0)
          = self.alignment * (-(self.dataBufferRaw.dataPtr : Int) / self.alignment) := by
        omega
      rw [hmult, Int.mul_emod_right]
      rfl

/-- The slice is long enough. -/
theorem buffer_length (raw : Allocation) (bytesize alignment : Nat) :
    bytesize ≤ (raw.buffer bytesize alignment).length := by
  unfold Allocation.buffer Allocation.start
  rw [List.length_drop, List.length_map, List.length_range]
  split
  · omega
  · next halign =>
      have hlt := Int.emod_lt_of_pos (-(raw.dataPtr : Int)) (by omega : (0 : Int) < alignment)
      omega

theorem copySlice_ok {buffer bytes : List UInt8} {offset : Nat}
    (h : offset + bytes.length ≤ buffer.length) :
    copySlice buffer offset bytes
      = .ok (buffer.take offset ++ bytes ++ buffer.drop (offset + bytes.length)) := by
  unfold copySlice
  rw [if_pos h]

theorem window_append_left {buffer rest : List UInt8} {position count : Nat}
    (h : position + count ≤ buffer.length) :
    window (buffer ++ rest) position count = window buffer position count := by
  unfold window
  rw [List.drop_append_of_le_length (by omega), List.take_append_of_le_length]
  rw [List.length_drop]
  omega

theorem window_take (buffer : List UInt8) {position count bound : Nat}
    (h : position + count ≤ bound) :
    window (buffer.take bound) position count = window buffer position count := by
  unfold window
  rw [List.drop_take, List.take_take, Nat.min_eq_left (by omega)]

/-- The row of a chunk at an offset. -/
def Streamer.rowOf (self : Streamer) (p : Chunk × Nat) : Row :=
  let orig := (self.rankDictsMap p.1.fileId p.1.chunkIndex).getD (0, 0, 0)
  ⟨orig.1, orig.2.1, p.1.bytes.length, p.2⟩

/-- What a chunk is to whoever it is yielded to. -/
def Streamer.outputOf (self : Streamer) (item : Chunk) : Output :=
  let orig := (self.rankDictsMap item.fileId item.chunkIndex).getD (0, 0, 0)
  (orig.1, orig.2.1, item.bytes)

/-- **A buffer that holds chunks**, at the given offsets, with its table. -/
structure Filled (rank : Streamer) (placed : List (Chunk × Nat)) (b : Batch) : Prop where
  count : b.chunkCountInBatch = placed.length
  table : b.batchMetadata.length = rank.maxChunksPerBatch + 1
  bytesize : rank.bufferBytesize ≤ b.dataBuffer.length
  size : b.currentDataSize ≤ rank.bufferBytesize
  row : ∀ (j : Nat) (p : Chunk × Nat), placed[j]? = some p →
    b.batchMetadata[j + 1]? = some (rank.rowOf p)
  below : ∀ p ∈ placed, p.2 + p.1.bytes.length ≤ b.currentDataSize
  bytes : ∀ p ∈ placed, window b.dataBuffer p.2 p.1.bytes.length = p.1.bytes
  /-- the size is where the last one ends -/
  last : ∀ (h : placed ≠ []),
    b.currentDataSize = (placed.getLast h).2 + (placed.getLast h).1.bytes.length

section Prefill

variable {self : Streamer} {placed : List (Chunk × Nat)} {b : Batch}

theorem Filled.congr (h : Filled self placed b) {b' : Batch}
    (hcount : b'.chunkCountInBatch = b.chunkCountInBatch)
    (htable : b'.batchMetadata = b.batchMetadata) (hbuffer : b'.dataBuffer = b.dataBuffer)
    (hsize : b'.currentDataSize = b.currentDataSize) : Filled self placed b' := by
  refine ⟨?_, ?_, ?_, ?_, ?_, ?_, ?_, ?_⟩
  · rw [hcount]
    exact h.count
  · rw [htable]
    exact h.table
  · rw [hbuffer]
    exact h.bytesize
  · rw [hsize]
    exact h.size
  · rw [htable]
    exact h.row
  · rw [hsize]
    exact h.below
  · rw [hbuffer]
    exact h.bytes
  · rw [hsize]
    exact h.last

/-- **One more chunk**, behind the others. -/
theorem Filled.add (h : Filled self placed b) {item : Chunk} {offset : Nat} {orig : Int × Nat × Nat}
    (hroom : placed.length < self.maxChunksPerBatch) (hoffset : b.currentDataSize ≤ offset)
    (hfits : offset + item.bytes.length ≤ self.bufferBytesize)
    (horig : self.rankDictsMap item.fileId item.chunkIndex = some orig) :
    Filled self (placed ++ [(item, offset)]) { b with
      dataBuffer := b.dataBuffer.take offset ++ item.bytes
        ++ b.dataBuffer.drop (offset + item.bytes.length)
      batchMetadata := b.batchMetadata.set (b.chunkCountInBatch + 1)
        ⟨orig.1, orig.2.1, item.bytes.length, offset⟩
      currentDataSize := offset + item.bytes.length
      chunkCountInBatch := b.chunkCountInBatch + 1 } := by
  have hbuffer := h.bytesize
  have hrow : self.rowOf (item, offset) = ⟨orig.1, orig.2.1, item.bytes.length, offset⟩ := by
    unfold Streamer.rowOf
    rw [horig]
    rfl
  have htake : (b.dataBuffer.take offset).length = offset := by
    rw [List.length_take]
    omega
  refine ⟨?_, ?_, ?_, hfits, ?_, ?_, ?_, ?_⟩
  · -- the counters
    show b.chunkCountInBatch + 1 = _
    rw [h.count, List.length_append, List.length_singleton]
  · show (b.batchMetadata.set _ _).length = _
    rw [List.length_set]
    exact h.table
  · show self.bufferBytesize ≤ (_ ++ _ ++ _ : List UInt8).length
    rw [List.length_append, List.length_append, htake, List.length_drop]
    omega
  · -- the rows: the new one is after those there are
    intro j p hp
    show (b.batchMetadata.set _ _)[j + 1]? = _
    rw [h.count]
    rcases Nat.lt_trichotomy j placed.length with hj | rfl | hj
    · rw [List.getElem?_append_left hj] at hp
      rw [List.getElem?_set_ne (by omega)]
      exact h.row j p hp
    · rw [List.getElem?_concat_length] at hp
      rw [List.getElem?_set_self (by rw [h.table]; omega), ← Option.some.inj hp, hrow]
    · rw [List.getElem?_eq_none (by simp; omega)] at hp
      simp at hp
  · -- no chunk reaches beyond the new end
    intro p hp
    show _ ≤ offset + item.bytes.length
    rcases List.mem_append.mp hp with hp | hp
    · have := h.below p hp
      omega
    · rw [List.mem_singleton.mp hp]
  · -- the bytes: the new ones lie behind all that were copied before
    intro p hp
    show window (b.dataBuffer.take offset ++ item.bytes ++ _) _ _ = _
    rcases List.mem_append.mp hp with hp | hp
    · have := h.below p hp
      rw [List.append_assoc, window_append_left (by rw [htake]; omega),
        window_take _ (by omega)]
      exact h.bytes p hp
    · rw [List.mem_singleton.mp hp]
      rw [window_append_left (by rw [List.length_append, htake])]
      unfold window
      rw [List.drop_append, htake, Nat.sub_self, List.drop_zero,
        List.drop_eq_nil_of_le (by rw [htake]), List.nil_append, List.take_length]
  · intro _
    show offset + item.bytes.length = _
    rw [List.getLast_append_of_ne_nil _ (by simp)]
    rfl

/-- **The last row tells how long the data is.** -/
theorem Filled.last_row (h : Filled self placed b) (hne : placed ≠ []) :
    let row := b.batchMetadata.getD b.chunkCountInBatch .zero
    (row.m3 + row.m2).toNat = b.currentDataSize := by
  obtain ⟨j, hj⟩ := Nat.exists_eq_succ_of_ne_zero (List.length_pos_iff.mpr hne).ne'
  have hlast : placed[j]? = some (placed.getLast hne) := by
    rw [List.getLast_eq_getElem]
    simp [hj]
  intro row
  have hrow : row = self.rowOf (placed.getLast hne) := by
    show b.batchMetadata.getD b.chunkCountInBatch .zero = _
    rw [h.count, hj, List.getD_eq_getElem?_getD, h.row j _ hlast]
    rfl
  rw [hrow, h.last hne]
  unfold Streamer.rowOf
  simp only
  omega

/-- A chunk that can be sent. -/
def Streamer.Sendable (self : Streamer) (item : Chunk) : Prop :=
  item.bytes.length ≤ self.bufferBytesize ∧
    (self.rankDictsMap item.fileId item.chunkIndex).isSome = true

/-- The chunks of a filling, laid out behind `cursor`. -/
def Streamer.Lays (self : Streamer) (cursor : Nat) (placed : List (Chunk × Nat)) : Prop :=
  Serial (fun item : Chunk => item.bytes.length)
    (fun size => alignedOffset self.basePtr size self.alignment) cursor placed

/-- A filling that stops with chunks to come, `room` being left: at one that
does not fit, which it keeps. -/
def Streamer.Stops (self : Streamer) (room : Nat) (b : Batch) : Prop :=
  ∀ item rest, b.remaining = item :: rest → 0 < room → b.leftoverChunk = some item ∧
    self.bufferBytesize
      < alignedOffset self.basePtr b.currentDataSize self.alignment + item.bytes.length

/-- **The loop lemma**: it lays out more of the chunks, and the first one
always fits. -/
theorem prefillLoop_spec {room : Nat} (hroom : placed.length + room = self.maxChunksPerBatch)
    (h : Filled self placed b) (hsendable : ∀ item ∈ b.remaining, self.Sendable item) :
    ∃ more b', prefillLoop self room b = .ok b' ∧ Filled self (placed ++ more) b' ∧
      b.remaining = more.map Prod.fst ++ b'.remaining ∧
      (b.currentDataSize = 0 → 0 < room → b.remaining ≠ [] → more ≠ []) ∧
      self.Lays b.currentDataSize more ∧ self.Stops (room - more.length) b' := by
  induction room generalizing placed b with
  | zero =>
      -- the batch has all the chunks it may have
      refine ⟨[], b, rfl, ?_, rfl, fun _ hpos => by omega, trivial, fun _ _ _ hpos => by omega⟩
      rw [List.append_nil]
      exact h
  | succ room ih =>
      unfold prefillLoop
      rcases hnext : nextChunk b with ⟨_ | item, b₁⟩
      · -- the generator is exhausted
        obtain ⟨rfl, hempty⟩ := nextChunk_none hnext
        refine ⟨[], b₁, rfl, ?_, rfl, fun _ _ hne => absurd hempty hne, trivial,
          fun item rest hitem => ?_⟩
        · rw [List.append_nil]
          exact h
        · rw [hempty] at hitem
          simp at hitem
      · obtain ⟨hremaining, hleft, hbuffer, htable, hsize, hcount⟩ := nextChunk_some hnext
        have h₁ := h.congr hcount htable hbuffer hsize
        obtain ⟨hbound, hmapped⟩ := hsendable item (by rw [hremaining]; exact List.mem_cons_self)
        obtain ⟨orig, horig⟩ := Option.isSome_iff_exists.mp hmapped
        simp only
        set offset := alignedOffset self.basePtr b₁.currentDataSize self.alignment with hoffset
        split
        · -- it stays for the next batch
          next hfull =>
            refine ⟨[], _, rfl, ?_, ?_, fun hzero _ _ => ?_, trivial, fun item' rest hitem _ => ?_⟩
            · rw [List.append_nil]
              exact h₁.congr rfl rfl rfl rfl
            · rw [hremaining]
              rfl
            · -- not the first chunk of an empty batch, which always fits
              rw [hsize, hzero, alignedOffset_zero] at hoffset
              omega
            · obtain rfl : item = item' := (List.cons.inj hitem).1
              exact ⟨rfl, hfull⟩
        · next hfits =>
            have hin := h₁.bytesize
            rw [copySlice_ok (by omega), horig]
            have hadd := h₁.add (by omega) (alignedOffset_le _ _ _) (Nat.le_of_not_lt hfits) horig
            -- it is copied, and the loop goes on behind it
            obtain ⟨more, b', hok, hfilled, hrest, -, hlays, hstops⟩ :=
              ih (by simp; omega) hadd (fun item' hitem =>
                hsendable item' (by
                  rw [hremaining]
                  unfold Batch.remaining at hitem
                  rw [hleft] at hitem
                  exact List.mem_cons_of_mem _ hitem))
            refine ⟨(item, offset) :: more, b', hok, ?_, ?_, fun _ _ _ => by simp, ?_, ?_⟩
            · rw [List.append_cons]
              exact hfilled
            · rw [hremaining, List.map_cons, List.cons_append, ← hrest]
              unfold Batch.remaining
              rw [hleft]
              rfl
            · exact ⟨by rw [hoffset, hsize], hlays⟩
            · rw [List.length_cons, Nat.add_sub_add_right]
              exact hstops

/-- A rank's batch between two rounds. -/
structure Ready (rank : Streamer) (b : Batch) : Prop where
  table : b.batchMetadata.length = rank.maxChunksPerBatch + 1
  bytesize : rank.bufferBytesize ≤ b.dataBuffer.length
  sendable : ∀ item ∈ b.remaining, rank.Sendable item
  reading : rank.readingFromStorage = false → b.remaining = []

/-- **What `prefill` does**, and how: the chunks it takes lie one after the
other from the start of the buffer. -/
theorem prefill_layout (hmax : 1 ≤ self.maxChunksPerBatch) (h : Ready self b) :
    ∃ placed b', prefill self b = .ok b' ∧ Filled self placed b' ∧
      (b'.batchMetadata.getD 0 .zero).m0 = b'.chunkCountInBatch ∧
      b.remaining = placed.map Prod.fst ++ b'.remaining ∧ (b.remaining ≠ [] → placed ≠ []) ∧
      self.Lays 0 placed ∧ self.Stops (self.maxChunksPerBatch - placed.length) b' := by
  unfold prefill
  simp only
  set b₀ : Batch := { b with currentDataSize := 0, chunkCountInBatch := 0 } with hb₀
  have hfilled : Filled self [] b₀ :=
    ⟨rfl, h.table, h.bytesize, Nat.zero_le _, by simp, by simp, by simp, by simp⟩
  have hloop : ∃ placed b', (if self.readingFromStorage = true then
        prefillLoop self self.maxChunksPerBatch b₀ else .ok b₀) = .ok b' ∧ Filled self placed b' ∧
      b.remaining = placed.map Prod.fst ++ b'.remaining ∧ (b.remaining ≠ [] → placed ≠ []) ∧
      self.Lays 0 placed ∧ self.Stops (self.maxChunksPerBatch - placed.length) b' := by
    cases hreading : self.readingFromStorage with
    | false =>
        -- a rank that reads nothing from storage has nothing left either
        have hnone := h.reading hreading
        refine ⟨[], b₀, rfl, hfilled, rfl, fun hne => absurd hnone hne, trivial,
          fun item rest hitem => ?_⟩
        rw [show b₀.remaining = b.remaining from rfl, hnone] at hitem
        simp at hitem
    | true =>
        obtain ⟨more, b', hok, hfilled', hrest, hsome, hlays, hstops⟩ :=
          prefillLoop_spec (Nat.zero_add self.maxChunksPerBatch) hfilled h.sendable
        exact ⟨more, b', hok, hfilled', hrest, hsome rfl (by omega), hlays, hstops⟩
  obtain ⟨placed, b', hok, hplaced, hrest, hsome, hlays, hstops⟩ := hloop
  rw [hok]
  have hpos : 0 < b'.batchMetadata.length := by
    rw [hplaced.table]
    omega
  refine ⟨placed, _, rfl, ?_, ?_, hrest, hsome, hlays, hstops⟩
  · -- the count goes into row 0, and the rows of the chunks are the others
    refine ⟨hplaced.count, ?_, hplaced.bytesize, hplaced.size, ?_, hplaced.below, hplaced.bytes,
      hplaced.last⟩
    · show (b'.batchMetadata.modify _ _).length = _
      rw [List.length_modify]
      exact hplaced.table
    · intro j p hp
      show (b'.batchMetadata.modify _ _)[j + 1]? = _
      rw [List.getElem?_modify, hplaced.row j p hp]
      show some (if 0 = j + 1 then _ else _) = _
      rw [if_neg (Nat.succ_ne_zero j).symm]
  · show ((b'.batchMetadata.modify _ _).getD 0 .zero).m0 = _
    rw [List.getD_eq_getElem?_getD, List.getElem?_modify_eq, List.getElem?_eq_getElem hpos]
    rfl

/-- **What `prefill` does**: it takes chunks off the local stream, at least
one if there is one, and lays them out. -/
theorem prefill_spec (hmax : 1 ≤ self.maxChunksPerBatch) (h : Ready self b) :
    ∃ placed b', prefill self b = .ok b' ∧ Filled self placed b' ∧
      (b'.batchMetadata.getD 0 .zero).m0 = b'.chunkCountInBatch ∧
      b.remaining = placed.map Prod.fst ++ b'.remaining ∧ (b.remaining ≠ [] → placed ≠ []) := by
  obtain ⟨placed, b', hok, hfilled, hheader, hrest, hsome, -⟩ := prefill_layout hmax h
  exact ⟨placed, b', hok, hfilled, hheader, hrest, hsome⟩

end Prefill

end ModelStreamer.Distributed
