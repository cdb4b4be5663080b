/-
  ModelStreamer.Distributed.Script
  ────────────────────────────────
  **THE SCRIPT OF A DISTRIBUTED STREAM.**

  What a rank sends depends on its local stream alone, so the calls of all
  ranks, and what they yield, can be written down beforehand: round after
  round, turn after turn, a table and, where it is not empty, a buffer.

    • `batchAt`, `turnCalls`, `turnOutputs` — the script,
    • `sent_pos`, `exists_rounds` — every round sends something, until
      nothing is left,
    • `yieldOf_received` — table and data tell a receiver what to yield,
    • `outputs_perm`, `read_all` — what is yielded is every chunk, once.
-/
import ModelStreamer.Distributed.Broadcast
import Mathlib.Data.List.FinRange
import Mathlib.Algebra.BigOperators.Group.List.Basic

namespace ModelStreamer.Distributed

open ModelStreamer.Lib ModelStreamer.FileStreamer

/-! ## §1. Sessions. -/

/-- The chunks of a share: file id, chunk index and size. -/
def shareChunks (share : Share) : List (Int × Nat × Nat) :=
  share.flatMap (fun e => e.1.sizes.zipIdx.map (fun s => (e.1.id, s.2, s.1)))

/-- **A session that serves the files**: their partition, a buffer for the
largest chunk, and local streams that yield each chunk of the rank's share
once, in any order. -/
structure Session.Serves (S : Session) (requests : List FileChunks) : Prop where
  partitioned : Partitioned requests S.globalRanks.length S.shares
  room : 1 ≤ S.maxChunksPerBatch
  largest : largestRange requests ≤ S.bufferBytesize
  yields : ∀ r : S.Rank, ((S.stream r).map (fun c => (c.fileId, c.chunkIndex, c.bytes.length))).Perm
    (shareChunks (S.shares.getD r []))

namespace Session

variable (S : Session)

/-- The batch of a rank after `k` rounds. -/
def batchAt (r : S.Rank) : Nat → Batch
  | 0 => S.emptyBatch r
  | k + 1 =>
      match prefill (S.streamer r) (batchAt r k) with
      | .ok b => b
      | .error _ => batchAt r k

/-- How many chunks rank `r` sends in round `k`. -/
def count (r : S.Rank) (k : Nat) : Nat := (S.batchAt r (k + 1)).chunkCountInBatch

/-- The first call of its turn. -/
def header (r : S.Rank) (k : Nat) : Nat × Tensor :=
  (S.globalRanks.get r, .int64 (S.batchAt r (k + 1)).batchMetadata)

/-- The second call of its turn. -/
def payload (r : S.Rank) (k : Nat) : Nat × Tensor :=
  (S.globalRanks.get r,
    .uint8 ((S.batchAt r (k + 1)).dataBuffer.take (S.batchAt r (k + 1)).currentDataSize))

/-- The calls of rank `r`'s turn in round `k`. -/
def turnCalls (r : S.Rank) (k : Nat) : List (Nat × Tensor) :=
  S.header r k :: if 0 < S.count r k then [S.payload r k] else []

/-- What is yielded in it. -/
def turnOutputs (r : S.Rank) (k : Nat) : List Output :=
  (List.range (S.count r k)).map
    (yieldOf (S.batchAt r (k + 1)).batchMetadata (S.batchAt r (k + 1)).dataBuffer)

/-- `k` rounds, and the first `b` turns of the next. -/
def upTo {α : Type} (turn : S.Rank → Nat → List α) (k b : Nat) : List α :=
  (List.range k).flatMap (fun k => (List.finRange _).flatMap (fun r => turn r k))
    ++ ((List.finRange _).take b).flatMap (fun r => turn r k)

/-- The chunks that are sent in the first `b` turns of round `k`. -/
def sentBefore (k b : Nat) : Nat := (((List.finRange _).take b).map (fun r => S.count r k)).sum

/-- The chunks that are still to be sent after `k` rounds. -/
def left (k : Nat) : Nat :=
  ((List.finRange _).map (fun r => (S.batchAt r k).remaining.length)).sum

variable {S}

/-! ## §2. The script. -/

theorem take_all : (List.finRange S.globalRanks.length).take S.globalRanks.length
    = List.finRange S.globalRanks.length :=
  List.take_of_length_le (by rw [List.length_finRange])

section Turns

variable {α : Type} (turn : S.Rank → Nat → List α) {k b : Nat}

theorem upTo_turn (hb : b < S.globalRanks.length) :
    S.upTo turn k (b + 1) = S.upTo turn k b ++ turn ⟨b, hb⟩ k := by
  unfold upTo
  rw [List.take_succ_eq_append_getElem (by rw [List.length_finRange]; exact hb),
    List.flatMap_append, List.getElem_finRange, ← List.append_assoc]
  simp

theorem upTo_round : S.upTo turn k S.globalRanks.length = S.upTo turn (k + 1) 0 := by
  unfold upTo
  rw [take_all, List.range_succ, List.flatMap_append]
  simp

theorem upTo_mono :
    S.upTo turn k b <+: S.upTo turn k S.globalRanks.length := by
  unfold upTo
  apply (List.prefix_append_right_inj _).mpr
  rw [take_all]
  obtain ⟨rest, hrest⟩ := List.take_prefix b (List.finRange S.globalRanks.length)
  refine ⟨rest.flatMap (fun r => turn r k), ?_⟩
  rw [← List.flatMap_append]
  exact congrArg _ hrest

/-- What comes first is a prefix of the whole. -/
theorem upTo_before {rounds : Nat} (hk : k < rounds) :
    S.upTo turn k b <+: S.upTo turn rounds 0 := by
  induction rounds with
  | zero => omega
  | succ rounds ih =>
      have hround : S.upTo turn rounds 0 <+: S.upTo turn (rounds + 1) 0 := by
        rw [← upTo_round]
        exact upTo_mono turn
      rcases Nat.lt_or_ge k rounds with hlt | hge
      · exact (ih hlt).trans hround
      · obtain rfl : k = rounds := by omega
        rw [← upTo_round]
        exact upTo_mono turn

theorem turn_before {rounds : Nat} (hk : k < rounds) (hb : b < S.globalRanks.length) :
    S.upTo turn k b ++ turn ⟨b, hb⟩ k <+: S.upTo turn rounds 0 := by
  rw [← upTo_turn]
  exact upTo_before turn hk

end Turns

theorem sentBefore_turn {k b : Nat} (hb : b < S.globalRanks.length) :
    S.sentBefore k (b + 1) = S.sentBefore k b + S.count ⟨b, hb⟩ k := by
  unfold sentBefore
  rw [List.take_succ_eq_append_getElem (by rw [List.length_finRange]; exact hb), List.map_append,
    List.sum_append, List.getElem_finRange]
  simp

/-! ## §3. Every round fills. -/

section Served

variable {requests : List FileChunks}

theorem share_mem (h : S.Serves requests) (r : S.Rank) :
    S.shares[(r : Nat)]? = some (S.shares.getD r []) := by
  have hlt : (r : Nat) < S.shares.length := by
    rw [h.partitioned.ranks]
    exact r.2
  rw [List.getD_eq_getElem?_getD, List.getElem?_eq_getElem hlt]
  rfl

/-- A chunk that the local stream yields is one of the share. -/
theorem stream_chunk (h : S.Serves requests) {r : S.Rank} {item : Chunk} (hitem : item ∈ S.stream r) :
    ∃ e ∈ S.shares.getD r [], e.1.id = item.fileId ∧
      e.1.sizes[item.chunkIndex]? = some item.bytes.length := by
  have hmem := (h.yields r).subset (List.mem_map_of_mem hitem)
  obtain ⟨e, he, hchunk⟩ := List.mem_flatMap.mp hmem
  obtain ⟨⟨size, index⟩, hsize, heq⟩ := List.mem_map.mp hchunk
  obtain ⟨hid, hindex, hbytes⟩ : e.1.id = item.fileId ∧ index = item.chunkIndex ∧
      size = item.bytes.length := by simpa using heq
  refine ⟨e, he, hid, ?_⟩
  rw [← hindex, ← hbytes]
  exact List.mem_zipIdx_iff_getElem?.mp hsize

theorem sendable (h : S.Serves requests) {r : S.Rank} {item : Chunk} (hitem : item ∈ S.stream r) :
    (S.streamer r).Sendable item := by
  obtain ⟨e, he, hid, hsize⟩ := stream_chunk h hitem
  have hshare := share_mem h r
  have hlt := (List.getElem?_eq_some_iff.mp hsize).1
  have hkey : ((r : Nat), item.fileId, item.chunkIndex) ∈ shareKeys S.shares :=
    ⟨_, e, hshare, he, hid, hlt⟩
  constructor
  · obtain ⟨e', request, j, offset, size, hlookup, hrequest, -, -, -, -, hsize', hsize''⟩ :=
      h.partitioned.same_chunk hkey
    have hsame := h.partitioned.lookup_eq (k := ((r : Nat), item.fileId, item.chunkIndex)) hshare he hid
    rw [hlookup] at hsame
    obtain rfl : e' = e := by simpa using hsame
    rw [hsize] at hsize'
    obtain rfl : item.bytes.length = size := by simpa using hsize'
    exact (largestRange_le.mp h.largest) request hrequest _ (List.mem_of_getElem? hsize'')
  · obtain ⟨_, _, _, _, _, _, _, _, _, _, _, hsource, _⟩ := h.partitioned.resolve hkey
    show (source S.shares _).isSome = true
    rw [hsource]
    rfl

theorem emptyBatch_ready (h : S.Serves requests) (r : S.Rank) :
    Ready (S.streamer r) (S.emptyBatch r) := by
  refine ⟨List.length_replicate, ?_, ?_, ?_⟩
  · show S.bufferBytesize ≤ (Allocation.buffer _ _ _).length
    exact buffer_length _ _ _
  · intro item hitem
    exact sendable h hitem
  · intro hreading
    have hempty : S.shares.getD r [] = [] := by
      have hnot : (!(S.shares.getD r []).isEmpty) = false := hreading
      simpa using hnot
    have hperm := h.yields r
    rw [hempty] at hperm
    have hnil := List.Perm.eq_nil hperm
    exact List.map_eq_nil_iff.mp hnil

/-- **Round `k` of a rank**: it fills its buffer from what it has. -/
theorem batchAt_succ (h : S.Serves requests) (r : S.Rank) (k : Nat) :
    Ready (S.streamer r) (S.batchAt r k) ∧ ∃ placed,
      prefill (S.streamer r) (S.batchAt r k) = .ok (S.batchAt r (k + 1)) ∧
      Filled (S.streamer r) placed (S.batchAt r (k + 1)) ∧
      ((S.batchAt r (k + 1)).batchMetadata.getD 0 .zero).m0 = S.count r k ∧
      (S.batchAt r k).remaining = placed.map Prod.fst ++ (S.batchAt r (k + 1)).remaining ∧
      ((S.batchAt r k).remaining ≠ [] → placed ≠ []) := by
  -- one filling, from a batch that is ready
  have hfill : ∀ k, Ready (S.streamer r) (S.batchAt r k) → ∃ placed,
      prefill (S.streamer r) (S.batchAt r k) = .ok (S.batchAt r (k + 1)) ∧
      Filled (S.streamer r) placed (S.batchAt r (k + 1)) ∧
      ((S.batchAt r (k + 1)).batchMetadata.getD 0 .zero).m0 = S.count r k ∧
      (S.batchAt r k).remaining = placed.map Prod.fst ++ (S.batchAt r (k + 1)).remaining ∧
      ((S.batchAt r k).remaining ≠ [] → placed ≠ []) := by
    intro k hready
    obtain ⟨placed, b, hok, hfilled, hheader, hrest, hsome⟩ := prefill_spec h.room hready
    have hb : S.batchAt r (k + 1) = b := by
      unfold batchAt
      rw [hok]
    unfold count
    rw [hb]
    exact ⟨placed, hok, hfilled, hheader, hrest, hsome⟩
  induction k with
  | zero => exact ⟨emptyBatch_ready h r, hfill 0 (emptyBatch_ready h r)⟩
  | succ k ih =>
      obtain ⟨hready, placed, -, hfilled, -, hrest, -⟩ := ih
      -- the chunks left are among those there were
      have hnext : Ready (S.streamer r) (S.batchAt r (k + 1)) := by
        refine ⟨hfilled.table, hfilled.bytesize, ?_, ?_⟩
        · intro item hitem
          exact hready.sendable item (by rw [hrest]; exact List.mem_append_right _ hitem)
        · intro hreading
          have hnil := hready.reading hreading
          rw [hrest] at hnil
          exact (List.append_eq_nil_iff.mp hnil).2
      exact ⟨hnext, hfill (k + 1) hnext⟩

theorem count_le (h : S.Serves requests) (r : S.Rank) (k : Nat) :
    S.count r k ≤ S.maxChunksPerBatch := by
  obtain ⟨-, placed, -, hfilled, -⟩ := batchAt_succ h r k
  unfold count
  rw [hfilled.count]
  by_contra hgt
  have hlt : S.maxChunksPerBatch < placed.length := by omega
  have hrow := hfilled.row S.maxChunksPerBatch _ (List.getElem?_eq_getElem hlt)
  rw [List.getElem?_eq_none (by rw [hfilled.table]; exact Nat.le_refl _)] at hrow
  simp at hrow

/-- What a rank has left after a round. -/
theorem remaining_length (h : S.Serves requests) (r : S.Rank) (k : Nat) :
    (S.batchAt r k).remaining.length = S.count r k + (S.batchAt r (k + 1)).remaining.length := by
  obtain ⟨-, placed, -, hfilled, -, hrest, -⟩ := batchAt_succ h r k
  unfold count
  rw [hrest, hfilled.count, List.length_append, List.length_map]

theorem left_succ (h : S.Serves requests) (k : Nat) :
    S.left k = S.sentBefore k S.globalRanks.length + S.left (k + 1) := by
  unfold left sentBefore
  rw [take_all, ← List.sum_map_add]
  congr 1
  apply List.map_congr_left
  intro r _
  exact remaining_length h r k

/-- **A round sends something**, as long as anything is left. -/
theorem sent_pos (h : S.Serves requests) {k : Nat} (hleft : 0 < S.left k) :
    0 < S.sentBefore k S.globalRanks.length := by
  by_contra hzero
  have hnone : ∀ r : S.Rank, (S.batchAt r k).remaining = [] := by
    intro r
    by_contra hne
    obtain ⟨-, placed, -, hfilled, -, -, hsome⟩ := batchAt_succ h r k
    have hpos : 0 < S.count r k := by
      unfold count
      rw [hfilled.count]
      exact List.length_pos_of_ne_nil (hsome hne)
    have hle : S.count r k ≤ S.sentBefore k S.globalRanks.length := by
      unfold sentBefore
      rw [take_all]
      exact List.single_le_sum (by simp) _ (List.mem_map_of_mem (List.mem_finRange r))
    omega
  have hsum : S.left k = 0 := by
    unfold left
    apply List.sum_eq_zero
    intro x hx
    obtain ⟨r, -, rfl⟩ := List.mem_map.mp hx
    rw [hnone r]
    rfl
  omega

/-- The round in which nothing is left. -/
theorem exists_rounds (h : S.Serves requests) :
    ∃ rounds, S.left rounds = 0 ∧ ∀ k, k < rounds → 0 < S.left k := by
  have hless : ∀ k, S.left k = 0 ∨ S.left k + k ≤ S.left 0 := by
    intro k
    induction k with
    | zero => exact Or.inr (Nat.le_refl _)
    | succ k ih =>
        have hsucc := left_succ h k
        rcases Nat.eq_zero_or_pos (S.left k) with hzero | hpos
        · omega
        · have := sent_pos h hpos
          omega
  have hex : ∃ k, S.left k = 0 := by
    refine ⟨S.left 0 + 1, ?_⟩
    rcases hless (S.left 0 + 1) with hzero | hle
    · exact hzero
    · omega
  refine ⟨Nat.find hex, Nat.find_spec hex, fun k hk => ?_⟩
  exact Nat.pos_of_ne_zero (Nat.find_min hex hk)

/-! ## §4. Tables and buffers that were received. -/

theorem header_count (h : S.Serves requests) (q : S.Rank) (k : Nat) :
    ((S.batchAt q (k + 1)).batchMetadata.getD 0 .zero).m0.toNat = S.count q k := by
  obtain ⟨-, placed, -, -, hheader, -⟩ := batchAt_succ h q k
  rw [hheader, Int.toNat_natCast]

theorem table_length (h : S.Serves requests) (q : S.Rank) (k : Nat) :
    (S.batchAt q (k + 1)).batchMetadata.length = S.maxChunksPerBatch + 1 := by
  obtain ⟨-, placed, -, hfilled, -⟩ := batchAt_succ h q k
  exact hfilled.table

theorem payload_length (h : S.Serves requests) (q : S.Rank) (k : Nat) :
    ((S.batchAt q (k + 1)).dataBuffer.take (S.batchAt q (k + 1)).currentDataSize).length
      = (S.batchAt q (k + 1)).currentDataSize := by
  obtain ⟨-, placed, -, hfilled, -⟩ := batchAt_succ h q k
  rw [List.length_take]
  exact Nat.min_eq_left (hfilled.size.trans hfilled.bytesize)

theorem payload_le (h : S.Serves requests) (q : S.Rank) (k : Nat) :
    (S.batchAt q (k + 1)).currentDataSize ≤ S.bufferBytesize := by
  obtain ⟨-, placed, -, hfilled, -⟩ := batchAt_succ h q k
  exact hfilled.size

/-- The last row tells how long the data is. -/
theorem last_row (h : S.Serves requests) {q : S.Rank} {k : Nat} (hpos : 0 < S.count q k) :
    let row := (S.batchAt q (k + 1)).batchMetadata.getD (S.count q k) .zero
    (row.m3 + row.m2).toNat = (S.batchAt q (k + 1)).currentDataSize := by
  obtain ⟨-, placed, -, hfilled, -⟩ := batchAt_succ h q k
  have hcount : S.count q k = placed.length := hfilled.count
  have hne : placed ≠ [] := by
    rintro rfl
    rw [hcount] at hpos
    simp at hpos
  exact hfilled.last_row hne

/-- **Chunk `j` of a batch**, read off its table and data. -/
theorem yieldOf_placed {self : Streamer} {placed : List (Chunk × Nat)} {b : Batch}
    (hfilled : Filled self placed b) {j : Nat} {p : Chunk × Nat} (hp : placed[j]? = some p)
    {buffer : List UInt8}
    (hbuffer : buffer.take b.currentDataSize = b.dataBuffer.take b.currentDataSize) :
    yieldOf b.batchMetadata buffer j = self.outputOf p.1 := by
  have hmem := List.mem_of_getElem? hp
  have hwindow : window buffer p.2 p.1.bytes.length = p.1.bytes := by
    rw [← window_take buffer (hfilled.below p hmem), hbuffer,
      window_take _ (hfilled.below p hmem)]
    exact hfilled.bytes p hmem
  unfold yieldOf Streamer.outputOf
  rw [List.getD_eq_getElem?_getD, hfilled.row j p hp]
  unfold Streamer.rowOf
  simp only [Option.getD_some, Int.toNat_natCast]
  rw [hwindow]

/-- What is yielded in a turn: the chunks of the batch. -/
theorem turnOutputs_eq (h : S.Serves requests) (q : S.Rank) (k : Nat) :
    ∃ placed : List (Chunk × Nat),
      (S.batchAt q k).remaining = placed.map Prod.fst ++ (S.batchAt q (k + 1)).remaining ∧
      S.turnOutputs q k = placed.map (fun p => (S.streamer q).outputOf p.1) := by
  obtain ⟨-, placed, -, hfilled, -, hrest, -⟩ := batchAt_succ h q k
  refine ⟨placed, hrest, ?_⟩
  apply List.ext_getElem?
  intro j
  unfold turnOutputs count
  rw [hfilled.count, List.getElem?_map, List.getElem?_map]
  rcases Nat.lt_or_ge j placed.length with hlt | hge
  · have hp := List.getElem?_eq_getElem hlt
    rw [List.getElem?_range hlt, hp, Option.map_some, Option.map_some, yieldOf_placed hfilled hp rfl]
  · rw [List.getElem?_eq_none (by rw [List.length_range]; exact hge), List.getElem?_eq_none hge]
    rfl

theorem turnOutputs_length (q : S.Rank) (k : Nat) :
    (S.turnOutputs q k).length = S.count q k := by
  unfold turnOutputs
  rw [List.length_map, List.length_range]

/-- A rank yields what the script says, from its own buffer or from the
received one. -/
theorem yieldOf_received (h : S.Serves requests) {q : S.Rank} {k j : Nat} (hj : j < S.count q k)
    {buffer : List UInt8}
    (hbuffer : buffer.take (S.batchAt q (k + 1)).currentDataSize
      = (S.batchAt q (k + 1)).dataBuffer.take (S.batchAt q (k + 1)).currentDataSize) :
    (S.turnOutputs q k)[j]? = some (yieldOf (S.batchAt q (k + 1)).batchMetadata buffer j) := by
  obtain ⟨-, placed, -, hfilled, -⟩ := batchAt_succ h q k
  have hlt : j < placed.length := hfilled.count ▸ hj
  have hp := List.getElem?_eq_getElem hlt
  unfold turnOutputs
  rw [List.getElem?_map, List.getElem?_range hj, Option.map_some, yieldOf_placed hfilled hp rfl,
    yieldOf_placed hfilled hp hbuffer]

/-! ## §5. What is yielded. -/

theorem shares_eq (h : S.Serves requests) :
    S.shares = (List.finRange _).map (fun r : S.Rank => S.shares.getD r []) := by
  apply List.ext_getElem?
  intro i
  rw [List.getElem?_map]
  rcases Nat.lt_or_ge i S.globalRanks.length with hlt | hge
  · have hrank : (List.finRange S.globalRanks.length)[i]? = some ⟨i, hlt⟩ := by
      rw [List.getElem?_eq_getElem (by rw [List.length_finRange]; exact hlt), List.getElem_finRange]
      rfl
    rw [hrank]
    exact share_mem h ⟨i, hlt⟩
  · rw [List.getElem?_eq_none (by rw [h.partitioned.ranks]; exact hge),
      List.getElem?_eq_none (by rw [List.length_finRange]; exact hge)]
    rfl

/-- At the start, everything is left. -/
theorem left_zero (h : S.Serves requests) : S.left 0 = getTotalNumberOfChunks S.shares := by
  unfold getTotalNumberOfChunks left
  conv_rhs => rw [shares_eq h]
  rw [List.map_map]
  congr 1
  apply List.map_congr_left
  intro r _
  show (S.stream r).length = _
  have hlen := (h.yields r).length_eq
  rw [List.length_map] at hlen
  rw [hlen]
  unfold shareChunks
  rw [List.length_flatMap]
  simp

/-- What the ranks read: each chunk under its original ids. -/
def readOutputs (S : Session) : List Output :=
  (List.finRange _).flatMap (fun r => (S.stream r).map (S.streamer r).outputOf)

/-- **The script yields what the ranks read**, each chunk once. -/
theorem outputs_perm (h : S.Serves requests) {rounds : Nat} (hleft : S.left rounds = 0) :
    (S.upTo S.turnOutputs rounds 0).Perm S.readOutputs := by
  -- what has been yielded and what is left make up what was read
  have hsplit : ∀ k, (S.upTo S.turnOutputs k 0 ++ (List.finRange _).flatMap
      (fun r => (S.batchAt r k).remaining.map (S.streamer r).outputOf)).Perm S.readOutputs := by
    intro k
    induction k with
    | zero => exact List.Perm.refl _
    | succ k ih =>
        refine List.Perm.trans ?_ ih
        rw [← upTo_round]
        unfold upTo
        rw [take_all, List.take_zero, List.flatMap_nil, List.append_nil, List.append_assoc]
        apply List.Perm.append_left
        refine (List.flatMap_append_perm _ _ _).trans ?_
        apply List.Perm.of_eq
        congr 1
        funext r
        obtain ⟨placed, hrest, hturn⟩ := turnOutputs_eq h r k
        rw [hturn, hrest, List.map_append, List.map_map]
        rfl
  have hall := hsplit rounds
  have hnone : (List.finRange _).flatMap
      (fun r => (S.batchAt r rounds).remaining.map (S.streamer r).outputOf) = [] := by
    apply List.flatMap_eq_nil_iff.mpr
    intro r hr
    have hzero : (S.batchAt r rounds).remaining.length = 0 := by
      unfold left at hleft
      exact List.sum_eq_zero_iff.mp hleft _ (List.mem_map_of_mem hr)
    rw [List.length_eq_zero_iff.mp hzero]
    rfl
  rw [hnone, List.append_nil] at hall
  exact hall

/-- File id, chunk index and number of bytes. -/
def Output.key (o : Output) : Int × Int × Nat := (o.1, o.2.1, o.2.2.length)

/-- Those of a work unit. -/
def unitKey (u : WorkUnit) : Int × Int × Nat := (u.originalRequestIndex, u.originalChunkIndex, u.size)

/-- **What the ranks read is every chunk of the files once.** -/
theorem read_all (h : S.Serves requests) :
    (S.readOutputs.map Output.key).Perm ((allUnits requests).map unitKey) := by
  refine List.Perm.trans ?_ (h.partitioned.units.map unitKey)
  conv_rhs => rw [shares_eq h]
  unfold readOutputs
  rw [List.flatten_eq_flatMap, List.flatMap_map, List.flatMap_assoc, List.map_flatMap,
    List.map_flatMap]
  apply List.Perm.flatMap_left
  intro r _
  -- the key of a chunk that is read depends on where it is in the share
  set key : Int × Nat × Nat → Int × Int × Nat := fun c =>
    let orig := (source S.shares (r, c.1, c.2.1)).getD (0, 0, 0)
    (orig.1, orig.2.1, c.2.2) with hkey
  have hread : ((S.stream r).map (S.streamer r).outputOf).map Output.key
      = ((S.stream r).map (fun c => (c.fileId, c.chunkIndex, c.bytes.length))).map key := by
    rw [List.map_map, List.map_map]
    rfl
  rw [hread]
  refine ((h.yields r).map key).trans (List.Perm.of_eq ?_)
  unfold shareChunks
  rw [List.map_flatMap, id, List.map_flatMap]
  apply List.flatMap_congr
  intro e he
  apply List.ext_getElem?
  intro i
  rw [List.map_map, List.getElem?_map, List.getElem?_map]
  rcases Nat.lt_or_ge i e.1.sizes.length with hlt | hge
  · have hshare := share_mem h r
    obtain ⟨u, hunit, -, -, hsize, hmap⟩ := h.partitioned.unit (mem_of_share hshare he) hlt
    have hsource : source S.shares (r, e.1.id, i)
        = some (u.originalRequestIndex, u.originalChunkIndex, u.size) := by
      unfold source
      rw [h.partitioned.lookup_eq (k := (_, _, _)) hshare he rfl, Option.bind_some]
      exact hmap
    rw [hunit, List.getElem?_zipIdx, hsize]
    show some (key (e.1.id, 0 + i, u.size)) = some (unitKey u)
    rw [hkey, Nat.zero_add]
    simp only
    rw [hsource]
    rfl
  · have hlen : (entryUnits e).length ≤ i := by
      unfold entryUnits
      rw [List.length_zipWith, pairs_length]
      omega
    rw [List.getElem?_eq_none hlen, List.getElem?_eq_none (by rw [List.length_zipIdx]; exact hge)]
    rfl

end Served

end Session

end ModelStreamer.Distributed
