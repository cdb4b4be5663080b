/-
  ModelStreamer.Distributed.Layout
  ────────────────────────────────
  **THE SENDER'S LAYOUT IS THE RECEIVERS'.**

  A rank lays its chunks out in its own buffer, at offsets that are aligned
  there, and the others read them at the same offsets in theirs.  Each rank
  cuts its buffer where its own allocation is first aligned, so that an
  offset is aligned in one buffer if it is in the others.

    • `alignedOffset_isLeast` — the next aligned offset,
    • `placedIn` — the chunks one `prefill` placed, and where,
    • `Agrees` — what the sender placed, and each receiver finds,
    • `prefill_agrees` — every round of a rank agrees, what did not fit comes
      first in the next, and no chunk is lost or placed twice.
-/
import ModelStreamer.Distributed.Script

namespace ModelStreamer.Distributed

open ModelStreamer.Lib ModelStreamer.FileStreamer

/-! ## §1. Alignment. -/

/-- What an address has to be a multiple of: an alignment of zero is one. -/
def alignmentUnit (alignment : Nat) : Nat := max 1 alignment

/-- **The next aligned offset**: `aligned_offset` is what its docstring says. -/
theorem alignedOffset_isLeast (basePtr currentOffset alignment : Nat) :
    IsLeast {offset | currentOffset ≤ offset ∧ alignmentUnit alignment ∣ basePtr + offset}
      (alignedOffset basePtr currentOffset alignment) := by
  unfold alignedOffset alignmentUnit
  split
  · next hone =>
      rw [Nat.max_eq_left hone]
      exact ⟨⟨Nat.le_refl _, one_dvd _⟩, fun offset hoffset => hoffset.1⟩
  · next halign =>
      rw [Nat.max_eq_right (by omega)]
      have hpos : (0 : Int) < alignment := by omega
      have hnn := Int.emod_nonneg (-((basePtr : Int) + currentOffset)) hpos.ne'
      have hlt := Int.emod_lt_of_pos (-((basePtr : Int) + currentOffset)) hpos
      have hdiv := Int.emod_add_mul_ediv (-((basePtr : Int) + currentOffset)) alignment
      set padding := -((basePtr : Int) + currentOffset) % alignment with hpadding
      refine ⟨⟨Nat.le_add_right _ _, ?_⟩, fun offset hoffset => ?_⟩
      · rw [← Int.natCast_dvd_natCast]
        refine ⟨-(-((basePtr : Int) + currentOffset) / alignment), ?_⟩
        push_cast
        rw [Int.toNat_of_nonneg hnn, mul_neg]
        omega
      · -- less padding would not be a multiple
        obtain ⟨hge, q, hq⟩ := hoffset
        by_contra hless
        have hgap : (offset : Int) - currentOffset
            = -((basePtr : Int) + currentOffset) + alignment * q := by
          have hcast := congrArg (fun n : Nat => (n : Int)) hq
          push_cast at hcast
          omega
        have hmod : ((offset : Int) - currentOffset) % alignment = padding := by
          rw [hgap, Int.add_mul_emod_self_left]
        rw [Int.emod_eq_of_lt (by omega) (by omega)] at hmod
        omega

/-- Where the slice of a buffer lies. -/
def Allocation.base (raw : Allocation) (alignment : Nat) : Nat :=
  raw.dataPtr + raw.start alignment

theorem Allocation.start_eq (raw : Allocation) (alignment : Nat) :
    raw.start alignment = alignedOffset raw.dataPtr 0 alignment := by
  unfold Allocation.start alignedOffset
  simp

/-- Every rank's slice starts at an aligned address. -/
theorem base_aligned (raw : Allocation) (alignment : Nat) :
    alignmentUnit alignment ∣ raw.base alignment := by
  unfold Allocation.base
  rw [Allocation.start_eq]
  exact (alignedOffset_isLeast raw.dataPtr 0 alignment).1.2

/-- **An offset that is aligned in the sender's buffer** is aligned in every
other. -/
theorem offset_aligned (self : Streamer) (size : Nat) (raw : Allocation) :
    alignmentUnit self.alignment ∣
      raw.base self.alignment + alignedOffset self.basePtr size self.alignment := by
  have hsender := (alignedOffset_isLeast self.basePtr size self.alignment).1.2
  have hoffset := (Nat.dvd_add_right (base_aligned self.dataBufferRaw self.alignment)).mp hsender
  exact Nat.dvd_add (base_aligned raw self.alignment) hoffset

/-! ## §2. What one filling placed. -/

/-- The chunks that went from the stream into the buffer, with the offsets in
their rows of the table. -/
def placedIn (b b' : Batch) : List (Chunk × Nat) :=
  (b.remaining.take b'.chunkCountInBatch).zip
    ((b'.batchMetadata.tail.take b'.chunkCountInBatch).map (fun row => row.m3.toNat))

theorem placedIn_eq {self : Streamer} {placed : List (Chunk × Nat)} {b b' : Batch}
    (h : Filled self placed b') (htaken : b.remaining = placed.map Prod.fst ++ b'.remaining) :
    placedIn b b' = placed := by
  have hchunks : b.remaining.take b'.chunkCountInBatch = placed.map Prod.fst := by
    rw [htaken, h.count, List.take_left' (List.length_map Prod.fst)]
  have hoffsets : (b'.batchMetadata.tail.take b'.chunkCountInBatch).map (fun row => row.m3.toNat)
      = placed.map Prod.snd := by
    apply List.ext_getElem?
    intro j
    rw [List.getElem?_map, List.getElem?_map, List.getElem?_take, List.getElem?_tail, h.count]
    split
    · next hj =>
        have hp := List.getElem?_eq_getElem hj
        rw [h.row j _ hp, hp]
        rfl
    · next hj =>
        rw [List.getElem?_eq_none (Nat.le_of_not_lt hj)]
        rfl
  exact (List.zip_of_prod hchunks.symm hoffsets.symm).symm

/-! ## §3. What the others make of it. -/

/-- The bytes a rank broadcasts. -/
def Batch.sent (b : Batch) : List UInt8 := b.dataBuffer.take b.currentDataSize

/-- **A receiver** with variables `v`, in turn `turn`: it counts the chunks
placed, expects as many bytes as are sent, and finds each chunk where its row
says. -/
structure Received (rank : Streamer) (placed : List (Chunk × Nat)) (b : Batch) (v : Vars)
    (turn : Nat) : Prop where
  count : (gotMetadata v turn (.int64 b.batchMetadata)).receivedCount = placed.length
  size : placed ≠ [] → (gotMetadata v turn (.int64 b.batchMetadata)).pc = .data turn ∧
    (gotMetadata v turn (.int64 b.batchMetadata)).totalDataSize = b.sent.length
  fits : b.sent.length ≤ v.receivedBuffer.length
  chunk : ∀ (j : Nat) (p : Chunk × Nat), placed[j]? = some p →
    let got := gotData (gotMetadata v turn (.int64 b.batchMetadata)) turn (.uint8 b.sent)
    yieldOf got.receivedMetadata (got.receivedBuffer.take got.totalDataSize) j = rank.outputOf p.1

/-- **One filling, from `b` to `b'`**, and what it is to the ranks: `raw` is
any rank's allocation, the sender's among them. -/
structure Agrees (rank : Streamer) (b b' : Batch) : Prop where
  inside : ∀ p ∈ placedIn b b', p.2 + p.1.bytes.length ≤ rank.bufferBytesize
  apart : (placedIn b b').Pairwise (fun p q => ∀ address,
    Covers (fun item : Chunk => item.bytes.length) p address →
      ¬ Covers (fun item : Chunk => item.bytes.length) q address)
  aligned : ∀ p ∈ placedIn b b', ∀ raw : Allocation,
    alignmentUnit rank.alignment ∣ raw.base rank.alignment + p.2
  sent : b'.sent.length = b'.currentDataSize ∧ b'.currentDataSize ≤ b'.dataBuffer.length
  own : ∀ (j : Nat) (p : Chunk × Nat), (placedIn b b')[j]? = some p →
    yieldOf b'.batchMetadata b'.dataBuffer j = rank.outputOf p.1
  received : ∀ (raw : Allocation) (v : Vars) (turn : Nat),
    v.receivedBuffer.length = (raw.buffer rank.bufferBytesize rank.alignment).length →
      Received rank (placedIn b b') b' v turn
  taken : b.remaining = (placedIn b b').map Prod.fst ++ b'.remaining
  leftover : rank.Stops (rank.maxChunksPerBatch - (placedIn b b').length) b'
  some : b.remaining ≠ [] → placedIn b b' ≠ []

section Agrees

variable {self : Streamer} {placed : List (Chunk × Nat)} {b b' : Batch}

theorem Filled.sent_length (h : Filled self placed b) : b.sent.length = b.currentDataSize := by
  unfold Batch.sent
  rw [List.length_take]
  exact Nat.min_eq_left (h.size.trans h.bytesize)

/-- A receiver keeps the table, and goes on to the data unless it counts no
chunks. -/
theorem gotMetadata_spec (v : Vars) (turn : Nat) (rows : List Row) :
    (gotMetadata v turn (.int64 rows)).receivedMetadata = rows ∧
      (gotMetadata v turn (.int64 rows)).receivedBuffer = v.receivedBuffer ∧
      ((rows.getD 0 .zero).m0.toNat ≠ 0 →
        (gotMetadata v turn (.int64 rows)).pc = .data turn) := by
  rw [gotMetadata]
  simp only
  split
  · next hzero => exact ⟨rfl, rfl, fun hne => absurd hzero hne⟩
  · exact ⟨rfl, rfl, fun _ => rfl⟩

/-- **What is filled is received**, by whoever has room for a whole buffer. -/
theorem Filled.received (h : Filled self placed b)
    (hheader : (b.batchMetadata.getD 0 .zero).m0 = b.chunkCountInBatch) {v : Vars}
    (hfits : self.bufferBytesize ≤ v.receivedBuffer.length) (turn : Nat) :
    Received self placed b v turn := by
  obtain ⟨htable, hbuffer, hdata⟩ := gotMetadata_spec v turn b.batchMetadata
  set got := gotMetadata v turn (.int64 b.batchMetadata) with hgot
  have hsent := h.sent_length
  have hcount : got.receivedCount = b.chunkCountInBatch := by
    unfold Vars.receivedCount
    rw [htable, hheader, Int.toNat_natCast]
  have htotal : placed ≠ [] → got.totalDataSize = b.currentDataSize := by
    intro hne
    unfold Vars.totalDataSize
    rw [hcount, htable]
    exact h.last_row hne
  refine ⟨hcount.trans h.count, fun hne => ⟨hdata ?_, ?_⟩, ?_, ?_⟩
  · rw [hheader, Int.toNat_natCast, h.count]
    exact fun hzero => hne (List.length_eq_zero_iff.mp hzero)
  · rw [htotal hne, hsent]
  · rw [hsent]
    exact h.size.trans hfits
  · intro j p hp
    have hne : placed ≠ [] := List.ne_nil_of_mem (List.mem_of_getElem? hp)
    show yieldOf got.receivedMetadata
      ((b.sent ++ got.receivedBuffer.drop b.sent.length).take got.totalDataSize) j = _
    rw [htable, htotal hne, ← hsent, List.take_left]
    apply Session.yieldOf_placed h hp
    unfold Batch.sent
    rw [List.take_take, Nat.min_self]

/-- The rank that places chunks has more to place, or none. -/
theorem Ready.next (h : Ready self b) (hfilled : Filled self placed b')
    (hrest : b.remaining = placed.map Prod.fst ++ b'.remaining) : Ready self b' where
  table := hfilled.table
  bytesize := hfilled.bytesize
  sendable := by
    intro item hitem
    exact h.sendable item (by rw [hrest]; exact List.mem_append_right _ hitem)
  reading := by
    intro hreading
    have hnil := h.reading hreading
    rw [hrest] at hnil
    exact (List.append_eq_nil_iff.mp hnil).2

/-- **One filling agrees.** -/
theorem Ready.filling_agrees (hmax : 1 ≤ self.maxChunksPerBatch) (h : Ready self b) :
    ∃ b', prefill self b = .ok b' ∧ Ready self b' ∧ Agrees self b b' ∧
      self.Lays 0 (placedIn b b') := by
  obtain ⟨placed, b', hok, hfilled, hheader, hrest, hsome, hlays, hstops⟩ :=
    prefill_layout hmax h
  have hplaced : placedIn b b' = placed := placedIn_eq hfilled hrest
  -- each field is a fact about the chunks this filling placed
  refine ⟨b', hok, h.next hfilled hrest, ?_, by rw [hplaced]; exact hlays⟩
  constructor
  case inside =>
    rw [hplaced]
    intro p hp
    exact (hfilled.below p hp).trans hfilled.size
  case apart =>
    rw [hplaced]
    exact Serial.apart (fun size => alignedOffset_le self.basePtr size self.alignment) hlays
  case aligned =>
    rw [hplaced]
    intro p hp raw
    exact Serial.forall (P := fun offset => alignmentUnit self.alignment ∣
      raw.base self.alignment + offset) (fun size => offset_aligned self size raw) hlays p hp
  case sent => exact ⟨hfilled.sent_length, hfilled.size.trans hfilled.bytesize⟩
  case own =>
    rw [hplaced]
    exact fun j p hp => Session.yieldOf_placed hfilled hp rfl
  case received =>
    rw [hplaced]
    intro raw v turn hlength
    exact hfilled.received hheader (hlength ▸ buffer_length raw _ _) turn
  case taken =>
    rw [hplaced]
    exact hrest
  case leftover =>
    rw [hplaced]
    exact hstops
  case some =>
    rw [hplaced]
    exact hsome

end Agrees

/-! ## §4. All rounds of a rank. -/

/-- The batch of a rank after `k` rounds. -/
def Streamer.after (self : Streamer) (b : Batch) : Nat → Batch
  | 0 => b
  | k + 1 => (prefill self (self.after b k)).toOption.getD (self.after b k)

/-- The rounds of a session's rank are these. -/
theorem batchAt_eq_after (S : Session) (r : S.Rank) (k : Nat) :
    S.batchAt r k = (S.streamer r).after (S.emptyBatch r) k := by
  induction k with
  | zero => rfl
  | succ k ih =>
      unfold Session.batchAt Streamer.after
      rw [ih]
      cases prefill (S.streamer r) ((S.streamer r).after (S.emptyBatch r) k) with
      | error e => rfl
      | ok b => rfl

/-- What a rank placed in round `k`. -/
def Streamer.placedAt (self : Streamer) (b : Batch) (k : Nat) : List (Chunk × Nat) :=
  placedIn (self.after b k) (self.after b (k + 1))

section Rounds

variable {self : Streamer} {b : Batch}

theorem round_spec (hmax : 1 ≤ self.maxChunksPerBatch) {k : Nat}
    (h : Ready self (self.after b k)) :
    prefill self (self.after b k) = .ok (self.after b (k + 1)) ∧
      Ready self (self.after b (k + 1)) ∧ Agrees self (self.after b k) (self.after b (k + 1)) ∧
      self.Lays 0 (self.placedAt b k) := by
  obtain ⟨b', hok, hready, hagrees, hlays⟩ := h.filling_agrees hmax
  have hb' : self.after b (k + 1) = b' := by
    rw [Streamer.after, hok]
    rfl
  unfold Streamer.placedAt
  rw [hb']
  exact ⟨hok, hready, hagrees, hlays⟩

theorem round_ready (hmax : 1 ≤ self.maxChunksPerBatch) (h : Ready self b) (k : Nat) :
    Ready self (self.after b k) := by
  induction k with
  | zero => exact h
  | succ k ih => exact (round_spec hmax ih).2.1

/-- **What did not fit comes first**, at the start of the buffer. -/
theorem leftover_first (hmax : 1 ≤ self.maxChunksPerBatch) {k : Nat}
    (h : Ready self (self.after b k)) {item : Chunk}
    (hleftover : (self.after b k).leftoverChunk = some item) :
    (self.placedAt b k).head? = some (item, 0) := by
  obtain ⟨-, -, hagrees, hlays⟩ := round_spec hmax h
  have hremaining : (self.after b k).remaining = item :: (self.after b k).stream := by
    unfold Batch.remaining
    rw [hleftover]
    rfl
  have htaken := hagrees.taken
  have hsome := hagrees.some (by rw [hremaining]; simp)
  change self.placedAt b k ≠ [] at hsome
  change _ = (self.placedAt b k).map Prod.fst ++ _ at htaken
  cases hplaced : self.placedAt b k with
  | nil => exact absurd hplaced hsome
  | cons p rest =>
      rw [hplaced] at htaken hlays
      rw [hremaining, List.map_cons, List.cons_append] at htaken
      -- the slice starts at an aligned address, so that the first needs no padding
      have hoffset : p.2 = 0 := hlays.1.trans (alignedOffset_zero self)
      rw [List.head?_cons, ← hoffset, (List.cons.inj htaken).1]

/-- **No chunk is lost or placed twice**, over the first `k` rounds. -/
theorem placed_then_remaining (hmax : 1 ≤ self.maxChunksPerBatch) (h : Ready self b) (k : Nat) :
    b.remaining = (List.range k).flatMap (fun i => (self.placedAt b i).map Prod.fst)
      ++ (self.after b k).remaining := by
  induction k with
  | zero => rfl
  | succ k ih =>
      have htaken := (round_spec hmax (round_ready hmax h k)).2.2.1.taken
      rw [List.range_succ, List.flatMap_append, List.append_assoc, ih, htaken]
      simp [Streamer.placedAt]

end Rounds

/-- **The layout agrees with the receivers**: from any batch, in every round
of a rank, the filling succeeds and agrees; a leftover chunk comes first in
the next round, and the chunks placed in all rounds are those of the stream,
one after the other. -/
theorem prefill_agrees (self : Streamer) (b : Batch) (hmax : 1 ≤ self.maxChunksPerBatch)
    (h : Ready self b) (k : Nat) :
    prefill self (self.after b k) = .ok (self.after b (k + 1)) ∧
      Agrees self (self.after b k) (self.after b (k + 1)) ∧
      (∀ item, (self.after b k).leftoverChunk = some item →
        (self.placedAt b k).head? = some (item, 0)) ∧
      b.remaining = (List.range k).flatMap (fun i => (self.placedAt b i).map Prod.fst)
        ++ (self.after b k).remaining := by
  have hready := round_ready hmax h k
  obtain ⟨hok, -, hagrees, -⟩ := round_spec hmax hready
  exact ⟨hok, hagrees, fun item hitem => leftover_first hmax hready hitem,
    placed_then_remaining hmax h k⟩

/-- A rank with a buffer of eight bytes, which is aligned to four from its
second byte on. -/
def paddedRank : Streamer where
  originalGroupRank := 0
  localGroupGlobalRanks := [0, 1]
  readingFromStorage := true
  rankDictsMap fileId chunkIndex := some (fileId, chunkIndex, 0)
  totalChunksToRead := 3
  maxChunksPerBatch := 4
  bufferBytesize := 8
  alignment := 4
  dataBufferRaw := ⟨7, fun _ => 0⟩
  receivedBufferRaw := ⟨9, fun _ => 0⟩

/-- Three chunks, the second one empty. -/
def threeChunks : Batch where
  leftoverChunk := none
  stream := [⟨0, 0, [1, 2, 3]⟩, ⟨0, 1, []⟩, ⟨0, 2, [4, 5, 6, 7, 8]⟩]
  dataBuffer := paddedRank.dataBufferRaw.buffer 8 4
  batchMetadata := List.replicate 5 .zero
  currentDataSize := 0
  chunkCountInBatch := 0

/-- The witness: the third chunk does not fit behind the others. -/
theorem prefill_agrees_three :
    paddedRank.placedAt threeChunks 0 = [(⟨0, 0, [1, 2, 3]⟩, 0), (⟨0, 1, []⟩, 4)] ∧
    prefill paddedRank (paddedRank.after threeChunks 1) = .ok (paddedRank.after threeChunks 2) ∧
      Agrees paddedRank (paddedRank.after threeChunks 1) (paddedRank.after threeChunks 2) ∧
      (∀ item, (paddedRank.after threeChunks 1).leftoverChunk = some item →
        (paddedRank.placedAt threeChunks 1).head? = some (item, 0)) ∧
      threeChunks.remaining
        = (List.range 1).flatMap (fun i => (paddedRank.placedAt threeChunks i).map Prod.fst)
          ++ (paddedRank.after threeChunks 1).remaining := by
  refine ⟨by decide +kernel, prefill_agrees paddedRank threeChunks (by decide) ?_ 1⟩
  refine ⟨by decide, by decide, ?_, by decide⟩
  intro item hitem
  have hmem : item ∈ threeChunks.stream := hitem
  simp only [threeChunks, List.mem_cons, List.not_mem_nil, or_false] at hmem
  rcases hmem with rfl | rfl | rfl
  · exact ⟨by decide, rfl⟩
  · exact ⟨by decide, rfl⟩
  · exact ⟨by decide, rfl⟩

end ModelStreamer.Distributed
