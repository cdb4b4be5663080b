/-
  ModelStreamer.Distributed.Bytes
  ───────────────────────────────
  **THE FILES' BYTES ON EVERY RANK** (`DistributedStreamer`, the distributed
  path).

  Each rank reads its share with a `FileStreamer` of its own, over the
  threads of its own process, and the ranks exchange what they have read.
  Three results meet here: the shares stand for all chunks once, a local
  stream yields the bytes of its files, and what is broadcast arrives.

    • `LocalStream` — what a rank's `FileStreamer` may yield,
    • `read_bytes` — the chunks all ranks read are those of all files,
    • `distributed_bytes` — so each rank that is done has yielded them all.
-/
import ModelStreamer.Distributed.Rounds
import ModelStreamer.Filesystem.Consumer

namespace ModelStreamer.Distributed

open ModelStreamer.Lib ModelStreamer.FileStreamer ModelStreamer.Filesystem ModelStreamer.Planning

/-! ## §1. One rank's stream. -/

/-- **What a rank's `FileStreamer` yields** of these files: nothing when the
rank has no share, and else the chunks of a run over the machine that returns
without a FinishedError.  The default of the memory limit is changed to
unlimited. -/
inductive LocalStream (files : String → List UInt8) : List FileChunks → List Chunk → Prop
  | idle : LocalStream files [] []
  | streamed {n : Nat} {config : Config} {served : ServedRequests} {s : Consumer n}
      {address : Nat} {it : FilesRequestsIteratorWithBuffer} {sources : List FileChunks}
      {chunks : List Chunk} {used rest : List NativeResponse}
      (responseStr : ResponseCode → String) (int : String → Except String Int)
      (memoryLimit : Option String)
      (hcap : FilesRequestsIteratorWithBuffer.withMemoryMode int (some (memoryLimit.getD "-1"))
        address sources = .ok it)
      (hserved : Requests it served) (hmemory : it.bufferAddress + it.bufferSize ≤ 2 ^ 64)
      (hblock : 1 ≤ config.fsBlockBytesize) (hreach : (consumer n config files served).Reachable s)
      (hrun : run responseStr (submitted s.ids) sources (.ok it) s.script
        = (chunks, some .returned, rest))
      (hscript : s.script = used ++ rest) (hopen : ∀ r ∈ used, r.code ≠ .finishedError) :
      LocalStream files sources chunks

theorem LocalStream.bytes {files : String → List UInt8} {sources : List FileChunks}
    {chunks : List Chunk} (h : LocalStream files sources chunks)
    (hids : (sources.map FileChunks.id).Nodup) :
    chunks.Perm ((originalRanges sources).map (fileChunk files)) ∧
      ∀ range ∈ originalRanges sources, InFile files range := by
  cases h with
  | idle => exact ⟨List.Perm.refl _, by simp [originalRanges]⟩
  | streamed responseStr int memoryLimit hcap hserved hmemory hblock hreach hrun hscript hopen =>
      rw [← hcap] at hrun
      obtain ⟨used', hused, hall⟩ := chunks_of_run hids
        (machine_contract hids hcap hserved hmemory hblock hreach) hrun
      obtain rfl := List.append_cancel_right (hscript.symm.trans hused)
      exact hall hopen

/-! ## §2. All ranks. -/

/-- What is yielded for a work unit, with the bytes of its file. -/
def unitOutput (files : String → List UInt8) (u : WorkUnit) : Output :=
  (u.originalRequestIndex, u.originalChunkIndex, ((files u.path).drop u.offset).take u.size)

/-- The unit lies in its file. -/
def WorkUnit.InFile (files : String → List UInt8) (u : WorkUnit) : Prop :=
  u.size = 0 ∨ u.offset + u.size ≤ (files u.path).length

/-- The files of a share. -/
def shareFiles (share : Share) : List FileChunks := share.map Prod.fst

/-- The ranges of an entry, by their position. -/
theorem rangesFrom_get {file : FileChunks} {i offset size : Nat}
    (hoffset : file.offsets[i]? = some offset) (hsize : file.sizes[i]? = some size) :
    (file.rangesFrom 0)[i]? = some ⟨file.id, i, file.path, offset, size⟩ := by
  have hpair : file.pairs[i]? = some (offset, size) := by
    unfold FileChunks.pairs
    rw [List.getElem?_zip_eq_some]
    exact ⟨hoffset, hsize⟩
  unfold FileChunks.rangesFrom number
  rw [List.getElem?_map, List.getElem?_zipIdx, hpair, Nat.zero_add]
  rfl

/-- A chunk of a range that lies in its file has its size. -/
theorem fileChunk_length {files : String → List UInt8} {range : FileStreamer.Range}
    (h : InFile files range) : (fileChunk files range).bytes.length = range.size := by
  unfold fileChunk
  rw [List.length_take, List.length_drop]
  rcases h with hzero | hle
  · omega
  · omega

/-- The keys of a share's ranges. -/
theorem shareChunks_eq (share : Share) :
    shareChunks share = (originalRanges (shareFiles share)).map
      (fun range => (range.file, range.index, range.size)) := by
  unfold shareChunks originalRanges shareFiles
  rw [List.flatMap_map, List.map_flatMap]
  apply List.flatMap_congr
  intro e _
  apply List.ext_getElem?
  intro i
  rw [List.getElem?_map, List.getElem?_map, List.getElem?_zipIdx, Nat.zero_add]
  rcases Nat.lt_or_ge i e.1.sizes.length with hlt | hge
  · have hlt' : i < e.1.offsets.length := by
      rw [e.1.parallel]
      exact hlt
    rw [rangesFrom_get (List.getElem?_eq_getElem hlt') (List.getElem?_eq_getElem hlt),
      List.getElem?_eq_getElem hlt]
    rfl
  · have hnone : (e.1.rangesFrom 0)[i]? = none :=
      List.getElem?_eq_none (by rw [rangesFrom_length]; exact hge)
    rw [hnone, List.getElem?_eq_none hge]
    rfl

namespace Session

variable {S : Session} {requests : List FileChunks} {files : String → List UInt8}

/-- The files of a share have distinct ids. -/
theorem share_ids (hpartitioned : Partitioned requests S.globalRanks.length S.shares) (r : S.Rank) :
    ((shareFiles (S.shares.getD r [])).map FileChunks.id).Nodup := by
  have hlt : (r : Nat) < S.shares.length := by
    rw [hpartitioned.ranks]
    exact r.2
  have hmem : S.shares.getD r [] ∈ S.shares := by
    rw [List.getD_eq_getElem?_getD, List.getElem?_eq_getElem hlt]
    exact List.getElem_mem hlt
  have hsub : (S.shares.getD r []).Sublist S.shares.flatten := List.sublist_flatten_of_mem hmem
  have hnodup := hpartitioned.ids.sublist (hsub.map (fun e => e.1.id))
  unfold shareFiles
  rw [List.map_map]
  exact hnodup

/-- Local streams that yield the bytes of their files serve the session. -/
theorem serves_of_streams (hpartitioned : Partitioned requests S.globalRanks.length S.shares)
    (hroom : 1 ≤ S.maxChunksPerBatch) (hlargest : largestRange requests ≤ S.bufferBytesize)
    (hlocal : ∀ r : S.Rank, LocalStream files (shareFiles (S.shares.getD r [])) (S.stream r)) :
    S.Serves requests where
  partitioned := hpartitioned
  room := hroom
  largest := hlargest
  yields := by
    intro r
    obtain ⟨hperm, hin⟩ := (hlocal r).bytes (share_ids hpartitioned r)
    refine (hperm.map _).trans (List.Perm.of_eq ?_)
    rw [shareChunks_eq, List.map_map]
    apply List.map_congr_left
    intro range hrange
    show (range.file, range.index, (fileChunk files range).bytes.length) = _
    rw [fileChunk_length (hin range hrange)]

/-- **What all ranks read is the bytes of all chunks**, each under its
original ids. -/
theorem read_bytes (h : S.Serves requests)
    (hlocal : ∀ r : S.Rank, LocalStream files (shareFiles (S.shares.getD r [])) (S.stream r)) :
    S.readOutputs.Perm ((allUnits requests).map (unitOutput files)) := by
  refine List.Perm.trans ?_ (h.partitioned.units.map (unitOutput files))
  conv_rhs => rw [shares_eq h]
  unfold readOutputs
  rw [List.flatten_eq_flatMap, List.flatMap_map, List.flatMap_assoc, List.map_flatMap]
  apply List.Perm.flatMap_left
  intro r _
  obtain ⟨hperm, -⟩ := (hlocal r).bytes (share_ids h.partitioned r)
  refine (hperm.map (S.streamer r).outputOf).trans (List.Perm.of_eq ?_)
  unfold originalRanges shareFiles
  rw [id, List.flatMap_map, List.map_flatMap, List.map_flatMap, List.map_flatMap]
  apply List.flatMap_congr
  intro e he
  have hshare := share_mem h r
  apply List.ext_getElem?
  intro i
  rw [List.getElem?_map, List.getElem?_map, List.getElem?_map]
  rcases Nat.lt_or_ge i e.1.sizes.length with hlt | hge
  · -- the chunk is looked up in the map of its entry
    obtain ⟨u, hunit, hpath, hoffset, hsize, hmap⟩ :=
      h.partitioned.unit (mem_of_share hshare he) hlt
    have hsource : source S.shares (r, e.1.id, i)
        = some (u.originalRequestIndex, u.originalChunkIndex, u.size) := by
      unfold source
      rw [h.partitioned.lookup_eq (k := (_, _, _)) hshare he rfl, Option.bind_some]
      exact hmap
    rw [rangesFrom_get hoffset hsize, hunit]
    show some ((S.streamer r).outputOf (fileChunk files ⟨e.1.id, i, e.1.path, u.offset, u.size⟩))
      = some (unitOutput files u)
    unfold Streamer.outputOf unitOutput fileChunk
    rw [show (S.streamer r).rankDictsMap e.1.id i = source S.shares (r, e.1.id, i) from rfl,
      hsource, hpath]
    rfl
  · have hnone : (e.1.rangesFrom 0)[i]? = none :=
      List.getElem?_eq_none (by rw [rangesFrom_length]; exact hge)
    have hnone' : (entryUnits e)[i]? = none := by
      apply List.getElem?_eq_none
      unfold entryUnits
      rw [List.length_zipWith, pairs_length]
      omega
    rw [hnone, hnone']
    rfl

/-- And every chunk lies in its file. -/
theorem units_in_file (hpartitioned : Partitioned requests S.globalRanks.length S.shares)
    (hlocal : ∀ r : S.Rank, LocalStream files (shareFiles (S.shares.getD r [])) (S.stream r)) :
    ∀ u ∈ allUnits requests, u.InFile files := by
  intro u hu
  obtain ⟨e, he, hunit⟩ := List.mem_flatMap.mp ((hpartitioned.units.mem_iff).mpr hu)
  obtain ⟨share, hshare, hentry⟩ := List.mem_flatten.mp he
  obtain ⟨i, hi⟩ := List.getElem?_of_mem hunit
  obtain ⟨k, hk⟩ := List.getElem?_of_mem hshare
  have hlt : k < S.globalRanks.length := by
    rw [← hpartitioned.ranks]
    exact (List.getElem?_eq_some_iff.mp hk).1
  have hsize : i < e.1.sizes.length := by
    have hbound := (List.getElem?_eq_some_iff.mp hi).1
    unfold entryUnits at hbound
    rw [List.length_zipWith, pairs_length] at hbound
    omega
  obtain ⟨u', hunit', hpath, hoffset, hsize', -⟩ := hpartitioned.unit he hsize
  obtain rfl : u' = u := Option.some.inj (hunit'.symm.trans hi)
  have hsource : shareFiles share = shareFiles (S.shares.getD (⟨k, hlt⟩ : S.Rank) []) := by
    show _ = shareFiles (S.shares.getD k [])
    rw [List.getD_eq_getElem?_getD, hk]
    rfl
  have hrange : (⟨e.1.id, i, e.1.path, u'.offset, u'.size⟩ : FileStreamer.Range)
      ∈ originalRanges (shareFiles share) := by
    apply List.mem_flatMap.mpr
    refine ⟨e.1, List.mem_map_of_mem hentry, ?_⟩
    exact List.mem_of_getElem? (rangesFrom_get hoffset hsize')
  have hin := ((hlocal ⟨k, hlt⟩).bytes (share_ids hpartitioned ⟨k, hlt⟩)).2 _ (hsource ▸ hrange)
  rw [WorkUnit.InFile, hpath]
  exact hin

end Session

/-! ## §3. The bytes on every rank. -/

/-- **THE FILES' BYTES ON EVERY RANK**, for every group of ranks, either
partition, whatever the threads and the OS do on each of them and however the
ranks interleave.  If every local stream returned, and none came to a
FinishedError, every chunk lies in its file, no rank raises, all of them come
to their end, and each has then yielded the chunks of all files, each once and
with the bytes of its file, in one order that is the same on all ranks. -/
theorem distributed_bytes (S : Session) (files : String → List UInt8)
    (requests : List FileChunks) (policy : Option String) (hranks : 1 ≤ S.globalRanks.length)
    (hids : policy = some "files" → (requests.map FileChunks.id).Nodup)
    (hpartition : partition policy requests S.globalRanks.length = .ok S.shares)
    (bufferMinBytesize : Nat) (hbatch : S.maxChunksPerBatch = 256)
    (hbuffer : S.bufferBytesize = max bufferMinBytesize (largestRange requests))
    (hlocal : ∀ r : S.Rank, LocalStream files (shareFiles (S.shares.getD r [])) (S.stream r)) :
    (∀ u ∈ allUnits requests, u.InFile files) ∧
    ∃ outputs, outputs.Perm ((allUnits requests).map (unitOutput files)) ∧
      (∀ s, S.ranks.system.Reachable s → ∀ r,
        (s r).emitted <+: outputs ∧ (∀ e, (s r).state.pc ≠ .raised e) ∧
          ((s r).state.pc = .finished → (s r).emitted = outputs)) ∧
      (∀ s, S.ranks.system.Reachable s → (∃ r, (s r).state.pc ≠ .finished) →
        ∃ r t, (S.ranks.system.restrict Lib.Collective.Rendezvous).step s r t) ∧
      ∀ s, S.ranks.system.init s → ∃ bound, ∀ count t,
        S.ranks.system.Steps (fun _ => True) count s t → count ≤ bound := by
  have hpartitioned := partition_spec hranks hids hpartition
  have hroom : 1 ≤ S.maxChunksPerBatch := by omega
  have hlargest : largestRange requests ≤ S.bufferBytesize := by
    rw [hbuffer]
    exact le_max_right _ _
  have hserves := Session.serves_of_streams hpartitioned hroom hlargest hlocal
  refine ⟨Session.units_in_file hpartitioned hlocal, ?_⟩
  obtain ⟨script, outputs, rounds, hagrees⟩ := Session.Serves.agrees hserves
  refine ⟨outputs, hagrees.read.trans (Session.read_bytes hserves hlocal), ?_,
    hagrees.advance, hagrees.bounded⟩
  intro s hs r
  exact ⟨hagrees.yielded s hs r, hagrees.quiet s hs r,
    fun hfinished => (hagrees.finished s hs r hfinished).2.1⟩

/-- Two ranks, and the file of one byte: one of them has nothing to read. -/
def idleRank : Session where
  globalRanks := [0, 1]
  distinct := by decide
  shares := [[(.contiguous 0 "/data/weights" 0 [1], [(0, 0, 1)])], []]
  maxChunksPerBatch := 256
  bufferBytesize := 1
  alignment := 512
  dataBufferRaw := fun r => ⟨17 * r, fun k => k.toUInt8⟩
  receivedBufferRaw := fun r => ⟨31 * r, fun _ => 3⟩
  stream := fun r => if r = 0 then [⟨0, 0, [7]⟩] else []

theorem idleRank_partition :
    partition none oneSource idleRank.globalRanks.length = .ok idleRank.shares := by
  rfl

/-- The first rank's stream is that of the run of one byte. -/
theorem idleRank_local : ∀ r : idleRank.Rank,
    LocalStream oneByteFiles (shareFiles (idleRank.shares.getD r [])) (idleRank.stream r) := by
  obtain ⟨s, hreach, hids, hscript⟩ := oneSource_run
  refine Fin.forall_fin_two.mpr ⟨?_, LocalStream.idle⟩
  have hcap : FilesRequestsIteratorWithBuffer.withMemoryMode (fun _ => .ok (-1)) (some "-1") 4096
      oneSource = .ok oneIterator := rfl
  have hrun := oneSource_returned hids hscript
  obtain ⟨used, hused, -⟩ := chunks_of_run (by decide) (machine_contract (by decide) hcap
    oneIterator_requests (by decide) (by decide) hreach) (hcap.symm ▸ hrun)
  exact LocalStream.streamed (fun _ => "error") (fun _ => .ok (-1)) none hcap oneIterator_requests
    (by decide) (by decide) hreach hrun hused (oneSource_open hscript hused)

/-- Both ranks yield the byte. -/
theorem distributed_bytes_idleRank :
    ∃ outputs, outputs.Perm [(0, 0, [7])] ∧ ∀ s, idleRank.ranks.system.Reachable s → ∀ r,
      (s r).state.pc = .finished → (s r).emitted = outputs := by
  obtain ⟨-, outputs, hperm, hreach, -⟩ := distributed_bytes idleRank oneByteFiles oneSource none
    (by decide) (fun h => by simp at h) idleRank_partition 1 rfl (by decide) idleRank_local
  exact ⟨outputs, hperm, fun s hs r => (hreach s hs r).2.2⟩

end ModelStreamer.Distributed
