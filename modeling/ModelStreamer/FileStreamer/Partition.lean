/-
  ModelStreamer.FileStreamer.Partition
  ────────────────────────────────────
  **A STREAM'S REQUESTS, TAKEN TOGETHER.**

  `next_request` is called until it returns `None`.  From the packing of one
  request (`pack_spec`) this file gets the whole run:

    • `nextRequest_cases` — one call: nothing is pending, or a request takes
      a nonempty prefix of what is pending and stays resolvable through the
      iterator it leaves (`Placed`),
    • `requests_exist` — the calls end,
    • `partitions_of_coherent` — the requests together are the pending
      ranges, each once and in order,
    • `packing_lossless` — so for a new iterator, under every limit that
      holds the largest range.
-/
import ModelStreamer.FileStreamer.Packing

namespace ModelStreamer.FileStreamer

open ModelStreamer.Lib

/-! ## §1. Flattened positions. -/

theorem running_getElem? (cursor : Nat) (sizes : List Nat) {i : Nat} (h : i < sizes.length) :
    (running cursor sizes)[i]? = some (cursor + (sizes.take i).sum) := by
  induction sizes generalizing cursor i with
  | nil => simp at h
  | cons size sizes ih =>
      unfold running
      cases i with
      | zero => simp
      | succ i =>
          rw [List.getElem?_cons_succ, ih (cursor + size) (by simpa using h), List.take_succ_cons,
            List.sum_cons, Nat.add_assoc]

/-- Position `j` of part `i` in a concatenation. -/
theorem flatMap_getElem? {α β : Type} (g : α → List β) (xs : List α) {i j : Nat} {x : α}
    (hx : xs[i]? = some x) (hj : j < (g x).length) :
    (xs.flatMap g)[((xs.map (fun x => (g x).length)).take i).sum + j]? = (g x)[j]? := by
  induction xs generalizing i with
  | nil => simp at hx
  | cons y xs ih =>
      rw [List.flatMap_cons]
      cases i with
      | zero =>
          obtain rfl : y = x := by simpa using hx
          simp only [List.take_zero, List.sum_nil, Nat.zero_add]
          exact List.getElem?_append_left hj
      | succ i =>
          rw [List.map_cons, List.take_succ_cons, List.sum_cons, Nat.add_assoc,
            List.getElem?_append_right (Nat.le_add_right _ _), Nat.add_sub_cancel_left]
          exact ih (by simpa using hx)

/-- What `append` builds from the files of a request. -/
theorem foldl_append (files : List FileChunks) (request : FilesRequest) :
    files.foldl FilesRequest.append request
      = { request with
          files := request.files ++ files
          fileBase := request.fileBase
            ++ running request.numRanges (files.map (fun file => file.sizes.length))
          numRanges := request.numRanges + (files.map (fun file => file.sizes.length)).sum } := by
  induction files generalizing request with
  | nil => simp [running]
  | cons file files ih =>
      rw [List.foldl_cons, ih]
      simp only [FilesRequest.append, List.map_cons, running, List.sum_cons, List.append_assoc,
        List.singleton_append, Nat.add_assoc]

/-- The positions of a request's ranges, request-local and in order. -/
def FilesRequest.positions (request : FilesRequest) : List (Nat × Nat) :=
  request.files.zipIdx.flatMap
    (fun f => (List.range f.1.sizes.length).map (fun j => (f.2, j)))

/-- Where each range of a request goes. -/
def FilesRequest.spans (request : FilesRequest) : List Span :=
  List.zipWith Span.mk request.rangeDsts request.flatSizes

theorem zipWith_running (address : Nat) (sizes : List Nat) :
    List.zipWith Span.mk (running address sizes) sizes = layout address sizes := by
  induction sizes generalizing address with
  | nil => rfl
  | cons size sizes ih => rw [running, List.zipWith_cons_cons, ih, layout_cons]

theorem spans_of_dsts {request : FilesRequest} {address : Nat}
    (h : request.rangeDsts = running address request.flatSizes) :
    request.spans = layout address request.flatSizes := by
  rw [FilesRequest.spans, h, zipWith_running]

/-! ## §2. What a request offers its consumer. -/

/-- The range a request-local position stands for: its file and number as
`get_global_file_and_chunk` reports them, and what the request says of it. -/
def FilesRequestsIteratorWithBuffer.reported (it : FilesRequestsIteratorWithBuffer)
    (position : Nat × Nat) : Option Range := do
  let (fileId, index, _) ← it.getGlobalFileAndChunk position.1 position.2
  let request ← it.filesRequestsIterator.activeRequest
  let file ← request.files[position.1]?
  let offset ← file.offsets[position.2]?
  let size ← file.sizes[position.2]?
  return ⟨fileId, index, file.path, offset, size⟩

/-- A request in its buffer, as seen through the iterator that made it. -/
structure Placed (bufferAddress bufferSize : Nat) (it : FilesRequestsIteratorWithBuffer)
    (request : FilesRequest) : Prop where
  active : it.filesRequestsIterator.activeRequest = some request
  total : request.flatSizes.sum ≤ bufferSize
  /-- one destination a range -/
  count : request.numRanges = request.flatSizes.length ∧
    request.rangeDsts.length = request.flatSizes.length
  inside : ∀ span ∈ request.spans,
    bufferAddress ≤ span.start ∧ span.stop ≤ bufferAddress + bufferSize
  disjoint : request.spans.Pairwise (fun p q => p.stop ≤ q.start)
  /-- the slice reported for a range is the one its destination names -/
  slice : ∀ f j file size, request.files[f]? = some file → file.sizes[j]? = some size →
    ∃ flat dst index slice, request.flatIndex f j = some flat ∧
      request.flatSizes[flat]? = some size ∧ request.rangeDsts[flat]? = some dst ∧
      it.getGlobalFileAndChunk f j = some (file.id, index + j, slice) ∧
      it.filesRequestsIterator.fileToCurrentChunkIndex file.id = some index ∧
      bufferAddress + slice.start = dst ∧ slice.size = size

/-- A request built by `append`, with its destinations packed from the
buffer's address, is placed. -/
theorem placed_of_append {it : FilesRequestsIteratorWithBuffer} {request : FilesRequest}
    {files : List FileChunks}
    (hrequest : request = { files.foldl FilesRequest.append FilesRequest.new with
      rangeDsts := running it.bufferAddress (files.flatMap FileChunks.sizes) })
    (hactive : it.filesRequestsIterator.activeRequest = some request)
    (hindex : ∀ file ∈ files, ∃ index,
      it.filesRequestsIterator.fileToCurrentChunkIndex file.id = some index)
    (htotal : (files.flatMap FileChunks.sizes).sum ≤ it.bufferSize) :
    Placed it.bufferAddress it.bufferSize it request := by
  rw [foldl_append] at hrequest
  have hfiles : request.files = files := by rw [hrequest]; rfl
  have hbase : request.fileBase = running 0 (files.map (fun file => file.sizes.length)) := by
    rw [hrequest]; rfl
  have hflat : request.flatSizes = files.flatMap FileChunks.sizes := by
    rw [FilesRequest.flatSizes, hfiles]
  have hdsts : request.rangeDsts = running it.bufferAddress request.flatSizes := by
    rw [hflat, hrequest]
  have hspans := spans_of_dsts hdsts
  constructor
  case active => exact hactive
  case total => rw [hflat]; exact htotal
  case count =>
    refine ⟨?_, by rw [hdsts, running_length]⟩
    rw [hflat, List.length_flatMap, hrequest]
    simp [FilesRequest.new]
  case inside =>
    intro span hspan
    rw [hspans] at hspan
    have := mem_layout_bounds hspan
    rw [hflat] at this
    omega
  case disjoint =>
    rw [hspans]
    exact layout_pairwise _ _
  case slice =>
    intro f j file size hfile hsize
    rw [hfiles] at hfile
    have hf : f < files.length := (List.getElem?_eq_some_iff.mp hfile).1
    have hj : j < file.sizes.length := (List.getElem?_eq_some_iff.mp hsize).1
    obtain ⟨index, hindex⟩ := hindex file (List.mem_of_getElem? hfile)
    set flat := ((files.map (fun file => file.sizes.length)).take f).sum + j with hflatdef
    have hflatIndex : request.flatIndex f j = some flat := by
      rw [FilesRequest.flatIndex, hbase, running_getElem? 0 _ (by simpa using hf), Nat.zero_add]
      rfl
    have hsizeAt : request.flatSizes[flat]? = some size := by
      rw [hflat, flatMap_getElem? FileChunks.sizes files hfile hj, hsize]
    have hflatlt := (List.getElem?_eq_some_iff.mp hsizeAt).1
    have hdst : request.rangeDsts[flat]?
        = some (it.bufferAddress + (request.flatSizes.take flat).sum) := by
      rw [hdsts, running_getElem? _ _ hflatlt]
    -- the slice ends inside the buffer, so nothing of it is cut off
    have hend : (request.flatSizes.take flat).sum + size ≤ it.bufferSize := by
      have hsum : (request.flatSizes.take (flat + 1)).sum ≤ request.flatSizes.sum :=
        (List.take_sublist _ _).sum_le_sum (by simp)
      rw [List.take_add_one, hsizeAt, List.sum_append] at hsum
      rw [hflat] at hsum ⊢
      simp only [Option.toList_some, List.sum_singleton] at hsum
      omega
    refine ⟨flat, _, index, ⟨(request.flatSizes.take flat).sum, size⟩, hflatIndex, hsizeAt, hdst,
      ?_, hindex, rfl, rfl⟩
    rw [FilesRequestsIteratorWithBuffer.getGlobalFileAndChunk,
      FilesRequestsIterator.getGlobalFileAndChunk]
    simp only [hactive, hfiles, hfile, hindex, hflatIndex, hdst, hsize, bind, pure,
      Option.bind_some, Nat.add_sub_cancel_left, bufferSlice]
    rw [Nat.min_eq_left (by omega), Nat.min_eq_left hend, Nat.add_sub_cancel_left]

/-- **The consumer's view of a request**: its positions, resolved in order,
are its files' ranges, numbered from where the index map stands. -/
theorem Placed.reported {bufferAddress bufferSize : Nat} {it : FilesRequestsIteratorWithBuffer}
    {request : FilesRequest} (h : Placed bufferAddress bufferSize it request) :
    request.positions.map it.reported
      = (request.files.flatMap (fun file => file.rangesFrom
          ((it.filesRequestsIterator.fileToCurrentChunkIndex file.id).getD 0))).map some := by
  have hfile : ∀ f ∈ request.files.zipIdx,
      ((List.range f.1.sizes.length).map (fun j => (f.2, j))).map it.reported
        = (f.1.rangesFrom
            ((it.filesRequestsIterator.fileToCurrentChunkIndex f.1.id).getD 0)).map some := by
    intro f hf
    obtain ⟨file, i⟩ := f
    have hget : request.files[i]? = some file := by
      simpa using (List.mem_zipIdx_iff_getElem?.mp hf)
    apply List.ext_getElem?
    intro j
    simp only [List.map_map, List.getElem?_map]
    by_cases hj : j < file.sizes.length
    · have hoffset : j < file.offsets.length := by rw [file.parallel]; exact hj
      obtain ⟨flat, dst, index, slice, -, -, -, hglobal, hindex, -, -⟩ :=
        h.slice i j file _ hget (List.getElem?_eq_getElem hj)
      have hrange : (file.rangesFrom index)[j]?
          = some ⟨file.id, index + j, file.path, file.offsets[j], file.sizes[j]⟩ := by
        simp [FileChunks.rangesFrom, number, FileChunks.pairs, hj, hoffset]
      simp only [List.getElem?_range hj, Option.map_some, Function.comp_apply, hindex,
        Option.getD_some, hrange, FilesRequestsIteratorWithBuffer.reported, hglobal, h.active,
        hget, List.getElem?_eq_getElem hj, List.getElem?_eq_getElem hoffset, bind, pure,
        Option.bind_some]
    · rw [List.getElem?_eq_none (by simpa using hj),
        List.getElem?_eq_none (by rw [rangesFrom_length]; omega)]
      rfl
  rw [FilesRequest.positions, List.map_flatMap, List.map_flatMap,
    List.flatMap_congr hfile]
  conv_rhs => rw [← List.zipIdx_map_fst 0 request.files, List.flatMap_map]

/-! ## §3. One call of `next_request`. -/

/-- The index map is right for the queue, and each range fits the limit. -/
structure Coherent (it : FilesRequestsIteratorWithBuffer) : Prop where
  limit : it.filesRequestsIterator.memoryLimit = it.bufferSize
  tracked : Tracked it.filesRequestsIterator.indexes it.filesRequestsIterator.q
  largest : ∀ e ∈ it.filesRequestsIterator.q, ∀ size ∈ e.file.sizes, size ≤ it.bufferSize

/-- The ranges an iterator has not put into a request. -/
def FilesRequestsIteratorWithBuffer.pending (it : FilesRequestsIteratorWithBuffer) : List Range :=
  FileStreamer.pending it.filesRequestsIterator.q

theorem flatSizes_sum (files : List FileChunks) :
    (files.flatMap FileChunks.sizes).sum = totalSize files := by
  induction files with
  | nil => rfl
  | cons file files ih =>
      rw [List.flatMap_cons, List.sum_append, ih, totalSize, totalSize, List.map_cons,
        List.sum_cons]
      rfl

/-- **Nothing was packed**: the loop can only have come to the queue's end, as a
first range that does not fit is larger than the buffer, and none is. -/
theorem Packs.nothing {memoryLimit : Nat} {indexes : Dict} {q q' : List FileChunksIterator}
    (h : Packs memoryLimit 0 indexes q q' [])
    (hlargest : ∀ e ∈ q, ∀ size ∈ e.file.sizes, size ≤ memoryLimit) : pending q = [] := by
  have hq : q' = [] := by
    rcases h.stop with hnil | ⟨e', r, s, hq, hmem, hover⟩
    · exact hnil
    · have hfile : e'.file ∈ q.map FileChunksIterator.file := by
        apply h.left.subset
        rw [hq]
        exact List.mem_cons_self
      obtain ⟨e₀, he₀, hsame⟩ := List.mem_map.mp hfile
      have hle := hlargest e₀ he₀ s (hsame ▸ hmem)
      simp only [totalSize, List.map_nil, List.sum_nil] at hover
      push_cast at hover
      omega
  have hranges := h.ranges
  rw [hq] at hranges
  exact hranges

/-- **One call.**  Either nothing is pending and the answer is `None`, or
the request takes a nonempty prefix of what is pending. -/
theorem nextRequest_cases {it : FilesRequestsIteratorWithBuffer} (h : Coherent it) :
    (it.nextRequest.1 = none ∧ it.pending = []) ∨
    ∃ request it', it.nextRequest = (some request, it') ∧ Coherent it' ∧
      Placed it.bufferAddress it.bufferSize it' request ∧
      it'.bufferAddress = it.bufferAddress ∧ it'.bufferSize = it.bufferSize ∧
      it.pending = request.files.flatMap (fun file => file.rangesFrom
          ((it'.filesRequestsIterator.fileToCurrentChunkIndex file.id).getD 0)) ++ it'.pending ∧
      it'.pending.length < it.pending.length := by
  obtain ⟨⟨memoryLimit, q, fileIndex, active⟩, address, size⟩ := it
  obtain ⟨hlimit, htracked, hlargest⟩ := h
  simp only at hlimit htracked hlargest
  subst hlimit
  cases q with
  | nil =>
      left
      exact ⟨rfl, rfl⟩
  | cons e rest =>
      -- the indexes are those past the active request, which is done with
      set inner : FilesRequestsIterator := ⟨memoryLimit, e :: rest, fileIndex, active⟩ with hinner
      set indexes := inner.indexes with hindexes
      obtain ⟨added, hrequest, hpacks⟩ :=
        @pack_spec memoryLimit (e :: rest) FilesRequest.new 0 indexes htracked (Nat.zero_le _)
      set packed := pack memoryLimit (e :: rest) FilesRequest.new 0 with hpacked
      have hfiles : packed.2.files = added := by
        rw [hrequest, foldl_append]
        rfl
      by_cases hnone : added = []
      · left
        subst hnone
        refine ⟨?_, hpacks.nothing hlargest⟩
        simp only [FilesRequestsIteratorWithBuffer.nextRequest,
          FilesRequestsIterator.nextRequest]
        rw [← hpacked, hfiles]
        rfl
      · right
        have hlen : added.length ≠ 0 := fun h => hnone (List.eq_nil_of_length_eq_zero h)
        have hlen' : packed.2.files.length ≠ 0 := by
          rw [hfiles]
          exact hlen
        set request : FilesRequest :=
          { packed.2 with rangeDsts := running address packed.2.flatSizes } with hreq
        set it' : FilesRequestsIteratorWithBuffer :=
          ⟨⟨memoryLimit, packed.1, indexes, some request⟩, address, memoryLimit⟩ with hit'
        have hnext : FilesRequestsIteratorWithBuffer.nextRequest ⟨inner, address, memoryLimit⟩
            = (some request, it') := by
          simp only [FilesRequestsIteratorWithBuffer.nextRequest,
            FilesRequestsIterator.nextRequest, hinner, List.isEmpty_cons, Bool.false_eq_true,
            if_false, ← hpacked, if_neg hlen']
          rfl
        have hplaced : Placed address memoryLimit it' request := by
          refine @placed_of_append it' request added ?_ rfl ?_ ?_
          · rw [hreq, FilesRequest.flatSizes, hfiles, hrequest]
          · intro file hfile
            obtain ⟨e₀, he₀, hid⟩ := hpacks.source file hfile
            exact ⟨e₀.nextIndex, by rw [← hid]; exact htracked.index e₀ he₀⟩
          · rw [flatSizes_sum]
            have := hpacks.fits
            show totalSize added ≤ memoryLimit
            omega
        -- the files of the request are those packed
        have hfilesReq : request.files = added := hfiles
        have hranges := hpacks.ranges
        refine ⟨request, it', hnext, ⟨rfl, ⟨?_, ?_⟩, ?_⟩, hplaced, rfl, rfl, ?_, ?_⟩
        · -- the ids left are still distinct
          have hsub := (hpacks.left.map FileChunks.id)
          rw [List.map_map, List.map_map] at hsub
          exact hsub.nodup htracked.ids
        · intro e' he'
          show (indexes.advance request.files) e'.file.id = some e'.nextIndex
          rw [hfilesReq]
          exact hpacks.index e' he'
        · -- the largest range still bounds all that are left
          intro e' he' s hs
          obtain ⟨e₀, he₀, hsame⟩ :=
            List.mem_map.mp (hpacks.left.subset (List.mem_map_of_mem he'))
          exact hlargest e₀ he₀ s (hsame ▸ hs)
        · rw [hfilesReq]
          exact hranges
        · -- the first file of the request has a range
          obtain ⟨file, files, rfl⟩ := List.exists_cons_of_ne_nil hnone
          have hpos := hpacks.nonempty file List.mem_cons_self
          show (FileStreamer.pending packed.1).length < (FileStreamer.pending (e :: rest)).length
          rw [hranges, List.length_append, List.flatMap_cons, List.length_append,
            rangesFrom_length]
          omega

/-! ## §4. The whole run. -/

/-- `next_request` called until it returns `None`: each request, with the
iterator as the request's consumer finds it. -/
inductive Requests : FilesRequestsIteratorWithBuffer →
    List (FilesRequest × FilesRequestsIteratorWithBuffer) → Prop where
  | done {it} : it.nextRequest.1 = none → Requests it []
  | next {it request it' served} : it.nextRequest = (some request, it') →
      Requests it' served → Requests it ((request, it') :: served)

/-- **The calls end.** -/
theorem requests_exist {it : FilesRequestsIteratorWithBuffer} (h : Coherent it) :
    ∃ served, Requests it served := by
  -- by the number of ranges pending
  induction hn : it.pending.length using Nat.strongRecOn generalizing it with
  | _ n ih =>
      rcases nextRequest_cases h with ⟨hnone, -⟩ | ⟨request, it', hnext, hit', -, -, -, -, hlt⟩
      · exact ⟨[], Requests.done hnone⟩
      · obtain ⟨served, hserved⟩ := ih it'.pending.length (by omega) hit' rfl
        exact ⟨_, Requests.next hnext hserved⟩

/-- **The requests partition `ranges`**, each in its place in the buffer. -/
structure Partitions (it : FilesRequestsIteratorWithBuffer) (ranges : List Range) : Prop where
  ends : ∃ served, Requests it served
  ranges : ∀ served, Requests it served →
    served.flatMap (fun s => s.1.positions.map s.2.reported) = ranges.map some
  placed : ∀ served, Requests it served →
    ∀ s ∈ served, Placed it.bufferAddress it.bufferSize s.2 s.1

theorem partitions_of_coherent {it : FilesRequestsIteratorWithBuffer} (h : Coherent it) :
    Partitions it it.pending := by
  have hrun : ∀ served, Requests it served →
      served.flatMap (fun s => s.1.positions.map s.2.reported) = it.pending.map some ∧
      ∀ s ∈ served, Placed it.bufferAddress it.bufferSize s.2 s.1 := by
    intro served hserved
    induction hserved with
    | @done it hnone =>
        rcases nextRequest_cases h with ⟨-, hnil⟩ | ⟨request, it', hnext, -⟩
        · rw [hnil]
          exact ⟨rfl, by simp⟩
        · rw [hnext] at hnone
          simp at hnone
    | @next it request it' served hnext hrest ih =>
        rcases nextRequest_cases h with ⟨hnone, -⟩ |
          ⟨request', it'', hnext', hit', hplaced, haddress, hsize, hranges, -⟩
        · rw [hnext] at hnone
          simp at hnone
        · rw [hnext] at hnext'
          obtain ⟨rfl, rfl⟩ : request = request' ∧ it' = it'' := by simpa using hnext'
          obtain ⟨hflat, hall⟩ := ih hit'
          constructor
          · rw [List.flatMap_cons, hflat, hplaced.reported, hranges, List.map_append]
          · intro s hs
            rcases List.mem_cons.mp hs with rfl | hs
            · exact hplaced
            · rw [← haddress, ← hsize]
              exact hall s hs
  exact ⟨requests_exist h, fun served hs => (hrun served hs).1, fun served hs => (hrun served hs).2⟩

/-! ## §5. New iterators. -/

theorem foldr_max_le {xs : List Nat} {bound : Nat} :
    xs.foldr max 0 ≤ bound ↔ ∀ x ∈ xs, x ≤ bound := by
  induction xs with
  | nil => simp
  | cons x xs ih => simp [ih]

theorem largestRange_le {files : List FileChunks} {bound : Nat} :
    largestRange files ≤ bound ↔ ∀ file ∈ files, ∀ size ∈ file.sizes, size ≤ bound := by
  rw [largestRange, foldr_max_le]
  simp only [List.forall_mem_map, foldr_max_le]

/-- A range is no larger than all of them together. -/
theorem largestRange_le_total (files : List FileChunks) :
    largestRange files ≤ totalSize files := by
  rw [largestRange_le]
  intro file hfile size hsize
  calc size ≤ file.totalSize := List.le_sum_of_mem hsize
    _ ≤ totalSize files := List.le_sum_of_mem (List.mem_map_of_mem hfile)

theorem new_index {files : List FileChunks} {d : Dict} {file : FileChunks}
    (h : file ∈ files ∨ d file.id = some 0) :
    (files.foldl (fun (d : Dict) file => Function.update d file.id (some 0)) d) file.id
      = some 0 := by
  induction files generalizing d with
  | nil => simpa using h
  | cons f files ih =>
      rw [List.foldl_cons]
      apply ih
      rcases h with h | h
      · rcases List.mem_cons.mp h with rfl | h
        · right
          exact Function.update_self _ _ _
        · exact Or.inl h
      · right
        by_cases hid : file.id = f.id
        · rw [hid]
          exact Function.update_self _ _ _
        · rw [Function.update_of_ne hid, h]

theorem new_coherent {files : List FileChunks} (bufferAddress limit : Nat)
    (hids : (files.map FileChunks.id).Nodup) (hlimit : largestRange files ≤ limit) :
    Coherent (.new bufferAddress limit files) := by
  refine ⟨rfl, ⟨?_, ?_⟩, ?_⟩
  · show ((files.map (fun file => (⟨file, 0⟩ : FileChunksIterator))).map (fun e => e.file.id)).Nodup
    rw [List.map_map]
    exact hids
  · intro e he
    obtain ⟨file, hfile, rfl⟩ := List.mem_map.mp he
    exact new_index (Or.inl hfile)
  · intro e he
    obtain ⟨file, hfile, rfl⟩ := List.mem_map.mp he
    exact largestRange_le.mp hlimit file hfile

theorem new_pending (bufferAddress limit : Nat) (files : List FileChunks) :
    (FilesRequestsIteratorWithBuffer.new bufferAddress limit files).pending
      = originalRanges files := by
  show (files.map (fun file => (⟨file, 0⟩ : FileChunksIterator))).flatMap
    FileChunksIterator.pending = _
  rw [List.flatMap_map]
  rfl

/-- What the memory cap lets through can hold the largest range. -/
theorem withMemoryCap_new {bufferAddress : Nat} {mode : MemoryCapMode}
    {files : List FileChunks} {userLimit : Option Int} {it : FilesRequestsIteratorWithBuffer}
    (h : FilesRequestsIteratorWithBuffer.withMemoryCap bufferAddress mode files userLimit
      = .ok it) :
    ∃ limit, it = .new bufferAddress limit files ∧ largestRange files ≤ limit := by
  have htotal := largestRange_le_total files
  unfold FilesRequestsIteratorWithBuffer.withMemoryCap at h
  cases mode with
  | unlimited =>
      simp only [Except.ok.injEq] at h
      exact ⟨_, h.symm, htotal⟩
  | largestChunk =>
      simp only [Except.ok.injEq] at h
      exact ⟨_, h.symm, Nat.le_refl _⟩
  | limited =>
      cases userLimit with
      | none => simp at h
      | some limit =>
          simp only at h
          split at h
          case isTrue => simp at h
          case isFalse hge =>
            simp only [Except.ok.injEq] at h
            exact ⟨_, h.symm, by omega⟩

/-- **Request packing under a memory cap is a lossless partition**, for the
buffer of a given size and for the one the memory cap makes of a limit. -/
theorem packing_lossless (bufferAddress limit : Nat) (files : List FileChunks)
    (hids : (files.map FileChunks.id).Nodup) (hlimit : largestRange files ≤ limit) :
    Partitions (.new bufferAddress limit files) (originalRanges files) ∧
    ∃ it, FilesRequestsIteratorWithBuffer.withMemoryCap bufferAddress .limited files (some limit)
        = .ok it ∧
      it.bufferAddress = bufferAddress ∧ it.bufferSize ≤ limit ∧
      Partitions it (originalRanges files) := by
  have hnew : ∀ size, largestRange files ≤ size →
      Partitions (.new bufferAddress size files) (originalRanges files) := by
    intro size hsize
    rw [← new_pending bufferAddress size files]
    exact partitions_of_coherent (new_coherent bufferAddress size hids hsize)
  refine ⟨hnew limit hlimit, .new bufferAddress (min (limit : Int) (totalSize files)).toNat files,
    ?_, rfl, ?_, hnew _ ?_⟩
  · simp only [FilesRequestsIteratorWithBuffer.withMemoryCap]
    rw [if_neg (by omega)]
  · show (min (limit : Int) (totalSize files)).toNat ≤ limit
    omega
  · have := largestRange_le_total files
    omega

/-- Three files, the middle one without ranges, the others cut to a buffer
of four bytes. -/
def threeFiles : List FileChunks :=
  [.contiguous 7 "a" 0 [3, 0, 4], ⟨-1, "b", [], [], rfl⟩, .contiguous 2 "a" 16 [1, 2]]

theorem packing_lossless_three :
    Partitions (.new 100 4 threeFiles) (originalRanges threeFiles) ∧
    ∃ it, FilesRequestsIteratorWithBuffer.withMemoryCap 100 .limited threeFiles
        (some ((4 : Nat) : Int)) = .ok it ∧
      it.bufferAddress = 100 ∧ it.bufferSize ≤ 4 ∧
      Partitions it (originalRanges threeFiles) :=
  packing_lossless 100 4 threeFiles (by decide) (by decide)

end ModelStreamer.FileStreamer
