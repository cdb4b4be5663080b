/-
  ModelStreamer.FileStreamer.Requests
  ───────────────────────────────────
  **THE REQUESTS ITERATOR** (`requests_iterator.py`).

  A stream of files is read as a sequence of requests, each of which fits
  one buffer.  `FileChunksIterator` hands out prefixes of ONE file's ranges;
  `FilesRequestsIterator` packs such prefixes from the head of its queue
  until the next range does not fit; `FilesRequestsIteratorWithBuffer` gives
  each range of a request its address and maps a response's request-local
  numbering back to the caller's.

  Sizes, offsets and addresses are Python integers that are never negative
  here, so they are naturals; the remaining budget is a difference and stays
  an integer.  What raises in the source (an index past a list, a missing
  key) is `none`.
-/
import ModelStreamer.Lib.Span
import Mathlib.Algebra.Order.BigOperators.Group.List
import Mathlib.Data.List.Nodup
import Mathlib.Logic.Function.Basic
import Mathlib.Tactic.Linarith

namespace ModelStreamer.FileStreamer

open ModelStreamer.Lib

/-! ## §1. Files and their ranges. -/

/-- `FileChunks`: a file and the ranges to read from it.  The constructor
raises unless the two lists are parallel. -/
structure FileChunks where
  id : Int
  path : String
  offsets : List Nat
  sizes : List Nat
  parallel : offsets.length = sizes.length
  deriving DecidableEq, Repr

/-- A file with one range to read from it. -/
def FileChunks.single (id : Int) (path : String) (offset size : Nat) : FileChunks :=
  ⟨id, path, [offset], [size], rfl⟩

/-- Positions of parts of the given sizes laid out back to back: the loop
with a running cursor that `contiguous` and `next_request` share. -/
def running : Nat → List Nat → List Nat
  | _, [] => []
  | cursor, size :: sizes => cursor :: running (cursor + size) sizes

theorem running_eq (cursor : Nat) (sizes : List Nat) :
    running cursor sizes = (layout cursor sizes).map Span.start := by
  induction sizes generalizing cursor with
  | nil => rfl
  | cons size sizes ih => rw [running, ih, layout_cons, List.map_cons]

@[simp] theorem running_length (cursor : Nat) (sizes : List Nat) :
    (running cursor sizes).length = sizes.length := by
  rw [running_eq, List.length_map, layout_length]

/-- `FileChunks.contiguous`. -/
def FileChunks.contiguous (id : Int) (path : String) (offset : Nat) (sizes : List Nat) :
    FileChunks :=
  ⟨id, path, running offset sizes, sizes, running_length offset sizes⟩

/-- `FileChunks.total_size`. -/
def FileChunks.totalSize (file : FileChunks) : Nat := file.sizes.sum

/-- `FileChunks(id, path, offsets[start:end], sizes[start:end])`. -/
def FileChunks.slice (file : FileChunks) (start stop : Nat) : FileChunks where
  id := file.id
  path := file.path
  offsets := (file.offsets.drop start).take (stop - start)
  sizes := (file.sizes.drop start).take (stop - start)
  parallel := by simp [file.parallel]

/-! ## §2. Requests. -/

/-- `FilesRequest`: the files of one submission, each with its first flat
position, and the destination of every range. -/
structure FilesRequest where
  files : List FileChunks
  fileBase : List Nat
  numRanges : Nat
  rangeDsts : List Nat
  deriving DecidableEq, Repr

/-- `FilesRequest()`. -/
def FilesRequest.new : FilesRequest := ⟨[], [], 0, []⟩

/-- `FilesRequest.append`. -/
def FilesRequest.append (request : FilesRequest) (file : FileChunks) : FilesRequest :=
  { request with
    fileBase := request.fileBase ++ [request.numRanges]
    numRanges := request.numRanges + file.sizes.length
    files := request.files ++ [file] }

/-- `FilesRequest.flat_index`. -/
def FilesRequest.flatIndex (request : FilesRequest) (fileIndex rangeIndex : Nat) : Option Nat :=
  request.fileBase[fileIndex]?.map (· + rangeIndex)

/-! ## §3. Prefixes of one file. -/

/-- `FileChunksIterator`; `file` is its `id`, `path`, `offsets` and `sizes`. -/
structure FileChunksIterator where
  file : FileChunks
  nextIndex : Nat
  deriving DecidableEq, Repr

/-- `FileChunksIterator.is_finished`. -/
def FileChunksIterator.isFinished (it : FileChunksIterator) : Bool :=
  decide (it.file.sizes.length ≤ it.nextIndex)

/-- The `while` loop of `next_chunks`: how many of the next ranges fit. -/
def fitting : List Nat → Int → Nat
  | [], _ => 0
  | size :: sizes, remaining =>
      if (size : Int) ≤ remaining then fitting sizes (remaining - size) + 1 else 0

/-- `FileChunksIterator.next_chunks`. -/
def FileChunksIterator.nextChunks (it : FileChunksIterator) (size : Int) :
    FileChunks × FileChunksIterator :=
  let start := it.nextIndex
  let stop := start + fitting (it.file.sizes.drop start) size
  (it.file.slice start stop, { it with nextIndex := stop })

/-- Ranges not handed out yet. -/
def FileChunksIterator.unread (it : FileChunksIterator) : Nat :=
  it.file.sizes.length - it.nextIndex

theorem fitting_le (sizes : List Nat) (remaining : Int) :
    fitting sizes remaining ≤ sizes.length := by
  induction sizes generalizing remaining with
  | nil => exact Nat.le_refl 0
  | cons size sizes ih =>
      unfold fitting
      split
      · have := ih (remaining - size)
        rw [List.length_cons]
        omega
      · exact Nat.zero_le _

/-- What fits is within the budget. -/
theorem fitting_sum_le (sizes : List Nat) (remaining : Int) (h : 0 ≤ remaining) :
    ((sizes.take (fitting sizes remaining)).sum : Int) ≤ remaining := by
  induction sizes generalizing remaining with
  | nil => simpa [fitting] using h
  | cons size sizes ih =>
      unfold fitting
      split
      case isTrue hfits =>
        have := ih (remaining - size) (by omega)
        rw [List.take_succ_cons, List.sum_cons]
        push_cast at this ⊢
        omega
      case isFalse => simpa using h

/-- **The loop stops only at a range that does not fit.** -/
theorem fitting_stop (sizes : List Nat) (remaining : Int)
    (h : fitting sizes remaining < sizes.length) :
    ∃ size, sizes[fitting sizes remaining]? = some size ∧
      remaining - ((sizes.take (fitting sizes remaining)).sum : Int) < size := by
  induction sizes generalizing remaining with
  | nil => simp at h
  | cons size sizes ih =>
      unfold fitting at h ⊢
      split at h
      case isTrue hfits =>
        rw [List.length_cons] at h
        obtain ⟨next, hget, hlt⟩ := ih (remaining - size) (by omega)
        rw [if_pos hfits]
        refine ⟨next, by simpa using hget, ?_⟩
        rw [List.take_succ_cons, List.sum_cons]
        push_cast at hlt ⊢
        omega
      case isFalse hfits =>
        rw [if_neg hfits]
        refine ⟨size, rfl, ?_⟩
        simp only [List.take_zero, List.sum_nil]
        omega

/-- One call of `next_chunks`, as far as the count of ranges goes. -/
theorem nextChunks_count (it : FileChunksIterator) (size : Int) :
    (it.nextChunks size).1.sizes.length + (it.nextChunks size).2.unread = it.unread ∧
      (it.nextChunks size).2.nextIndex
        = it.nextIndex + (it.nextChunks size).1.sizes.length := by
  have hle := fitting_le (it.file.sizes.drop it.nextIndex) size
  simp only [FileChunksIterator.nextChunks, FileChunks.slice, FileChunksIterator.unread,
    List.length_take, List.length_drop] at hle ⊢
  omega

/-! ## §4. The queue of files. -/

/-- The ranges in the queue. -/
def unreadRanges (q : List FileChunksIterator) : Nat :=
  (q.map FileChunksIterator.unread).sum

/-- The `while self.q` loop of `next_request`: from the queue, the request
so far and `current_request_memory_size`, the queue and the request when it
ends. -/
def pack (memoryLimit : Nat) (q : List FileChunksIterator) (request : FilesRequest)
    (memorySize : Nat) : List FileChunksIterator × FilesRequest :=
  match q with
  | [] => ([], request)
  | it :: rest =>
      let chunks := (it.nextChunks (memoryLimit - memorySize)).1
      let it' := (it.nextChunks (memoryLimit - memorySize)).2
      if chunks.sizes.length = 0 then
        if it'.isFinished then
          -- a file without ranges is skipped
          pack memoryLimit rest request memorySize
        else
          -- the next range does not fit: the request is closed
          (it' :: rest, request)
      else
        pack memoryLimit (if it'.isFinished then rest else it' :: rest)
          (request.append chunks) (memorySize + chunks.totalSize)
termination_by unreadRanges q + q.length
decreasing_by
  · simp only [unreadRanges, List.map_cons, List.sum_cons, List.length_cons]
    omega
  · rename_i hsome
    have hsome : (it.nextChunks (memoryLimit - memorySize)).1.sizes.length ≠ 0 := hsome
    have hcount := nextChunks_count it (memoryLimit - memorySize)
    split
    · simp only [unreadRanges, List.map_cons, List.sum_cons, List.length_cons]
      omega
    · simp only [unreadRanges, List.map_cons, List.sum_cons, List.length_cons]
      omega

/-- `Dict[int, int]`. -/
abbrev Dict := Int → Option Nat

/-- `d[key] += value` over the files of a request; a key that is missing
stays missing. -/
def Dict.advance (d : Dict) (files : List FileChunks) : Dict :=
  files.foldl
    (fun d file => Function.update d file.id ((d file.id).map (· + file.sizes.length))) d

/-- `FilesRequestsIterator`. -/
structure FilesRequestsIterator where
  memoryLimit : Nat
  q : List FileChunksIterator
  fileToCurrentChunkIndex : Dict
  activeRequest : Option FilesRequest

/-- `FilesRequestsIterator.__init__`. -/
def FilesRequestsIterator.new (memoryLimit : Nat) (files : List FileChunks) :
    FilesRequestsIterator where
  memoryLimit := memoryLimit
  q := files.map (fun file => ⟨file, 0⟩)
  fileToCurrentChunkIndex :=
    files.foldl (fun d file => Function.update d file.id (some 0)) (fun _ => none)
  activeRequest := none

/-- `file_to_current_chunk_index` past the active request. -/
def FilesRequestsIterator.indexes (it : FilesRequestsIterator) : Dict :=
  match it.activeRequest with
  | none => it.fileToCurrentChunkIndex
  | some request => it.fileToCurrentChunkIndex.advance request.files

/-- `FilesRequestsIterator.next_request`. -/
def FilesRequestsIterator.nextRequest (it : FilesRequestsIterator) :
    Option FilesRequest × FilesRequestsIterator :=
  if it.q.isEmpty then (none, it)
  else
    let packed := pack it.memoryLimit it.q FilesRequest.new 0
    let request := if packed.2.files.length = 0 then none else some packed.2
    (request,
      { it with
        q := packed.1
        fileToCurrentChunkIndex := it.indexes
        activeRequest := request })

/-- `FilesRequestsIterator.get_global_file_and_chunk`. -/
def FilesRequestsIterator.getGlobalFileAndChunk (it : FilesRequestsIterator)
    (localFileIndex localChunkIndex : Nat) : Option (Int × Nat) := do
  let request ← it.activeRequest
  let file ← request.files[localFileIndex]?
  let index ← it.fileToCurrentChunkIndex file.id
  return (file.id, index + localChunkIndex)

/-! ## §5. The buffer. -/

/-- `FilesRequestsIteratorWithBuffer`: the buffer is known by its address
and its size. -/
structure FilesRequestsIteratorWithBuffer where
  filesRequestsIterator : FilesRequestsIterator
  bufferAddress : Nat
  bufferSize : Nat

/-- `FilesRequestsIteratorWithBuffer.__init__`; where the allocation lies is
the allocator's choice. -/
def FilesRequestsIteratorWithBuffer.new (bufferAddress bufferSize : Nat)
    (files : List FileChunks) : FilesRequestsIteratorWithBuffer :=
  ⟨FilesRequestsIterator.new bufferSize files, bufferAddress, bufferSize⟩

/-- The sizes of a request's ranges in flattened order. -/
def FilesRequest.flatSizes (request : FilesRequest) : List Nat :=
  request.files.flatMap FileChunks.sizes

/-- `FilesRequestsIteratorWithBuffer.next_request`.  The request handed out
and the iterator's active one are one object, so both get `range_dsts`. -/
def FilesRequestsIteratorWithBuffer.nextRequest (it : FilesRequestsIteratorWithBuffer) :
    Option FilesRequest × FilesRequestsIteratorWithBuffer :=
  let (request, iterator) := it.filesRequestsIterator.nextRequest
  match request with
  | none => (none, { it with filesRequestsIterator := iterator })
  | some request =>
      if request.files.length = 0 then (none, { it with filesRequestsIterator := iterator })
      else
        let request := { request with rangeDsts := running it.bufferAddress request.flatSizes }
        (some request,
          { it with filesRequestsIterator := { iterator with activeRequest := some request } })

/-- numpy's `buffer[start:stop]`, by where it lies in the buffer: both ends
are cut at the buffer's end. -/
def bufferSlice (bufferSize start stop : Nat) : Span :=
  ⟨min start bufferSize, min stop bufferSize - min start bufferSize⟩

/-- `FilesRequestsIteratorWithBuffer.get_global_file_and_chunk`. -/
def FilesRequestsIteratorWithBuffer.getGlobalFileAndChunk (it : FilesRequestsIteratorWithBuffer)
    (localFileIndex localRangeIndex : Nat) : Option (Int × Nat × Span) := do
  let (fileId, globalRangeIndex) ←
    it.filesRequestsIterator.getGlobalFileAndChunk localFileIndex localRangeIndex
  let request ← it.filesRequestsIterator.activeRequest
  let flat ← request.flatIndex localFileIndex localRangeIndex
  let dst ← request.rangeDsts[flat]?
  let start := dst - it.bufferAddress
  let file ← request.files[localFileIndex]?
  let size ← file.sizes[localRangeIndex]?
  return (fileId, globalRangeIndex, bufferSlice it.bufferSize start (start + size))

/-! ## §6. The memory cap. -/

/-- `MemoryCapMode`. -/
inductive MemoryCapMode where
  | unlimited
  | limited
  | largestChunk
  deriving DecidableEq, Repr

/-- `_largest_range`. -/
def largestRange (files : List FileChunks) : Nat :=
  (files.map (fun file => file.sizes.foldr max 0)).foldr max 0

/-- `sum(file.total_size() for file in files_chunks)`. -/
def totalSize (files : List FileChunks) : Nat := (files.map FileChunks.totalSize).sum

/-- `FilesRequestsIteratorWithBuffer.with_memory_cap`. -/
def FilesRequestsIteratorWithBuffer.withMemoryCap (bufferAddress : Nat)
    (memoryMode : MemoryCapMode) (files : List FileChunks) (userMemoryLimit : Option Int) :
    Except String FilesRequestsIteratorWithBuffer :=
  match memoryMode with
  | .unlimited => .ok (.new bufferAddress (totalSize files) files)
  | .largestChunk => .ok (.new bufferAddress (largestRange files) files)
  | .limited =>
      match userMemoryLimit with
      | none => .error "MemoryCapMode is Limited, but no limit supplied"
      | some limit =>
          if limit < largestRange files then
            .error s!"Memory limit supplied: {limit} cannot be smaller than: {largestRange files}"
          else
            .ok (.new bufferAddress (min limit (totalSize files)).toNat files)

/-- `_get_memory_mode`. -/
def getMemoryMode (memoryLimit : String) : MemoryCapMode :=
  if memoryLimit = "-1" then .unlimited
  else if memoryLimit = "0" then .largestChunk
  else .limited

/-- `DEFAULT_MEMORY_LIMIT_STRING`. -/
def defaultMemoryLimitString : String := "40000000000"

/-- `FilesRequestsIteratorWithBuffer.with_memory_mode`: `env` is the value of
`RUNAI_STREAMER_MEMORY_LIMIT`, `int` the built-in conversion. -/
def FilesRequestsIteratorWithBuffer.withMemoryMode (int : String → Except String Int)
    (env : Option String) (bufferAddress : Nat) (files : List FileChunks) :
    Except String FilesRequestsIteratorWithBuffer := do
  let memoryLimit := env.getD defaultMemoryLimitString
  let limit ← int memoryLimit
  withMemoryCap bufferAddress (getMemoryMode memoryLimit) files (some limit)

end ModelStreamer.FileStreamer
