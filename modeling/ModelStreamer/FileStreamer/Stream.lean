/-
  ModelStreamer.FileStreamer.Stream
  ─────────────────────────────────
  **STREAMING FILES** (`file_streamer.py`): `stream_files`, then `get_chunks`
  iterated to its end, against ANY sequence of responses of the native
  library.

  `get_chunks` drains one submission, submits the next and goes on.  A
  response that carries an error raises; a FinishedError makes
  `runai_response` return `None`, and `request_ready_chunks` return.

    • `readyLoop_returned` — what one submission yields before it returns,
    • `getChunks_returned` — what a whole iteration yields,
    • `run_ends` — the loop over submissions ends,
    • `stream_complete_iff` — a normal end is a complete one exactly when no
      FinishedError was among the responses.
-/
import Mathlib.Data.List.Nodup
import ModelStreamer.Common.Word
import ModelStreamer.FileStreamer.Partition

namespace ModelStreamer.FileStreamer

open ModelStreamer.Lib

/-! ## §1. The native library. -/

/-- A return of `fn_runai_response`, with the process's memory at that
moment. -/
structure NativeResponse where
  code : ResponseCode
  submissionId : Nat
  fileIndex : Nat
  rangeIndex : Nat
  memory : Nat → UInt8

/-- The range it answers for. -/
def NativeResponse.position (r : NativeResponse) : Nat × Nat := (r.fileIndex, r.rangeIndex)

/-- `runai_response`: `none` on teardown, and an exception for a timeout. -/
def runaiResponse (r : NativeResponse) : Except String (Option NativeResponse) :=
  if r.code = .finishedError then .ok none
  else if r.code = .timedOut then .error "runai_response timed out after 0 ms"
  else .ok (some r)

/-- How a generator, or a call, comes to its end. -/
inductive Ended where
  | returned
  | raised (e : String)
  /-- It waits for a response that does not come. -/
  | blocked
  deriving DecidableEq, Repr

/-! ## §2. One submission. -/

/-- What `get_chunks` yields. -/
structure Chunk where
  fileId : Int
  chunkIndex : Nat
  bytes : List UInt8
  deriving DecidableEq, Repr

/-- `drain_active_submission`, on the responses still to come. -/
def drainActiveSubmission : Nat → List NativeResponse → Ended × List NativeResponse
  | 0, script => (.returned, script)
  | _ + 1, [] => (.blocked, [])
  | remaining + 1, r :: script =>
      match runaiResponse r with
      | .error e => (.raised e, script)
      | .ok none => (.returned, script)
      | .ok (some _) => drainActiveSubmission remaining script

/-- The `finally` of `request_ready_chunks`: an end of the drain other than
returning replaces the end it interrupts. -/
def finallyDrain (ended : Ended) (remaining : Nat) (script : List NativeResponse) :
    Ended × List NativeResponse :=
  match drainActiveSubmission remaining script with
  | (.returned, rest) => (ended, rest)
  | other => other

section Stream

variable (responseStr : ResponseCode → String)

/-- The body of the loop of `request_ready_chunks`, on a response. -/
def handleResponse (it : FilesRequestsIteratorWithBuffer) (submissionId : Nat)
    (r : NativeResponse) : Except String Chunk :=
  if r.submissionId ≠ submissionId then
    .error s!"response for submission {r.submissionId} but expected {submissionId}"
  else if r.code ≠ .success then
    .error ("Could not receive response from libstreamer due to: " ++ responseStr r.code)
  else
    match it.getGlobalFileAndChunk r.fileIndex r.rangeIndex with
    | none => .error "list index out of range"
    | some (fileId, chunkIndex, slice) =>
        .ok ⟨fileId, chunkIndex,
          (List.range slice.size).map (fun k => r.memory (it.bufferAddress + slice.start + k))⟩

/-- `request_ready_chunks`, with `left` responses to go. -/
def readyLoop (it : FilesRequestsIteratorWithBuffer) (submissionId : Nat) :
    Nat → List NativeResponse → List Chunk × Ended × List NativeResponse
  | 0, script => ([], .returned, script)
  | _ + 1, [] => ([], .blocked, [])
  | left + 1, r :: script =>
      match runaiResponse r with
      | .error e => ([], finallyDrain (.raised e) (left + 1) script)
      -- teardown: the generator returns, `consumed` is not raised
      | .ok none => ([], finallyDrain .returned (left + 1) script)
      | .ok (some r) =>
          match handleResponse responseStr it submissionId r with
          | .error e => ([], finallyDrain (.raised e) left script)
          | .ok chunk =>
              let (chunks, ended) := readyLoop it submissionId left script
              (chunk :: chunks, ended)

/-! ## §3. The whole stream. -/

variable (submit : Nat → Except String Nat)

/-- `get_chunks`, for at most `fuel` submissions; `submit k` is what the
`k`-th call of `runai_request` returns. -/
def getChunks : Nat → Nat → FilesRequestsIteratorWithBuffer → FilesRequest → Nat →
    List NativeResponse → List Chunk × Option Ended × List NativeResponse
  | 0, _, _, _, _, script => ([], none, script)
  | fuel + 1, k, it, request, submissionId, script =>
      match readyLoop responseStr it submissionId request.numRanges script with
      | (chunks, .returned, rest) =>
          match it.nextRequest with
          | (none, _) => (chunks, some .returned, rest)
          | (some request, it) =>
              match submit k with
              | .error e => (chunks, some (.raised e), rest)
              | .ok submissionId =>
                  let (more, ended) := getChunks fuel (k + 1) it request submissionId rest
                  (chunks ++ more, ended)
      | (chunks, ended, rest) => (chunks, some ended, rest)

/-- The source type of a path, by its prefix. -/
def pathType (path : String) : Option String :=
  ["s3://", "gs://", "az://"].find? (fun scheme => scheme.toList.isPrefixOf path.toList)

/-- `homogeneous_paths`. -/
def homogeneousPaths : List String → Bool
  | [] => true
  | path :: paths => paths.all (fun p => decide (pathType p = pathType path))

/-- `stream_files`, and `get_chunks` iterated.  `withCap` is the iterator the
memory limit gives. -/
def run (files : List FileChunks) (withCap : Except String FilesRequestsIteratorWithBuffer)
    (script : List NativeResponse) : List Chunk × Option Ended × List NativeResponse :=
  if homogeneousPaths (files.map FileChunks.path) then
    match withCap with
    | .error e => ([], some (.raised e), script)
    | .ok it =>
        match it.nextRequest with
        | (none, _) => ([], some .returned, script)
        | (some request, it) =>
            match submit 0 with
            | .error e => ([], some (.raised e), script)
            | .ok submissionId =>
                getChunks responseStr submit (it.pending.length + 1) 1 it request submissionId
                  script
  else
    ([], some (.raised "Cannot stream files from multiple source types in parallel"), script)

end Stream

/-! ## §4. What the library is trusted with. -/

/-- The chunk a range stands for, where `content` is what the files hold. -/
def Range.chunk (content : String → Nat → UInt8) (range : Range) : Chunk :=
  ⟨range.file, range.index,
    (List.range range.size).map (fun k => content range.path (range.offset + k))⟩

/-- The bytes of the range a response answers for are at its destination. -/
def Delivered (content : String → Nat → UInt8) (request : FilesRequest) (r : NativeResponse) :
    Prop :=
  ∀ file flat dst offset size, request.files[r.fileIndex]? = some file →
    request.flatIndex r.fileIndex r.rangeIndex = some flat → request.rangeDsts[flat]? = some dst →
    file.offsets[r.rangeIndex]? = some offset → file.sizes[r.rangeIndex]? = some size →
    ∀ k < size, r.memory (dst + k) = content file.path (offset + k)

/-- A Success response of a submission. -/
def succeeds (submissionId : Nat) (r : NativeResponse) : Bool :=
  decide (r.code = .success ∧ r.submissionId = submissionId)

/-- **The native contract**: in each submission a range is answered with
Success at most once, when its bytes are in place.  Everything else (order,
codes, FinishedError at any point) is free. -/
def NativeContract (content : String → Nat → UInt8) (submit : Nat → Except String Nat)
    (served : List (FilesRequest × FilesRequestsIteratorWithBuffer))
    (script : List NativeResponse) : Prop :=
  ∀ k s submissionId, served[k]? = some s → submit k = .ok submissionId →
    ((script.filter (succeeds submissionId)).map NativeResponse.position).Nodup ∧
      ∀ r ∈ script, succeeds submissionId r = true → Delivered content s.1 r

/-! ## §5. One submission. -/

variable {responseStr : ResponseCode → String} {submit : Nat → Except String Nat}
  {content : String → Nat → UInt8}

theorem drain_suffix (remaining : Nat) (script : List NativeResponse) :
    ∃ used, script = used ++ (drainActiveSubmission remaining script).2 := by
  induction remaining generalizing script with
  | zero => exact ⟨[], rfl⟩
  | succ remaining ih =>
      cases script with
      | nil => exact ⟨[], rfl⟩
      | cons r script =>
          unfold drainActiveSubmission
          split
          · exact ⟨[r], rfl⟩
          · exact ⟨[r], rfl⟩
          · obtain ⟨used, hused⟩ := ih script
            exact ⟨r :: used, by rw [List.cons_append, ← hused]⟩

theorem finallyDrain_suffix (ended : Ended) (remaining : Nat) (script : List NativeResponse) :
    ∃ used, script = used ++ (finallyDrain ended remaining script).2 := by
  have h := drain_suffix remaining script
  unfold finallyDrain
  split
  next rest heq =>
    rw [heq] at h
    exact h
  next => exact h

theorem finallyDrain_raised {e : String} {remaining : Nat} {script : List NativeResponse} :
    (finallyDrain (.raised e) remaining script).1 ≠ .returned := by
  unfold finallyDrain
  split
  · simp
  next other hne =>
    intro hreturned
    exact hne _ (Prod.ext hreturned rfl)

theorem handleResponse_ok {it : FilesRequestsIteratorWithBuffer} {submissionId : Nat}
    {r : NativeResponse} {chunk : Chunk}
    (h : handleResponse responseStr it submissionId r = .ok chunk) :
    succeeds submissionId r = true ∧ ∃ fileId chunkIndex slice,
      it.getGlobalFileAndChunk r.fileIndex r.rangeIndex = some (fileId, chunkIndex, slice) ∧
      chunk = ⟨fileId, chunkIndex,
        (List.range slice.size).map (fun k => r.memory (it.bufferAddress + slice.start + k))⟩ := by
  unfold handleResponse at h
  split at h
  · simp at h
  next hid =>
    split at h
    · simp at h
    next hcode =>
      split at h
      · simp at h
      next fileId chunkIndex slice hglobal =>
        refine ⟨?_, fileId, chunkIndex, slice, hglobal, by simpa using h.symm⟩
        unfold succeeds
        simp only [decide_eq_true_eq]
        exact ⟨not_not.mp hcode, not_not.mp hid⟩

/-- The responses handled, one a chunk. -/
def Handled (responseStr : ResponseCode → String) (it : FilesRequestsIteratorWithBuffer)
    (submissionId : Nat) (handled : List NativeResponse) (chunks : List Chunk) : Prop :=
  List.Forall₂ (fun r chunk => handleResponse responseStr it submissionId r = .ok chunk)
    handled chunks

/-- **One submission, where its generator returns**: `used` are the
responses it took, `handled` those it made chunks of.  It is short of
responses exactly when one of them was a FinishedError. -/
theorem readyLoop_returned {it : FilesRequestsIteratorWithBuffer} {submissionId left : Nat}
    {script rest : List NativeResponse} {chunks : List Chunk}
    (h : readyLoop responseStr it submissionId left script = (chunks, .returned, rest)) :
    ∃ used handled, script = used ++ rest ∧ handled.Sublist used ∧
      Handled responseStr it submissionId handled chunks ∧ handled.length ≤ left ∧
      (handled.length = left ↔ ∀ r ∈ used, r.code ≠ .finishedError) := by
  induction left generalizing script chunks with
  | zero =>
      simp only [readyLoop, Prod.mk.injEq, true_and] at h
      obtain ⟨rfl, rfl⟩ := h
      exact ⟨[], [], rfl, List.Sublist.refl _, List.Forall₂.nil, Nat.le_refl 0, by simp⟩
  | succ left ih =>
      cases script with
      | nil => simp [readyLoop] at h
      | cons r script =>
          unfold readyLoop at h
          by_cases hfinished : r.code = .finishedError
          · -- teardown: nothing more is yielded
            have hnone : runaiResponse r = .ok none := if_pos hfinished
            rw [hnone] at h
            simp only [Prod.mk.injEq] at h
            obtain ⟨rfl, hdrain⟩ := h
            obtain ⟨used, hused⟩ := finallyDrain_suffix .returned (left + 1) script
            rw [hdrain] at hused
            refine ⟨r :: used, [], by rw [hused, List.cons_append], List.nil_sublist _,
              List.Forall₂.nil, Nat.zero_le _, ?_⟩
            constructor
            · intro hlen
              simp at hlen
            · intro hall
              exact absurd hfinished (hall r List.mem_cons_self)
          · have hresponse : runaiResponse r
                = if r.code = .timedOut then .error "runai_response timed out after 0 ms"
                  else .ok (some r) := if_neg hfinished
            rw [hresponse] at h
            -- a timeout raises, so this return is not one
            by_cases htimeout : r.code = .timedOut
            · rw [if_pos htimeout] at h
              simp only [Prod.mk.injEq] at h
              exact absurd (congrArg Prod.fst h.2) finallyDrain_raised
            · -- the response is handled, and its chunk comes first
              rw [if_neg htimeout] at h
              simp only at h
              cases hhandle : handleResponse responseStr it submissionId r with
              | error e =>
                  rw [hhandle] at h
                  simp only [Prod.mk.injEq] at h
                  exact absurd (congrArg Prod.fst h.2) finallyDrain_raised
              | ok chunk =>
                  rw [hhandle] at h
                  simp only [Prod.mk.injEq] at h
                  obtain ⟨rfl, hrest⟩ := h
                  obtain ⟨used, handled, hused, hsub, hforall, hle, hiff⟩ :=
                    @ih script (readyLoop responseStr it submissionId left script).1
                      (Prod.ext rfl hrest)
                  refine ⟨r :: used, r :: handled, by rw [hused, List.cons_append],
                    hsub.cons_cons r, List.Forall₂.cons hhandle hforall, ?_, ?_⟩
                  · rw [List.length_cons]
                    omega
                  · rw [List.length_cons, Nat.add_right_cancel_iff, hiff, List.forall_mem_cons]
                    exact ⟨fun hall => ⟨hfinished, hall⟩, fun hall => hall.2⟩

theorem Handled.length {it : FilesRequestsIteratorWithBuffer} {submissionId : Nat}
    {handled : List NativeResponse} {chunks : List Chunk}
    (h : Handled responseStr it submissionId handled chunks) : chunks.length = handled.length :=
  h.length_eq.symm

theorem mem_positions {request : FilesRequest} {f j : Nat} :
    (f, j) ∈ request.positions ↔
      ∃ file, request.files[f]? = some file ∧ j < file.sizes.length := by
  unfold FilesRequest.positions
  rw [List.mem_flatMap]
  constructor
  · rintro ⟨⟨file, i⟩, hmem, hj⟩
    obtain ⟨j', hj', heq⟩ := List.mem_map.mp hj
    obtain ⟨rfl, rfl⟩ : i = f ∧ j' = j := by simpa using heq
    exact ⟨file, by simpa using List.mem_zipIdx_iff_getElem?.mp hmem, List.mem_range.mp hj'⟩
  · rintro ⟨file, hfile, hj⟩
    refine ⟨(file, f), List.mem_zipIdx_iff_getElem?.mpr (by simpa using hfile), ?_⟩
    exact List.mem_map.mpr ⟨j, List.mem_range.mpr hj, rfl⟩

theorem positions_length (request : FilesRequest) :
    request.positions.length = request.flatSizes.length := by
  unfold FilesRequest.positions FilesRequest.flatSizes
  rw [List.length_flatMap, List.length_flatMap]
  simp only [List.length_map, List.length_range]
  conv_rhs => rw [← List.zipIdx_map_fst 0 request.files, List.map_map]
  rfl

/-- A response handled is for a position of the request, and its chunk is
that of the range there. -/
theorem handled_chunk {bufferAddress bufferSize : Nat} {it : FilesRequestsIteratorWithBuffer}
    {request : FilesRequest} (hplaced : Placed bufferAddress bufferSize it request)
    (haddress : it.bufferAddress = bufferAddress) {submissionId : Nat} {r : NativeResponse}
    {chunk : Chunk} (h : handleResponse responseStr it submissionId r = .ok chunk)
    (hdelivered : Delivered content request r) :
    r.position ∈ request.positions ∧
      (it.reported r.position).map (Range.chunk content) = some chunk := by
  obtain ⟨-, fileId, chunkIndex, slice, hglobal, rfl⟩ := handleResponse_ok h
  -- the lookup succeeded, so the position is one of the request's
  obtain ⟨file, size, hfile, hsize⟩ : ∃ file size, request.files[r.fileIndex]? = some file ∧
      file.sizes[r.rangeIndex]? = some size := by
    have hsome := hglobal
    rw [FilesRequestsIteratorWithBuffer.getGlobalFileAndChunk] at hsome
    cases hfile : request.files[r.fileIndex]? with
    | none =>
        simp [FilesRequestsIterator.getGlobalFileAndChunk, hplaced.active, hfile, bind,
          Option.bind] at hsome
    | some file =>
        cases hsize : file.sizes[r.rangeIndex]? with
        | none =>
            simp [hplaced.active, hfile, hsize] at hsome
        | some size => exact ⟨file, size, rfl, hsize⟩
  have hj : r.rangeIndex < file.sizes.length := (List.getElem?_eq_some_iff.mp hsize).1
  have hoff : r.rangeIndex < file.offsets.length := by
    rw [file.parallel]
    exact hj
  have hoffset := List.getElem?_eq_getElem hoff
  obtain ⟨flat, dst, index, slice', hflat, -, hdst, hglobal', -, hstart, hslice⟩ :=
    hplaced.slice r.fileIndex r.rangeIndex file size hfile hsize
  rw [hglobal] at hglobal'
  obtain ⟨rfl, rfl, rfl⟩ : fileId = file.id ∧ chunkIndex = index + r.rangeIndex ∧ slice = slice' := by
    simpa using hglobal'
  refine ⟨mem_positions.mpr ⟨file, hfile, hj⟩, ?_⟩
  have hreported : it.reported r.position
      = some ⟨file.id, index + r.rangeIndex, file.path, file.offsets[r.rangeIndex], size⟩ := by
    unfold FilesRequestsIteratorWithBuffer.reported NativeResponse.position
    simp only [hglobal, hplaced.active, hfile, hoffset, hsize, bind, pure, Option.bind_some]
  rw [hreported, Option.map_some]
  unfold Range.chunk
  simp only [Option.some.injEq, Chunk.mk.injEq, true_and]
  rw [hslice]
  apply List.map_congr_left
  intro k hk
  rw [haddress, hstart]
  exact (hdelivered file flat dst _ size hfile hflat hdst hoffset hsize k
    (List.mem_range.mp hk)).symm

/-- The chunks of a request, in order. -/
def requestChunks (content : String → Nat → UInt8) (it : FilesRequestsIteratorWithBuffer)
    (request : FilesRequest) : List Chunk :=
  (request.files.flatMap (fun file => file.rangesFrom
    ((it.filesRequestsIterator.fileToCurrentChunkIndex file.id).getD 0))).map (Range.chunk content)

/-- What the contract says of one submission: no position succeeds twice, and
each that does has its bytes. -/
def Answered (content : String → Nat → UInt8) (request : FilesRequest) (submissionId : Nat)
    (script : List NativeResponse) : Prop :=
  ((script.filter (succeeds submissionId)).map NativeResponse.position).Nodup ∧
    ∀ r ∈ script, succeeds submissionId r = true → Delivered content request r

/-- It goes on to hold of the responses still to come. -/
theorem Answered.rest {request : FilesRequest} {submissionId : Nat}
    {used rest : List NativeResponse}
    (h : Answered content request submissionId (used ++ rest)) :
    Answered content request submissionId rest := by
  have hrest : rest.Sublist (used ++ rest) := List.sublist_append_right used rest
  refine ⟨List.Nodup.sublist ((hrest.filter _).map _) h.1, ?_⟩
  intro r hr
  exact h.2 r (List.mem_append_right _ hr)

/-- What is yielded on these responses, of what is expected: all of it without
a FinishedError, and less with one. -/
structure Yields (used : List NativeResponse) (chunks expected : List Chunk) : Prop where
  whole : (∀ r ∈ used, r.code ≠ .finishedError) → chunks.Perm expected
  short : (∃ r ∈ used, r.code = .finishedError) → chunks.length < expected.length
  le : chunks.length ≤ expected.length

/-- One submission after another; the order between two requests is that of
their responses. -/
theorem Yields.append {used used' : List NativeResponse} {chunks chunks' expected expected' :
    List Chunk} (h : Yields used chunks expected) (h' : Yields used' chunks' expected') :
    Yields (used ++ used') (chunks ++ chunks') (expected ++ expected') := by
  have hle := h.le
  have hle' := h'.le
  constructor
  case whole =>
    intro hall
    exact (h.whole (fun r hr => hall r (List.mem_append_left _ hr))).append
      (h'.whole (fun r hr => hall r (List.mem_append_right _ hr)))
  case short =>
    intro hsome
    rw [List.length_append, List.length_append]
    obtain ⟨r, hr, hfinished⟩ := hsome
    rcases List.mem_append.mp hr with hr | hr
    · have := h.short ⟨r, hr, hfinished⟩
      omega
    · have := h'.short ⟨r, hr, hfinished⟩
      omega
  case le =>
    rw [List.length_append, List.length_append]
    omega

/-- **The responses handled** are for positions of the request, and the chunks
are those of the ranges there. -/
theorem handled_chunks {bufferAddress bufferSize : Nat} {it : FilesRequestsIteratorWithBuffer}
    {request : FilesRequest} (hplaced : Placed bufferAddress bufferSize it request)
    (haddress : it.bufferAddress = bufferAddress) {submissionId : Nat}
    {handled : List NativeResponse} {chunks : List Chunk}
    (h : Handled responseStr it submissionId handled chunks)
    (hdelivered : ∀ r ∈ handled, succeeds submissionId r = true → Delivered content request r) :
    handled.map (fun r => (it.reported r.position).map (Range.chunk content))
        = chunks.map some ∧
      (∀ r ∈ handled, succeeds submissionId r = true) ∧
      ∀ r ∈ handled, r.position ∈ request.positions := by
  induction h with
  | nil => exact ⟨rfl, by simp, by simp⟩
  | @cons r chunk handled chunks hhandle _ ih =>
      obtain ⟨hmap, hsucceeds, hpositions⟩ :=
        ih (fun r hr => hdelivered r (List.mem_cons_of_mem _ hr))
      have hr := (handleResponse_ok hhandle).1
      obtain ⟨hposition, hchunk⟩ := handled_chunk hplaced haddress hhandle
        (hdelivered r List.mem_cons_self hr)
      exact ⟨by rw [List.map_cons, List.map_cons, hmap, hchunk],
        List.forall_mem_cons.mpr ⟨hr, hsucceeds⟩,
        List.forall_mem_cons.mpr ⟨hposition, hpositions⟩⟩

/-- A request has as many chunks as it has ranges. -/
theorem requestChunks_length {bufferAddress bufferSize : Nat}
    {it : FilesRequestsIteratorWithBuffer} {request : FilesRequest}
    (hplaced : Placed bufferAddress bufferSize it request) :
    (requestChunks content it request).length = request.numRanges := by
  have hreported := congrArg List.length hplaced.reported
  rw [List.length_map, List.length_map, positions_length, ← hplaced.count.1] at hreported
  unfold requestChunks
  rw [List.length_map, ← hreported]

/-- **All positions handled**: the chunks are those of the request. -/
theorem requestChunks_perm {bufferAddress bufferSize : Nat} {it : FilesRequestsIteratorWithBuffer}
    {request : FilesRequest} (hplaced : Placed bufferAddress bufferSize it request)
    {handled : List NativeResponse} {chunks : List Chunk}
    (hperm : (handled.map NativeResponse.position).Perm request.positions)
    (hmap : handled.map (fun r => (it.reported r.position).map (Range.chunk content))
      = chunks.map some) : chunks.Perm (requestChunks content it request) := by
  have hsomes : (chunks.map some).Perm ((requestChunks content it request).map some) := by
    have hmapped := hperm.map (fun p => (it.reported p).map (Range.chunk content))
    rw [List.map_map, show (fun p => (it.reported p).map (Range.chunk content))
      ∘ NativeResponse.position = fun r => (it.reported r.position).map (Range.chunk content)
      from rfl, hmap] at hmapped
    rw [show (fun p => (it.reported p).map (Range.chunk content))
      = (Option.map (Range.chunk content)) ∘ it.reported from rfl, ← List.map_map,
      hplaced.reported, List.map_map] at hmapped
    unfold requestChunks
    rw [List.map_map]
    exact hmapped
  exact (List.map_perm_map_iff (Option.some_injective Chunk)).mp hsomes

/-- **One submission yields its chunks**, all of them if no response was a
FinishedError, and fewer otherwise. -/
theorem readyLoop_chunks {bufferAddress bufferSize : Nat} {it : FilesRequestsIteratorWithBuffer}
    {request : FilesRequest} (hplaced : Placed bufferAddress bufferSize it request)
    (haddress : it.bufferAddress = bufferAddress) {submissionId : Nat}
    {script rest : List NativeResponse} {chunks : List Chunk}
    (hanswered : Answered content request submissionId script)
    (h : readyLoop responseStr it submissionId request.numRanges script
      = (chunks, .returned, rest)) :
    ∃ used, script = used ++ rest ∧ Yields used chunks (requestChunks content it request) := by
  obtain ⟨used, handled, hused, hsub, hhandled, hle, hiff⟩ := readyLoop_returned h
  have hsubScript : handled.Sublist script := by
    rw [hused]
    exact hsub.trans (List.sublist_append_left used rest)
  obtain ⟨hmap, hsucceeds, hpositions⟩ := handled_chunks hplaced haddress hhandled
    (fun r hr => hanswered.2 r (hsubScript.subset hr))
  have hlen : chunks.length = handled.length := hhandled.length
  have hcount := @requestChunks_length content _ _ _ _ hplaced
  refine ⟨used, hused, fun hall => ?_, fun hsome => ?_, by omega⟩
  · -- as many distinct positions as the request has: all of them
    have hnodupHandled : (handled.map NativeResponse.position).Nodup := by
      have hfilter := hsubScript.filter (succeeds submissionId)
      rw [List.filter_eq_self.mpr hsucceeds] at hfilter
      exact List.Nodup.sublist (hfilter.map NativeResponse.position) hanswered.1
    have hsubset : handled.map NativeResponse.position ⊆ request.positions := by
      intro p hp
      obtain ⟨r, hr, rfl⟩ := List.mem_map.mp hp
      exact hpositions r hr
    have hfull := hiff.mpr hall
    refine requestChunks_perm hplaced ?_ hmap
    apply (List.subperm_of_subset hnodupHandled hsubset).perm_of_length_le
    rw [List.length_map, positions_length, ← hplaced.count.1, hfull]
  · have hshort : handled.length ≠ request.numRanges := by
      intro hfull
      obtain ⟨r, hr, hfinished⟩ := hsome
      exact hiff.mp hfull r hr hfinished
    omega

/-! ## §6. The whole stream. -/

/-- The chunks still to come after the active request. -/
def pendingChunks (content : String → Nat → UInt8) (it : FilesRequestsIteratorWithBuffer) :
    List Chunk := it.pending.map (Range.chunk content)

theorem pendingChunks_nil {it : FilesRequestsIteratorWithBuffer} (h : it.pending = []) :
    pendingChunks content it = [] := by
  unfold pendingChunks
  rw [h]
  rfl

/-- The ranges pending are those of the next request and those after it. -/
theorem pendingChunks_next {it it' : FilesRequestsIteratorWithBuffer} {request : FilesRequest}
    (h : it.pending = request.files.flatMap (fun file => file.rangesFrom
      ((it'.filesRequestsIterator.fileToCurrentChunkIndex file.id).getD 0)) ++ it'.pending) :
    pendingChunks content it = requestChunks content it' request ++ pendingChunks content it' := by
  unfold pendingChunks requestChunks
  rw [h, List.map_append]

/-- The contract of the submissions after the `k`-th. -/
theorem NativeContract.tail {served : List (FilesRequest × FilesRequestsIteratorWithBuffer)}
    {k : Nat} {used rest : List NativeResponse}
    (h : ∀ j s submissionId, served[j]? = some s → submit (k + j) = .ok submissionId →
      Answered content s.1 submissionId (used ++ rest)) :
    ∀ j s submissionId, served.tail[j]? = some s → submit (k + 1 + j) = .ok submissionId →
      Answered content s.1 submissionId rest := by
  intro j s submissionId hs hsubmit
  rw [List.getElem?_tail] at hs
  rw [show k + 1 + j = k + (j + 1) by omega] at hsubmit
  exact (h (j + 1) s submissionId hs hsubmit).rest

/-- **A whole iteration that returns**: complete without a FinishedError,
and short with one. -/
theorem getChunks_returned {fuel k : Nat} {it : FilesRequestsIteratorWithBuffer}
    {request : FilesRequest} {submissionId : Nat} {script rest : List NativeResponse}
    {chunks : List Chunk} {served : List (FilesRequest × FilesRequestsIteratorWithBuffer)}
    (hcoherent : Coherent it) (hplaced : Placed it.bufferAddress it.bufferSize it request)
    (hserved : Requests it served) (hcurrent : Answered content request submissionId script)
    (hcontract : ∀ j s submissionId, served[j]? = some s → submit (k + j) = .ok submissionId →
      Answered content s.1 submissionId script)
    (h : getChunks responseStr submit fuel k it request submissionId script
      = (chunks, some .returned, rest)) :
    ∃ used, script = used ++ rest ∧
      Yields used chunks (requestChunks content it request ++ pendingChunks content it) := by
  induction fuel generalizing k it request submissionId script chunks served with
  | zero => simp [getChunks] at h
  | succ fuel ih =>
      unfold getChunks at h
      split at h
      next ys rest₁ hready =>
        obtain ⟨used₁, hused₁, hyields₁⟩ := readyLoop_chunks hplaced rfl hcurrent hready
        rcases nextRequest_cases hcoherent with ⟨hnone, hnil⟩ |
          ⟨request', it', hnext, hit', hplaced', haddress, hsize, hpending, -⟩
        · -- the last submission
          rw [show it.nextRequest = (none, it.nextRequest.2) from Prod.ext hnone rfl] at h
          simp only [Prod.mk.injEq, true_and] at h
          obtain ⟨rfl, rfl⟩ := h
          rw [pendingChunks_nil hnil, List.append_nil]
          exact ⟨used₁, hused₁, hyields₁⟩
        · rw [hnext] at h
          simp only at h
          cases hsubmit : submit k with
          | error e =>
              rw [hsubmit] at h
              simp at h
          | ok submissionId' =>
              rw [hsubmit] at h
              simp only at h
              cases hmore : getChunks responseStr submit fuel (k + 1) it' request' submissionId'
                rest₁ with
              | mk more tail =>
              rw [hmore] at h
              simp only [Prod.mk.injEq] at h
              obtain ⟨rfl, rfl⟩ := h
              cases hserved with
              | done hdone =>
                  rw [hnext] at hdone
                  simp at hdone
              | @next _ request'' it'' served' hnext' hserved' =>
                  rw [hnext] at hnext'
                  obtain ⟨rfl, rfl⟩ : request' = request'' ∧ it' = it'' := by simpa using hnext'
                  -- what was read before this request is none of the next one's
                  rw [hused₁] at hcontract
                  have hcurrent' : Answered content request' submissionId' rest₁ :=
                    (hcontract 0 (request', it') submissionId' rfl hsubmit).rest
                  obtain ⟨used₂, hused₂, hyields₂⟩ :=
                    ih hit' (by rw [haddress, hsize]; exact hplaced') hserved' hcurrent'
                      (NativeContract.tail hcontract) hmore
                  rw [pendingChunks_next hpending]
                  exact ⟨used₁ ++ used₂, by rw [hused₁, hused₂, List.append_assoc],
                    hyields₁.append hyields₂⟩
      next hother _ =>
        simp only [Prod.mk.injEq, Option.some.injEq] at h
        obtain ⟨rfl, rfl, rfl⟩ := h
        exact (hother rfl).elim

/-- The loop over submissions ends. -/
theorem getChunks_ends {fuel k : Nat} {it : FilesRequestsIteratorWithBuffer}
    {request : FilesRequest} {submissionId : Nat} {script : List NativeResponse}
    (hcoherent : Coherent it) (hfuel : it.pending.length < fuel) :
    (getChunks responseStr submit fuel k it request submissionId script).2.1 ≠ none := by
  induction fuel generalizing k it request submissionId script with
  | zero => omega
  | succ fuel ih =>
      unfold getChunks
      split
      · rcases nextRequest_cases hcoherent with ⟨hnone, -⟩ |
          ⟨request', it', hnext, hit', -, -, -, -, hlt⟩
        · rw [show it.nextRequest = (none, it.nextRequest.2) from Prod.ext hnone rfl]
          simp
        · rw [hnext]
          simp only
          cases submit k with
          | error e => simp
          | ok submissionId' =>
              apply ih hit'
              omega
      · simp

/-! ## §7. Complete, or not. -/

/-- The iterator a memory limit gives has all the ranges before it. -/
theorem withMemoryMode_coherent {int : String → Except String Int} {env : Option String}
    {bufferAddress : Nat} {files : List FileChunks} {it : FilesRequestsIteratorWithBuffer}
    (hids : (files.map FileChunks.id).Nodup)
    (h : FilesRequestsIteratorWithBuffer.withMemoryMode int env bufferAddress files = .ok it) :
    Coherent it ∧ it.pending = originalRanges files := by
  unfold FilesRequestsIteratorWithBuffer.withMemoryMode at h
  cases hlimit : int (env.getD defaultMemoryLimitString) with
  | error e => simp [hlimit, bind, Except.bind] at h
  | ok limit =>
      simp only [hlimit, bind, Except.bind] at h
      obtain ⟨size, rfl, hlargest⟩ := withMemoryCap_new h
      exact ⟨new_coherent bufferAddress size hids hlargest, new_pending bufferAddress size files⟩

/-- The loop over submissions ends: with a return, an exception, or a wait
for a response that does not come. -/
theorem run_ends (int : String → Except String Int) (env : Option String) (bufferAddress : Nat)
    {files : List FileChunks} (hids : (files.map FileChunks.id).Nodup)
    (script : List NativeResponse) :
    (run responseStr submit files
      (FilesRequestsIteratorWithBuffer.withMemoryMode int env bufferAddress files) script).2.1
      ≠ none := by
  unfold run
  split
  · split
    · simp
    next it hcap =>
      obtain ⟨hcoherent, -⟩ := withMemoryMode_coherent hids hcap
      rcases nextRequest_cases hcoherent with ⟨hnone, -⟩ |
        ⟨request, it', hnext, hit', -⟩
      · rw [show it.nextRequest = (none, it.nextRequest.2) from Prod.ext hnone rfl]
        simp
      · rw [hnext]
        simp only
        cases submit 0 with
        | error e => simp
        | ok submissionId => exact getChunks_ends hit' (Nat.lt_succ_self _)
  · simp

/-- What a run that returns has taken from the script, and whether its
chunks are complete. -/
theorem run_returned (int : String → Except String Int) (env : Option String)
    (bufferAddress : Nat) {files : List FileChunks} (hids : (files.map FileChunks.id).Nodup)
    {script rest : List NativeResponse} {chunks : List Chunk}
    (hcontract : ∀ it served,
      FilesRequestsIteratorWithBuffer.withMemoryMode int env bufferAddress files = .ok it →
      Requests it served → NativeContract content submit served script)
    (h : run responseStr submit files
      (FilesRequestsIteratorWithBuffer.withMemoryMode int env bufferAddress files) script
      = (chunks, some .returned, rest)) :
    ∃ used, script = used ++ rest ∧
      ((∀ r ∈ used, r.code ≠ .finishedError) →
        chunks.Perm ((originalRanges files).map (Range.chunk content))) ∧
      ((∃ r ∈ used, r.code = .finishedError) →
        chunks.length < ((originalRanges files).map (Range.chunk content)).length) := by
  unfold run at h
  split at h
  · split at h
    · simp at h
    next it hcap =>
      obtain ⟨hcoherent, hpending⟩ := withMemoryMode_coherent hids hcap
      have hchunks : pendingChunks content it = (originalRanges files).map (Range.chunk content) :=
        congrArg (List.map (Range.chunk content)) hpending
      rw [← hchunks]
      rcases nextRequest_cases hcoherent with ⟨hnone, hnil⟩ |
        ⟨request, it', hnext, hit', hplaced, haddress, hsize, hranges, -⟩
      · -- nothing to stream
        rw [show it.nextRequest = (none, it.nextRequest.2) from Prod.ext hnone rfl] at h
        simp only [Prod.mk.injEq, true_and] at h
        obtain ⟨rfl, rfl⟩ := h
        rw [pendingChunks_nil hnil]
        exact ⟨[], rfl, fun _ => List.Perm.refl _, by simp⟩
      · rw [hnext] at h
        simp only at h
        cases hsubmit : submit 0 with
        | error e =>
            rw [hsubmit] at h
            simp at h
        | ok submissionId =>
            rw [hsubmit] at h
            obtain ⟨served, hserved⟩ := requests_exist hit'
            have hall := hcontract it _ hcap (Requests.next hnext hserved)
            have hrest : ∀ j s id, served[j]? = some s → submit (1 + j) = .ok id →
                Answered content s.1 id script := by
              intro j s id hs hid
              rw [Nat.add_comm] at hid
              exact hall (j + 1) s id (by simpa using hs) hid
            obtain ⟨used, hused, hyields⟩ :=
              getChunks_returned hit' (by rw [haddress, hsize]; exact hplaced) hserved
                (hall 0 (request, it') submissionId rfl hsubmit) hrest h
            -- the first request's ranges and the later ones are all there are
            rw [pendingChunks_next hranges]
            exact ⟨used, hused, hyields.whole, hyields.short⟩
  · simp at h

/-- **A normal end is a complete one exactly when no FinishedError was among
the responses**: every stream ends; where it ends without an exception, the
chunks yielded are those of all the files' ranges, each once and with its
bytes, if and only if none of the responses taken was a FinishedError. -/
theorem stream_complete_iff (responseStr : ResponseCode → String)
    (submit : Nat → Except String Nat) (content : String → Nat → UInt8)
    (int : String → Except String Int) (env : Option String) (bufferAddress : Nat)
    (files : List FileChunks) (hids : (files.map FileChunks.id).Nodup)
    (script : List NativeResponse)
    (hcontract : ∀ it served,
      FilesRequestsIteratorWithBuffer.withMemoryMode int env bufferAddress files = .ok it →
      Requests it served → NativeContract content submit served script) :
    (run responseStr submit files
      (FilesRequestsIteratorWithBuffer.withMemoryMode int env bufferAddress files) script).2.1
      ≠ none ∧
    ∀ chunks rest,
      run responseStr submit files
        (FilesRequestsIteratorWithBuffer.withMemoryMode int env bufferAddress files) script
        = (chunks, some .returned, rest) →
      ∃ used, script = used ++ rest ∧
        (chunks.Perm ((originalRanges files).map (Range.chunk content)) ↔
          ∀ r ∈ used, r.code ≠ .finishedError) := by
  refine ⟨run_ends int env bufferAddress hids script, fun chunks rest hrun => ?_⟩
  obtain ⟨used, hused, hperm, hlt⟩ := run_returned int env bufferAddress hids hcontract hrun
  refine ⟨used, hused, fun hcomplete r hr hfinished => ?_, hperm⟩
  have hlen := hcomplete.length_eq
  have := hlt ⟨r, hr, hfinished⟩
  omega

/-- Two files of one range each. -/
def twoFiles : List FileChunks := [.single 4 "a" 3 1, .single (-2) "b" 0 2]

/-- Two submissions under a limit of two bytes, both answered. -/
def answered : List NativeResponse :=
  [⟨.success, 9, 0, 0, fun _ => 7⟩, ⟨.success, 10, 0, 0, fun _ => 7⟩]

/-- The second answer is a teardown, as is the one its drain gets. -/
def tornDown : List NativeResponse :=
  [⟨.success, 9, 0, 0, fun _ => 7⟩, ⟨.finishedError, 0, 0, 0, fun _ => 0⟩,
    ⟨.finishedError, 0, 0, 0, fun _ => 0⟩]

/-- `twoFiles` streamed under `RUNAI_STREAMER_MEMORY_LIMIT=2`. -/
def runTwoFiles (script : List NativeResponse) :
    List Chunk × Option Ended × List NativeResponse :=
  run (fun _ => "error") (fun k => .ok (9 + k)) twoFiles
    (FilesRequestsIteratorWithBuffer.withMemoryMode (fun _ => .ok 2) (some "2") 100 twoFiles)
    script

theorem sevens_contract {script : List NativeResponse}
    (hmemory : ∀ r ∈ script, r.code = .success → r.memory = fun _ => 7)
    (hnodup : ∀ id, ((script.filter (succeeds id)).map NativeResponse.position).Nodup)
    (served : List (FilesRequest × FilesRequestsIteratorWithBuffer)) :
    NativeContract (fun _ _ => 7) (fun k => .ok (9 + k)) served script := by
  intro k s submissionId _ _
  refine ⟨hnodup submissionId, ?_⟩
  intro r hr hsucceeds file flat dst offset size _ _ _ _ _ j _
  unfold succeeds at hsucceeds
  rw [decide_eq_true_eq] at hsucceeds
  rw [hmemory r hr hsucceeds.1]

theorem answered_contract (served : List (FilesRequest × FilesRequestsIteratorWithBuffer)) :
    NativeContract (fun _ _ => 7) (fun k => .ok (9 + k)) served answered := by
  apply sevens_contract
  · simp [answered]
  · intro id
    -- one answer a submission: the filter keeps at most one
    unfold answered succeeds
    by_cases h : id = 9
    · subst h
      decide
    · simp [List.filter_cons, Ne.symm h]
      split <;> simp

theorem stream_complete_answered :
    (runTwoFiles answered).2.1 ≠ none ∧
    ∀ chunks rest, runTwoFiles answered = (chunks, some .returned, rest) →
      ∃ used, answered = used ++ rest ∧
        (chunks.Perm ((originalRanges twoFiles).map (Range.chunk (fun _ _ => 7))) ↔
          ∀ r ∈ used, r.code ≠ .finishedError) :=
  stream_complete_iff (fun _ => "error") (fun k => .ok (9 + k)) (fun _ _ => 7) (fun _ => .ok 2)
    (some "2") 100 twoFiles (by decide) answered (fun _ served _ _ => answered_contract served)

/-- **A teardown ends the stream quietly**: the second file's chunk is never
yielded, and nothing is raised. -/
theorem torn_down_quietly :
    (∀ served, NativeContract (fun _ _ => 7) (fun k => .ok (9 + k)) served tornDown) ∧
    (runTwoFiles tornDown).1 = [⟨4, 0, [7]⟩] ∧ (runTwoFiles tornDown).2.1 = some .returned ∧
    ¬ (runTwoFiles tornDown).1.Perm
      ((originalRanges twoFiles).map (Range.chunk (fun _ _ => 7))) := by
  refine ⟨fun served => ?_, by decide +kernel, by decide +kernel, fun hperm => ?_⟩
  · apply sevens_contract
    · simp [tornDown]
    · intro id
      unfold tornDown succeeds
      simp [List.filter_cons]
      split <;> simp
  · have hlen := hperm.length_eq
    rw [show (runTwoFiles tornDown).1.length = 1 by decide +kernel] at hlen
    revert hlen
    decide

end ModelStreamer.FileStreamer
