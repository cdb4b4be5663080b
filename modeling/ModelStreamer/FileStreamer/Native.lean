/-
  ModelStreamer.FileStreamer.Native
  ─────────────────────────────────
  **THE NATIVE REQUEST** (`submit_active_request`, `runai_request`).

  A request of the iterator is passed to the native library as flat arrays,
  grouped by file.  `runai_request` checks their shape and their values, and
  `submit_request` turns them into one `FileRanges` per file.

    • `nativeRequest_eq` — what the assigner is given: for each file its
      ranges, with destinations back to back.
-/
import ModelStreamer.FileStreamer.Partition
import ModelStreamer.Planning.Assigner

namespace ModelStreamer.FileStreamer

open ModelStreamer.Lib ModelStreamer.Planning

/-- `ReadRange{offset, size, dst}`, from C integers. -/
def readRange (pair : Nat × Nat) (dst : Nat) : ReadRange :=
  ⟨wrap pair.1, wrap pair.2, wrap dst, wrap_lt _, wrap_lt _, wrap_lt _⟩

/-- `submit_request`: the flat ranges, `num_ranges[i]` for each file. -/
def submitRequest : List String → List Nat → List ReadRange → List FileRanges
  | path :: paths, n :: numRanges, ranges =>
      ⟨path, ranges.take n⟩ :: submitRequest paths numRanges (ranges.drop n)
  | _, _, _ => []

/-- `runai_request`, up to the call of `submit_request`. -/
def runaiRequest (paths : List String) (numRanges rangeOffsets rangeSizes rangeDsts : List Nat) :
    Except String (List FileRanges) :=
  let totalRanges := rangeSizes.length
  if numRanges.length ≠ paths.length then
    .error s!"num_ranges has {numRanges.length} entries but there are {paths.length} paths"
  else if ¬ (rangeOffsets.length = rangeDsts.length ∧ rangeDsts.length = totalRanges) then
    .error (s!"range_offsets ({rangeOffsets.length}), range_sizes ({totalRanges}) and range_dsts "
      ++ s!"({rangeDsts.length}) must be parallel")
  else if numRanges.any (fun n => decide (2 ^ 32 ≤ n)) then
    .error s!"every num_ranges value must fit an unsigned 32-bit integer, got {numRanges}"
  else if numRanges.sum ≠ totalRanges then
    .error s!"sum(num_ranges) is {numRanges.sum} but the range arrays hold {totalRanges} entries"
  else if rangeSizes.any (fun size => decide (2 ^ 64 ≤ size)) then
    .error "every range size must fit an unsigned 64-bit integer"
  else if rangeOffsets.any (fun offset => decide (2 ^ 64 ≤ offset)) then
    .error "every range offset must fit an unsigned 64-bit integer"
  else if rangeDsts.any (fun dst => decide (2 ^ 64 ≤ dst)) then
    .error "every range destination must be a valid address"
  else
    .ok (submitRequest paths numRanges
      (List.zipWith readRange (rangeOffsets.zip rangeSizes) rangeDsts))

/-- `submit_active_request`. -/
def nativeRequest (request : FilesRequest) : Except String (List FileRanges) :=
  runaiRequest (request.files.map FileChunks.path)
    (request.files.map (fun file => file.sizes.length))
    (request.files.flatMap FileChunks.offsets) request.flatSizes request.rangeDsts

/-- The files of a request whose destinations start at `cursor`. -/
def nativeFiles : Nat → List FileChunks → List FileRanges
  | _, [] => []
  | cursor, file :: files =>
      ⟨file.path, List.zipWith readRange file.pairs (running cursor file.sizes)⟩
        :: nativeFiles (cursor + file.totalSize) files

theorem running_append (cursor : Nat) (xs ys : List Nat) :
    running cursor (xs ++ ys) = running cursor xs ++ running (cursor + xs.sum) ys := by
  induction xs generalizing cursor with
  | nil => rfl
  | cons x xs ih =>
      rw [List.cons_append, running, running, ih, List.sum_cons, Nat.add_assoc, List.cons_append]

/-- The flat arrays come apart again. -/
theorem submitRequest_eq (cursor : Nat) (files : List FileChunks) :
    submitRequest (files.map FileChunks.path) (files.map (fun file => file.sizes.length))
        (List.zipWith readRange
          ((files.flatMap FileChunks.offsets).zip (files.flatMap FileChunks.sizes))
          (running cursor (files.flatMap FileChunks.sizes)))
      = nativeFiles cursor files := by
  induction files generalizing cursor with
  | nil => rfl
  | cons file files ih =>
      have hpairs : (file.offsets.zip file.sizes).length
          = (running cursor file.sizes).length := by
        rw [running_length]
        exact pairs_length file
      have hlen : (List.zipWith readRange (file.offsets.zip file.sizes)
          (running cursor file.sizes)).length = file.sizes.length := by
        rw [List.length_zipWith, ← hpairs, Nat.min_self]
        exact pairs_length file
      rw [List.map_cons, List.map_cons, List.flatMap_cons, List.flatMap_cons, running_append,
        List.zip_append file.parallel, List.zipWith_append hpairs]
      unfold submitRequest nativeFiles
      rw [List.take_left' hlen, List.drop_left' hlen, ih]
      rfl

/-- **What the assigner is given**, and what the checks have made sure of. -/
theorem nativeRequest_eq {request : FilesRequest} {address : Nat} {files : List FileRanges}
    (hdsts : request.rangeDsts = running address request.flatSizes)
    (h : nativeRequest request = .ok files) :
    files = nativeFiles address request.files ∧ (∀ dst ∈ request.rangeDsts, dst < 2 ^ 64) := by
  unfold nativeRequest runaiRequest at h
  simp only at h
  split_ifs at h with _ _ _ _ _ _ hdst
  refine ⟨?_, ?_⟩
  · rw [← Except.ok.inj h, hdsts]
    exact submitRequest_eq address request.files
  · intro dst hmem
    by_contra hge
    exact hdst (List.any_eq_true.mpr ⟨dst, hmem, by simpa using hge⟩)

/-- A file of the request. -/
theorem nativeFiles_get {cursor : Nat} {files : List FileChunks} {f : Nat} {file : FileRanges}
    (h : (nativeFiles cursor files)[f]? = some file) :
    ∃ chunks start, files[f]? = some chunks ∧
      file.ranges = List.zipWith readRange chunks.pairs (running start chunks.sizes) ∧
      ∀ dst ∈ running start chunks.sizes,
        dst ∈ running cursor (files.flatMap FileChunks.sizes) := by
  induction files generalizing cursor f with
  | nil => simp [nativeFiles] at h
  | cons first files ih =>
      unfold nativeFiles at h
      rw [List.flatMap_cons, running_append]
      cases f with
      | zero =>
          obtain rfl := Option.some.inj h
          exact ⟨first, cursor, rfl, rfl, fun dst hdst => List.mem_append_left _ hdst⟩
      | succ f =>
          obtain ⟨chunks, start, hget, hranges, hmem⟩ := ih h
          exact ⟨chunks, start, hget, hranges,
            fun dst hdst => List.mem_append_right _ (hmem dst hdst)⟩

end ModelStreamer.FileStreamer
