/-
  ModelStreamer.Safetensors.Files
  ───────────────────────────────
  **SAFETENSORS FILES STREAMED** (`from_files`, `prepare_request`,
  `create_torch_tensor` of `safetensors_pytorch.py`, and
  `SafetensorsStreamer`).

  Three streams over the same library: the first eight bytes of every file,
  which are the size of its header, then the headers, then the tensors.  An
  iteration that ends too early leaves a size or a header out of its
  dictionary, and the list of the metadata is then built with a KeyError.

    • `fromFiles_ok` — metadata are returned for all files or for none, and
      they are those of the files' own headers, however early a stream ended,
    • `getTensors_ok` — a tensor of each chunk,
    • `tensors_streamed` — what is yielded is one tensor an entry, with the
      bytes the entry names.

  The JSON parser is a parameter.  An exception that is no ValueError is
  re-raised as one with a longer text; the text is left as it was.
-/
import ModelStreamer.FileStreamer.Stream
import ModelStreamer.Lib.OrderedDict
import ModelStreamer.Safetensors.Metadata

namespace ModelStreamer.Safetensors

open ModelStreamer.Lib ModelStreamer.FileStreamer

/-! ## §1. The library, stream by stream. -/

/-- The surroundings of a streamer: what the calls of `runai_request` return,
and where the buffers lie, by the number of the stream. -/
structure Library where
  responseStr : ResponseCode → String
  int : String → Except String Int
  env : Option String
  submit : Nat → Nat → Except String Nat
  address : Nat → Nat

/-- The iterator of stream `number`. -/
def Library.iterator (lib : Library) (number : Nat) (files : List FileChunks) :
    Except String FilesRequestsIteratorWithBuffer :=
  FilesRequestsIteratorWithBuffer.withMemoryMode lib.int lib.env (lib.address number) files

/-- `stream_files`, and `get_chunks` iterated. -/
def Library.stream (lib : Library) (number : Nat) (files : List FileChunks)
    (script : List NativeResponse) : List Chunk × Option Ended × List NativeResponse :=
  run lib.responseStr (lib.submit number) files (lib.iterator number files) script

/-- How an iteration that does not return ends; it always ends. -/
def unfinished : Option Ended → Ended
  | some ended => ended
  | none => .blocked

/-! ## §2. Headers. -/

/-- `SAFETENSORS_HEADER_BUFFER_SIZE`. -/
def headerBufferSize : Nat := 8

/-- `MAX_HEADER_SIZE`. -/
def maxHeaderSize : Nat := 100 * 1024 * 1024

/-- `struct.unpack("<Q", buffer)`. -/
def unpackLongLong (bytes : List UInt8) : Nat :=
  bytes.foldr (fun byte n => byte.toNat + 256 * n) 0

/-- `filenames[i]`, for an `i` that came from `filenames`. -/
def filename (filenames : List String) (i : Int) : String := (filenames[i.toNat]?).getD ""

/-- The body of the first loop of `from_files`. -/
def headerSize (filenames : List String) (chunk : Chunk) : Except String Nat :=
  if chunk.bytes.length < 8 then
    .error s!"File {filename filenames chunk.fileId} is truncated or empty."
  else if chunk.bytes.length ≠ 8 then .error "unpack requires a buffer of 8 bytes"
  else
    let size := unpackLongLong chunk.bytes
    if size > maxHeaderSize then
      .error (s!"Corrupted File: Header size {size} in {filename filenames chunk.fileId} " ++
        s!"exceeds limit of {maxHeaderSize} bytes.")
    else .ok size

section FromFiles

variable (lib : Library) (hasattr : String → Bool) (loads : String → Except String Blob)

/-- The body of the second loop: `bytearray(...).decode("utf-8")`, and
`json.loads`. -/
def header (filenames : List String) (chunk : Chunk) : Except String Blob :=
  match String.fromUTF8? ⟨chunk.bytes.toArray⟩ with
  | none =>
      .error s!"Corrupted File: Header in {filename filenames chunk.fileId} is not valid UTF-8."
  | some json =>
      match loads json with
      | .error e =>
          .error (s!"Corrupted File: Header in {filename filenames chunk.fileId} " ++
            s!"is not valid JSON. Error: {e}")
      | .ok blob => .ok blob

/-- The first request: eight bytes of each file. -/
def sizeRequests (filenames : List String) : List FileChunks :=
  (List.range filenames.length).map (fun i : Nat =>
    .contiguous (i : Int) (filename filenames i) 0 [headerBufferSize])

/-- The second one: the headers, in the order the sizes came in. -/
def headerRequests (filenames : List String) (headerSizes : List (Int × Nat)) : List FileChunks :=
  headerSizes.map (fun item =>
    .contiguous item.1 (filename filenames item.1) headerBufferSize [item.2])

/-- `[SafetensorsMetadata(metadatas[i], header_sizes[i] + ...) for i in ...]`. -/
def buildMetadata (metadatas : List (Int × Blob)) (headerSizes : List (Int × Nat)) :
    List Nat → Except String (List SafetensorsMetadata)
  | [] => .ok []
  | i :: is =>
      match metadatas.lookup (i : Int), headerSizes.lookup (i : Int) with
      | some blob, some size =>
          match SafetensorsMetadata.new hasattr blob (size + headerBufferSize) with
          | .error e => .error e
          | .ok metadata =>
              match buildMetadata metadatas headerSizes is with
              | .error e => .error e
              | .ok rest => .ok (metadata :: rest)
      -- KeyError
      | _, _ => .error s!"{i}"

/-- A loop over a stream that fills a dictionary, and how it ends.  What the
body raises comes before what the generator raises behind it. -/
def collect {α : Type} (value : Chunk → Except String α)
    (streamed : List Chunk × Option Ended × List NativeResponse) :
    Except Ended (List (Int × α) × List NativeResponse) :=
  match fill Chunk.fileId value streamed.1 [] with
  | .error e => .error (.raised e)
  | .ok d =>
      match streamed.2.1 with
      | some .returned => .ok (d, streamed.2.2)
      | ended => .error (unfinished ended)

/-- `from_files`. -/
def fromFiles (filenames : List String) (script : List NativeResponse) :
    Except Ended (List SafetensorsMetadata × List NativeResponse) :=
  match collect (headerSize filenames) (lib.stream 0 (sizeRequests filenames) script) with
  | .error ended => .error ended
  | .ok (headerSizes, script) =>
      match collect (header loads filenames)
          (lib.stream 1 (headerRequests filenames headerSizes) script) with
      | .error ended => .error ended
      | .ok (metadatas, script) =>
          match buildMetadata hasattr metadatas headerSizes (List.range filenames.length) with
          | .error e => .error (.raised e)
          | .ok built => .ok (built, script)

/-! ## §3. Tensors. -/

/-- A torch tensor, by its elements' bytes. -/
structure Tensor where
  shape : List Int
  dtype : String
  bytes : List UInt8
  deriving DecidableEq, Repr

/-- `create_torch_tensor`: `view` refuses bytes that are no whole elements,
and a shape that is not theirs; so does `empty` a negative dimension.  No
shape that gets here has a single `-1`, which would be inferred: its product
is not negative. -/
def createTorchTensor (bytes : List UInt8) (t : SafetensorMetadata) : Except String Tensor :=
  match safetensorsToTorchDtype hasattr t.dtype with
  | none => .error s!"Unsupported dtype '{t.dtype}' in tensor '{t.name}'"
  | some dtype =>
      let negative := t.shape.any (fun dim => decide (dim < 0))
      if t.getItemCount = 0 then
        if negative then .error "Trying to create tensor with negative dimension"
        else .ok ⟨t.shape, dtype, []⟩
      else if bytes.length % elementSize dtype ≠ 0 then
        .error s!"self.size(-1) must be divisible by {elementSize dtype}"
      else if negative ∨ (bytes.length / elementSize dtype : Nat) ≠ t.getItemCount then
        .error s!"shape '{t.shape}' is invalid for input of size {bytes.length}"
      else .ok ⟨t.shape, dtype, bytes⟩

/-- `files_to_tensors_metadata[file_index][ready_chunk_index]`. -/
def tensorMetadata (metadatas : List SafetensorsMetadata) (chunk : Chunk) :
    Option SafetensorMetadata :=
  (metadatas[chunk.fileId.toNat]?).bind (fun metadata =>
    metadata.tensorsMetadata[chunk.chunkIndex]?)

/-- The loop of `get_tensors`: what it yields, and what it raises. -/
def getTensors (metadatas : List SafetensorsMetadata) :
    List Chunk → List (String × Tensor) × Option String
  | [] => ([], none)
  | chunk :: chunks =>
      match tensorMetadata metadatas chunk with
      | none => ([], some "list index out of range")
      | some t =>
          match createTorchTensor hasattr chunk.bytes t with
          | .error e => ([], some e)
          | .ok tensor =>
              let (tensors, raised) := getTensors metadatas chunks
              ((t.name, tensor) :: tensors, raised)

/-- The request of `SafetensorsStreamer.stream_files`. -/
def tensorRequests (paths : List String) (metadatas : List SafetensorsMetadata) :
    List FileChunks :=
  (paths.zip metadatas).mapIdx (fun i item => streamRequest i item.1 item.2)

/-- `SafetensorsStreamer.stream_files`, and `get_tensors` iterated. -/
def streamTensors (paths : List String) (script : List NativeResponse) :
    List (String × Tensor) × Ended × List NativeResponse :=
  match fromFiles lib hasattr loads paths script with
  | .error ended => ([], ended, script)
  | .ok (metadatas, script) =>
      match lib.stream 2 (tensorRequests paths metadatas) script with
      | (chunks, ended, rest) =>
          match getTensors hasattr metadatas chunks with
          | (tensors, some e) => (tensors, .raised e, rest)
          | (tensors, none) => (tensors, unfinished ended, rest)

end FromFiles

/-! ## §4. What the files say. -/

/-- The bytes of a file from an offset on. -/
def bytesAt (content : String → Nat → UInt8) (path : String) (offset size : Nat) : List UInt8 :=
  (List.range size).map (fun k => content path (offset + k))

/-- **The header of a file**: its size, and what its JSON says. -/
structure IsHeader (loads : String → Except String Blob) (content : String → Nat → UInt8)
    (path : String) (size : Nat) (blob : Blob) : Prop where
  size_eq : unpackLongLong (bytesAt content path 0 headerBufferSize) = size
  size_le : size ≤ maxHeaderSize
  json : ∃ json, String.fromUTF8? ⟨(bytesAt content path headerBufferSize size).toArray⟩
    = some json ∧ loads json = .ok blob

/-- The tensor of an entry: its bytes are those between its offsets, behind
the header. -/
def entryTensor (hasattr : String → Bool) (content : String → Nat → UInt8) (path : String)
    (size : Nat) (item : String × HeaderEntry) : String × Tensor :=
  let offsets := item.2.dataOffsets.getD []
  let start := (offsets[0]?).getD 0
  let stop := (offsets[1]?).getD 0
  (item.1, ⟨item.2.shape.getD [], (safetensorsToTorchDtype hasattr (item.2.dtype.getD "")).getD "",
    bytesAt content path (size + headerBufferSize + start.toNat) (stop - start).toNat⟩)

/-- The tensors of a file. -/
def fileTensors (hasattr : String → Bool) (content : String → Nat → UInt8) (path : String)
    (size : Nat) (blob : Blob) : List (String × Tensor) :=
  (tensorEntries blob).map (entryTensor hasattr content path size)

/-- The library keeps its contract in stream `number`. -/
def Trusted (content : String → Nat → UInt8) (lib : Library) (number : Nat)
    (files : List FileChunks) (script : List NativeResponse) : Prop :=
  ∀ it served, lib.iterator number files = .ok it → Requests it served →
    NativeContract content (lib.submit number) served script

/-- It does so in all three streams. -/
structure TrustedStreams (content : String → Nat → UInt8) (lib : Library)
    (hasattr : String → Bool) (loads : String → Except String Blob) (paths : List String)
    (script : List NativeResponse) : Prop where
  sizes : Trusted content lib 0 (sizeRequests paths) script
  headers : ∀ headerSizes rest,
    collect (headerSize paths) (lib.stream 0 (sizeRequests paths) script)
      = .ok (headerSizes, rest) →
    Trusted content lib 1 (headerRequests paths headerSizes) rest
  tensors : ∀ metadatas rest, fromFiles lib hasattr loads paths script = .ok (metadatas, rest) →
    Trusted content lib 2 (tensorRequests paths metadatas) rest

/-! ## §5. A stream that returns. -/

section Streams

variable {lib : Library} {hasattr : String → Bool} {loads : String → Except String Blob}
  {content : String → Nat → UInt8} {script rest : List NativeResponse}

/-- A stream that returns with as many chunks as there are ranges has them
all; and one that has fewer met a FinishedError. -/
theorem stream_returned {number : Nat} {files : List FileChunks} {chunks : List Chunk}
    (hids : (files.map FileChunks.id).Nodup) (htrusted : Trusted content lib number files script)
    (h : lib.stream number files script = (chunks, some .returned, rest)) :
    ∃ used, script = used ++ rest ∧ chunks.length ≤ (originalRanges files).length ∧
      (chunks.length = (originalRanges files).length ↔ ∀ r ∈ used, r.code ≠ .finishedError) ∧
      (chunks.length = (originalRanges files).length →
        chunks.Perm ((originalRanges files).map (Range.chunk content))) := by
  obtain ⟨used, hused, hwhole, hshort⟩ :=
    run_returned lib.int lib.env (lib.address number) hids htrusted h
  refine ⟨used, hused, ?_⟩
  rw [List.length_map] at hshort
  by_cases hopen : ∀ r ∈ used, r.code ≠ .finishedError
  · have hperm := hwhole hopen
    have hlen := hperm.length_eq
    rw [List.length_map] at hlen
    exact ⟨hlen.le, ⟨fun _ => hopen, fun _ => hlen⟩, fun _ => hperm⟩
  · have hlt := hshort (by
      obtain ⟨r, hr⟩ := not_forall.mp hopen
      obtain ⟨hmem, hcode⟩ := Classical.not_imp.mp hr
      exact ⟨r, hmem, not_not.mp hcode⟩)
    exact ⟨hlt.le, ⟨fun heq => absurd heq hlt.ne, fun hno => absurd hno hopen⟩,
      fun heq => absurd heq hlt.ne⟩

theorem collect_ok {α : Type} {value : Chunk → Except String α}
    {streamed : List Chunk × Option Ended × List NativeResponse} {d : List (Int × α)}
    (h : collect value streamed = .ok (d, rest)) :
    fill Chunk.fileId value streamed.1 [] = .ok d ∧
      streamed = (streamed.1, some .returned, rest) := by
  unfold collect at h
  split at h
  next => simp at h
  next d' hfill =>
    split at h
    next hended =>
      obtain ⟨rfl, rfl⟩ := Prod.mk.inj (Except.ok.inj h)
      exact ⟨hfill, Prod.ext rfl (Prod.ext hended rfl)⟩
    next => simp at h

/-- Files of one range each. -/
theorem originalRanges_single {α : Type} (id : α → Int) (path : α → String)
    (offset size : α → Nat) (items : List α) :
    originalRanges (items.map (fun item =>
        .contiguous (id item) (path item) (offset item) [size item]))
      = items.map (fun item => ⟨id item, 0, path item, offset item, size item⟩) := by
  induction items with
  | nil => rfl
  | cons item items ih =>
      rw [List.map_cons, originalRanges, List.flatMap_cons]
      exact congrArg (_ :: ·) ih

/-! ## §6. The headers. -/

theorem sizeRequests_ids (paths : List String) :
    ((sizeRequests paths).map FileChunks.id).Nodup := by
  rw [sizeRequests, List.map_map]
  exact List.Nodup.map (fun i j h => Int.ofNat.inj h) List.nodup_range

theorem headerRequests_ids {paths : List String} {headerSizes : List (Int × Nat)}
    (h : (headerSizes.map Prod.fst).Nodup) :
    ((headerRequests paths headerSizes).map FileChunks.id).Nodup := by
  rw [headerRequests, List.map_map]
  exact h

/-- **A list of metadata is built of all files or not at all.** -/
theorem buildMetadata_ok {metadatas : List (Int × Blob)} {headerSizes : List (Int × Nat)}
    {is : List Nat} {built : List SafetensorsMetadata}
    (h : buildMetadata hasattr metadatas headerSizes is = .ok built) :
    List.Forall₂ (fun (i : Nat) metadata => ∃ blob size, metadatas.lookup (i : Int) = some blob ∧
      headerSizes.lookup (i : Int) = some size ∧
      SafetensorsMetadata.new hasattr blob (size + headerBufferSize) = .ok metadata) is built := by
  induction is generalizing built with
  | nil =>
      obtain rfl := Except.ok.inj h
      exact .nil
  | cons i is ih =>
      unfold buildMetadata at h
      split at h
      next blob size hblob hsize =>
        split at h
        next => simp at h
        next metadata hnew =>
          split at h
          next => simp at h
          next rest hrest =>
            obtain rfl := Except.ok.inj h
            exact .cons ⟨blob, size, hblob, hsize, hnew⟩ (ih hrest)
      next => simp at h

/-- Keys that are all there are no more than the items. -/
theorem keys_length_le {α : Type} {d : List (Int × α)} {count : Nat}
    (h : ∀ i < count, ∃ v, d.lookup (i : Int) = some v) : count ≤ d.length := by
  have hsubset : (List.range count).map (fun i : Nat => (i : Int)) ⊆ d.map Prod.fst := by
    intro k hk
    obtain ⟨i, hi, rfl⟩ := List.mem_map.mp hk
    obtain ⟨v, hv⟩ := h i (List.mem_range.mp hi)
    exact List.mem_map_of_mem (mem_of_lookup hv)
  have hnodup : ((List.range count).map (fun i : Nat => (i : Int))).Nodup :=
    List.Nodup.map (fun i j h => Int.ofNat.inj h) List.nodup_range
  simpa using (List.subperm_of_subset hnodup hsubset).length_le

/-- What the first loop makes of the eight bytes. -/
theorem headerSize_ok {paths : List String} {chunk : Chunk} {size : Nat}
    (h : headerSize paths chunk = .ok size) :
    unpackLongLong chunk.bytes = size ∧ size ≤ maxHeaderSize := by
  unfold headerSize at h
  split at h
  next => simp at h
  next =>
    split at h
    next => simp at h
    next =>
      dsimp only at h
      split at h
      next => simp at h
      next hle =>
        obtain rfl := Except.ok.inj h
        exact ⟨rfl, Nat.le_of_not_lt hle⟩

/-- What the second loop makes of the JSON. -/
theorem header_ok {paths : List String} {chunk : Chunk} {blob : Blob}
    (h : header loads paths chunk = .ok blob) :
    ∃ json, String.fromUTF8? ⟨chunk.bytes.toArray⟩ = some json ∧ loads json = .ok blob := by
  unfold header at h
  split at h
  next => simp at h
  next json hjson =>
    split at h
    next => simp at h
    next blob' hloads =>
      obtain rfl := Except.ok.inj h
      exact ⟨json, hjson, hloads⟩

theorem forall₂_get {α β : Type} {R : α → β → Prop} {xs : List α} {ys : List β}
    (h : List.Forall₂ R xs ys) {i : Nat} {x : α} (hx : xs[i]? = some x) :
    ∃ y, ys[i]? = some y ∧ R x y := by
  induction h generalizing i with
  | nil => simp at hx
  | cons hr _ ih =>
      cases i with
      | zero =>
          obtain rfl := Option.some.inj hx
          exact ⟨_, rfl, hr⟩
      | succ i => exact ih hx

/-- **Metadata are those of the files' own headers**, of every file: where the
library is torn down in between, no metadata are returned. -/
theorem fromFiles_ok {paths : List String} {metadatas : List SafetensorsMetadata}
    (hsizes : Trusted content lib 0 (sizeRequests paths) script)
    (hheaders : ∀ headerSizes rest,
      collect (headerSize paths) (lib.stream 0 (sizeRequests paths) script)
        = .ok (headerSizes, rest) →
      Trusted content lib 1 (headerRequests paths headerSizes) rest)
    (h : fromFiles lib hasattr loads paths script = .ok (metadatas, rest)) :
    (∃ used, script = used ++ rest) ∧
      List.Forall₂ (fun path metadata => ∃ size blob, IsHeader loads content path size blob ∧
        SafetensorsMetadata.new hasattr blob (size + headerBufferSize) = .ok metadata)
        paths metadatas := by
  unfold fromFiles at h
  split at h
  next => simp at h
  next headerSizes script₁ hcollect =>
  split at h
  next => simp at h
  next blobs script₂ hcollect' =>
  split at h
  next => simp at h
  next built hbuild =>
  obtain ⟨rfl, rfl⟩ := Prod.mk.inj (Except.ok.inj h)
  have hbuilt := buildMetadata_ok hbuild
  -- the two streams, and the dictionaries filled from them
  obtain ⟨hfill, hstream⟩ := collect_ok hcollect
  obtain ⟨hfill', hstream'⟩ := collect_ok hcollect'
  have hnodup := fill_keys_nodup hfill List.nodup_nil
  obtain ⟨used, hused, hle, -, hperm⟩ := stream_returned (sizeRequests_ids paths) hsizes hstream
  obtain ⟨used', hused', hle', -, hperm'⟩ :=
    stream_returned (headerRequests_ids hnodup) (hheaders _ _ hcollect) hstream'
  have hranges : originalRanges (sizeRequests paths) = (List.range paths.length).map
      (fun i : Nat => ⟨i, 0, filename paths i, 0, headerBufferSize⟩) :=
    originalRanges_single (fun i : Nat => (i : Int)) (fun i => filename paths i) (fun _ => 0)
      (fun _ => headerBufferSize) _
  have hranges' : originalRanges (headerRequests paths headerSizes) = headerSizes.map
      (fun item => ⟨item.1, 0, filename paths item.1, headerBufferSize, item.2⟩) :=
    originalRanges_single Prod.fst (fun item => filename paths item.1)
      (fun _ => headerBufferSize) Prod.snd _
  -- every file has a header in the end, so nothing was lost on the way
  have hall : paths.length ≤ blobs.length := by
    refine keys_length_le (fun i hi => ?_)
    obtain ⟨metadata, -, blob, size, hblob, -⟩ := forall₂_get hbuilt (List.getElem?_range hi)
    exact ⟨blob, hblob⟩
  have hlen := fill_length_le hfill
  have hlen' := fill_length_le hfill'
  rw [hranges, List.length_map, List.length_range] at hle hperm
  rw [hranges', List.length_map] at hle' hperm'
  simp only [List.length_nil, Nat.zero_add] at hlen hlen'
  have hsome := hperm (by omega)
  have hsome' := hperm' (by omega)
  refine ⟨⟨used ++ used', by rw [hused, hused', List.append_assoc]⟩, ?_⟩
  have hlength := hbuilt.length_eq
  rw [List.length_range] at hlength
  refine List.forall₂_of_length_eq_of_get hlength (fun i hi hi' => ?_)
  obtain ⟨metadata, hmetadata, blob, size, hblob, hsize, hnew⟩ :=
    forall₂_get hbuilt (List.getElem?_range hi)
  have hname : filename paths i = paths[i] := by
    rw [filename, Int.toNat_natCast, List.getElem?_eq_getElem hi]
    rfl
  have hget : metadata = built[i] := by
    rw [List.getElem?_eq_getElem hi'] at hmetadata
    exact (Option.some.inj hmetadata).symm
  refine ⟨size, blob, ?_, by rw [List.get_eq_getElem]; exact hget ▸ hnew⟩
  rw [List.get_eq_getElem, ← hname]
  -- the size was made of the chunk of this file
  obtain ⟨chunk, hchunk, hid, hvalue⟩ := (fill_lookup hfill hsize).resolve_left (by simp)
  obtain ⟨range, hrange, rfl⟩ := List.mem_map.mp (hsome.mem_iff.mp hchunk)
  obtain ⟨k, -, rfl⟩ := List.mem_map.mp hrange
  obtain rfl : k = i := Int.ofNat.inj hid
  obtain ⟨hunpack, hmax⟩ := headerSize_ok hvalue
  -- and the header of the chunk behind it
  obtain ⟨chunk', hchunk', hid', hvalue'⟩ := (fill_lookup hfill' hblob).resolve_left (by simp)
  obtain ⟨range', hrange', rfl⟩ := List.mem_map.mp (hsome'.mem_iff.mp hchunk')
  obtain ⟨item, hitem, rfl⟩ := List.mem_map.mp hrange'
  have hkey : item.1 = (k : Int) := hid'
  have hsame : item.2 = size := by
    have hitem' := lookup_of_mem hnodup hitem
    rw [hkey, hsize] at hitem'
    exact (Option.some.inj hitem').symm
  obtain ⟨json, hjson, hloads⟩ := header_ok hvalue'
  rw [Range.chunk, hkey, hsame] at hjson
  exact ⟨hunpack, hmax, json, hjson, hloads⟩

/-! ## §7. The tensors. -/

/-- The tensor read for a header's entry, at the entry's offsets. -/
def tensorOf (hasattr : String → Bool) (content : String → Nat → UInt8) (path : String)
    (size : Nat) (t : SafetensorMetadata) : String × Tensor :=
  (t.name, ⟨t.shape, (safetensorsToTorchDtype hasattr t.dtype).getD "",
    bytesAt content path (size + headerBufferSize + t.start.toNat) t.getBytesize.toNat⟩)

/-- It is the entry's. -/
theorem entryTensor_eq {path : String} {size : Nat} {item : String × HeaderEntry}
    {t : SafetensorMetadata} (h : SafetensorMetadata.new hasattr item.1 item.2 = .ok t) :
    entryTensor hasattr content path size item = tensorOf hasattr content path size t := by
  unfold SafetensorMetadata.new at h
  split at h
  · simp at h
  · simp at h
  · next shape dtype start stop rest hshape hdtype hoffsets =>
      simp only at h
      split at h
      · simp at h
      · obtain rfl : _ = t := by simpa using h
        unfold entryTensor tensorOf
        rw [hshape, hdtype, hoffsets]
        rfl
  · simp at h
  · simp at h

theorem fileTensors_eq {path : String} {size : Nat} {blob : Blob} {ts : List SafetensorMetadata}
    (h : ReadFrom hasattr (tensorEntries blob) ts) :
    fileTensors hasattr content path size blob = ts.map (tensorOf hasattr content path size) := by
  unfold fileTensors
  generalize tensorEntries blob = items at h
  induction h with
  | nil => rfl
  | cons hnew _ ih => rw [List.map_cons, List.map_cons, ih, entryTensor_eq hnew]

/-- What `get_tensors` makes of a chunk. -/
def yielded (hasattr : String → Bool) (metadatas : List SafetensorsMetadata) (chunk : Chunk) :
    String × Tensor :=
  match tensorMetadata metadatas chunk with
  | none => ("", ⟨[], "", []⟩)
  | some t =>
      (t.name, ⟨t.shape, (safetensorsToTorchDtype hasattr t.dtype).getD "",
        if t.getItemCount = 0 then [] else chunk.bytes⟩)

theorem createTorchTensor_ok {bytes : List UInt8} {t : SafetensorMetadata} {tensor : Tensor}
    (h : createTorchTensor hasattr bytes t = .ok tensor) :
    tensor = ⟨t.shape, (safetensorsToTorchDtype hasattr t.dtype).getD "",
      if t.getItemCount = 0 then [] else bytes⟩ := by
  unfold createTorchTensor at h
  split at h
  next => simp at h
  next dtype hdtype =>
    dsimp only at h
    rw [hdtype]
    split at h
    next hzero =>
      split at h
      next => simp at h
      next =>
        rw [if_pos hzero]
        exact (Except.ok.inj h).symm
    next hsome =>
      rw [if_neg hsome]
      split at h
      next => simp at h
      next =>
        split at h
        next => simp at h
        next => exact (Except.ok.inj h).symm

/-- **A tensor of each chunk**, in the order of the chunks. -/
theorem getTensors_ok {metadatas : List SafetensorsMetadata} {chunks : List Chunk}
    {tensors : List (String × Tensor)}
    (h : getTensors hasattr metadatas chunks = (tensors, none)) :
    tensors = chunks.map (yielded hasattr metadatas) := by
  induction chunks generalizing tensors with
  | nil => exact (Prod.mk.inj h).1.symm
  | cons chunk chunks ih =>
      unfold getTensors at h
      split at h
      next => simp at h
      next t hmetadata =>
        split at h
        next => simp at h
        next tensor hcreate =>
          dsimp only at h
          obtain ⟨rfl, hraised⟩ := Prod.mk.inj h
          rw [List.map_cons, ← ih (Prod.ext rfl hraised), createTorchTensor_ok hcreate]
          unfold yielded
          rw [hmetadata]

/-- **The ranges of one file**, yielded: the tensors of its header. -/
theorem yielded_file {metadatas : List SafetensorsMetadata} {i : Nat} {path : String}
    {size : Nat} {blob : Blob} {metadata : SafetensorsMetadata}
    (hget : metadatas[i]? = some metadata)
    (hnew : SafetensorsMetadata.new hasattr blob (size + headerBufferSize) = .ok metadata)
    (hstart : StartsAtZero blob) :
    ((streamRequest i path metadata).rangesFrom 0).map
        (fun range => yielded hasattr metadatas (Range.chunk content range))
      = metadata.tensorsMetadata.map (tensorOf hasattr content path size) := by
  obtain ⟨ts, hread, hoffset, hsorted, hcheck⟩ := new_ok hnew
  obtain ⟨hsizes, hle, -⟩ := checkLoop_spec hcheck
  apply List.ext_getElem?
  intro k
  rw [List.getElem?_map, List.getElem?_map]
  cases ht : metadata.tensorsMetadata[k]? with
  | none =>
      have hlen := List.getElem?_eq_none_iff.mp ht
      rw [List.getElem?_eq_none]
      · rfl
      · rw [rangesFrom_length]
        show (metadata.readSizes.map Int.toNat).length ≤ k
        rw [List.length_map, hsizes, List.length_map]
        exact hlen
  | some t =>
      obtain ⟨first, hfirst⟩ : ∃ first, metadata.tensorsMetadata.head? = some first := by
        cases hcases : metadata.tensorsMetadata with
        | nil => simp [hcases] at ht
        | cons first rest => exact ⟨first, rfl⟩
      obtain ⟨position, bytesize, hposition, hsize, hplanned, hbytes⟩ :=
        planned_range hnew (i : Int) path hfirst ht
      have hfirst0 := (startsAtZero_iff hnew).mp hstart first hfirst
      have hmem := List.mem_of_getElem? ht
      -- no tensor starts before the first one
      have hpos : first.start ≤ t.start := by
        rw [hsorted] at hmem hfirst
        obtain ⟨rest, hrest⟩ : ∃ rest, sortBy SafetensorMetadata.sortKey ts = first :: rest := by
          cases hcases : sortBy SafetensorMetadata.sortKey ts with
          | nil => simp [hcases] at hfirst
          | cons head rest =>
              rw [hcases] at hfirst
              exact ⟨rest, by rw [show head = first by simpa using hfirst]⟩
        have hkey := sortBy_head_le hrest t ((mem_sortBy _ _ _).mp hmem)
        rcases Prod.Lex.toLex_le_toLex.mp hkey with hlt | ⟨heq, -⟩
        · exact le_of_lt hlt
        · exact le_of_eq heq
      have hrange : ((streamRequest i path metadata).rangesFrom 0)[k]?
          = some ⟨i, k, path, position, bytesize⟩ := by
        have hpair : (streamRequest i path metadata).pairs[k]? = some (position, bytesize) :=
          List.getElem?_zip_eq_some.mpr ⟨hposition, hsize⟩
        rw [FileChunks.rangesFrom, number, List.getElem?_map, List.getElem?_zipIdx, hpair,
          Option.map_some, Option.map_some, Nat.zero_add]
        rfl
      rw [hrange, Option.map_some, Option.map_some, Option.some.injEq]
      have hmetadata : tensorMetadata metadatas
          (Range.chunk content ⟨i, k, path, position, bytesize⟩) = some t := by
        unfold tensorMetadata
        show (metadatas[(i : Int).toNat]?).bind _ = _
        rw [Int.toNat_natCast, hget, Option.bind_some]
        exact ht
      have hat : position = size + headerBufferSize + t.start.toNat := by
        rw [hoffset] at hplanned
        push_cast at hplanned
        omega
      have hcount : bytesize = t.getBytesize.toNat := by omega
      unfold yielded tensorOf
      rw [hmetadata]
      dsimp only
      split
      next hzero =>
        -- an empty tensor has no bytes to read
        have hempty : bytesize = 0 := by
          rw [hsorted] at hmem
          obtain ⟨item, -, hitem⟩ := readFrom_mem hread ((mem_sortBy _ _ _).mp hmem)
          obtain ⟨-, torchDtype, -, hclaimed⟩ := metadata_ok hitem
          rw [hzero, Int.zero_mul] at hclaimed
          omega
        rw [← hcount, hempty]
        rfl
      next =>
        rw [← hcount, ← hat]
        rfl

/-- Two lists of groups, group by group the same up to order. -/
theorem flatten_perm {α β γ : Type} {xs : List α} {ys : List β} {f : Nat → α → List γ}
    {g : β → List γ} (hlength : xs.length = ys.length)
    (h : ∀ (i : Nat) x y, xs[i]? = some x → ys[i]? = some y → (f i x).Perm (g y)) :
    (xs.mapIdx f).flatten.Perm (ys.flatMap g) := by
  induction xs generalizing ys f with
  | nil =>
      cases ys with
      | nil => exact .refl _
      | cons y ys => simp at hlength
  | cons x xs ih =>
      cases ys with
      | nil => simp at hlength
      | cons y ys =>
          rw [List.mapIdx_cons, List.flatten_cons, List.flatMap_cons]
          refine (h 0 x y rfl rfl).append (ih (Nat.succ.inj hlength) (fun i x' y' hx hy => ?_))
          exact h (i + 1) x' y' hx hy

theorem tensorRequests_ids (paths : List String) (metadatas : List SafetensorsMetadata) :
    ((tensorRequests paths metadatas).map FileChunks.id).Nodup := by
  have hids : (tensorRequests paths metadatas).map FileChunks.id
      = (List.range (paths.zip metadatas).length).map (fun i : Nat => (i : Int)) := by
    apply List.ext_getElem?
    intro i
    rw [tensorRequests, List.getElem?_map, List.getElem?_mapIdx, List.getElem?_map]
    by_cases hi : i < (paths.zip metadatas).length
    · rw [List.getElem?_eq_getElem hi, List.getElem?_range hi]
      rfl
    · rw [List.getElem?_eq_none (by omega), List.getElem?_eq_none (by
        rw [List.length_range]
        omega)]
      rfl
  rw [hids]
  exact List.Nodup.map (fun i j h => Int.ofNat.inj h) List.nodup_range

theorem collect_error {α : Type} {value : Chunk → Except String α}
    {streamed : List Chunk × Option Ended × List NativeResponse} {ended : Ended}
    (h : collect value streamed = .error ended) : ended ≠ .returned := by
  unfold collect at h
  split at h
  next =>
    obtain rfl := Except.error.inj h
    simp
  next =>
    split at h
    next => simp at h
    next ended' hended =>
      obtain rfl := Except.error.inj h
      intro hreturned
      unfold unfinished at hreturned
      split at hreturned
      next heq => exact hended (heq.trans (congrArg some hreturned))
      next => simp at hreturned

/-- `from_files` does not return without metadata. -/
theorem fromFiles_error {paths : List String} {ended : Ended}
    (h : fromFiles lib hasattr loads paths script = .error ended) : ended ≠ .returned := by
  unfold fromFiles at h
  split at h
  next ended' hcollect =>
    obtain rfl := Except.error.inj h
    exact collect_error hcollect
  next =>
    split at h
    next ended' hcollect =>
      obtain rfl := Except.error.inj h
      exact collect_error hcollect
    next =>
      split at h
      next =>
        obtain rfl := Except.error.inj h
        simp
      next => simp at h

/-- The headers, and the metadata made of them. -/
theorem headers_exist {paths : List String} {metadatas : List SafetensorsMetadata}
    (h : List.Forall₂ (fun path metadata => ∃ size blob, IsHeader loads content path size blob ∧
      SafetensorsMetadata.new hasattr blob (size + headerBufferSize) = .ok metadata)
      paths metadatas) :
    ∃ headers : List (Nat × Blob),
      List.Forall₂ (fun path header => IsHeader loads content path header.1 header.2)
        paths headers ∧
      List.Forall₂ (fun (header : Nat × Blob) metadata =>
        SafetensorsMetadata.new hasattr header.2 (header.1 + headerBufferSize) = .ok metadata)
        headers metadatas := by
  induction h with
  | nil => exact ⟨[], .nil, .nil⟩
  | cons hone _ ih =>
      obtain ⟨size, blob, hheader, hnew⟩ := hone
      obtain ⟨headers, hheaders, hnews⟩ := ih
      exact ⟨(size, blob) :: headers, .cons hheader hheaders, .cons hnew hnews⟩

/-- **All the ranges**, yielded: the tensors of all headers, file by file. -/
theorem yielded_all {paths : List String} {metadatas : List SafetensorsMetadata}
    {headers : List (Nat × Blob)}
    (hnews : List.Forall₂ (fun (header : Nat × Blob) metadata =>
      SafetensorsMetadata.new hasattr header.2 (header.1 + headerBufferSize) = .ok metadata)
      headers metadatas) (hstart : ∀ header ∈ headers, StartsAtZero header.2) :
    ((originalRanges (tensorRequests paths metadatas)).map
        (fun range => yielded hasattr metadatas (Range.chunk content range))).Perm
      ((paths.zip headers).flatMap (fun item =>
        fileTensors hasattr content item.1 item.2.1 item.2.2)) := by
  have hflat : (originalRanges (tensorRequests paths metadatas)).map
      (fun range => yielded hasattr metadatas (Range.chunk content range))
      = ((paths.zip metadatas).mapIdx (fun i item =>
          ((streamRequest i item.1 item.2).rangesFrom 0).map
            (fun range => yielded hasattr metadatas (Range.chunk content range)))).flatten := by
    rw [originalRanges, List.map_flatMap, tensorRequests, List.flatMap_def]
    congr 1
    apply List.ext_getElem?
    intro i
    rw [List.getElem?_map, List.getElem?_mapIdx, List.getElem?_mapIdx, Option.map_map]
    rfl
  rw [hflat]
  have hlength := hnews.length_eq
  refine flatten_perm (by rw [List.length_zip, List.length_zip, hlength]) ?_
  intro i item item' hitem hitem'
  obtain ⟨hpath, hmetadata⟩ := List.getElem?_zip_eq_some.mp hitem
  obtain ⟨hpath', hheader⟩ := List.getElem?_zip_eq_some.mp hitem'
  obtain ⟨metadata, hget, hnew⟩ := forall₂_get hnews hheader
  obtain rfl := Option.some.inj (hmetadata.symm.trans hget)
  obtain ⟨ts, hread, -, hsorted, -⟩ := new_ok hnew
  rw [yielded_file hmetadata hnew (hstart _ (List.mem_of_getElem? hheader)),
    fileTensors_eq hread, hsorted,
    show item.1 = item'.1 from Option.some.inj (hpath.symm.trans hpath')]
  exact (sortBy_perm _ ts).map _

/-- **EVERY TENSOR OF EVERY HEADER IS YIELDED ONCE, WITH ITS OWN BYTES**, from
files whose headers start at 0, exactly when no FinishedError is among the
responses to the tensors, those `from_files` has left; whether one was among
those before does not matter, as then nothing is yielded at all. -/
theorem tensors_streamed {paths : List String} {tensors : List (String × Tensor)}
    (htrusted : TrustedStreams content lib hasattr loads paths script)
    (h : streamTensors lib hasattr loads paths script = (tensors, .returned, rest)) :
    ∃ (metadatas : List SafetensorsMetadata) (headers : List (Nat × Blob))
      (before used : List NativeResponse),
      script = before ++ (used ++ rest) ∧
      fromFiles lib hasattr loads paths script = .ok (metadatas, used ++ rest) ∧
      List.Forall₂ (fun path header => IsHeader loads content path header.1 header.2)
        paths headers ∧
      ((∀ header ∈ headers, StartsAtZero header.2) →
        (tensors.Perm ((paths.zip headers).flatMap (fun item =>
            fileTensors hasattr content item.1 item.2.1 item.2.2)) ↔
          ∀ r ∈ used, r.code ≠ .finishedError)) := by
  unfold streamTensors at h
  split at h
  next ended hfrom => exact absurd (Prod.mk.inj (Prod.mk.inj h).2).1 (fromFiles_error hfrom)
  next metadatas script₁ hfrom =>
    obtain ⟨⟨before, hbefore⟩, hmetadatas⟩ :=
      fromFiles_ok htrusted.sizes htrusted.headers hfrom
    obtain ⟨headers, hheaders, hnews⟩ := headers_exist hmetadatas
    rcases hstream : lib.stream 2 (tensorRequests paths metadatas) script₁ with
      ⟨chunks, ended, rest'⟩
    rw [hstream] at h
    dsimp only at h
    split at h
    next => simp at h
    next tensors' hget =>
      obtain ⟨rfl, hrest⟩ := Prod.mk.inj h
      obtain ⟨hended, rfl⟩ := Prod.mk.inj hrest
      obtain rfl : ended = some .returned := by
        unfold unfinished at hended
        split at hended
        next => rw [hended]
        next => simp at hended
      obtain ⟨used, hused, -, hopen, hperm⟩ := stream_returned (tensorRequests_ids paths metadatas)
        (htrusted.tensors _ _ hfrom) hstream
      refine ⟨metadatas, headers, before, used, by rw [hbefore, hused], by rw [hfrom, hused],
        hheaders, fun hstart => ?_⟩
      have hall := @yielded_all hasattr content paths _ _ hnews hstart
      rw [getTensors_ok hget]
      constructor
      · intro hcomplete
        have hlen := hcomplete.length_eq.trans hall.length_eq.symm
        rw [List.length_map, List.length_map] at hlen
        exact hopen.mp hlen
      · intro hno
        have hsame := (hperm (hopen.mpr hno)).map (yielded hasattr metadatas)
        rw [List.map_map] at hsame
        exact hsame.trans hall

end Streams

/-! ## §8. A file of zeros. -/

/-- A library over a file of zeros: each stream is one submission. -/
def zeroLibrary : Library := ⟨fun _ => "error", fun _ => .ok 100, none, fun number _ => .ok number,
  fun _ => 100⟩

/-- Its responses: the size, the header and the tensor. -/
def zeroScript : List NativeResponse :=
  [⟨.success, 0, 0, 0, fun _ => 0⟩, ⟨.success, 1, 0, 0, fun _ => 0⟩,
    ⟨.success, 2, 0, 0, fun _ => 0⟩]

/-- A header of one byte of data. -/
def zeroBlob : Blob := [("a", ⟨some [1], some "U8", some [0, 1]⟩)]

theorem zeros_trusted {rest : List NativeResponse} (h : ∃ used, zeroScript = used ++ rest)
    (number : Nat) (files : List FileChunks) :
    Trusted (fun _ _ => 0) zeroLibrary number files rest := by
  obtain ⟨used, hused⟩ := h
  have hsub : rest.Sublist zeroScript := hused ▸ List.sublist_append_right used rest
  intro it served _ _ k entry id _ _
  constructor
  · refine List.Nodup.sublist ((hsub.filter _).map _) ?_
    -- one response a submission
    by_cases h0 : id = 0
    · subst h0
      decide
    by_cases h1 : id = 1
    · subst h1
      decide
    by_cases h2 : id = 2
    · subst h2
      decide
    rw [List.filter_eq_nil_iff.mpr]
    · exact List.nodup_nil
    intro r hr
    unfold zeroScript at hr
    simp only [List.mem_cons, List.not_mem_nil, or_false] at hr
    rcases hr with rfl | rfl | rfl <;>
      simp [FileStreamer.succeeds, Ne.symm h0, Ne.symm h1, Ne.symm h2]
  · intro r hr _ file flat dst offset size _ _ _ _ _ x _
    have hmem := hsub.subset hr
    unfold zeroScript at hmem
    simp only [List.mem_cons, List.not_mem_nil, or_false] at hmem
    rcases hmem with rfl | rfl | rfl <;> rfl

theorem zeros_streams :
    TrustedStreams (fun _ _ => 0) zeroLibrary (fun _ => false) (fun _ => .ok zeroBlob) ["m"]
      zeroScript := by
  have hsizes := zeros_trusted ⟨[], rfl⟩ 0 (sizeRequests ["m"])
  have hheaders : ∀ headerSizes rest,
      collect (headerSize ["m"]) (zeroLibrary.stream 0 (sizeRequests ["m"]) zeroScript)
        = .ok (headerSizes, rest) →
      Trusted (fun _ _ => 0) zeroLibrary 1 (headerRequests ["m"] headerSizes) rest := by
    intro headerSizes rest hcollect
    obtain ⟨used, hused, -⟩ :=
      stream_returned (sizeRequests_ids ["m"]) hsizes (collect_ok hcollect).2
    exact zeros_trusted ⟨used, hused⟩ 1 _
  refine ⟨hsizes, hheaders, fun metadatas rest hfrom => ?_⟩
  exact zeros_trusted (fromFiles_ok hsizes hheaders hfrom).1 2 _

theorem tensors_streamed_zeros :
    ∃ (metadatas : List SafetensorsMetadata) (headers : List (Nat × Blob)) (used rest : List _),
      fromFiles zeroLibrary (fun _ => false) (fun _ => .ok zeroBlob) ["m"] zeroScript
        = .ok (metadatas, used ++ rest) ∧
      (used ++ rest).map NativeResponse.submissionId = [2] ∧ headers.length = 1 ∧
      ((∀ header ∈ headers, StartsAtZero header.2) →
        (([("a", ⟨[1], "uint8", [0]⟩)] : List (String × Tensor)).Perm
            ((["m"].zip headers).flatMap (fun item =>
              fileTensors (fun _ => false) (fun _ _ => 0) item.1 item.2.1 item.2.2)) ↔
          ∀ r ∈ used, r.code ≠ .finishedError)) := by
  have hrun : streamTensors zeroLibrary (fun _ => false) (fun _ => .ok zeroBlob) ["m"] zeroScript
      = ([("a", ⟨[1], "uint8", [0]⟩)], .returned,
        (streamTensors zeroLibrary (fun _ => false) (fun _ => .ok zeroBlob) ["m"]
          zeroScript).2.2) := by
    refine Prod.ext ?_ (Prod.ext ?_ rfl)
    · decide +kernel
    · decide +kernel
  obtain ⟨metadatas, headers, before, used, -, hfrom, hheaders, hall⟩ :=
    tensors_streamed zeros_streams hrun
  refine ⟨metadatas, headers, used, _, hfrom, ?_, hheaders.length_eq.symm, hall⟩
  -- the responses the header passes leave
  have hleft : (match fromFiles zeroLibrary (fun _ => false) (fun _ => .ok zeroBlob) ["m"]
      zeroScript with
    | .ok (_, left) => left.map NativeResponse.submissionId
    | .error _ => []) = [2] := by decide +kernel
  rw [hfrom] at hleft
  exact hleft

end ModelStreamer.Safetensors
