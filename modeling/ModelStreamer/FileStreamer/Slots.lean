/-
  ModelStreamer.FileStreamer.Slots
  ────────────────────────────────
  **WHERE A REQUEST LIES IN THE BUFFER**, file by file, and what the native
  library makes of it.

  The flat arrays of a request are one list over all its files.  Cut at the
  files again, range `j` of file `f` starts behind the files before it and
  the ranges before it: that is its slot.

    • `requests_built` — every request of the iterator is laid out so,
    • `Slot.apart`, `Slot.inside` — the slots lie apart, in the buffer,
    • `slot_of_native`, `native_of_slot` — the native library's ranges are
      the slots,
    • `Slot.flat` — and so are the destinations by flat position.
-/
import ModelStreamer.FileStreamer.Native

namespace ModelStreamer.FileStreamer

open ModelStreamer.Lib ModelStreamer.Planning

/-! ## §1. Requests as they are built. -/

/-- The flat positions of the files so far. -/
structure Based (request : FilesRequest) : Prop where
  base : request.fileBase = running 0 (request.files.map (fun file => file.sizes.length))
  count : request.numRanges = (request.files.map (fun file => file.sizes.length)).sum

theorem Based.append {request : FilesRequest} (h : Based request) (file : FileChunks) :
    Based (request.append file) := by
  constructor
  · show request.fileBase ++ [request.numRanges] = running 0 ((request.files ++ [file]).map _)
    rw [List.map_append, running_append, ← h.base, ← h.count, Nat.zero_add]
    rfl
  · show request.numRanges + file.sizes.length = ((request.files ++ [file]).map _).sum
    rw [List.map_append, List.sum_append, ← h.count]
    rfl

theorem pack_based (memoryLimit : Nat) (q : List FileChunksIterator) (request : FilesRequest)
    (memorySize : Nat) (h : Based request) : Based (pack memoryLimit q request memorySize).2 := by
  induction q, request, memorySize using pack.induct memoryLimit with
  | case1 request memorySize =>
      rw [pack]
      exact h
  | case2 request memorySize it rest hchunks it' hnone hfinished ih =>
      rw [pack, if_pos hnone, if_pos hfinished]
      exact ih h
  | case3 request memorySize it rest hchunks it' hnone hfinished =>
      rw [pack, if_pos hnone, if_neg hfinished]
      exact h
  | case4 request memorySize it rest hchunks it' hsome ih =>
      rw [pack, if_neg hsome]
      exact ih (h.append _)

/-- **A request of the iterator**: flat positions file by file, destinations
back to back from the buffer's address on. -/
structure Built (address : Nat) (request : FilesRequest) : Prop extends Based request where
  dsts : request.rangeDsts = running address request.flatSizes

theorem nextRequest_built {it it' : FilesRequestsIteratorWithBuffer} {request : FilesRequest}
    (h : it.nextRequest = (some request, it')) :
    Built it.bufferAddress request ∧ it'.bufferAddress = it.bufferAddress := by
  unfold FilesRequestsIteratorWithBuffer.nextRequest at h
  rcases hinner : it.filesRequestsIterator.nextRequest with ⟨_ | packed, iterator⟩
  · rw [hinner] at h
    simp at h
  · rw [hinner] at h
    dsimp only at h
    split at h
    next => simp at h
    next =>
      obtain ⟨hrequest, rfl⟩ := Prod.mk.inj h
      obtain rfl := Option.some.inj hrequest
      have hpacked : packed = (pack it.filesRequestsIterator.memoryLimit
          it.filesRequestsIterator.q FilesRequest.new 0).2 := by
        unfold FilesRequestsIterator.nextRequest at hinner
        split at hinner
        · simp at hinner
        · obtain ⟨hsome, -⟩ := Prod.mk.inj hinner
          split at hsome
          · simp at hsome
          · exact (Option.some.inj hsome).symm
      have hbased := pack_based it.filesRequestsIterator.memoryLimit it.filesRequestsIterator.q
        FilesRequest.new 0 ⟨rfl, rfl⟩
      rw [← hpacked] at hbased
      exact ⟨⟨⟨hbased.base, hbased.count⟩, rfl⟩, rfl⟩

/-- **Every request is laid out so.** -/
theorem requests_built {it : FilesRequestsIteratorWithBuffer}
    {served : List (FilesRequest × FilesRequestsIteratorWithBuffer)} (h : Requests it served) :
    ∀ s ∈ served, Built it.bufferAddress s.1 := by
  induction h with
  | done _ => simp
  | @next it request it' served hnext _ ih =>
      obtain ⟨hbuilt, haddress⟩ := nextRequest_built hnext
      rw [haddress] at ih
      intro s hs
      rcases List.mem_cons.mp hs with rfl | hs
      · exact hbuilt
      · exact ih s hs

/-- The requests of an iterator are determined. -/
theorem Requests.unique {it : FilesRequestsIteratorWithBuffer}
    {served served' : List (FilesRequest × FilesRequestsIteratorWithBuffer)}
    (h : Requests it served) (h' : Requests it served') : served = served' := by
  induction h generalizing served' with
  | done hnone =>
      cases h' with
      | done _ => rfl
      | next hnext _ =>
          rw [hnext] at hnone
          simp at hnone
  | next hnext _ ih =>
      cases h' with
      | done hnone =>
          rw [hnext] at hnone
          simp at hnone
      | next hnext' hrest' =>
          rw [hnext] at hnext'
          obtain ⟨hrequest, rfl⟩ := Prod.mk.inj hnext'
          rw [Option.some.inj hrequest, ih hrest']

/-! ## §2. Slots. -/

/-- Range `j` of file `f`, of files laid out from `address` on: its path, its
offset, its size, and its destination. -/
inductive Slot (address : Nat) (files : List FileChunks) :
    Nat → Nat → String → Nat → Nat → Nat → Prop
  | mk {f j offset size : Nat} {file : FileChunks} (hfile : files[f]? = some file)
      (hoffset : file.offsets[j]? = some offset) (hsize : file.sizes[j]? = some size) :
      Slot address files f j file.path offset size
        (address + (totalSize (files.take f) + (file.sizes.take j).sum))

/-- What lies before position `i` and at it lies before any later one. -/
theorem take_sum_lt {sizes : List Nat} {i k size : Nat} (hsize : sizes[i]? = some size)
    (h : i < k) : (sizes.take i).sum + size ≤ (sizes.take k).sum := by
  have hsub : (sizes.take (i + 1)).Sublist (sizes.take k) := (List.take_prefix_take_left h).sublist
  have hsum := hsub.sum_le_sum (fun _ _ => Nat.zero_le _)
  rw [List.take_add_one, hsize, List.sum_append] at hsum
  simpa using hsum

theorem take_sum_le {sizes : List Nat} {i size : Nat} (hsize : sizes[i]? = some size) :
    (sizes.take i).sum + size ≤ sizes.sum := by
  have h := take_sum_lt hsize (List.getElem?_eq_some_iff.mp hsize).1
  rwa [List.take_length] at h

/-- The same, of whole files. -/
theorem totalSize_lt {files : List FileChunks} {f k : Nat} {file : FileChunks}
    (hfile : files[f]? = some file) (h : f < k) :
    totalSize (files.take f) + file.sizes.sum ≤ totalSize (files.take k) := by
  have hget : (files.map FileChunks.totalSize)[f]? = some file.sizes.sum := by
    rw [List.getElem?_map, hfile]
    rfl
  have hsum := take_sum_lt hget h
  rwa [← List.map_take, ← List.map_take] at hsum

section Places

variable {address : Nat} {files : List FileChunks} {f j : Nat} {path : String}
  {offset size dst : Nat}

/-- **Inside of the buffer.** -/
theorem Slot.inside (h : Slot address files f j path offset size dst) :
    address ≤ dst ∧ dst + size ≤ address + totalSize files := by
  cases h with
  | @mk _ _ file hfile hoffset hsize =>
      have hin := take_sum_le hsize
      have hall := totalSize_lt hfile (List.getElem?_eq_some_iff.mp hfile).1
      rw [List.take_length] at hall
      exact ⟨by omega, by omega⟩

/-- A later slot starts behind an earlier one. -/
theorem Slot.before {f' j' offset' size' dst' : Nat} {path' : String}
    (h : Slot address files f j path offset size dst)
    (h' : Slot address files f' j' path' offset' size' dst')
    (hlt : f < f' ∨ f = f' ∧ j < j') : dst + size ≤ dst' := by
  cases h with
  | @mk _ _ file hfile hoffset hsize =>
      cases h' with
      | @mk _ _ file' hfile' hoffset' hsize' =>
          rcases hlt with hlt | ⟨rfl, hlt⟩
          · have hin := take_sum_le hsize
            have hfiles := totalSize_lt hfile hlt
            omega
          · rw [hfile, Option.some.injEq] at hfile'
            subst hfile'
            have hin := take_sum_lt hsize hlt
            omega

/-- **Slots lie apart**: an address is in one of them. -/
theorem Slot.apart {f' j' offset' size' dst' a : Nat} {path' : String}
    (h : Slot address files f j path offset size dst)
    (h' : Slot address files f' j' path' offset' size' dst')
    (ha : dst ≤ a ∧ a < dst + size) (ha' : dst' ≤ a ∧ a < dst' + size') : f = f' ∧ j = j' := by
  rcases Nat.lt_trichotomy f f' with hlt | rfl | hlt
  · have := h.before h' (.inl hlt)
    omega
  · rcases Nat.lt_trichotomy j j' with hlt | rfl | hlt
    · have := h.before h' (.inr ⟨rfl, hlt⟩)
      omega
    · exact ⟨rfl, rfl⟩
    · have := h'.before h (.inr ⟨rfl, hlt⟩)
      omega
  · have := h'.before h (.inl hlt)
    omega

/-- What is laid out file by file, by its place in one file. -/
theorem running_at (cursor : Nat) {files : List FileChunks} {f j : Nat} {file : FileChunks}
    (hfile : files[f]? = some file) (hj : j < file.sizes.length) :
    (running cursor (files.flatMap FileChunks.sizes))[
      ((files.map (fun file => file.sizes.length)).take f).sum + j]?
      = some (cursor + (totalSize (files.take f) + (file.sizes.take j).sum)) := by
  induction files generalizing cursor f with
  | nil => simp at hfile
  | cons first files ih =>
      rw [List.flatMap_cons, running_append]
      cases f with
      | zero =>
          obtain rfl := Option.some.inj hfile
          rw [List.take_zero, List.sum_nil, Nat.zero_add,
            List.getElem?_append_left (by rw [running_length]; exact hj), running_getElem? _ _ hj]
          simp [totalSize]
      | succ f =>
          have hrest := ih (cursor + first.sizes.sum) hfile
          rw [List.map_cons, List.take_succ_cons, List.sum_cons,
            List.getElem?_append_right (by rw [running_length]; omega), running_length,
            show first.sizes.length + ((files.map (fun file => file.sizes.length)).take f).sum + j
                - first.sizes.length
              = ((files.map (fun file => file.sizes.length)).take f).sum + j by omega, hrest,
            List.take_succ_cons]
          simp only [totalSize, List.map_cons, List.sum_cons, FileChunks.totalSize]
          congr 1
          omega

/-- **The destination at the flat position** of a range is that of its
slot. -/
theorem Slot.flat {request : FilesRequest} (hbuilt : Built address request) {flat : Nat}
    {file : FileChunks} (hfile : request.files[f]? = some file)
    (hoffset : file.offsets[j]? = some offset) (hsize : file.sizes[j]? = some size)
    (hflat : request.flatIndex f j = some flat) (hdst : request.rangeDsts[flat]? = some dst) :
    Slot address request.files f j file.path offset size dst := by
  have hf : f < request.files.length := (List.getElem?_eq_some_iff.mp hfile).1
  have hj : j < file.sizes.length := (List.getElem?_eq_some_iff.mp hsize).1
  rw [FilesRequest.flatIndex, hbuilt.base, running_getElem? 0 _ (by simpa using hf), Nat.zero_add]
    at hflat
  obtain rfl := Option.some.inj hflat
  rw [hbuilt.dsts, FilesRequest.flatSizes, running_at address hfile hj] at hdst
  rw [← Option.some.inj hdst]
  exact .mk hfile hoffset hsize

end Places

/-! ## §3. The native library's view. -/

/-- The files of a request, by their index. -/
theorem nativeFiles_at (cursor : Nat) (files : List FileChunks) (f : Nat) :
    (nativeFiles cursor files)[f]?
      = files[f]?.map (fun file => ⟨file.path, List.zipWith readRange file.pairs
          (running (cursor + totalSize (files.take f)) file.sizes)⟩) := by
  induction files generalizing cursor f with
  | nil => simp [nativeFiles]
  | cons first files ih =>
      cases f with
      | zero => rfl
      | succ f =>
          unfold nativeFiles
          rw [List.getElem?_cons_succ, List.getElem?_cons_succ, ih, List.take_succ_cons]
          simp only [totalSize, List.map_cons, List.sum_cons, Nat.add_assoc]

/-- What the checks of `runai_request` leave. -/
theorem nativeRequest_words {request : FilesRequest} {native : List FileRanges}
    (h : nativeRequest request = .ok native) :
    (∀ size ∈ request.flatSizes, size < 2 ^ 64) ∧
      (∀ offset ∈ request.files.flatMap FileChunks.offsets, offset < 2 ^ 64) ∧
      ∀ dst ∈ request.rangeDsts, dst < 2 ^ 64 := by
  have hall : ∀ values : List Nat, ¬ values.any (fun n => decide (2 ^ 64 ≤ n)) = true →
      ∀ value ∈ values, value < 2 ^ 64 := by
    intro values hany value hvalue
    by_contra hge
    exact hany (List.any_eq_true.mpr ⟨value, hvalue, by rw [decide_eq_true_eq]; omega⟩)
  unfold nativeRequest runaiRequest at h
  dsimp only at h
  split_ifs at h with _ _ _ _ hsizes hoffsets hdsts
  exact ⟨hall _ hsizes, hall _ hoffsets, hall _ hdsts⟩

section Ranges

variable {address : Nat} {request : FilesRequest} {native : List FileRanges} {f j : Nat}

/-- The values of a slot fit their words. -/
theorem Slot.words (hbuilt : Built address request) (h : nativeRequest request = .ok native)
    {path : String} {offset size dst : Nat}
    (hslot : Slot address request.files f j path offset size dst) :
    offset < 2 ^ 64 ∧ size < 2 ^ 64 ∧ dst < 2 ^ 64 := by
  obtain ⟨hsizes, hoffsets, hdsts⟩ := nativeRequest_words h
  cases hslot with
  | @mk _ _ file hfile hoffset hsize =>
      have hmem := List.mem_of_getElem? hfile
      refine ⟨hoffsets _ (List.mem_flatMap.mpr ⟨file, hmem, List.mem_of_getElem? hoffset⟩),
        hsizes _ (List.mem_flatMap.mpr ⟨file, hmem, List.mem_of_getElem? hsize⟩), hdsts _ ?_⟩
      rw [hbuilt.dsts]
      exact List.mem_of_getElem?
        (running_at address hfile (List.getElem?_eq_some_iff.mp hsize).1)

/-- **A native range is a slot.** -/
theorem slot_of_native (hbuilt : Built address request) (h : nativeRequest request = .ok native)
    {file : FileRanges} {range : ReadRange} (hfile : native[f]? = some file)
    (hrange : file.ranges[j]? = some range) :
    Slot address request.files f j file.path range.offset range.size range.dst := by
  obtain ⟨hnative, -⟩ := nativeRequest_eq hbuilt.dsts h
  rw [hnative, nativeFiles_at, Option.map_eq_some_iff] at hfile
  obtain ⟨chunks, hchunks, rfl⟩ := hfile
  dsimp only at hrange ⊢
  rw [List.getElem?_zipWith_eq_some] at hrange
  obtain ⟨⟨offset, size⟩, dst, hpair, hdst, rfl⟩ := hrange
  obtain ⟨hoffset, hsize⟩ := List.getElem?_zip_eq_some.mp hpair
  rw [running_getElem? _ _ (List.getElem?_eq_some_iff.mp hsize).1, Option.some.injEq,
    Nat.add_assoc] at hdst
  subst hdst
  have hslot : Slot address request.files f j _ _ _ _ := .mk hchunks hoffset hsize
  obtain ⟨hoffsetLt, hsizeLt, hdstLt⟩ := hslot.words hbuilt h
  unfold readRange
  dsimp only
  rw [wrap_of_lt hoffsetLt, wrap_of_lt hsizeLt, wrap_of_lt hdstLt]
  exact hslot

/-- **A slot is a native range.** -/
theorem native_of_slot (hbuilt : Built address request) (h : nativeRequest request = .ok native)
    {path : String} {offset size dst : Nat}
    (hslot : Slot address request.files f j path offset size dst) :
    ∃ file range, native[f]? = some file ∧ file.path = path ∧ file.ranges[j]? = some range ∧
      range.offset = offset ∧ range.size = size ∧ range.dst = dst := by
  obtain ⟨hoffsetLt, hsizeLt, hdstLt⟩ := hslot.words hbuilt h
  cases hslot with
  | @mk _ _ chunks hchunks hoffset hsize =>
      have hfile := nativeFiles_at address request.files f
      rw [hchunks, Option.map_some, ← (nativeRequest_eq hbuilt.dsts h).1] at hfile
      refine ⟨_, readRange (offset, size) _, hfile, rfl, List.getElem?_zipWith_eq_some.mpr
        ⟨(offset, size), _, List.getElem?_zip_eq_some.mpr ⟨hoffset, hsize⟩,
          running_getElem? _ _ (List.getElem?_eq_some_iff.mp hsize).1, rfl⟩,
        wrap_of_lt hoffsetLt, wrap_of_lt hsizeLt, ?_⟩
      show wrap _ = _
      rw [Nat.add_assoc]
      exact wrap_of_lt hdstLt

end Ranges

end ModelStreamer.FileStreamer
