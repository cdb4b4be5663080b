/-
  ModelStreamer.Safetensors.Metadata
  ──────────────────────────────────
  **SAFETENSORS HEADERS** (`safetensors_pytorch.py`) and the reads planned
  from them (`SafetensorsStreamer.stream_files`).

  A header is a JSON object, one entry a tensor.  The reader does not read a
  tensor at its own offset: it sorts the tensors by offset, checks that each
  one ends where the next begins, and lays their SIZES out back to back from
  the start of the data.

    • `checkLoop_spec` — what the checks leave of the sorted tensors,
    • `planned_range` — where tensor `i` is read,
    • `reads_own_bytes_iff` — it is read at its own offsets exactly when the
      first tensor starts at 0, which is not checked.
-/
import ModelStreamer.FileStreamer.Partition
import ModelStreamer.Lib.KeySort

namespace ModelStreamer.Safetensors

open ModelStreamer.Lib ModelStreamer.FileStreamer

/-! ## §1. Data types. -/

/-- The torch attribute a safetensors data type stands for, given the
attributes this torch has. -/
def safetensorsToTorchDtype (hasattr : String → Bool) (dtype : String) : Option String :=
  let optional (aliases : List String) := aliases.find? hasattr
  match dtype with
  | "F64" => some "float64"
  | "F32" => some "float32"
  | "F16" => some "float16"
  | "BF16" => some "bfloat16"
  | "I64" => some "int64"
  | "I32" => some "int32"
  | "I16" => some "int16"
  | "I8" => some "int8"
  | "U8" => some "uint8"
  | "BOOL" => some "bool"
  | "C64" => some "complex64"
  | "U64" => optional ["uint64"]
  | "U32" => optional ["uint32"]
  | "U16" => optional ["uint16"]
  | "F8_E4M3" => optional ["float8_e4m3fn", "float8_e4m3fnuz"]
  | "F8_E5M2" => optional ["float8_e5m2", "float8_e5m2fnuz"]
  | "F8_E8M0" => optional ["float8_e8m0fnu", "float8_e8m0fnuz"]
  | "F4" => optional ["float4_e2m1fn_x2"]
  | _ => none

/-- `torch.tensor([], dtype=...).element_size()`, by the attribute's name. -/
def elementSize (torchDtype : String) : Nat :=
  if torchDtype ∈ ["float64", "int64", "complex64", "uint64"] then 8
  else if torchDtype ∈ ["float32", "int32", "uint32"] then 4
  else if torchDtype ∈ ["float16", "bfloat16", "int16", "uint16"] then 2
  else 1

/-! ## §2. One tensor. -/

/-- The value of a header entry: the keys that are there. -/
structure HeaderEntry where
  shape : Option (List Int)
  dtype : Option String
  dataOffsets : Option (List Int)
  deriving DecidableEq, Repr

/-- `SafetensorMetadata`, with its `Offsets`. -/
structure SafetensorMetadata where
  name : String
  shape : List Int
  dtype : String
  start : Int
  stop : Int
  deriving DecidableEq, Repr

/-- `get_bytesize`. -/
def SafetensorMetadata.getBytesize (t : SafetensorMetadata) : Int := t.stop - t.start

/-- `get_item_count`. -/
def SafetensorMetadata.getItemCount (t : SafetensorMetadata) : Int :=
  t.shape.foldl (· * ·) 1

/-- `_validate_shape_consistency`: the offsets reserve what the shape and
the data type claim. -/
def SafetensorMetadata.validateShapeConsistency (hasattr : String → Bool)
    (t : SafetensorMetadata) : Except String Unit :=
  match safetensorsToTorchDtype hasattr t.dtype with
  | none => .error s!"Unsupported dtype '{t.dtype}' in tensor '{t.name}'"
  | some torchDtype =>
      let expected := t.getItemCount * elementSize torchDtype
      if expected ≠ t.getBytesize then
        .error (s!"Corrupted Tensor '{t.name}': Shape claims {expected} bytes " ++
          s!"({t.shape} x {t.dtype}), but offsets reserve {t.getBytesize} bytes.")
      else .ok ()

/-- `SafetensorMetadata.__init__`. -/
def SafetensorMetadata.new (hasattr : String → Bool) (name : String) (entry : HeaderEntry) :
    Except String SafetensorMetadata :=
  match entry.shape, entry.dtype, entry.dataOffsets with
  | none, _, _ => .error "'shape'"
  | _, none, _ => .error "'dtype'"
  | some shape, some dtype, some (start :: stop :: _) =>
      let t : SafetensorMetadata := ⟨name, shape, dtype, start, stop⟩
      match t.validateShapeConsistency hasattr with
      | .error e => .error e
      | .ok () => .ok t
  | _, _, none => .error "'data_offsets'"
  | _, _, some _ => .error "list index out of range"

/-! ## §3. The header. -/

/-- A header: the items of the JSON object, in its order. -/
abbrev Blob := List (String × HeaderEntry)

/-- The items that are tensors. -/
def tensorEntries (blob : Blob) : Blob := blob.filter (fun item => item.1 ≠ "__metadata__")

/-- The first loop of `SafetensorsMetadata.__init__`. -/
def readEntries (hasattr : String → Bool) : Blob → Except String (List SafetensorMetadata)
  | [] => .ok []
  | (name, entry) :: items =>
      if name ≠ "__metadata__" then
        if entry.dataOffsets.isNone then
          .error s!"Corrupted Header: Tensor '{name}' missing data_offsets"
        else
          match SafetensorMetadata.new hasattr name entry with
          | .error e => .error e
          | .ok t =>
              match readEntries hasattr items with
              | .error e => .error e
              | .ok ts => .ok (t :: ts)
      else readEntries hasattr items

/-- The checks of the second loop on one tensor, and the one behind it. -/
def checkTensor (t : SafetensorMetadata) (next : Option SafetensorMetadata) :
    Except String Unit :=
  if t.start > t.stop then
    .error s!"Corrupted Offset: Tensor '{t.name}' start ({t.start}) > end ({t.stop})"
  else
    match next with
    | none => .ok ()
    | some next =>
        if t.start + t.getBytesize > next.start then
          .error (s!"Corrupted File: Tensor '{t.name}' overlaps with next tensor. " ++
            s!"(Ends at {t.start + t.getBytesize}, next starts at {next.start})")
        else if t.start + t.getBytesize < next.start then
          .error (s!"Corrupted File: Gaps between tensors are not allowed. Tensor '{t.name}' " ++
            s!"ends at {t.start + t.getBytesize}, but next tensor starts at {next.start}.")
        else .ok ()

/-- The second loop: the sizes to read. -/
def checkLoop : List SafetensorMetadata → Except String (List Int)
  | [] => .ok []
  | t :: ts =>
      match checkTensor t ts.head? with
      | .error e => .error e
      | .ok () =>
          match checkLoop ts with
          | .error e => .error e
          | .ok sizes => .ok (t.getBytesize :: sizes)

/-- `SafetensorsMetadata`. -/
structure SafetensorsMetadata where
  offset : Nat
  tensorsMetadata : List SafetensorMetadata
  readSizes : List Int
  deriving DecidableEq, Repr

/-- The key the tensors are sorted by. -/
def SafetensorMetadata.sortKey (t : SafetensorMetadata) : ℤ ×ₗ ℤ := toLex (t.start, t.getBytesize)

/-- `SafetensorsMetadata.__init__`: empty tensors sort before the tensor
they share a start with. -/
def SafetensorsMetadata.new (hasattr : String → Bool) (blob : Blob) (offset : Nat) :
    Except String SafetensorsMetadata :=
  match readEntries hasattr blob with
  | .error e => .error e
  | .ok tensors =>
      let sorted := sortBy SafetensorMetadata.sortKey tensors
      match checkLoop sorted with
      | .error e => .error e
      | .ok sizes => .ok ⟨offset, sorted, sizes⟩

/-- The request `SafetensorsStreamer.stream_files` makes of file `i`.  No
size is negative once the checks have passed. -/
def streamRequest (i : Int) (path : String) (metadata : SafetensorsMetadata) : FileChunks :=
  .contiguous i path metadata.offset (metadata.readSizes.map Int.toNat)

/-! ## §4. What acceptance says. -/

/-- The start an entry names. -/
def HeaderEntry.start (entry : HeaderEntry) : Option Int := entry.dataOffsets.bind List.head?

theorem metadata_ok {hasattr : String → Bool} {name : String} {entry : HeaderEntry}
    {t : SafetensorMetadata} (h : SafetensorMetadata.new hasattr name entry = .ok t) :
    entry.start = some t.start ∧
      ∃ torchDtype, safetensorsToTorchDtype hasattr t.dtype = some torchDtype ∧
        t.getBytesize = t.getItemCount * elementSize torchDtype := by
  unfold SafetensorMetadata.new at h
  split at h
  · simp at h
  · simp at h
  · next shape dtype start stop rest hshape hdtype hoffsets =>
      simp only at h
      split at h
      · simp at h
      · next hvalid =>
          obtain rfl : _ = t := by simpa using h
          unfold SafetensorMetadata.validateShapeConsistency at hvalid
          refine ⟨by rw [HeaderEntry.start, hoffsets]; rfl, ?_⟩
          split at hvalid
          · simp at hvalid
          · next torchDtype hmap =>
              refine ⟨torchDtype, hmap, ?_⟩
              simp only at hvalid
              split at hvalid
              · simp at hvalid
              · next heq => exact (not_not.mp heq).symm
  · simp at h
  · simp at h

/-- One tensor an item, in the items' order. -/
def ReadFrom (hasattr : String → Bool) (items : Blob) (ts : List SafetensorMetadata) : Prop :=
  List.Forall₂ (fun item t => SafetensorMetadata.new hasattr item.1 item.2 = .ok t) items ts

theorem readEntries_ok {hasattr : String → Bool} {blob : Blob} {ts : List SafetensorMetadata}
    (h : readEntries hasattr blob = .ok ts) : ReadFrom hasattr (tensorEntries blob) ts := by
  induction blob generalizing ts with
  | nil =>
      obtain rfl : [] = ts := by simpa [readEntries] using h
      exact List.Forall₂.nil
  | cons item items ih =>
      obtain ⟨name, entry⟩ := item
      unfold readEntries at h
      split at h
      next hname =>
        rw [tensorEntries, List.filter_cons_of_pos (by simpa using hname)]
        split at h
        · simp at h
        · split at h
          · simp at h
          · next t hnew =>
              split at h
              · simp at h
              · next rest hrest =>
                  obtain rfl : t :: rest = ts := by simpa using h
                  exact List.Forall₂.cons hnew (ih hrest)
      next hname =>
        rw [tensorEntries, List.filter_cons_of_neg (by simpa using hname)]
        exact ih h

/-- One tensor passes when its size is not negative and it ends where the
next one starts. -/
theorem checkTensor_ok {t : SafetensorMetadata} {next : Option SafetensorMetadata} :
    checkTensor t next = .ok () ↔
      0 ≤ t.getBytesize ∧ ∀ n, next = some n → t.start + t.getBytesize = n.start := by
  unfold checkTensor SafetensorMetadata.getBytesize
  split
  · next hneg =>
      constructor
      · intro h
        simp at h
      · rintro ⟨h, -⟩
        omega
  · next hpos =>
      cases next with
      | none =>
          simp
          omega
      | some n =>
          simp only [Option.some.injEq, forall_eq']
          split
          · constructor
            · intro h
              simp at h
            · rintro ⟨-, h⟩
              omega
          · split
            · constructor
              · intro h
                simp at h
              · rintro ⟨-, h⟩
                omega
            · constructor
              · intro _
                omega
              · intro _
                rfl

/-- **What the checks leave**: no tensor has a negative size, and each ends
where the next begins.  Where the first one starts is not looked at. -/
theorem checkLoop_spec {ts : List SafetensorMetadata} {sizes : List Int}
    (h : checkLoop ts = .ok sizes) :
    sizes = ts.map SafetensorMetadata.getBytesize ∧ (∀ t ∈ ts, t.start ≤ t.stop) ∧
      ts.IsChain (fun a b => a.stop = b.start) := by
  induction ts generalizing sizes with
  | nil =>
      obtain rfl : [] = sizes := by simpa [checkLoop] using h
      exact ⟨rfl, by simp, List.IsChain.nil⟩
  | cons t ts ih =>
      unfold checkLoop at h
      split at h
      · simp at h
      · next hcheck =>
          split at h
          · simp at h
          · next rest hrest =>
              obtain rfl : t.getBytesize :: rest = sizes := by simpa using h
              obtain ⟨hsizes, hle, hchain⟩ := ih hrest
              -- the tensor at hand, then the chain goes on at the next one
              obtain ⟨hsize, hnext⟩ := checkTensor_ok.mp hcheck
              unfold SafetensorMetadata.getBytesize at hsize hnext
              refine ⟨by rw [hsizes]; rfl, ?_, ?_⟩
              · intro t' ht'
                rcases List.mem_cons.mp ht' with rfl | ht'
                · omega
                · exact hle t' ht'
              · cases ts with
                | nil => exact List.IsChain.singleton _
                | cons next ts =>
                    have := hnext next rfl
                    exact List.isChain_cons_cons.mpr ⟨by omega, hchain⟩

/-- In a chain, tensor `k` starts where the sizes before it end. -/
theorem chain_start {first : SafetensorMetadata} {ts : List SafetensorMetadata}
    (hle : ∀ t ∈ first :: ts, t.start ≤ t.stop)
    (hchain : (first :: ts).IsChain (fun a b => a.stop = b.start)) {k : Nat}
    {t : SafetensorMetadata} (ht : (first :: ts)[k]? = some t) :
    t.start = first.start
      + ((((first :: ts).map (fun t => t.getBytesize.toNat)).take k).sum : Nat) := by
  induction ts generalizing first k with
  | nil =>
      obtain ⟨hk, hget⟩ := List.getElem?_eq_some_iff.mp ht
      obtain rfl : k = 0 := by simpa using hk
      obtain rfl : first = t := by simpa using ht
      simp
  | cons next ts ih =>
      obtain ⟨hends, hrest⟩ := List.isChain_cons_cons.mp hchain
      cases k with
      | zero =>
          obtain rfl : first = t := by simpa using ht
          simp
      | succ k =>
          have hnext := ih (fun t ht => hle t (List.mem_cons_of_mem _ ht)) hrest (k := k)
            (by simpa using ht)
          have hfirst := hle first List.mem_cons_self
          rw [List.map_cons, List.take_succ_cons, List.sum_cons, hnext]
          unfold SafetensorMetadata.getBytesize
          push_cast
          omega

/-! ## §5. Where each tensor is read. -/

/-- **Every tensor of the header is read from the bytes it names.** -/
structure ReadsOwnBytes (hasattr : String → Bool) (blob : Blob) (metadata : SafetensorsMetadata)
    (request : FileChunks) : Prop where
  /-- the tensors are those of the header -/
  tensors : ∃ ts, ReadFrom hasattr (tensorEntries blob) ts ∧ metadata.tensorsMetadata.Perm ts
  /-- and tensor `k` is range `k` of the request, at its own offsets -/
  range : ∀ (k : Nat) (t : SafetensorMetadata), metadata.tensorsMetadata[k]? = some t →
    ∃ position size : Nat, request.offsets[k]? = some position ∧ request.sizes[k]? = some size ∧
      (position : Int) = metadata.offset + t.start ∧
      (position : Int) + size = metadata.offset + t.stop ∧
      ∃ torchDtype, safetensorsToTorchDtype hasattr t.dtype = some torchDtype ∧
        (size : Int) = t.getItemCount * elementSize torchDtype

/-- The header's first tensor starts at 0, if it has tensors. -/
def StartsAtZero (blob : Blob) : Prop :=
  (∀ item ∈ tensorEntries blob, ∀ start, item.2.start = some start → 0 ≤ start) ∧
    (tensorEntries blob = [] ∨ ∃ item ∈ tensorEntries blob, item.2.start = some 0)

/-- An accepted header, taken apart. -/
theorem new_ok {hasattr : String → Bool} {blob : Blob} {offset : Nat}
    {metadata : SafetensorsMetadata}
    (h : SafetensorsMetadata.new hasattr blob offset = .ok metadata) :
    ∃ ts, ReadFrom hasattr (tensorEntries blob) ts ∧ metadata.offset = offset ∧
      metadata.tensorsMetadata = sortBy SafetensorMetadata.sortKey ts ∧
      checkLoop metadata.tensorsMetadata = .ok metadata.readSizes := by
  unfold SafetensorsMetadata.new at h
  split at h
  · simp at h
  · next ts hread =>
      simp only at h
      split at h
      · simp at h
      · next sizes hcheck =>
          obtain rfl : _ = metadata := by simpa using h
          exact ⟨ts, readEntries_ok hread, rfl, rfl, hcheck⟩

/-- Where tensor `k` of an accepted header is read. -/
theorem planned_range {hasattr : String → Bool} {blob : Blob} {offset : Nat}
    {metadata : SafetensorsMetadata}
    (h : SafetensorsMetadata.new hasattr blob offset = .ok metadata) (i : Int) (path : String)
    {first : SafetensorMetadata} (hfirst : metadata.tensorsMetadata.head? = some first)
    {k : Nat} {t : SafetensorMetadata} (ht : metadata.tensorsMetadata[k]? = some t) :
    ∃ position size : Nat, (streamRequest i path metadata).offsets[k]? = some position ∧
      (streamRequest i path metadata).sizes[k]? = some size ∧
      (position : Int) = metadata.offset + t.start - first.start ∧
      (size : Int) = t.getBytesize := by
  obtain ⟨ts, -, -, -, hcheck⟩ := new_ok h
  obtain ⟨hsizes, hle, hchain⟩ := checkLoop_spec hcheck
  have hk : k < metadata.tensorsMetadata.length := (List.getElem?_eq_some_iff.mp ht).1
  have hnat : metadata.readSizes.map Int.toNat
      = metadata.tensorsMetadata.map (fun t => t.getBytesize.toNat) := by
    rw [hsizes, List.map_map]
    rfl
  have hmem : t ∈ metadata.tensorsMetadata := List.mem_of_getElem? ht
  have hstart : t.start = first.start
      + (((metadata.tensorsMetadata.map (fun t => t.getBytesize.toNat)).take k).sum : Nat) := by
    obtain ⟨rest, hrest⟩ : ∃ rest, metadata.tensorsMetadata = first :: rest := by
      cases hts : metadata.tensorsMetadata with
      | nil => simp [hts] at hfirst
      | cons head rest =>
          rw [hts] at hfirst
          exact ⟨rest, by rw [show head = first by simpa using hfirst]⟩
    rw [hrest] at hle hchain ht ⊢
    exact chain_start hle hchain ht
  refine ⟨metadata.offset
    + ((metadata.tensorsMetadata.map (fun t => t.getBytesize.toNat)).take k).sum,
    t.getBytesize.toNat, ?_, ?_, ?_, ?_⟩
  · show (running metadata.offset (metadata.readSizes.map Int.toNat))[k]? = _
    rw [hnat, running_getElem? _ _ (by simpa using hk)]
  · show (metadata.readSizes.map Int.toNat)[k]? = _
    rw [hnat, List.getElem?_map, ht]
    rfl
  · show ((metadata.offset + _ : Nat) : Int) = _
    omega
  · have := hle t hmem
    unfold SafetensorMetadata.getBytesize
    omega

theorem readFrom_mem {hasattr : String → Bool} {items : Blob} {ts : List SafetensorMetadata}
    (h : ReadFrom hasattr items ts) {t : SafetensorMetadata} (ht : t ∈ ts) :
    ∃ item ∈ items, SafetensorMetadata.new hasattr item.1 item.2 = .ok t := by
  induction h with
  | nil => simp at ht
  | @cons item t' items ts hnew _ ih =>
      rcases List.mem_cons.mp ht with rfl | ht
      · exact ⟨item, List.mem_cons_self, hnew⟩
      · obtain ⟨item', hitem', hnew'⟩ := ih ht
        exact ⟨item', List.mem_cons_of_mem _ hitem', hnew'⟩

theorem readFrom_item {hasattr : String → Bool} {items : Blob} {ts : List SafetensorMetadata}
    (h : ReadFrom hasattr items ts) {item : String × HeaderEntry} (hitem : item ∈ items) :
    ∃ t ∈ ts, SafetensorMetadata.new hasattr item.1 item.2 = .ok t := by
  induction h with
  | nil => simp at hitem
  | @cons item' t items ts hnew _ ih =>
      rcases List.mem_cons.mp hitem with rfl | hitem
      · exact ⟨t, List.mem_cons_self, hnew⟩
      · obtain ⟨t', ht', hnew'⟩ := ih hitem
        exact ⟨t', List.mem_cons_of_mem _ ht', hnew'⟩

/-- The header starts at 0 exactly when the first sorted tensor does. -/
theorem startsAtZero_iff {hasattr : String → Bool} {blob : Blob} {offset : Nat}
    {metadata : SafetensorsMetadata}
    (h : SafetensorsMetadata.new hasattr blob offset = .ok metadata) :
    StartsAtZero blob ↔ ∀ first, metadata.tensorsMetadata.head? = some first → first.start = 0 := by
  obtain ⟨ts, hread, -, hsorted, -⟩ := new_ok h
  cases hcases : metadata.tensorsMetadata with
  | nil =>
      have hts : ts = [] := by
        apply List.eq_nil_of_length_eq_zero
        have hlen := sortBy_length SafetensorMetadata.sortKey ts
        rw [← hsorted, hcases] at hlen
        exact hlen.symm
      have hitems : tensorEntries blob = [] := by
        rw [hts] at hread
        exact List.forall₂_nil_right_iff.mp hread
      refine ⟨by simp, fun _ => ⟨?_, Or.inl hitems⟩⟩
      rw [hitems]
      simp
  | cons first rest =>
      rw [hcases] at hsorted
      -- the first sorted tensor has the smallest start
      have hmin : ∀ t ∈ ts, first.start ≤ t.start := by
        intro t ht
        have hle := sortBy_head_le hsorted.symm t ht
        rcases Prod.Lex.toLex_le_toLex.mp hle with hlt | ⟨heq, -⟩
        · exact le_of_lt hlt
        · exact le_of_eq heq
      have hfirst : first ∈ ts := by
        rw [← mem_sortBy SafetensorMetadata.sortKey, ← hsorted]
        exact List.mem_cons_self
      obtain ⟨item, hitem, hnew⟩ := readFrom_mem hread hfirst
      constructor
      · intro hzero first' hfirst'
        obtain rfl : first = first' := by simpa using hfirst'
        have hge := hzero.1 item hitem first.start (metadata_ok hnew).1
        rcases hzero.2 with hnil | ⟨item', hitem', hstart'⟩
        · rw [hnil] at hitem
          simp at hitem
        · obtain ⟨t, ht, hnew'⟩ := readFrom_item hread hitem'
          have := hmin t ht
          rw [(metadata_ok hnew').1] at hstart'
          have : t.start = 0 := by simpa using hstart'
          omega
      · intro hzero
        have hfirst0 := hzero first (by simp)
        refine ⟨fun item' hitem' start hstart => ?_, Or.inr ⟨item, hitem, ?_⟩⟩
        · obtain ⟨t, ht, hnew'⟩ := readFrom_item hread hitem'
          rw [(metadata_ok hnew').1] at hstart
          have := hmin t ht
          have : t.start = start := by simpa using hstart
          omega
        · rw [(metadata_ok hnew).1, hfirst0]

/-- **A tensor is read from the bytes its header names exactly when the
header's first tensor starts at 0.** -/
theorem reads_own_bytes_iff (hasattr : String → Bool) (blob : Blob) (offset : Nat) (i : Int)
    (path : String) (metadata : SafetensorsMetadata)
    (h : SafetensorsMetadata.new hasattr blob offset = .ok metadata) :
    ReadsOwnBytes hasattr blob metadata (streamRequest i path metadata) ↔ StartsAtZero blob := by
  rw [startsAtZero_iff h]
  obtain ⟨ts, hread, -, hsorted, -⟩ := new_ok h
  constructor
  · intro hreads first hfirst
    have hget : metadata.tensorsMetadata[0]? = some first := by
      rw [← List.head?_eq_getElem?]
      exact hfirst
    obtain ⟨position, size, hposition, -, hown, -⟩ := hreads.range 0 first hget
    obtain ⟨position', size', hposition', -, hplanned, -⟩ := planned_range h i path hfirst hget
    rw [hposition] at hposition'
    have : position = position' := by simpa using hposition'
    omega
  · intro hzero
    refine ⟨⟨ts, hread, by rw [hsorted]; exact sortBy_perm _ ts⟩, fun k t ht => ?_⟩
    obtain ⟨first, hfirst⟩ : ∃ first, metadata.tensorsMetadata.head? = some first := by
      cases hcases : metadata.tensorsMetadata with
      | nil => simp [hcases] at ht
      | cons first rest => exact ⟨first, rfl⟩
    obtain ⟨position, size, hposition, hsize, hplanned, hbytes⟩ := planned_range h i path hfirst ht
    have hstart := hzero first hfirst
    have hmem : t ∈ ts := by
      rw [← mem_sortBy SafetensorMetadata.sortKey, ← hsorted]
      exact List.mem_of_getElem? ht
    obtain ⟨item, -, hnew⟩ := readFrom_mem hread hmem
    obtain ⟨torchDtype, hmap, hcount⟩ := (metadata_ok hnew).2
    refine ⟨position, size, hposition, hsize, by omega, ?_, torchDtype, hmap, by omega⟩
    unfold SafetensorMetadata.getBytesize at hbytes
    omega

/-- Two tensors, the second of them empty; the JSON object names it first. -/
def twoTensors : Blob :=
  [("empty", ⟨some [0], some "U8", some [4, 4]⟩), ("a", ⟨some [2], some "F16", some [0, 4]⟩)]

theorem reads_own_bytes_two :
    ReadsOwnBytes (fun _ => false) twoTensors ⟨64, [⟨"a", [2], "F16", 0, 4⟩,
        ⟨"empty", [0], "U8", 4, 4⟩], [4, 0]⟩
      (streamRequest 0 "model.safetensors" ⟨64, [⟨"a", [2], "F16", 0, 4⟩,
        ⟨"empty", [0], "U8", 4, 4⟩], [4, 0]⟩) ↔ StartsAtZero twoTensors :=
  reads_own_bytes_iff (fun _ => false) twoTensors 64 0 "model.safetensors" _ (by decide +kernel)

/-- A header whose one tensor lies behind a hole of 8 bytes. -/
def holeBlob : Blob := [("a", ⟨some [2], some "F16", some [8, 12]⟩)]

/-- It is accepted, and its tensor is read 8 bytes too early. -/
theorem hole_misread : ∃ metadata,
    SafetensorsMetadata.new (fun _ => false) holeBlob 64 = .ok metadata ∧
    ¬ ReadsOwnBytes (fun _ => false) holeBlob metadata
      (streamRequest 0 "model.safetensors" metadata) := by
  refine ⟨⟨64, [⟨"a", [2], "F16", 8, 12⟩], [4]⟩, by decide +kernel, fun hreads => ?_⟩
  obtain ⟨position, size, hposition, -, hown, -⟩ := hreads.range 0 _ rfl
  have hat : position = 64 := by simpa [streamRequest, FileChunks.contiguous, running] using
    hposition.symm
  subst hat
  simp at hown

end ModelStreamer.Safetensors
