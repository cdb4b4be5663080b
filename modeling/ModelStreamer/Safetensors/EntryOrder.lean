/-
  ModelStreamer.Safetensors.EntryOrder
  ────────────────────────────────────
  **THE ORDER OF THE HEADER'S ENTRIES DOES NOT MATTER.**

  The tensors are sorted by start and size before they are checked, so the
  checks see the same starts and sizes in the same order however the JSON
  object lists its entries.  Tensors with equal keys may still change
  places: they are empty (or the header is rejected), so the sizes laid out
  before them are the same.

    • `readEntries_perm`, `checkLoop_congr` — acceptance,
    • `located_eq` — where a tensor is read depends on the first start only,
    • `entry_order_irrelevant` — so the map from names is the same.
-/
import ModelStreamer.Safetensors.Metadata
import ModelStreamer.Lib.KeyedList

namespace ModelStreamer.Safetensors

open ModelStreamer.Lib ModelStreamer.FileStreamer

/-! ## §1. The map from names. -/

/-- A JSON object as `json.loads` returns it: no name twice. -/
structure Header where
  items : Blob
  unique : (items.map Prod.fst).Nodup

/-- Where the bytes of a tensor are, and how they are viewed. -/
structure TensorInfo where
  fileOffset : Nat
  byteSize : Nat
  shape : List Int
  dtype : String
  deriving DecidableEq, Repr

/-- The tensors of an accepted header: tensor `k` is range `k` of the
request made of it. -/
def SafetensorsMetadata.located (i : Int) (path : String) (metadata : SafetensorsMetadata) :
    List (String × TensorInfo) :=
  let request := streamRequest i path metadata
  List.zipWith (fun t range => (t.name, ⟨range.1, range.2, t.shape, t.dtype⟩))
    metadata.tensorsMetadata (request.offsets.zip request.sizes)

/-- The map from tensor names. -/
def SafetensorsMetadata.tensorMap (i : Int) (path : String) (metadata : SafetensorsMetadata)
    (name : String) : Option TensorInfo :=
  (metadata.located i path).lookup name

/-! ## §2. Acceptance. -/

theorem new_ok_offsets {hasattr : String → Bool} {name : String} {entry : HeaderEntry}
    {t : SafetensorMetadata} (h : SafetensorMetadata.new hasattr name entry = .ok t) :
    entry.dataOffsets.isNone = false ∧ t.name = name := by
  unfold SafetensorMetadata.new at h
  split at h
  · simp at h
  · simp at h
  · next shape dtype start stop rest hshape hdtype hoffsets =>
      simp only at h
      split at h
      · simp at h
      · obtain rfl : _ = t := by simpa using h
        rw [hoffsets]
        exact ⟨rfl, rfl⟩
  · simp at h
  · simp at h

/-- The entries are read one by one, and the header's own entry is not. -/
theorem readEntries_iff {hasattr : String → Bool} {blob : Blob} {ts : List SafetensorMetadata} :
    readEntries hasattr blob = .ok ts ↔ ReadFrom hasattr (tensorEntries blob) ts := by
  refine ⟨readEntries_ok, fun h => ?_⟩
  induction blob generalizing ts with
  | nil =>
      obtain rfl : ts = [] := List.forall₂_nil_left_iff.mp h
      rfl
  | cons item items ih =>
      obtain ⟨name, entry⟩ := item
      unfold readEntries
      by_cases hname : name ≠ "__metadata__"
      · rw [tensorEntries, List.filter_cons_of_pos (by simpa using hname)] at h
        obtain ⟨t, rest, hnew, hrest, rfl⟩ := List.forall₂_cons_left_iff.mp h
        have hnew : SafetensorMetadata.new hasattr name entry = .ok t := hnew
        rw [if_pos hname, (new_ok_offsets hnew).1, hnew, ih hrest]
        rfl
      · rw [tensorEntries, List.filter_cons_of_neg (by simpa using hname)] at h
        rw [if_neg hname]
        exact ih h

/-- Entries in another order are the same tensors in another order. -/
theorem readEntries_perm {hasattr : String → Bool} {blob blob' : Blob} (h : blob.Perm blob')
    {ts : List SafetensorMetadata} (hread : readEntries hasattr blob = .ok ts) :
    ∃ ts', readEntries hasattr blob' = .ok ts' ∧ ts'.Perm ts := by
  have hitems : (tensorEntries blob').Perm (tensorEntries blob) := h.symm.filter _
  obtain ⟨ts', hread', hperm⟩ := List.perm_comp_forall₂ hitems (readEntries_iff.mp hread)
  exact ⟨ts', readEntries_iff.mpr hread', hperm⟩

theorem sortKey_eq {t t' : SafetensorMetadata} :
    t.sortKey = t'.sortKey ↔ t.start = t'.start ∧ t.getBytesize = t'.getBytesize := by
  unfold SafetensorMetadata.sortKey
  rw [EmbeddingLike.apply_eq_iff_eq, Prod.mk.injEq]

/-- **The checks look at the keys alone.** -/
theorem checkLoop_congr {ts ts' : List SafetensorMetadata}
    (h : ts.map SafetensorMetadata.sortKey = ts'.map SafetensorMetadata.sortKey)
    {sizes : List Int} (hcheck : checkLoop ts = .ok sizes) : checkLoop ts' = .ok sizes := by
  induction ts generalizing ts' sizes with
  | nil =>
      obtain rfl : ts' = [] := by simpa using h.symm
      exact hcheck
  | cons t ts ih =>
      cases ts' with
      | nil => simp at h
      | cons t' ts' =>
          rw [List.map_cons, List.map_cons, List.cons.injEq] at h
          obtain ⟨hkey, hkeys⟩ := h
          obtain ⟨hstart, hsize⟩ := sortKey_eq.mp hkey
          unfold checkLoop at hcheck ⊢
          split at hcheck
          · simp at hcheck
          · next hone =>
              obtain ⟨hpos, hnext⟩ := checkTensor_ok.mp hone
              have hone' : checkTensor t' ts'.head? = .ok () := by
                refine checkTensor_ok.mpr ⟨by omega, fun n' hn' => ?_⟩
                have hheads : ts.head?.map SafetensorMetadata.sortKey
                    = ts'.head?.map SafetensorMetadata.sortKey := by
                  rw [← List.head?_map, ← List.head?_map, hkeys]
                rw [hn', Option.map_some, Option.map_eq_some_iff] at hheads
                obtain ⟨n, hn, hnkey⟩ := hheads
                have := hnext n hn
                have := (sortKey_eq.mp hnkey).1
                omega
              split at hcheck
              · simp at hcheck
              · next rest hrest =>
                  obtain rfl : t.getBytesize :: rest = sizes := by simpa using hcheck
                  rw [hone', ih hkeys hrest, hsize]

/-- **A header is accepted in every order of its entries**, with the same
sizes to read and the same keys. -/
theorem new_perm {hasattr : String → Bool} {blob blob' : Blob} (h : blob.Perm blob')
    {offset : Nat} {metadata : SafetensorsMetadata}
    (hnew : SafetensorsMetadata.new hasattr blob offset = .ok metadata) :
    ∃ metadata', SafetensorsMetadata.new hasattr blob' offset = .ok metadata' ∧
      metadata'.offset = metadata.offset ∧ metadata'.readSizes = metadata.readSizes ∧
      metadata'.tensorsMetadata.Perm metadata.tensorsMetadata ∧
      metadata.tensorsMetadata.map SafetensorMetadata.sortKey
        = metadata'.tensorsMetadata.map SafetensorMetadata.sortKey := by
  obtain ⟨ts, hread, hoffset, hsorted, hcheck⟩ := new_ok hnew
  obtain ⟨ts', hread', hperm⟩ := readEntries_perm h (readEntries_iff.mpr hread)
  have hkeys : (sortBy SafetensorMetadata.sortKey ts).map SafetensorMetadata.sortKey
      = (sortBy SafetensorMetadata.sortKey ts').map SafetensorMetadata.sortKey :=
    sortBy_keys_perm hperm.symm
  rw [hsorted] at hcheck
  refine ⟨⟨offset, sortBy SafetensorMetadata.sortKey ts', metadata.readSizes⟩, ?_, hoffset.symm,
    rfl, ?_, by rw [hsorted]; exact hkeys⟩
  · unfold SafetensorsMetadata.new
    rw [hread']
    simp only
    rw [checkLoop_congr hkeys hcheck]
  · rw [hsorted]
    exact (sortBy_perm _ ts').trans (hperm.trans (sortBy_perm _ ts).symm)

/-! ## §3. The same map. -/

/-- Where a tensor is read, from the start of the first one. -/
def infoFrom (offset : Nat) (first : Int) (t : SafetensorMetadata) : String × TensorInfo :=
  (t.name, ⟨(offset + t.start - first).toNat, t.getBytesize.toNat, t.shape, t.dtype⟩)

/-- **Where a tensor is read depends on the header's first start, and on
the tensor.** -/
theorem located_eq {hasattr : String → Bool} {blob : Blob} {offset : Nat}
    {metadata : SafetensorsMetadata}
    (h : SafetensorsMetadata.new hasattr blob offset = .ok metadata) (i : Int) (path : String)
    {first : SafetensorMetadata} (hfirst : metadata.tensorsMetadata.head? = some first) :
    metadata.located i path
      = metadata.tensorsMetadata.map (infoFrom metadata.offset first.start) := by
  apply List.ext_getElem?
  intro k
  unfold SafetensorsMetadata.located
  simp only
  rw [List.getElem?_map, List.getElem?_zipWith]
  cases ht : metadata.tensorsMetadata[k]? with
  | none => rfl
  | some t =>
      obtain ⟨position, size, hposition, hsize, hat, hbytes⟩ := planned_range h i path hfirst ht
      have hrange : ((streamRequest i path metadata).offsets.zip
          (streamRequest i path metadata).sizes)[k]? = some (position, size) :=
        List.getElem?_zip_eq_some.mpr ⟨hposition, hsize⟩
      rw [hrange, Option.map_some]
      unfold infoFrom
      rw [← hat, ← hbytes, Int.toNat_natCast, Int.toNat_natCast]

/-- Tensors carry the names of their entries. -/
theorem readFrom_names {hasattr : String → Bool} {items : Blob} {ts : List SafetensorMetadata}
    (h : ReadFrom hasattr items ts) :
    ts.map SafetensorMetadata.name = items.map Prod.fst := by
  induction h with
  | nil => rfl
  | cons hnew _ ih => rw [List.map_cons, List.map_cons, ih, (new_ok_offsets hnew).2]

/-- Each name of the map is the name of one entry. -/
theorem names_nodup {hasattr : String → Bool} {header : Header} {offset : Nat}
    {metadata : SafetensorsMetadata}
    (h : SafetensorsMetadata.new hasattr header.items offset = .ok metadata) :
    (metadata.tensorsMetadata.map SafetensorMetadata.name).Nodup := by
  obtain ⟨ts, hread, -, hsorted, -⟩ := new_ok h
  have hitems : ((tensorEntries header.items).map Prod.fst).Nodup :=
    header.unique.sublist (List.filter_sublist.map _)
  rw [hsorted, ((sortBy_perm _ ts).map _).nodup_iff, readFrom_names hread]
  exact hitems

/-- **The order of the entries is irrelevant**: both orders are rejected, or
both are accepted, and then each name stands for the same bytes of the file,
viewed the same way. -/
theorem entry_order_irrelevant (hasattr : String → Bool) (header header' : Header)
    (hperm : header.items.Perm header'.items) (offset : Nat) (i : Int) (path : String) :
    ((SafetensorsMetadata.new hasattr header.items offset).isOk
      = (SafetensorsMetadata.new hasattr header'.items offset).isOk) ∧
    ∀ metadata metadata',
      SafetensorsMetadata.new hasattr header.items offset = .ok metadata →
      SafetensorsMetadata.new hasattr header'.items offset = .ok metadata' →
      metadata.tensorMap i path = metadata'.tensorMap i path := by
  -- acceptance, then the map from names
  constructor
  · cases hnew : SafetensorsMetadata.new hasattr header.items offset with
    | ok metadata =>
        obtain ⟨metadata', hnew', -⟩ := new_perm hperm hnew
        rw [hnew']
        rfl
    | error e =>
        cases hnew' : SafetensorsMetadata.new hasattr header'.items offset with
        | error e' => rfl
        | ok metadata' =>
            obtain ⟨metadata, hok, -⟩ := new_perm hperm.symm hnew'
            rw [hnew] at hok
            simp at hok
  · intro metadata metadata' hnew hnew'
    obtain ⟨m, hm, hoffset, -, htensors, hkeys⟩ := new_perm hperm hnew
    rw [hnew'] at hm
    obtain rfl : metadata' = m := by simpa using hm
    funext name
    unfold SafetensorsMetadata.tensorMap
    cases hts : metadata.tensorsMetadata with
    | nil =>
        have hts' : metadata'.tensorsMetadata = [] := by
          rw [hts] at htensors
          exact htensors.eq_nil
        unfold SafetensorsMetadata.located
        simp only [hts, hts', List.zipWith_nil_left]
    | cons first rest =>
        rw [hts] at htensors hkeys
        cases hts' : metadata'.tensorsMetadata with
        | nil =>
            rw [hts'] at hkeys
            simp at hkeys
        | cons first' rest' =>
            rw [hts', List.map_cons, List.map_cons, List.cons.injEq] at hkeys
            -- the first tensors have one key, so both layouts start at one place
            have hstart : first.start = first'.start := (sortKey_eq.mp hkeys.1).1
            rw [located_eq hnew i path (by rw [hts]; rfl), located_eq hnew' i path
              (by rw [hts']; rfl), hoffset, ← hstart]
            refine lookup_perm ?_ ?_ name
            · rw [hts]
              exact (htensors.map _).symm
            · rw [List.map_map]
              exact names_nodup hnew

/-- Two empty tensors before a third, in an order that is not the sorted
one. -/
def threeEntries : Header where
  items := [("a", ⟨some [2], some "F16", some [0, 4]⟩), ("none", ⟨some [0], some "U8", some [0, 0]⟩),
    ("nil", ⟨some [0, 3], some "F32", some [0, 0]⟩)]
  unique := by decide

/-- The same entries from the last to the first. -/
def threeReversed : Header where
  items := threeEntries.items.reverse
  unique := by decide

theorem entry_order_irrelevant_three :
    ((SafetensorsMetadata.new (fun _ => false) threeEntries.items 8).isOk
      = (SafetensorsMetadata.new (fun _ => false) threeReversed.items 8).isOk) ∧
    ∀ metadata metadata',
      SafetensorsMetadata.new (fun _ => false) threeEntries.items 8 = .ok metadata →
      SafetensorsMetadata.new (fun _ => false) threeReversed.items 8 = .ok metadata' →
      metadata.tensorMap 0 "model.safetensors" = metadata'.tensorMap 0 "model.safetensors" :=
  entry_order_irrelevant (fun _ => false) threeEntries threeReversed
    (List.reverse_perm _).symm 8 0 "model.safetensors"

end ModelStreamer.Safetensors
