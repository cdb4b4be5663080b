/-
  ModelStreamer.Distributed.Partition
  ───────────────────────────────────
  **PARTITIONING OVER RANKS** (`distributed_streamer/partition.py`).

  `partition_by_chunks` flattens the files into work units, deals them to
  the ranks from the largest on, and puts each rank's units of a path into
  one new `FileChunks`, with a map from its chunks back to the original
  ones.  `partition_by_files` deals whole files.

    • `partitionByChunks_spec`, `partitionByFiles_spec` — what either does
      (`Partitioned`),
    • `partition_bijection` — so the maps together are a bijection onto the
      chunks of the files.
-/
import ModelStreamer.FileStreamer.Partition
import ModelStreamer.Lib.Dealing
import ModelStreamer.Lib.KeySort
import Mathlib.Data.List.Pairwise
import Mathlib.Data.Set.Function

namespace ModelStreamer.Distributed

open ModelStreamer.Lib ModelStreamer.FileStreamer

/-! ## §1. Work units. -/

/-- `_WorkUnit`. -/
structure WorkUnit where
  path : String
  offset : Nat
  size : Nat
  originalRequestIndex : Int
  originalChunkIndex : Nat
  deriving DecidableEq, Repr

/-- The work units of one file. -/
def unitsOf (request : FileChunks) : List WorkUnit :=
  request.pairs.zipIdx.map (fun r => ⟨request.path, r.1.1, r.1.2, request.id, r.2⟩)

/-- Step 1 of `partition_by_chunks`. -/
def allUnits (requests : List FileChunks) : List WorkUnit := requests.flatMap unitsOf

/-- A source map: for each chunk index, from 0 on, the original file id and
chunk index and the chunk's size. -/
abbrev SourceMap := List (Int × Nat × Nat)

/-- A rank's share. -/
abbrev Share := List (FileChunks × SourceMap)

/-! ## §2. The two partition functions. -/

/-- The new `FileChunks` for a rank's units of one path, with its map. -/
def regroup (id : Nat) (path : String) (units : List WorkUnit) : FileChunks × SourceMap :=
  (⟨id, path, units.map WorkUnit.offset, units.map WorkUnit.size, by simp⟩,
    units.map (fun u => (u.originalRequestIndex, u.originalChunkIndex, u.size)))

/-- The order of a rank's units of one path: by offset, the empty ones
first. -/
def pathOrder (units : List WorkUnit) : List WorkUnit :=
  sortBy (fun u => toLex (u.offset, u.size)) units

/-- The groups of one rank become its share; `idGenerator` numbers them. -/
def shareOf (idGenerator : Nat) (groups : List (String × List WorkUnit)) : Share :=
  (groups.zipIdx idGenerator).map (fun g => regroup g.2 g.1.1 (pathOrder g.1.2))

/-- Step 4 of `partition_by_chunks`. -/
def rebuild : Nat → List (List WorkUnit) → List Share
  | _, [] => []
  | idGenerator, units :: rest =>
      let groups := groupBy WorkUnit.path units
      shareOf idGenerator groups :: rebuild (idGenerator + groups.length) rest

/-- `partition_by_chunks`. -/
def partitionByChunks (requests : List FileChunks) (n : Int) : Except String (List Share) :=
  if n ≤ 0 then .error "Number of partitions (n) must be a positive integer."
  else if requests.isEmpty then .ok (List.replicate n.toNat [])
  else
    -- `sort(..., reverse=True)` keeps the order of equal sizes
    let sorted := sortBy (fun u => OrderDual.toDual u.size) (allUnits requests)
    .ok (rebuild 0 (dealAll WorkUnit.size n.toNat sorted))

/-- The source map of a file that is not split. -/
def directMap (request : FileChunks) : SourceMap :=
  request.sizes.zipIdx.map (fun s => (request.id, s.2, s.1))

/-- `partition_by_files`. -/
def partitionByFiles (requests : List FileChunks) (n : Int) : Except String (List Share) :=
  if n ≤ 0 then .error "Number of partitions (n) must be a positive integer."
  else if requests.isEmpty then .ok (List.replicate n.toNat [])
  else
    let sorted := sortBy (fun r => OrderDual.toDual r.totalSize) requests
    .ok ((dealAll FileChunks.totalSize n.toNat sorted).map
      (List.map (fun request => (request, directMap request))))

/-- `get_total_number_of_chunks`. -/
def getTotalNumberOfChunks (partitions : List Share) : Nat :=
  (partitions.map (fun p => (p.map (fun e => e.1.sizes.length)).sum)).sum

/-- `partition`, under the policy of `RUNAI_STREAMER_PARTITION_POLICY`. -/
def partition (policy : Option String) (requests : List FileChunks) (n : Int) :
    Except String (List Share) :=
  let policy := policy.getD "chunks"
  if policy = "files" then partitionByFiles requests n
  else if policy = "chunks" then partitionByChunks requests n
  else .error s!"Invalid partition policy: {policy}"

/-! ## §3. What a share holds. -/

/-- The work units an entry of a share stands for. -/
def entryUnits (e : FileChunks × SourceMap) : List WorkUnit :=
  List.zipWith (fun pair source => ⟨e.1.path, pair.1, pair.2, source.1, source.2.1⟩)
    e.1.pairs e.2

/-- **What partitioning gives**: `n` shares whose entries have distinct ids
and maps of their own length and sizes, and stand for all units once. -/
structure Partitioned (requests : List FileChunks) (n : Nat) (shares : List Share) : Prop where
  ranks : shares.length = n
  ids : (shares.flatten.map (fun e => e.1.id)).Nodup
  sizes : ∀ e ∈ shares.flatten, e.2.map (fun s => s.2.2) = e.1.sizes
  units : (shares.flatten.flatMap entryUnits).Perm (allUnits requests)

theorem regroup_units {id : Nat} {path : String} {units : List WorkUnit}
    (h : ∀ u ∈ units, u.path = path) : entryUnits (regroup id path units) = units := by
  unfold entryUnits regroup FileChunks.pairs
  simp only [List.zip_map', List.zipWith_map_left, List.zipWith_map_right, List.zipWith_self]
  conv_rhs => rw [← List.map_id units]
  apply List.map_congr_left
  intro u hu
  rw [← h u hu]
  rfl

theorem pathOrder_perm (units : List WorkUnit) : (pathOrder units).Perm units := sortBy_perm _ _

theorem shareOf_units {idGenerator : Nat} {groups : List (String × List WorkUnit)}
    (h : ∀ g ∈ groups, ∀ u ∈ g.2, u.path = g.1) :
    ((shareOf idGenerator groups).flatMap entryUnits).Perm (grouped groups) := by
  induction groups generalizing idGenerator with
  | nil => exact List.Perm.refl _
  | cons g groups ih =>
      unfold shareOf grouped
      rw [List.zipIdx_cons, List.map_cons, List.flatMap_cons, List.flatMap_cons]
      apply List.Perm.append
      · rw [regroup_units]
        · exact pathOrder_perm g.2
        · intro u hu
          exact h g List.mem_cons_self u ((pathOrder_perm g.2).subset hu)
      · exact ih (fun g hg => h g (List.mem_cons_of_mem _ hg))

theorem shareOf_ids (idGenerator : Nat) (groups : List (String × List WorkUnit)) :
    (shareOf idGenerator groups).map (fun e => e.1.id)
      = (List.range' idGenerator groups.length).map Int.ofNat := by
  induction groups generalizing idGenerator with
  | nil => rfl
  | cons g groups ih =>
      unfold shareOf at ih ⊢
      rw [List.zipIdx_cons, List.map_cons, List.map_cons, ih, List.length_cons, List.range'_succ,
        List.map_cons]
      rfl

theorem rebuild_length (idGenerator : Nat) (hands : List (List WorkUnit)) :
    (rebuild idGenerator hands).length = hands.length := by
  induction hands generalizing idGenerator with
  | nil => rfl
  | cons units rest ih =>
      unfold rebuild
      rw [List.length_cons, List.length_cons, ih]

theorem rebuild_units (idGenerator : Nat) (hands : List (List WorkUnit)) :
    ((rebuild idGenerator hands).flatten.flatMap entryUnits).Perm hands.flatten := by
  induction hands generalizing idGenerator with
  | nil => exact List.Perm.refl _
  | cons units rest ih =>
      unfold rebuild
      rw [List.flatten_cons, List.flatMap_append, List.flatten_cons]
      apply List.Perm.append
      · exact (shareOf_units (fun g hg => groupBy_key hg)).trans (groupBy_perm _ units)
      · exact ih _

/-- The ids of the shares are consecutive. -/
theorem rebuild_ids (idGenerator : Nat) (hands : List (List WorkUnit)) :
    ∃ count, (rebuild idGenerator hands).flatten.map (fun e => e.1.id)
      = (List.range' idGenerator count).map Int.ofNat := by
  induction hands generalizing idGenerator with
  | nil => exact ⟨0, rfl⟩
  | cons units rest ih =>
      obtain ⟨count, hcount⟩ := ih (idGenerator + (groupBy WorkUnit.path units).length)
      refine ⟨(groupBy WorkUnit.path units).length + count, ?_⟩
      unfold rebuild
      rw [List.flatten_cons, List.map_append, shareOf_ids, hcount, ← List.map_append,
        ← List.range'_append_1]

theorem rebuild_sizes (idGenerator : Nat) (hands : List (List WorkUnit)) :
    ∀ e ∈ (rebuild idGenerator hands).flatten, e.2.map (fun s => s.2.2) = e.1.sizes := by
  induction hands generalizing idGenerator with
  | nil => simp [rebuild]
  | cons units rest ih =>
      unfold rebuild
      intro e he
      rw [List.flatten_cons] at he
      rcases List.mem_append.mp he with he | he
      · obtain ⟨g, -, rfl⟩ := List.mem_map.mp he
        unfold regroup
        rw [List.map_map]
        rfl
      · exact ih _ e he

theorem allUnits_nil_partitioned (n : Nat) : Partitioned [] n (List.replicate n []) := by
  have hnil : (List.replicate n ([] : Share)).flatten = [] := List.flatten_replicate_nil
  refine ⟨List.length_replicate, ?_, ?_, ?_⟩
  · rw [hnil]
    exact List.nodup_nil
  · rw [hnil]
    simp
  · rw [hnil]
    exact List.Perm.refl _

theorem partitionByChunks_spec (requests : List FileChunks) {n : Nat} (hn : 1 ≤ n) :
    ∃ shares, partitionByChunks requests n = .ok shares ∧ Partitioned requests n shares := by
  unfold partitionByChunks
  rw [if_neg (by omega), Int.toNat_natCast]
  cases requests with
  | nil => exact ⟨_, rfl, allUnits_nil_partitioned n⟩
  | cons request requests =>
      set sorted := sortBy (fun u => OrderDual.toDual u.size) (allUnits (request :: requests))
        with hsorted
      refine ⟨rebuild 0 (dealAll WorkUnit.size n sorted), rfl, ?_, ?_, ?_, ?_⟩
      · rw [rebuild_length]
        exact dealAll_length _ (by omega) _
      · obtain ⟨count, hcount⟩ := rebuild_ids 0 (dealAll WorkUnit.size n sorted)
        rw [hcount]
        exact (List.nodup_range').map Int.ofNat_injective
      · exact rebuild_sizes 0 _
      · exact ((rebuild_units 0 _).trans (dealAll_perm _ (by omega) _)).trans (sortBy_perm _ _)

theorem direct_units (request : FileChunks) :
    entryUnits (request, directMap request) = unitsOf request := by
  have hlen : request.offsets.length = request.sizes.length := request.parallel
  apply List.ext_getElem?
  intro i
  unfold entryUnits directMap unitsOf FileChunks.pairs
  by_cases hi : i < request.sizes.length
  · have ho : i < request.offsets.length := by omega
    simp [hi, ho]
  · rw [List.getElem?_eq_none (by simp [hlen]; omega), List.getElem?_eq_none (by simp [hlen]; omega)]

theorem partitionByFiles_spec (requests : List FileChunks) {n : Nat} (hn : 1 ≤ n)
    (hids : (requests.map FileChunks.id).Nodup) :
    ∃ shares, partitionByFiles requests n = .ok shares ∧ Partitioned requests n shares := by
  unfold partitionByFiles
  rw [if_neg (by omega), Int.toNat_natCast]
  cases requests with
  | nil => exact ⟨_, rfl, allUnits_nil_partitioned n⟩
  | cons request requests =>
      set sorted := sortBy (fun r => OrderDual.toDual r.totalSize) (request :: requests) with hsorted
      set hands := dealAll FileChunks.totalSize n sorted with hhands
      have hperm : hands.flatten.Perm (request :: requests) :=
        (dealAll_perm _ (by omega) _).trans (sortBy_perm _ _)
      have hflat : (hands.map (List.map (fun r => (r, directMap r)))).flatten
          = hands.flatten.map (fun r => (r, directMap r)) := List.map_flatten.symm
      refine ⟨hands.map (List.map (fun r => (r, directMap r))), rfl, ?_, ?_, ?_, ?_⟩
      · rw [List.length_map]
        exact dealAll_length _ (by omega) _
      · rw [hflat, List.map_map]
        exact ((hperm.map FileChunks.id).nodup_iff).mpr hids
      · rw [hflat]
        intro e he
        obtain ⟨r, -, rfl⟩ := List.mem_map.mp he
        show (directMap r).map (fun s => s.2.2) = r.sizes
        unfold directMap
        rw [List.map_map]
        exact List.zipIdx_map_fst 0 r.sizes
      · rw [hflat, List.flatMap_map]
        simp only [direct_units]
        exact hperm.flatMap_right unitsOf

/-! ## §4. The maps together. -/

/-- The chunks of the files: file id and chunk index. -/
def chunkPositions (requests : List FileChunks) : Set (Int × Nat) :=
  {p | ∃ request ∈ requests, request.id = p.1 ∧ p.2 < request.sizes.length}

/-- The chunks of the shares: rank, new file id, new chunk index. -/
def shareKeys (shares : List Share) : Set (Nat × Int × Nat) :=
  {k | ∃ share e, shares[k.1]? = some share ∧ e ∈ share ∧ e.1.id = k.2.1 ∧
    k.2.2 < e.1.sizes.length}

/-- A rank's lookup of an entry, by the new file id. -/
def lookup (shares : List Share) (k : Nat × Int × Nat) : Option (FileChunks × SourceMap) :=
  shares[k.1]?.bind (fun share => share.find? (fun e => decide (e.1.id = k.2.1)))

/-- What its map says of a chunk: original file id, chunk index and size. -/
def source (shares : List Share) (k : Nat × Int × Nat) : Option (Int × Nat × Nat) :=
  (lookup shares k).bind (fun e => e.2[k.2.2]?)

/-- The original position the map names. -/
def sourcePosition (shares : List Share) (k : Nat × Int × Nat) : Option (Int × Nat) :=
  (source shares k).map (fun s => (s.1, s.2.1))

/-- The position of a work unit. -/
def WorkUnit.position (u : WorkUnit) : Int × Nat := (u.originalRequestIndex, u.originalChunkIndex)

theorem mem_unitsOf {request : FileChunks} {u : WorkUnit} :
    u ∈ unitsOf request ↔ u.path = request.path ∧ u.originalRequestIndex = request.id ∧
      request.offsets[u.originalChunkIndex]? = some u.offset ∧
      request.sizes[u.originalChunkIndex]? = some u.size := by
  unfold unitsOf FileChunks.pairs
  rw [List.mem_map]
  constructor
  · rintro ⟨⟨⟨offset, size⟩, i⟩, hmem, rfl⟩
    have hget := List.mem_zipIdx_iff_getElem?.mp hmem
    simp only [List.getElem?_zip_eq_some] at hget
    exact ⟨rfl, rfl, hget.1, hget.2⟩
  · rintro ⟨hpath, hid, hoffset, hsize⟩
    refine ⟨((u.offset, u.size), u.originalChunkIndex), ?_, ?_⟩
    · apply List.mem_zipIdx_iff_getElem?.mpr
      simp only [List.getElem?_zip_eq_some]
      exact ⟨hoffset, hsize⟩
    · obtain ⟨path, offset, size, id, i⟩ := u
      simp only at hpath hid ⊢
      rw [hpath, hid]

theorem mem_allUnits {requests : List FileChunks} {u : WorkUnit} :
    u ∈ allUnits requests ↔ ∃ request ∈ requests, u ∈ unitsOf request := List.mem_flatMap

/-- No two units have one position. -/
theorem allUnits_positions {requests : List FileChunks}
    (hids : (requests.map FileChunks.id).Nodup) :
    ((allUnits requests).map WorkUnit.position).Nodup := by
  unfold allUnits
  rw [List.map_flatMap, List.nodup_flatMap]
  constructor
  · intro request _
    have hsnd : ((unitsOf request).map WorkUnit.position).map Prod.snd
        = List.range request.sizes.length := by
      unfold unitsOf
      rw [List.map_map, List.map_map]
      have h := List.zipIdx_map_snd 0 request.pairs
      rw [pairs_length] at h
      rw [← List.range_eq_range'] at h
      exact h
    apply List.Nodup.of_map Prod.snd
    rw [hsnd]
    exact List.nodup_range
  · have hpair := List.pairwise_map.mp hids
    apply hpair.imp
    intro a b hne p hpa hpb
    obtain ⟨u, hu, rfl⟩ := List.mem_map.mp hpa
    obtain ⟨v, hv, hsame⟩ := List.mem_map.mp hpb
    apply hne
    rw [← (mem_unitsOf.mp hu).2.1, ← (mem_unitsOf.mp hv).2.1]
    exact (Prod.mk.inj hsame).1.symm

section Shares

variable {requests : List FileChunks} {n : Nat} {shares : List Share}

theorem Partitioned.entry_length (h : Partitioned requests n shares)
    {e : FileChunks × SourceMap} (he : e ∈ shares.flatten) : e.2.length = e.1.sizes.length := by
  rw [← h.sizes e he, List.length_map]

/-- Chunk `i` of an entry, as a unit. -/
theorem Partitioned.unit (h : Partitioned requests n shares) {e : FileChunks × SourceMap}
    (he : e ∈ shares.flatten) {i : Nat} (hi : i < e.1.sizes.length) :
    ∃ u, (entryUnits e)[i]? = some u ∧ u.path = e.1.path ∧ e.1.offsets[i]? = some u.offset ∧
      e.1.sizes[i]? = some u.size ∧
      e.2[i]? = some (u.originalRequestIndex, u.originalChunkIndex, u.size) := by
  have hmap : i < e.2.length := by
    rw [h.entry_length he]
    exact hi
  have hoff : i < e.1.offsets.length := by
    rw [e.1.parallel]
    exact hi
  have hsize : e.2[i].2.2 = e.1.sizes[i] := by
    have hat := congrArg (·[i]?) (h.sizes e he)
    simpa [hmap, hi] using hat
  refine ⟨⟨e.1.path, e.1.offsets[i], e.1.sizes[i], e.2[i].1, e.2[i].2.1⟩, ?_, rfl, ?_, ?_, ?_⟩
  · unfold entryUnits FileChunks.pairs
    simp [hmap, hi, hoff]
  · exact List.getElem?_eq_getElem hoff
  · exact List.getElem?_eq_getElem hi
  · rw [List.getElem?_eq_getElem hmap, ← hsize]

theorem mem_of_share {share : Share} {e : FileChunks × SourceMap} {r : Nat}
    (hshare : shares[r]? = some share) (he : e ∈ share) : e ∈ shares.flatten :=
  List.mem_flatten.mpr ⟨share, List.mem_of_getElem? hshare, he⟩

/-- **The lookup by id finds the entry.** -/
theorem Partitioned.lookup_eq (h : Partitioned requests n shares) {share : Share}
    {e : FileChunks × SourceMap} {k : Nat × Int × Nat} (hshare : shares[k.1]? = some share)
    (he : e ∈ share) (hid : e.1.id = k.2.1) : lookup shares k = some e := by
  unfold lookup
  rw [hshare, Option.bind_some]
  cases hfind : share.find? (fun e => decide (e.1.id = k.2.1)) with
  | none =>
      have := List.find?_eq_none.mp hfind e he
      simp [hid] at this
  | some e' =>
      have hid' : e'.1.id = k.2.1 := by simpa using List.find?_some hfind
      have hsame := List.inj_on_of_nodup_map h.ids
        (mem_of_share hshare (List.mem_of_find?_eq_some hfind)) (mem_of_share hshare he)
        (hid'.trans hid.symm)
      rw [hsame]

/-- A key, resolved: its entry and its unit. -/
theorem Partitioned.resolve (h : Partitioned requests n shares) {k : Nat × Int × Nat}
    (hk : k ∈ shareKeys shares) :
    ∃ share e u, shares[k.1]? = some share ∧ e ∈ share ∧ e.1.id = k.2.1 ∧
      lookup shares k = some e ∧ (entryUnits e)[k.2.2]? = some u ∧
      u.path = e.1.path ∧ e.1.offsets[k.2.2]? = some u.offset ∧
      e.1.sizes[k.2.2]? = some u.size ∧
      source shares k = some (u.originalRequestIndex, u.originalChunkIndex, u.size) ∧
      sourcePosition shares k = some u.position := by
  obtain ⟨share, e, hshare, he, hid, hlt⟩ := hk
  have hlookup := h.lookup_eq hshare he hid
  obtain ⟨u, hunit, hpath, hoffset, hsize, hmap⟩ := h.unit (mem_of_share hshare he) hlt
  have hsource : source shares k
      = some (u.originalRequestIndex, u.originalChunkIndex, u.size) := by
    unfold source
    rw [hlookup, Option.bind_some, hmap]
  refine ⟨share, e, u, hshare, he, hid, hlookup, hunit, hpath, hoffset, hsize, hsource, ?_⟩
  unfold sourcePosition
  rw [hsource]
  rfl

/-- An entry is in one share only. -/
theorem Partitioned.rank_unique (h : Partitioned requests n shares) {r r' : Nat}
    {share share' : Share} {e : FileChunks × SourceMap} (hr : shares[r]? = some share)
    (hr' : shares[r']? = some share') (he : e ∈ share) (he' : e ∈ share') : r = r' := by
  have hnodup : shares.flatten.Nodup := List.Nodup.of_map _ h.ids
  have hpair := (List.nodup_flatten.mp hnodup).2
  obtain ⟨hlt, rfl⟩ := List.getElem?_eq_some_iff.mp hr
  obtain ⟨hlt', rfl⟩ := List.getElem?_eq_some_iff.mp hr'
  by_contra hne
  rcases Nat.lt_or_gt_of_ne hne with hlt₁ | hlt₁
  · exact List.pairwise_iff_getElem.mp hpair r r' hlt hlt' hlt₁ he he'
  · exact List.pairwise_iff_getElem.mp hpair r' r hlt' hlt hlt₁ he' he

/-- **The maps together are a bijection onto the chunks of the files.** -/
theorem Partitioned.bijOn (h : Partitioned requests n shares)
    (hids : (requests.map FileChunks.id).Nodup) :
    Set.BijOn (sourcePosition shares) (shareKeys shares) (some '' chunkPositions requests) := by
  -- the positions of the units of all entries are distinct
  have hpositions : (shares.flatten.flatMap
      (fun e => (entryUnits e).map WorkUnit.position)).Nodup := by
    rw [← List.map_flatMap]
    exact ((h.units.map WorkUnit.position).nodup_iff).mpr (allUnits_positions hids)
  obtain ⟨hinner, hacross⟩ := List.nodup_flatMap.mp hpositions
  refine ⟨?_, ?_, ?_⟩
  · intro k hk
    obtain ⟨share, e, u, hshare, he, -, -, hunit, -, -, -, -, hposition⟩ := h.resolve hk
    have hu : u ∈ allUnits requests :=
      h.units.subset (List.mem_flatMap.mpr
        ⟨e, mem_of_share hshare he, List.mem_of_getElem? hunit⟩)
    obtain ⟨request, hrequest, hmem⟩ := mem_allUnits.mp hu
    obtain ⟨-, hid, -, hsize⟩ := mem_unitsOf.mp hmem
    refine ⟨u.position, ⟨request, hrequest, hid.symm, ?_⟩, hposition.symm⟩
    exact (List.getElem?_eq_some_iff.mp hsize).1
  · intro k hk k' hk' hsame
    obtain ⟨share, e, u, hshare, he, hid, -, hunit, -, -, -, -, hposition⟩ := h.resolve hk
    obtain ⟨share', e', u', hshare', he', hid', -, hunit', -, -, -, -, hposition'⟩ := h.resolve hk'
    rw [hposition, hposition'] at hsame
    have hpos : u.position = u'.position := by simpa using hsame
    have hmem : u.position ∈ (entryUnits e).map WorkUnit.position :=
      List.mem_map_of_mem (List.mem_of_getElem? hunit)
    have hmem' : u.position ∈ (entryUnits e').map WorkUnit.position := by
      rw [hpos]
      exact List.mem_map_of_mem (List.mem_of_getElem? hunit')
    -- two entries have no position in common
    have hentry : e = e' := by
      by_contra hne
      have hsymm : Std.Symm (Function.onFun List.Disjoint
          (fun e => (entryUnits e).map WorkUnit.position)) := ⟨fun _ _ hd _ ha hb => hd hb ha⟩
      exact hacross.forall (mem_of_share hshare he) (mem_of_share hshare' he') hne hmem hmem'
    subst hentry
    have hrank := h.rank_unique hshare hshare' he he'
    have hindex : k.2.2 = k'.2.2 := by
      have hget : ((entryUnits e).map WorkUnit.position)[k.2.2]? = some u.position := by
        rw [List.getElem?_map, hunit]
        rfl
      have hget' : ((entryUnits e).map WorkUnit.position)[k'.2.2]? = some u.position := by
        rw [List.getElem?_map, hunit', hpos]
        rfl
      obtain ⟨hlt, hat⟩ := List.getElem?_eq_some_iff.mp hget
      obtain ⟨hlt', hat'⟩ := List.getElem?_eq_some_iff.mp hget'
      exact (hinner e (mem_of_share hshare he)).getElem_inj_iff.mp (hat.trans hat'.symm)
    obtain ⟨r, id, i⟩ := k
    obtain ⟨r', id', i'⟩ := k'
    simp only at hrank hid hid' hindex
    rw [hrank, ← hid, ← hid', hindex]
  · rintro _ ⟨⟨id, j⟩, ⟨request, hrequest, hid, hj⟩, rfl⟩
    simp only at hid hj
    have hoff : j < request.offsets.length := by
      rw [request.parallel]
      exact hj
    have hu : (⟨request.path, request.offsets[j], request.sizes[j], request.id, j⟩ : WorkUnit)
        ∈ allUnits requests :=
      mem_allUnits.mpr ⟨request, hrequest, mem_unitsOf.mpr
        ⟨rfl, rfl, List.getElem?_eq_getElem hoff, List.getElem?_eq_getElem hj⟩⟩
    obtain ⟨e, he, hmem⟩ := List.mem_flatMap.mp (h.units.symm.subset hu)
    obtain ⟨share, hshare, hes⟩ := List.mem_flatten.mp he
    obtain ⟨r, hr⟩ := List.getElem?_of_mem hshare
    obtain ⟨i, hi⟩ := List.getElem?_of_mem hmem
    have hlt : i < e.1.sizes.length := by
      have hlen := (List.getElem?_eq_some_iff.mp hi).1
      unfold entryUnits at hlen
      rw [List.length_zipWith, pairs_length] at hlen
      omega
    have hk : (r, e.1.id, i) ∈ shareKeys shares := ⟨share, e, hr, hes, rfl, hlt⟩
    obtain ⟨share', e', u, hshare', he', -, hlookup, hunit, -, -, -, -, hposition⟩ := h.resolve hk
    have hsame : some e = some e' := (h.lookup_eq hr hes rfl).symm.trans hlookup
    obtain rfl : e = e' := by simpa using hsame
    simp only at hunit
    rw [hi] at hunit
    refine ⟨_, hk, ?_⟩
    rw [hposition, ← Option.some.inj hunit]
    show some (request.id, j) = some (id, j)
    rw [hid]

/-- **A mapped chunk is the original one**: path, offset and size, and the
size its map records. -/
theorem Partitioned.same_chunk (h : Partitioned requests n shares) {k : Nat × Int × Nat}
    (hk : k ∈ shareKeys shares) :
    ∃ e request j offset size, lookup shares k = some e ∧ request ∈ requests ∧
      source shares k = some (request.id, j, size) ∧ e.1.path = request.path ∧
      e.1.offsets[k.2.2]? = some offset ∧ request.offsets[j]? = some offset ∧
      e.1.sizes[k.2.2]? = some size ∧ request.sizes[j]? = some size := by
  obtain ⟨share, e, u, hshare, he, -, hlookup, hunit, hpath, hoffset, hsize, hsource, -⟩ :=
    h.resolve hk
  have hu : u ∈ allUnits requests :=
    h.units.subset (List.mem_flatMap.mpr
      ⟨e, mem_of_share hshare he, List.mem_of_getElem? hunit⟩)
  obtain ⟨request, hrequest, hmem⟩ := mem_allUnits.mp hu
  obtain ⟨hpath', hid, hoffset', hsize'⟩ := mem_unitsOf.mp hmem
  refine ⟨e, request, u.originalChunkIndex, u.offset, u.size, hlookup, hrequest, ?_, ?_, hoffset,
    hoffset', hsize, hsize'⟩
  · rw [hsource, hid]
  · rw [← hpath, hpath']

theorem unitsOf_length (request : FileChunks) :
    (unitsOf request).length = request.sizes.length := by
  unfold unitsOf
  rw [List.length_map, List.length_zipIdx, pairs_length]

/-- The number of chunks stays. -/
theorem Partitioned.total (h : Partitioned requests n shares) :
    getTotalNumberOfChunks shares = (requests.map (fun r => r.sizes.length)).sum := by
  have hlen := h.units.length_eq
  rw [List.length_flatMap, allUnits, List.length_flatMap] at hlen
  have hentry : shares.flatten.map (fun e => (entryUnits e).length)
      = shares.flatten.map (fun e => e.1.sizes.length) := by
    apply List.map_congr_left
    intro e he
    unfold entryUnits
    rw [List.length_zipWith, pairs_length, h.entry_length he, Nat.min_self]
  have hshare : getTotalNumberOfChunks shares
      = (shares.flatten.map (fun e => e.1.sizes.length)).sum := by
    unfold getTotalNumberOfChunks
    rw [List.map_flatten, List.sum_flatten, List.map_map]
    rfl
  rw [hshare, ← hentry, hlen]
  simp only [unitsOf_length]

end Shares

/-- What a caller relies on. -/
structure Bijective (requests : List FileChunks) (n : Nat) (shares : List Share) : Prop where
  ranks : shares.length = n
  ids : (shares.flatten.map (fun e => e.1.id)).Nodup
  bijection :
    Set.BijOn (sourcePosition shares) (shareKeys shares) (some '' chunkPositions requests)
  same_chunk : ∀ k ∈ shareKeys shares, ∃ e request j offset size,
    lookup shares k = some e ∧ request ∈ requests ∧
    source shares k = some (request.id, j, size) ∧ e.1.path = request.path ∧
    e.1.offsets[k.2.2]? = some offset ∧ request.offsets[j]? = some offset ∧
    e.1.sizes[k.2.2]? = some size ∧ request.sizes[j]? = some size
  total : getTotalNumberOfChunks shares = (requests.map (fun r => r.sizes.length)).sum

theorem Partitioned.bijective {requests : List FileChunks} {n : Nat} {shares : List Share}
    (h : Partitioned requests n shares) (hids : (requests.map FileChunks.id).Nodup) :
    Bijective requests n shares :=
  ⟨h.ranks, h.ids, h.bijOn hids, fun _ hk => h.same_chunk hk, h.total⟩

/-- **Partitioning over ranks is a bijection**, under either policy. -/
theorem partition_bijection (requests : List FileChunks) (n : Nat) (hn : 1 ≤ n)
    (hids : (requests.map FileChunks.id).Nodup) :
    (∃ shares, partitionByChunks requests n = .ok shares ∧ Bijective requests n shares) ∧
    ∃ shares, partitionByFiles requests n = .ok shares ∧ Bijective requests n shares := by
  obtain ⟨byChunks, hchunks, hspec⟩ := partitionByChunks_spec requests hn
  obtain ⟨byFiles, hfiles, hspec'⟩ := partitionByFiles_spec requests hn hids
  exact ⟨⟨byChunks, hchunks, hspec.bijective hids⟩, byFiles, hfiles, hspec'.bijective hids⟩

theorem partition_bijection_three :
    (∃ shares, partitionByChunks threeFiles 2 = .ok shares ∧ Bijective threeFiles 2 shares) ∧
    ∃ shares, partitionByFiles threeFiles 2 = .ok shares ∧ Bijective threeFiles 2 shares :=
  partition_bijection threeFiles 2 (by omega) (by decide)

end ModelStreamer.Distributed
