/-
  ModelStreamer.Distributed.Balance
  ─────────────────────────────────
  **THE RANKS' LOADS ARE BALANCED** (`distributed_streamer/partition.py`).

  Both partition functions give the next unit, a chunk or a whole file, to
  the first of the ranks with the fewest bytes so far.  At any time no rank
  is then more than one unit ahead of another.

    • `rebuild_bytes` — the regrouping of `partition_by_chunks` moves no
      bytes between ranks,
    • `partition_balanced` — so the ranks' bytes differ by the largest chunk
      at most, or by the largest file.
-/
import ModelStreamer.Distributed.Partition

namespace ModelStreamer.Distributed

open ModelStreamer.Lib ModelStreamer.FileStreamer

/-! ## §1. Bytes of a share. -/

/-- The bytes a rank is to read. -/
def shareBytes (share : Share) : Nat := (share.map (fun e => e.1.totalSize)).sum

/-- The size of the largest chunk; 0 where there is none. -/
def largestChunk (requests : List FileChunks) : Nat :=
  (requests.flatMap FileChunks.sizes).foldr max 0

/-- The total size of the largest file; 0 where there is none. -/
def largestFile (requests : List FileChunks) : Nat :=
  (requests.map FileChunks.totalSize).foldr max 0

theorem le_foldr_max {sizes : List Nat} {size : Nat} (h : size ∈ sizes) :
    size ≤ sizes.foldr max 0 := by
  induction sizes with
  | nil => exact absurd h List.not_mem_nil
  | cons first sizes ih =>
      show size ≤ max first (sizes.foldr max 0)
      rcases List.mem_cons.mp h with rfl | h
      · exact Nat.le_max_left _ _
      · exact (ih h).trans (Nat.le_max_right _ _)

theorem size_le_largestChunk {requests : List FileChunks} {u : WorkUnit}
    (h : u ∈ allUnits requests) : u.size ≤ largestChunk requests := by
  obtain ⟨request, hrequest, hu⟩ := mem_allUnits.mp h
  obtain ⟨-, -, -, hsize⟩ := mem_unitsOf.mp hu
  exact le_foldr_max (List.mem_flatMap.mpr ⟨request, hrequest, List.mem_of_getElem? hsize⟩)

theorem totalSize_le_largestFile {requests : List FileChunks} {request : FileChunks}
    (h : request ∈ requests) : request.totalSize ≤ largestFile requests :=
  le_foldr_max (List.mem_map_of_mem h)

/-! ## §2. Regrouping keeps the bytes. -/

theorem load_perm {units units' : List WorkUnit} (h : units.Perm units') :
    load WorkUnit.size units = load WorkUnit.size units' := (h.map WorkUnit.size).sum_nat

theorem regroup_bytes (id : Nat) (path : String) (units : List WorkUnit) :
    (regroup id path units).1.totalSize = load WorkUnit.size units := rfl

theorem shareOf_bytes (idGenerator : Nat) (groups : List (String × List WorkUnit)) :
    shareBytes (shareOf idGenerator groups) = load WorkUnit.size (grouped groups) := by
  induction groups generalizing idGenerator with
  | nil => rfl
  | cons g groups ih =>
      show (regroup idGenerator g.1 (pathOrder g.2)).1.totalSize
          + shareBytes (shareOf (idGenerator + 1) groups) = _
      rw [regroup_bytes, load_perm (pathOrder_perm g.2), ih]
      unfold grouped load
      rw [List.flatMap_cons, List.map_append, List.sum_append]

/-- **A rank reads what was dealt to it.** -/
theorem rebuild_bytes (idGenerator : Nat) (hands : List (List WorkUnit)) :
    (rebuild idGenerator hands).map shareBytes = hands.map (load WorkUnit.size) := by
  induction hands generalizing idGenerator with
  | nil => rfl
  | cons units rest ih =>
      unfold rebuild
      dsimp only
      rw [List.map_cons, List.map_cons, ih, shareOf_bytes,
        load_perm (groupBy_perm WorkUnit.path units)]

/-- A rank reads the files dealt to it. -/
theorem direct_bytes (hand : List FileChunks) :
    shareBytes (hand.map (fun request => (request, directMap request)))
      = load FileChunks.totalSize hand := by
  unfold shareBytes load
  rw [List.map_map]
  rfl

/-! ## §3. The bound. -/

theorem replicate_balanced (bound n : Nat) :
    Balanced bound ((List.replicate n ([] : Share)).map shareBytes) := by
  intro a ha b hb
  rw [List.map_replicate] at ha
  rw [List.eq_of_mem_replicate ha]
  exact Nat.zero_le _

theorem partitionByChunks_balanced (requests : List FileChunks) {n : Nat} (hn : 1 ≤ n) :
    ∃ shares, partitionByChunks requests n = .ok shares ∧ shares.length = n ∧
      Balanced (largestChunk requests) (shares.map shareBytes) := by
  obtain ⟨shares, hok, hspec⟩ := partitionByChunks_spec requests hn
  refine ⟨shares, hok, hspec.ranks, ?_⟩
  unfold partitionByChunks at hok
  rw [if_neg (by omega), Int.toNat_natCast] at hok
  by_cases hnil : requests.isEmpty
  · rw [if_pos hnil] at hok
    rw [← Except.ok.inj hok]
    exact replicate_balanced _ n
  · rw [if_neg hnil] at hok
    rw [← Except.ok.inj hok, rebuild_bytes]
    apply dealAll_balanced _ (by omega)
    intro u hu
    exact size_le_largestChunk ((sortBy_perm _ _).subset hu)

theorem partitionByFiles_balanced (requests : List FileChunks) {n : Nat} (hn : 1 ≤ n) :
    ∃ shares, partitionByFiles requests n = .ok shares ∧ shares.length = n ∧
      Balanced (largestFile requests) (shares.map shareBytes) := by
  unfold partitionByFiles
  rw [if_neg (by omega), Int.toNat_natCast]
  by_cases hnil : requests.isEmpty
  · rw [if_pos hnil]
    exact ⟨_, rfl, List.length_replicate, replicate_balanced _ n⟩
  · rw [if_neg hnil]
    refine ⟨_, rfl, ?_, ?_⟩
    · rw [List.length_map]
      exact dealAll_length _ (by omega) _
    · rw [List.map_map]
      have hbytes : shareBytes ∘ List.map (fun request => (request, directMap request))
          = load FileChunks.totalSize := funext direct_bytes
      rw [hbytes]
      apply dealAll_balanced _ (by omega)
      intro request hrequest
      exact totalSize_le_largestFile ((sortBy_perm _ _).subset hrequest)

/-- **THE LOADS ARE BALANCED.**  Over any number of ranks, the bytes of two
ranks differ by the largest chunk at most when chunks are dealt, and by the
largest file when files are. -/
theorem partition_balanced (requests : List FileChunks) (n : Nat) (hn : 1 ≤ n) :
    (∃ shares, partitionByChunks requests n = .ok shares ∧ shares.length = n ∧
      Balanced (largestChunk requests) (shares.map shareBytes)) ∧
    ∃ shares, partitionByFiles requests n = .ok shares ∧ shares.length = n ∧
      Balanced (largestFile requests) (shares.map shareBytes) :=
  ⟨partitionByChunks_balanced requests hn, partitionByFiles_balanced requests hn⟩

theorem partition_balanced_three :
    (∃ shares, partitionByChunks threeFiles 2 = .ok shares ∧ shares.length = 2 ∧
      Balanced (largestChunk threeFiles) (shares.map shareBytes)) ∧
    ∃ shares, partitionByFiles threeFiles 2 = .ok shares ∧ shares.length = 2 ∧
      Balanced (largestFile threeFiles) (shares.map shareBytes) :=
  partition_balanced threeFiles 2 (by omega)

end ModelStreamer.Distributed
