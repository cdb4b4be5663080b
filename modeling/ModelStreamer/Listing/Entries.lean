/-
  ModelStreamer.Listing.Entries
  ─────────────────────────────
  **A LISTING IN ONE BLOCK** (`make_entries` of `list_files_impl.h`).

  A plugin hands a listing over in a single allocation: an array of pointers
  and sizes, and behind it the paths, each with a zero at its end.  The
  streamer reads it entry by entry, a path up to its first zero.

    • `entryPieces_inside`, `entryPieces_apart` — every write stays inside of
      the block, and no two of them overlap,
    • `readEntry_makeEntries` — so each entry is read as it was written, but
      for what is behind a zero in its path,
    • `makeEntries_outside` — and the rest of the memory has not changed.
-/
import Mathlib.Algebra.BigOperators.Group.List.Basic
import ModelStreamer.Common.Word
import ModelStreamer.Lib.Block

namespace ModelStreamer.Listing

open ModelStreamer.Lib

/-! ## §1. Writing it. -/

/-- `std::pair<std::string, size_t>`: a path and a size. -/
abbrev Listed := List UInt8 × Nat

/-- `sizeof(ObjectFileEntry_t)`: a pointer and a `size_t`. -/
def entryBytesize : Nat := 16

/-- `path_bytes`. -/
def pathBytes (results : List Listed) : Nat := (results.map (fun r => r.1.length + 1)).sum

/-- The size of the allocation. -/
def blockBytes (results : List Listed) : Nat := entryBytesize * results.length + pathBytes results

/-- What the loop of `make_entries` writes, from the `i`-th entry on. -/
def entryPieces (entries : Nat) : Nat → Nat → List Listed → List (Nat × List UInt8)
  | _, _, [] => []
  | i, pathArea, (path, size) :: results =>
      (entries + entryBytesize * i, natToBytes 8 pathArea) ::
      (pathArea, path) ::
      (pathArea + path.length, [0]) ::
      (entries + entryBytesize * i + 8, natToBytes 8 size) ::
      entryPieces entries (i + 1) (pathArea + (path.length + 1)) results

/-- `make_entries`, with the block at `buf`. -/
def makeEntries (memory : Nat → UInt8) (buf : Nat) (results : List Listed) : Nat → UInt8 :=
  storeAll (2 ^ 64) memory
    (entryPieces buf 0 (buf + entryBytesize * results.length) results)

/-! ## §2. Reading it. -/

/-- `entries[i].path` as a `std::string`, and `entries[i].size`. -/
def readEntry (memory : Nat → UInt8) (entries i : Nat) : Option Listed :=
  let path := bytesToNat (fetch (2 ^ 64) memory (entries + entryBytesize * i) 8)
  let size := bytesToNat (fetch (2 ^ 64) memory (entries + entryBytesize * i + 8) 8)
  (readString 0 (2 ^ 64) memory (2 ^ 64) path).map (fun path => (path, size))

/-- The entries from the `i`-th on. -/
def readEntries (memory : Nat → UInt8) (entries : Nat) : Nat → Nat → Option (List Listed)
  | 0, _ => some []
  | remaining + 1, i =>
      (readEntry memory entries i).bind (fun entry =>
        (readEntries memory entries remaining (i + 1)).map (fun rest => entry :: rest))

/-- What is left of a path that is read as a string. -/
def cut (r : Listed) : Listed := (r.1.takeWhile (fun byte => byte ≠ 0), r.2)

/-! ## §3. Where the writes go. -/

theorem pathBytes_cons (r : Listed) (results : List Listed) :
    pathBytes (r :: results) = r.1.length + 1 + pathBytes results := by
  unfold pathBytes
  rw [List.map_cons, List.sum_cons]

/-- A write goes to the array from the `i`-th entry on, or to the paths from
`pathArea` on. -/
theorem entryPieces_inside {entries i pathArea : Nat} {results : List Listed} :
    ∀ p ∈ entryPieces entries i pathArea results,
      (entries + entryBytesize * i ≤ p.1 ∧
        p.1 + p.2.length ≤ entries + entryBytesize * (i + results.length)) ∨
      (pathArea ≤ p.1 ∧ p.1 + p.2.length ≤ pathArea + pathBytes results) := by
  induction results generalizing i pathArea with
  | nil => simp [entryPieces]
  | cons r results ih =>
      obtain ⟨path, size⟩ := r
      have hrest := @ih (i + 1) (pathArea + (path.length + 1))
      rw [pathBytes_cons]
      simp only [entryPieces, List.forall_mem_cons, natToBytes_length, List.length_cons,
        List.length_nil, entryBytesize] at hrest ⊢
      refine ⟨by omega, by omega, by omega, by omega, ?_⟩
      intro p hp
      have hplace := hrest p hp
      omega

/-- **No two writes overlap**, where the array ends before the paths. -/
theorem entryPieces_apart {entries i pathArea : Nat} {results : List Listed}
    (harray : entries + entryBytesize * (i + results.length) ≤ pathArea)
    (hend : pathArea + pathBytes results ≤ 2 ^ 64) :
    (entryPieces entries i pathArea results).Pairwise (Apart (2 ^ 64)) := by
  induction results generalizing i pathArea with
  | nil => exact List.Pairwise.nil
  | cons r results ih =>
      obtain ⟨path, size⟩ := r
      rw [pathBytes_cons] at hend
      simp only [List.length_cons, entryBytesize] at harray hend
      have hrest := @entryPieces_inside entries (i + 1) (pathArea + (path.length + 1)) results
      simp only [entryBytesize] at hrest
      have hbefore : ∀ (p q : Nat × List UInt8), p.1 + p.2.length ≤ q.1 →
          q.1 + q.2.length ≤ 2 ^ 64 → Apart (2 ^ 64) p q := fun p q => apart_of_le
      have hafter : ∀ (p q : Nat × List UInt8), q.1 + q.2.length ≤ p.1 →
          p.1 + p.2.length ≤ 2 ^ 64 → Apart (2 ^ 64) p q := fun p q h h' =>
        (apart_of_le h h').symm
      simp only [entryPieces, List.pairwise_cons, List.forall_mem_cons, entryBytesize]
      -- the four writes of this entry, against each other and the later ones
      refine ⟨⟨?_, ?_, ?_, fun p hp => ?_⟩, ⟨?_, ?_, fun p hp => ?_⟩, ⟨?_, fun p hp => ?_⟩,
        fun p hp => ?_, ih ?_ ?_⟩
      · exact hbefore _ _ (by simp; omega) (by simp; omega)
      · exact hbefore _ _ (by simp; omega) (by simp; omega)
      · exact hbefore _ _ (by simp) (by simp; omega)
      · have hplace := hrest p hp
        exact hbefore _ _ (by simp; omega) (by omega)
      · exact hbefore _ _ (by simp) (by simp; omega)
      · exact hafter _ _ (by simp; omega) (by simp; omega)
      · rcases hrest p hp with hplace | hplace
        · exact hafter _ _ (by simp; omega) (by simp; omega)
        · exact hbefore _ _ (by simp; omega) (by omega)
      · exact hafter _ _ (by simp; omega) (by simp; omega)
      · rcases hrest p hp with hplace | hplace
        · exact hafter _ _ (by simp; omega) (by simp; omega)
        · exact hbefore _ _ (by simp; omega) (by omega)
      · have hplace := hrest p hp
        exact hbefore _ _ (by simp; omega) (by omega)
      · rw [entryBytesize]
        omega
      · omega

/-- The writes of the `i`-th entry. -/
theorem mem_entryPieces {entries first pathArea i : Nat} {results : List Listed} {r : Listed}
    (h : results[i]? = some r) :
    let address := pathArea + pathBytes (results.take i)
    (entries + entryBytesize * (first + i), natToBytes 8 address)
        ∈ entryPieces entries first pathArea results ∧
      (address, r.1) ∈ entryPieces entries first pathArea results ∧
      (address + r.1.length, [0]) ∈ entryPieces entries first pathArea results ∧
      (entries + entryBytesize * (first + i) + 8, natToBytes 8 r.2)
        ∈ entryPieces entries first pathArea results ∧
      address + (r.1.length + 1) ≤ pathArea + pathBytes results := by
  induction results generalizing first pathArea i with
  | nil => simp at h
  | cons s results ih =>
      obtain ⟨path, size⟩ := s
      cases i with
      | zero =>
          obtain rfl := Option.some.inj h
          rw [pathBytes_cons]
          simp [entryPieces, pathBytes]
      | succ i =>
          have hrest := @ih (first + 1) (pathArea + (path.length + 1)) i h
          rw [List.take_succ_cons, pathBytes_cons, pathBytes_cons,
            show pathArea + (path.length + 1 + pathBytes (results.take i))
              = pathArea + (path.length + 1) + pathBytes (results.take i) by omega,
            show first + (i + 1) = first + 1 + i by omega]
          obtain ⟨hpath, hcells, hzero, hsize, hend⟩ := hrest
          have hlater : ∀ p, p ∈ entryPieces entries (first + 1) (pathArea + (path.length + 1)) results →
              p ∈ entryPieces entries first pathArea ((path, size) :: results) := fun p hp => by
            simp only [entryPieces, List.mem_cons]
            exact Or.inr (Or.inr (Or.inr (Or.inr hp)))
          refine ⟨hlater _ hpath, hlater _ hcells, hlater _ hzero, hlater _ hsize, ?_⟩
          show _ ≤ pathArea + (path.length + 1 + pathBytes results)
          omega

/-! ## §4. What is read. -/

section Block

variable {memory : Nat → UInt8} {buf : Nat} {results : List Listed}

/-- **Outside the block** nothing changes. -/
theorem makeEntries_outside (hbuf : buf + blockBytes results ≤ 2 ^ 64) {a : Nat}
    (ha : a < buf ∨ buf + blockBytes results ≤ a) : makeEntries memory buf results a = memory a := by
  apply storeAll_outside
  intro p hp k hk heq
  have hplace := entryPieces_inside p hp
  unfold blockBytes at hbuf ha
  rw [Nat.zero_add] at hplace
  rw [Nat.mod_eq_of_lt (by omega)] at heq
  omega

/-- **An entry is read as it was written**, its path up to a zero. -/
theorem readEntry_makeEntries (hbuf : buf + blockBytes results ≤ 2 ^ 64) {i : Nat} {r : Listed}
    (hr : results[i]? = some r) (hsize : r.2 < 2 ^ 64) :
    readEntry (makeEntries memory buf results) buf i = some (cut r) := by
  unfold blockBytes at hbuf
  obtain ⟨hpath, hcells, hzero, hword, hend⟩ :=
    @mem_entryPieces buf 0 (buf + entryBytesize * results.length) i results r hr
  rw [Nat.zero_add] at hpath hword
  have hplaced := @fetch_storeAll _ (2 ^ 64) memory _
    (@entryPieces_apart buf 0 (buf + entryBytesize * results.length) results
      (by rw [Nat.zero_add]) (by omega))
    (fun p hp => by
      have hplace := entryPieces_inside p hp
      rw [Nat.zero_add] at hplace
      omega)
  have haddress := hplaced _ hpath
  have hbytes := hplaced _ hcells
  have hlast := hplaced _ hzero
  have hstored := hplaced _ hword
  simp only [natToBytes_length, List.length_cons, List.length_nil] at haddress hbytes hlast hstored
  -- the string and the zero behind it
  have hstring := @fetch_add _ (2 ^ 64) (makeEntries memory buf results)
    (buf + entryBytesize * results.length + pathBytes (results.take i)) r.1.length 1
  unfold makeEntries at hstring
  rw [hbytes, hlast] at hstring
  unfold readEntry makeEntries
  rw [haddress, hstored, bytesToNat_natToBytes (by omega), bytesToNat_natToBytes (by omega)]
  dsimp only
  rw [readString_eq hstring (by omega)]
  rfl

/-- The first `count` entries. -/
theorem readEntries_makeEntries (hbuf : buf + blockBytes results ≤ 2 ^ 64)
    (hsizes : ∀ r ∈ results, r.2 < 2 ^ 64) {count first : Nat}
    (hcount : first + count ≤ results.length) :
    readEntries (makeEntries memory buf results) buf count first
      = some (((results.drop first).take count).map cut) := by
  induction count generalizing first with
  | zero => rfl
  | succ count ih =>
      have hfirst : first < results.length := by omega
      unfold readEntries
      rw [readEntry_makeEntries hbuf (List.getElem?_eq_getElem hfirst)
          (hsizes _ (List.getElem_mem hfirst)), Option.bind_some, ih (by omega),
        List.drop_eq_getElem_cons hfirst]
      rfl

end Block

end ModelStreamer.Listing
