/-
  ModelStreamer.Planning.Coalesced
  ────────────────────────────────
  **COALESCING LOSES NO RANGE.**

  The transfers of a file, in order, are a SPLIT of the file's ranges into
  nonempty groups (`Grouped`), and within a transfer the ranges of its group
  lie back to back in the file and in the destination (`Placed`).  Both
  positions are words: they may wrap, and the statements here say so.

  `coalesce` returns exactly when the request's byte total is below
  `2 ^ 64`, which is its only check.
-/
import ModelStreamer.Planning.Assigner
import Mathlib.Algebra.BigOperators.Group.List.Basic

namespace ModelStreamer.Planning

/-! ## §1. Ranges laid out in a transfer. -/

/-- The ranges lie back to back from `pos` bytes after `(offset, dst)`. -/
def Placed (offset dst : Nat) : Nat → List ReadRange → Prop
  | _, [] => True
  | pos, range :: ranges =>
      range.offset = wrap (offset + pos) ∧ range.dst = wrap (dst + pos) ∧
        Placed offset dst (pos + range.size) ranges

/-- Bytes of a list of ranges. -/
def rangeBytes (ranges : List ReadRange) : Nat := (ranges.map ReadRange.size).sum

@[simp] theorem rangeBytes_nil : rangeBytes [] = 0 := rfl

@[simp] theorem rangeBytes_cons (range : ReadRange) (ranges : List ReadRange) :
    rangeBytes (range :: ranges) = range.size + rangeBytes ranges := by
  simp [rangeBytes]

@[simp] theorem rangeBytes_append (xs ys : List ReadRange) :
    rangeBytes (xs ++ ys) = rangeBytes xs + rangeBytes ys := by
  simp [rangeBytes]

theorem placed_append (offset dst pos : Nat) (xs ys : List ReadRange) :
    Placed offset dst pos (xs ++ ys)
      ↔ Placed offset dst pos xs ∧ Placed offset dst (pos + rangeBytes xs) ys := by
  induction xs generalizing pos with
  | nil => simp [Placed]
  | cons x xs ih =>
      simp only [List.cons_append, Placed, ih, rangeBytes_cons, and_assoc]
      rw [Nat.add_assoc]

/-- Where no range wraps, neither does the group they make up. -/
theorem Placed.no_wrap {offset dst : Nat} {ranges : List ReadRange} :
    ∀ {pos : Nat}, Placed offset dst pos ranges → offset + pos < 2 ^ 64 →
      (∀ range ∈ ranges, range.offset + range.size < 2 ^ 64) →
      offset + pos + rangeBytes ranges < 2 ^ 64 := by
  induction ranges with
  | nil => intro pos _ hpos _; simpa using hpos
  | cons range ranges ih =>
      intro pos h hpos hno
      obtain ⟨hoff, -, hrest⟩ := h
      rw [wrap_of_lt hpos] at hoff
      have hhead := hno range (by simp)
      have := ih hrest (by omega) (fun r hr => hno r (by simp [hr]))
      rw [rangeBytes_cons]
      omega

/-- The transfer covers `group`, whose first range has index `first` in
file `fileIndex`.  Says nothing about the transfer's slices. -/
structure ContiguousTransfer.Covers (t : ContiguousTransfer) (fileIndex first : Nat)
    (group : List ReadRange) : Prop where
  fileIndex_eq : t.fileIndex = fileIndex
  first_eq : t.firstRangeIndex = first
  sizes_eq : t.rangeSizes = group.map ReadRange.size
  size_eq : t.size = rangeBytes group
  nonempty : group ≠ []
  offset_lt : t.offset < 2 ^ 64
  destination_lt : t.destination < 2 ^ 64
  placed : Placed t.offset t.destination 0 group

/-- The range that opens a transfer is covered by it. -/
theorem covers_opened (fileIndex i : Nat) (range : ReadRange) :
    (ContiguousTransfer.opened fileIndex i range).Covers fileIndex i [range] where
  fileIndex_eq := rfl
  first_eq := rfl
  sizes_eq := rfl
  size_eq := by simp [ContiguousTransfer.opened]
  nonempty := by simp
  offset_lt := range.offset_lt
  destination_lt := range.dst_lt
  placed := by
    simp [Placed, ContiguousTransfer.opened, wrap_of_lt range.offset_lt,
      wrap_of_lt range.dst_lt]

/-- Extending by an adjacent range covers one range more. -/
theorem ContiguousTransfer.Covers.extend {t : ContiguousTransfer} {fileIndex first : Nat}
    {group : List ReadRange} {range : ReadRange} (h : t.Covers fileIndex first group)
    (hadj : t.adjacent range = true) :
    (t.extend range).Covers fileIndex first (group ++ [range]) := by
  simp only [ContiguousTransfer.adjacent, Bool.and_eq_true, decide_eq_true_eq] at hadj
  refine ⟨h.fileIndex_eq, h.first_eq, ?_, ?_, by simp, h.offset_lt, h.destination_lt, ?_⟩
  · simp [ContiguousTransfer.extend, h.sizes_eq]
  · simp [ContiguousTransfer.extend, h.size_eq]
  · refine (placed_append _ _ _ _ _).mpr ⟨h.placed, ?_⟩
    simp only [ContiguousTransfer.extend, Placed, Nat.zero_add, ← h.size_eq]
    exact ⟨hadj.1.symm, hadj.2.symm, trivial⟩

/-! ## §2. The transfers of a file split its ranges. -/

/-- `transfers` split `ranges`, the ranges of file `fileIndex` from index
`i` on, into consecutive nonempty groups. -/
inductive Grouped (fileIndex : Nat) :
    Nat → List ReadRange → List ContiguousTransfer → Prop where
  | nil (i : Nat) : Grouped fileIndex i [] []
  | cons {i : Nat} {group ranges : List ReadRange} {t : ContiguousTransfer}
      {ts : List ContiguousTransfer} :
      t.Covers fileIndex i group → Grouped fileIndex (i + group.length) ranges ts →
      Grouped fileIndex i (group ++ ranges) (t :: ts)

/-- The same over the files from index `fileIndex` on. -/
inductive GroupedFiles : Nat → List FileRanges → List ContiguousTransfer → Prop where
  | nil (fileIndex : Nat) : GroupedFiles fileIndex [] []
  | cons {fileIndex : Nat} {file : FileRanges} {files : List FileRanges}
      {ts rest : List ContiguousTransfer} :
      Grouped fileIndex 0 file.ranges ts → GroupedFiles (fileIndex + 1) files rest →
      GroupedFiles fileIndex (file :: files) (ts ++ rest)

/-- The inner loop, with a transfer open for extension. -/
theorem coalesceRanges_some {fileIndex : Nat} (ranges : List ReadRange) :
    ∀ {first total : Nat} {t : ContiguousTransfer} {group : List ReadRange},
      t.Covers fileIndex first group → t.tasks = [] →
      total + rangeBytes ranges < 2 ^ 64 →
      ∃ ts, coalesceRanges fileIndex (first + group.length) ranges (some t) total
          = .ok (ts, total + rangeBytes ranges)
        ∧ Grouped fileIndex first (group ++ ranges) ts ∧ ∀ t ∈ ts, t.tasks = [] := by
  induction ranges with
  | nil =>
      intro first total t group hcov htasks _
      refine ⟨[t], by simp [coalesceRanges], .cons hcov (.nil _), by simpa using htasks⟩
  | cons range ranges ih =>
      intro first total t group hcov htasks htotal
      rw [rangeBytes_cons, ← Nat.add_assoc] at htotal
      have hfits : ¬ total > 2 ^ 64 - 1 - range.size := by
        have := range.size_lt
        omega
      rw [coalesceRanges, if_neg hfits]
      by_cases hadj : t.adjacent range = true
      · -- the open transfer grows by the range
        obtain ⟨ts, hrun, hgrouped, hnone⟩ :=
          ih (hcov.extend hadj) htasks htotal
        refine ⟨ts, ?_, by simpa using hgrouped, hnone⟩
        simp only [hadj, if_true]
        rw [List.length_append] at hrun
        simpa [Nat.add_assoc] using hrun
      · -- the open transfer is closed and the range opens the next
        obtain ⟨ts, hrun, hgrouped, hnone⟩ :=
          ih (covers_opened fileIndex (first + group.length) range) rfl htotal
        simp only [List.length_singleton] at hrun
        refine ⟨t :: ts, ?_, .cons hcov (by simpa using hgrouped), ?_⟩
        · simp only [Bool.not_eq_true] at hadj
          simp only [hadj, hrun, rangeBytes_cons, Bool.false_eq_true, if_false]
          rw [Nat.add_assoc]
        · simp only [List.mem_cons, forall_eq_or_imp]
          exact ⟨htasks, hnone⟩

/-- The inner loop on a whole file. -/
theorem coalesceRanges_file (fileIndex : Nat) (ranges : List ReadRange) (total : Nat)
    (htotal : total + rangeBytes ranges < 2 ^ 64) :
    ∃ ts, coalesceRanges fileIndex 0 ranges none total = .ok (ts, total + rangeBytes ranges)
      ∧ Grouped fileIndex 0 ranges ts ∧ ∀ t ∈ ts, t.tasks = [] := by
  cases ranges with
  | nil => exact ⟨[], by simp [coalesceRanges], .nil _, by simp⟩
  | cons range ranges =>
      rw [rangeBytes_cons, ← Nat.add_assoc] at htotal
      have hfits : ¬ total > 2 ^ 64 - 1 - range.size := by
        have := range.size_lt
        omega
      obtain ⟨ts, hrun, hgrouped, hnone⟩ :=
        coalesceRanges_some ranges (covers_opened fileIndex 0 range) rfl htotal
      refine ⟨ts, ?_, hgrouped, hnone⟩
      rw [coalesceRanges, if_neg hfits]
      simpa [Nat.add_assoc] using hrun

/-! ## §3. The whole request. -/

/-- Bytes of a request. -/
def requestBytes (request : List FileRanges) : Nat :=
  (request.map (fun file => rangeBytes file.ranges)).sum

@[simp] theorem requestBytes_cons (file : FileRanges) (files : List FileRanges) :
    requestBytes (file :: files) = rangeBytes file.ranges + requestBytes files := by
  simp [requestBytes]

theorem coalesceFiles_spec (files : List FileRanges) :
    ∀ (fileIndex total : Nat), total + requestBytes files < 2 ^ 64 →
      ∃ ts, coalesceFiles fileIndex files total = .ok (ts, total + requestBytes files)
        ∧ GroupedFiles fileIndex files ts ∧ ∀ t ∈ ts, t.tasks = [] := by
  induction files with
  | nil =>
      intro fileIndex total _
      exact ⟨[], by simp [coalesceFiles, requestBytes], .nil _, by simp⟩
  | cons file files ih =>
      intro fileIndex total htotal
      rw [requestBytes_cons, ← Nat.add_assoc] at htotal
      obtain ⟨ts, hfile, hgrouped, hnone⟩ :=
        coalesceRanges_file fileIndex file.ranges total (by omega)
      obtain ⟨rest, hfiles, hrest, hnone'⟩ := ih (fileIndex + 1) _ htotal
      refine ⟨ts ++ rest, ?_, .cons hgrouped hrest, ?_⟩
      · simp [coalesceFiles, hfile, hfiles, Nat.add_assoc]
      · intro t ht
        rcases List.mem_append.mp ht with h | h
        · exact hnone t h
        · exact hnone' t h

/-- **Coalescing splits every file's ranges**, and totals their bytes. -/
theorem coalesce_spec {request : List FileRanges} (htotal : requestBytes request < 2 ^ 64) :
    ∃ ts, coalesce request = .ok (ts, requestBytes request)
      ∧ GroupedFiles 0 request ts ∧ ∀ t ∈ ts, t.tasks = [] := by
  simpa [coalesce] using coalesceFiles_spec request 0 0 (by omega)

end ModelStreamer.Planning
