/-
  ModelStreamer.FileStreamer.Packing
  ──────────────────────────────────
  **PACKING IS A LOSSLESS PARTITION.**

  What one `next_request` does to the ranges that are still to be read:

    • `nextChunks_ranges` — a prefix of one file's ranges is cut off, and
      only a range over budget is left at its end (`nextChunks_stop`),
    • `pack_full` — a queue whose next range does not fit is left alone, so
      no file is in one request twice,
    • `pack_spec` — one request: its ranges, numbered as the index map says,
      are a prefix of the pending ones; the index map stays right for what
      is left.
-/
import ModelStreamer.FileStreamer.Requests

namespace ModelStreamer.FileStreamer

open ModelStreamer.Lib

/-! ## §1. Ranges under the caller's numbering. -/

/-- A range of a file, with its index in the file. -/
structure Range where
  file : Int
  index : Nat
  path : String
  offset : Nat
  size : Nat
  deriving DecidableEq, Repr

/-- Number `pairs` of offsets and sizes as ranges of a file from `start`. -/
def number (id : Int) (path : String) (start : Nat) (pairs : List (Nat × Nat)) : List Range :=
  (pairs.zipIdx start).map (fun r => ⟨id, r.2, path, r.1.1, r.1.2⟩)

theorem number_append (id : Int) (path : String) (start : Nat) (xs ys : List (Nat × Nat)) :
    number id path start (xs ++ ys)
      = number id path start xs ++ number id path (start + xs.length) ys := by
  rw [number, List.zipIdx_append, List.map_append]
  rfl

/-- The offset and the size of each range. -/
def FileChunks.pairs (file : FileChunks) : List (Nat × Nat) := file.offsets.zip file.sizes

@[simp] theorem pairs_length (file : FileChunks) : file.pairs.length = file.sizes.length := by
  simp [FileChunks.pairs, file.parallel]

theorem slice_pairs (file : FileChunks) (start stop : Nat) :
    (file.slice start stop).pairs = (file.pairs.drop start).take (stop - start) := by
  simp [FileChunks.pairs, FileChunks.slice, List.zip_eq_zipWith, List.take_zipWith,
    List.drop_zipWith]

/-- The ranges of a file, its first one numbered `start`. -/
def FileChunks.rangesFrom (file : FileChunks) (start : Nat) : List Range :=
  number file.id file.path start file.pairs

theorem rangesFrom_length (file : FileChunks) (start : Nat) :
    (file.rangesFrom start).length = file.sizes.length := by
  simp [FileChunks.rangesFrom, number]

/-- **Every range of every file, in order.** -/
def originalRanges (files : List FileChunks) : List Range :=
  files.flatMap (fun file => file.rangesFrom 0)

/-- The ranges of its file that an iterator has not handed out. -/
def FileChunksIterator.pending (it : FileChunksIterator) : List Range :=
  number it.file.id it.file.path it.nextIndex (it.file.pairs.drop it.nextIndex)

/-- The ranges in the queue. -/
def pending (q : List FileChunksIterator) : List Range :=
  q.flatMap FileChunksIterator.pending

theorem pending_nil_of_finished {it : FileChunksIterator} (h : it.isFinished = true) :
    it.pending = [] := by
  have hle : it.file.sizes.length ≤ it.nextIndex := by
    simpa [FileChunksIterator.isFinished] using h
  rw [FileChunksIterator.pending, List.drop_eq_nil_of_le (by rw [pairs_length]; exact hle)]
  rfl

/-! ## §2. One call of `next_chunks`. -/

/-- **A prefix is cut off**, and its ranges keep their numbers. -/
theorem nextChunks_ranges (it : FileChunksIterator) (size : Int) :
    it.pending = (it.nextChunks size).1.rangesFrom it.nextIndex
      ++ (it.nextChunks size).2.pending := by
  set n := fitting (it.file.sizes.drop it.nextIndex) size with hn
  have hle : n ≤ (it.file.pairs.drop it.nextIndex).length := by
    have := fitting_le (it.file.sizes.drop it.nextIndex) size
    rw [List.length_drop] at this ⊢
    rw [pairs_length]
    omega
  have hpairs : (it.nextChunks size).1.pairs = (it.file.pairs.drop it.nextIndex).take n := by
    show (it.file.slice it.nextIndex (it.nextIndex + n)).pairs = _
    rw [slice_pairs, Nat.add_sub_cancel_left]
  have hlen : ((it.file.pairs.drop it.nextIndex).take n).length = n := by
    rw [List.length_take]
    omega
  have hrest : (it.nextChunks size).2.pending
      = number it.file.id it.file.path (it.nextIndex + n)
          ((it.file.pairs.drop it.nextIndex).drop n) := by
    rw [List.drop_drop]
    rfl
  rw [FileChunks.rangesFrom, hpairs, hrest, FileChunksIterator.pending]
  conv_lhs => rw [← List.take_append_drop n (it.file.pairs.drop it.nextIndex), number_append, hlen]
  rfl

theorem nextChunks_sizes (it : FileChunksIterator) (size : Int) :
    (it.nextChunks size).1.sizes
      = (it.file.sizes.drop it.nextIndex).take
          (fitting (it.file.sizes.drop it.nextIndex) size) := by
  show (it.file.slice _ _).sizes = _
  simp only [FileChunks.slice, Nat.add_sub_cancel_left]

theorem nextChunks_le (it : FileChunksIterator) (size : Int) (h : 0 ≤ size) :
    ((it.nextChunks size).1.totalSize : Int) ≤ size := by
  rw [FileChunks.totalSize, nextChunks_sizes]
  exact fitting_sum_le _ _ h

/-- **Only a range over budget is left at the end of a prefix.** -/
theorem nextChunks_stop {it : FileChunksIterator} {size : Int}
    (h : (it.nextChunks size).2.isFinished = false) :
    ∃ s, it.file.sizes[(it.nextChunks size).2.nextIndex]? = some s ∧
      size - (it.nextChunks size).1.totalSize < s := by
  have hlt : fitting (it.file.sizes.drop it.nextIndex) size
      < (it.file.sizes.drop it.nextIndex).length := by
    have hopen : ¬ it.file.sizes.length
        ≤ it.nextIndex + fitting (it.file.sizes.drop it.nextIndex) size := of_decide_eq_false h
    rw [List.length_drop]
    omega
  obtain ⟨s, hget, hover⟩ := fitting_stop _ _ hlt
  rw [List.getElem?_drop] at hget
  refine ⟨s, hget, ?_⟩
  rw [FileChunks.totalSize, nextChunks_sizes]
  exact hover

/-- An iterator whose next range is over budget hands out nothing. -/
theorem nextChunks_over {it : FileChunksIterator} {size : Int} {s : Nat}
    (hget : it.file.sizes[it.nextIndex]? = some s) (hover : size < s) :
    (it.nextChunks size).1.sizes = [] ∧ (it.nextChunks size).2 = it := by
  have hzero : fitting (it.file.sizes.drop it.nextIndex) size = 0 := by
    rw [List.drop_eq_getElem_cons (List.getElem?_eq_some_iff.mp hget).1]
    rw [(List.getElem?_eq_some_iff.mp hget).2]
    unfold fitting
    rw [if_neg (by omega)]
  constructor
  · rw [nextChunks_sizes, hzero, List.take_zero]
  · simp only [FileChunksIterator.nextChunks, hzero, Nat.add_zero]

/-! ## §3. The packing loop. -/

theorem pack_cons (memoryLimit : Nat) (it : FileChunksIterator) (rest : List FileChunksIterator)
    (request : FilesRequest) (memorySize : Nat) :
    pack memoryLimit (it :: rest) request memorySize
      = if (it.nextChunks (memoryLimit - memorySize)).1.sizes.length = 0 then
          if (it.nextChunks (memoryLimit - memorySize)).2.isFinished then
            pack memoryLimit rest request memorySize
          else ((it.nextChunks (memoryLimit - memorySize)).2 :: rest, request)
        else
          pack memoryLimit
            (if (it.nextChunks (memoryLimit - memorySize)).2.isFinished then rest
              else (it.nextChunks (memoryLimit - memorySize)).2 :: rest)
            (request.append (it.nextChunks (memoryLimit - memorySize)).1)
            (memorySize + (it.nextChunks (memoryLimit - memorySize)).1.totalSize) := by
  rw [pack]

/-- **A queue whose next range does not fit is left alone.** -/
theorem pack_full {memoryLimit memorySize : Nat} {it : FileChunksIterator}
    {rest : List FileChunksIterator} {request : FilesRequest} {s : Nat}
    (hget : it.file.sizes[it.nextIndex]? = some s)
    (hover : (memoryLimit : Int) - memorySize < s) :
    pack memoryLimit (it :: rest) request memorySize = (it :: rest, request) := by
  obtain ⟨hnone, hsame⟩ := nextChunks_over hget hover
  have hlt := (List.getElem?_eq_some_iff.mp hget).1
  have hopen : it.isFinished = false := by
    simp only [FileChunksIterator.isFinished, decide_eq_false_iff_not]
    omega
  rw [pack_cons, hnone, hsame, hopen]
  rfl

/-- The index map is right for the files in the queue, whose ids differ. -/
structure Tracked (indexes : Dict) (q : List FileChunksIterator) : Prop where
  ids : (q.map (fun e => e.file.id)).Nodup
  index : ∀ e ∈ q, indexes e.file.id = some e.nextIndex

theorem Tracked.tail {indexes : Dict} {it : FileChunksIterator} {rest : List FileChunksIterator}
    (h : Tracked indexes (it :: rest)) : Tracked indexes rest :=
  ⟨(List.nodup_cons.mp h.ids).2, fun e he => h.index e (List.mem_cons_of_mem it he)⟩

theorem Tracked.head_ne {indexes : Dict} {it : FileChunksIterator}
    {rest : List FileChunksIterator} (h : Tracked indexes (it :: rest)) :
    ∀ e ∈ rest, e.file.id ≠ it.file.id := by
  intro e he hid
  exact (List.nodup_cons.mp h.ids).1 (List.mem_map.mpr ⟨e, he, hid⟩)

theorem advance_cons (d : Dict) (file : FileChunks) (files : List FileChunks) :
    d.advance (file :: files)
      = Dict.advance (Function.update d file.id ((d file.id).map (· + file.sizes.length)))
          files := rfl

/-- The index map only changes at the files it advances over. -/
theorem advance_of_not_mem {d : Dict} {files : List FileChunks} {id : Int}
    (h : ∀ file ∈ files, file.id ≠ id) : d.advance files id = d id := by
  induction files generalizing d with
  | nil => rfl
  | cons file files ih =>
      rw [advance_cons, ih (fun f hf => h f (List.mem_cons_of_mem _ hf))]
      exact Function.update_of_ne (Ne.symm (h file List.mem_cons_self)) _ _

/-- What the packing loop did: `added` went from the head of the queue `q`
into the request, and `q'` is left. -/
structure Packs (memoryLimit memorySize : Nat) (indexes : Dict)
    (q q' : List FileChunksIterator) (added : List FileChunks) : Prop where
  /-- the ranges moved are a prefix, and the index map numbers them -/
  ranges : pending q
    = added.flatMap (fun file => file.rangesFrom ((indexes file.id).getD 0)) ++ pending q'
  /-- they fit -/
  fits : memorySize + totalSize added ≤ memoryLimit
  /-- no file is there without a range, or twice -/
  nonempty : ∀ file ∈ added, file.sizes.length ≠ 0
  ids : (added.map FileChunks.id).Nodup
  /-- they come from the queue, and what is left is what was there -/
  source : ∀ file ∈ added, ∃ e ∈ q, e.file.id = file.id
  left : (q'.map FileChunksIterator.file).Sublist (q.map FileChunksIterator.file)
  /-- past them the index map is right for what is left -/
  index : ∀ e ∈ q', indexes.advance added e.file.id = some e.nextIndex
  /-- the loop ended with the queue or at a range over budget -/
  stop : q' = [] ∨ ∃ e rest s, q' = e :: rest ∧ s ∈ e.file.sizes ∧
    (memoryLimit : Int) - (memorySize + totalSize added : Nat) < s

/-- A queue left as it is. -/
theorem Packs.refl {memoryLimit memorySize : Nat} {indexes : Dict} {q : List FileChunksIterator}
    (ht : Tracked indexes q) (hmem : memorySize ≤ memoryLimit)
    (hstop : q = [] ∨ ∃ e rest s, q = e :: rest ∧ s ∈ e.file.sizes ∧
      (memoryLimit : Int) - (memorySize : Nat) < s) :
    Packs memoryLimit memorySize indexes q q [] where
  ranges := rfl
  fits := hmem
  nonempty := by simp
  ids := List.nodup_nil
  source := by simp
  left := List.Sublist.refl _
  index := ht.index
  stop := hstop

/-- A file without pending ranges is skipped. -/
theorem Packs.skip {memoryLimit memorySize : Nat} {indexes : Dict} {it : FileChunksIterator}
    {rest q' : List FileChunksIterator} {added : List FileChunks}
    (h : Packs memoryLimit memorySize indexes rest q' added) (hnone : it.pending = []) :
    Packs memoryLimit memorySize indexes (it :: rest) q' added where
  ranges := by
    rw [pending, List.flatMap_cons, hnone, List.nil_append]
    exact h.ranges
  fits := h.fits
  nonempty := h.nonempty
  ids := h.ids
  source file hfile := by
    obtain ⟨e, he, hid⟩ := h.source file hfile
    exact ⟨e, List.mem_cons_of_mem it he, hid⟩
  left := h.left.cons it.file
  index := h.index
  stop := h.stop

/-- The prefix of a file that ends there is packed, and packing goes on with
the files behind it. -/
theorem Packs.cons {memoryLimit memorySize : Nat} {indexes : Dict} {it : FileChunksIterator}
    {rest q' : List FileChunksIterator} {added : List FileChunks} {size : Int}
    (ht : Tracked indexes (it :: rest))
    (hsome : (it.nextChunks size).1.sizes.length ≠ 0)
    (hend : (it.nextChunks size).2.isFinished = true)
    (h : Packs memoryLimit (memorySize + (it.nextChunks size).1.totalSize)
      (indexes.advance [(it.nextChunks size).1]) rest q' added) :
    Packs memoryLimit memorySize indexes (it :: rest) q' ((it.nextChunks size).1 :: added) := by
  set chunks := (it.nextChunks size).1 with hchunks
  have hid : chunks.id = it.file.id := rfl
  -- the files added behind it are other files, so the map is unchanged for them
  have hother : ∀ file ∈ added, file.id ≠ chunks.id := by
    intro file hfile
    obtain ⟨e, he, hsame⟩ := h.source file hfile
    rw [← hsame, hid]
    exact ht.head_ne e he
  have hindex : ∀ file ∈ added, (indexes.advance [chunks]) file.id = indexes file.id := by
    intro file hfile
    apply advance_of_not_mem
    intro f hf
    rw [List.mem_singleton.mp hf]
    exact Ne.symm (hother file hfile)
  have htotal : totalSize (chunks :: added) = chunks.totalSize + totalSize added := by
    rw [totalSize, List.map_cons, List.sum_cons]
    rfl
  constructor
  case ranges =>
    have hhead : indexes chunks.id = some it.nextIndex := by
      rw [hid]
      exact ht.index it List.mem_cons_self
    have hrest : added.flatMap
          (fun file => file.rangesFrom (((indexes.advance [chunks]) file.id).getD 0))
        = added.flatMap (fun file => file.rangesFrom ((indexes file.id).getD 0)) :=
      List.flatMap_congr (fun file hfile => by rw [hindex file hfile])
    have hranges := h.ranges
    rw [hrest] at hranges
    rw [pending, List.flatMap_cons, ← pending, hranges, nextChunks_ranges it size,
      pending_nil_of_finished hend, List.flatMap_cons, hhead, Option.getD_some,
      List.append_nil, List.append_assoc]
  case fits =>
    have := h.fits
    omega
  case nonempty =>
    intro file hfile
    rcases List.mem_cons.mp hfile with rfl | hfile
    · exact hsome
    · exact h.nonempty file hfile
  case ids =>
    rw [List.map_cons, List.nodup_cons]
    refine ⟨fun hmem => ?_, h.ids⟩
    obtain ⟨file, hfile, hsame⟩ := List.mem_map.mp hmem
    exact hother file hfile hsame
  case source =>
    intro file hfile
    rcases List.mem_cons.mp hfile with rfl | hfile
    · exact ⟨it, List.mem_cons_self, hid.symm⟩
    · obtain ⟨e, he, hsame⟩ := h.source file hfile
      exact ⟨e, List.mem_cons_of_mem it he, hsame⟩
  case left => exact h.left.cons it.file
  case index => exact h.index
  case stop =>
    rcases h.stop with hnil | ⟨e, r, s, hq, hmem, hover⟩
    · exact Or.inl hnil
    · refine Or.inr ⟨e, r, s, hq, hmem, ?_⟩
      rw [htotal]
      omega

/-- The prefix of a file that goes on past the budget is packed last. -/
theorem Packs.last {memoryLimit memorySize : Nat} {indexes : Dict} {it : FileChunksIterator}
    {rest : List FileChunksIterator} (ht : Tracked indexes (it :: rest))
    (hmem : memorySize ≤ memoryLimit)
    (hopen : (it.nextChunks (memoryLimit - memorySize)).2.isFinished = false)
    (hsome : (it.nextChunks (memoryLimit - memorySize)).1.sizes.length ≠ 0) :
    Packs memoryLimit memorySize indexes (it :: rest)
      ((it.nextChunks (memoryLimit - memorySize)).2 :: rest)
      [(it.nextChunks (memoryLimit - memorySize)).1] := by
  obtain ⟨s, hget, hover⟩ := nextChunks_stop hopen
  have hle := nextChunks_le it (memoryLimit - memorySize) (by omega)
  have hcount := (nextChunks_count it (memoryLimit - memorySize)).2
  have hhead := ht.index it List.mem_cons_self
  set chunks := (it.nextChunks (memoryLimit - memorySize)).1 with hchunks
  set it' := (it.nextChunks (memoryLimit - memorySize)).2 with hit'
  have hid : chunks.id = it.file.id := rfl
  have hfile : it'.file = it.file := rfl
  have htotal : totalSize [chunks] = chunks.totalSize := by
    rw [totalSize, List.map_singleton, List.sum_singleton]
  constructor
  case ranges =>
    rw [pending, List.flatMap_cons, nextChunks_ranges it (memoryLimit - memorySize),
      List.flatMap_singleton, hid, hhead, Option.getD_some, pending, List.flatMap_cons,
      List.append_assoc]
  case fits =>
    rw [htotal]
    omega
  case nonempty =>
    intro file hf
    rw [List.mem_singleton.mp hf]
    exact hsome
  case ids => exact List.nodup_singleton _
  case source =>
    intro file hf
    rw [List.mem_singleton.mp hf]
    exact ⟨it, List.mem_cons_self, hid.symm⟩
  case left => exact List.Sublist.refl _
  case index =>
    intro e he
    rcases List.mem_cons.mp he with rfl | he
    · rw [advance_cons, hfile, ← hid, hid, hhead, hcount]
      exact Function.update_self _ _ _
    · rw [advance_of_not_mem, ht.index e (List.mem_cons_of_mem it he)]
      intro f hf
      rw [List.mem_singleton.mp hf, hid]
      exact Ne.symm (ht.head_ne e he)
  case stop =>
    refine Or.inr ⟨it', rest, s, rfl, ?_, ?_⟩
    · exact List.mem_of_getElem? hget
    · rw [htotal]
      omega

/-- **The packing loop**, from any point of it. -/
theorem pack_spec {memoryLimit : Nat} {q : List FileChunksIterator} {request : FilesRequest}
    {memorySize : Nat} {indexes : Dict} (ht : Tracked indexes q)
    (hmem : memorySize ≤ memoryLimit) :
    ∃ added, (pack memoryLimit q request memorySize).2
        = added.foldl FilesRequest.append request ∧
      Packs memoryLimit memorySize indexes q (pack memoryLimit q request memorySize).1 added := by
  induction q generalizing request memorySize indexes with
  | nil =>
      refine ⟨[], ?_⟩
      rw [pack]
      exact ⟨rfl, Packs.refl ht hmem (Or.inl rfl)⟩
  | cons it rest ih =>
      have hle := nextChunks_le it (memoryLimit - memorySize) (by omega)
      rw [pack_cons]
      by_cases hnone : (it.nextChunks (memoryLimit - memorySize)).1.sizes.length = 0
      · rw [if_pos hnone]
        -- no range was taken, so the iterator is where it was
        have hranges := nextChunks_ranges it (memoryLimit - memorySize)
        have hempty : (it.nextChunks (memoryLimit - memorySize)).1.rangesFrom it.nextIndex = [] :=
          List.eq_nil_of_length_eq_zero (by rw [rangesFrom_length, hnone])
        rw [hempty, List.nil_append] at hranges
        by_cases hend : (it.nextChunks (memoryLimit - memorySize)).2.isFinished = true
        · -- skipped
          rw [if_pos hend]
          obtain ⟨added, hrequest, hpacks⟩ := @ih request memorySize indexes ht.tail hmem
          refine ⟨added, hrequest, hpacks.skip ?_⟩
          rw [hranges, pending_nil_of_finished hend]
        · -- closed: nothing fits
          rw [if_neg hend]
          have hopen : (it.nextChunks (memoryLimit - memorySize)).2.isFinished = false := by
            simpa using hend
          obtain ⟨s, hget, hover⟩ := nextChunks_stop hopen
          have hsame : (it.nextChunks (memoryLimit - memorySize)).2 = it := by
            have hcount := (nextChunks_count it (memoryLimit - memorySize)).2
            rw [hnone, Nat.add_zero] at hcount
            show (⟨it.file, (it.nextChunks (memoryLimit - memorySize)).2.nextIndex⟩ :
              FileChunksIterator) = it
            rw [hcount]
          rw [FileChunks.totalSize, List.eq_nil_of_length_eq_zero hnone] at hover
          refine ⟨[], rfl, ?_⟩
          rw [hsame]
          refine Packs.refl ht hmem (Or.inr ⟨it, rest, s, rfl, List.mem_of_getElem? hget, ?_⟩)
          simpa using hover
      · rw [if_neg hnone]
        by_cases hend : (it.nextChunks (memoryLimit - memorySize)).2.isFinished = true
        · -- the file ends in this request
          rw [if_pos hend]
          have htracked : Tracked
              (indexes.advance [(it.nextChunks (memoryLimit - memorySize)).1]) rest := by
            refine ⟨ht.tail.ids, fun e he => ?_⟩
            rw [advance_of_not_mem, ht.tail.index e he]
            intro f hf
            rw [List.mem_singleton.mp hf]
            exact Ne.symm (ht.head_ne e he)
          obtain ⟨added, hrequest, hpacks⟩ := @ih
            (request.append (it.nextChunks (memoryLimit - memorySize)).1)
            (memorySize + (it.nextChunks (memoryLimit - memorySize)).1.totalSize) _
            htracked (by omega)
          exact ⟨_ :: added, hrequest, Packs.cons ht hnone hend hpacks⟩
        · -- the file is cut: its next range does not fit, so the loop ends
          rw [if_neg hend]
          have hopen : (it.nextChunks (memoryLimit - memorySize)).2.isFinished = false := by
            simpa using hend
          obtain ⟨s, hget, hover⟩ := nextChunks_stop hopen
          rw [pack_full hget (by push_cast; omega)]
          exact ⟨[_], rfl, Packs.last ht hmem hopen hnone⟩

end ModelStreamer.FileStreamer
