/-
  ModelStreamer.Planning.Merged
  ─────────────────────────────
  **COALESCING MAKES RUNS.**

  The transfers of a file are the runs of its ranges, in the order given:
  a run goes on as long as the next range is adjacent in the file and in the
  destination.

    • `coalesce_runs` — the transfers of each file of a request.
-/
import ModelStreamer.Planning.Coalesced
import ModelStreamer.Lib.Runs

namespace ModelStreamer.Planning

open ModelStreamer.Lib

/-- Adjacent in BOTH the file and the destination. -/
def BothAdjacent (a b : ReadRange) : Prop :=
  wrap (a.offset + a.size) = b.offset ∧ wrap (a.dst + a.size) = b.dst

instance : DecidableRel BothAdjacent := fun a b => by
  unfold BothAdjacent
  infer_instance

/-- The ranges of a transfer, by their index in the file. -/
def ContiguousTransfer.rangeSpan (t : ContiguousTransfer) : Span :=
  ⟨t.firstRangeIndex, t.rangeSizes.length⟩

/-- The transfers of one file. -/
def transfersOf (fileIndex : Nat) (transfers : List ContiguousTransfer) : List ContiguousTransfer :=
  transfers.filter (fun t => decide (t.fileIndex = fileIndex))

/-- The transfer ends where its last range does. -/
def ContiguousTransfer.EndsWith (t : ContiguousTransfer) (range : ReadRange) : Prop :=
  wrap (t.offset + t.size) = wrap (range.offset + range.size) ∧
    wrap (t.destination + t.size) = wrap (range.dst + range.size)

theorem ContiguousTransfer.EndsWith.adjacent_iff {t : ContiguousTransfer} {a b : ReadRange} (h : t.EndsWith a) :
    t.adjacent b = true ↔ BothAdjacent a b := by
  unfold ContiguousTransfer.adjacent BothAdjacent
  rw [Bool.and_eq_true, decide_eq_true_iff, decide_eq_true_iff, h.1, h.2]

theorem endsWith_opened (fileIndex i : Nat) (range : ReadRange) :
    (ContiguousTransfer.opened fileIndex i range).EndsWith range := ⟨rfl, rfl⟩

/-- An adjacent range becomes the last one. -/
theorem endsWith_extend {t : ContiguousTransfer} {range : ReadRange} (h : t.adjacent range = true) :
    (t.extend range).EndsWith range := by
  unfold ContiguousTransfer.adjacent at h
  rw [Bool.and_eq_true, decide_eq_true_iff, decide_eq_true_iff] at h
  obtain ⟨hoffset, hdst⟩ := h
  unfold ContiguousTransfer.extend ContiguousTransfer.EndsWith
  simp only
  rw [← hoffset, ← hdst, wrap_wrap_add, wrap_wrap_add, Nat.add_assoc, Nat.add_assoc]
  exact ⟨rfl, rfl⟩

/-- The inner loop, with a transfer open whose last range is `a`. -/
theorem coalesceRanges_runsFrom {fileIndex i total total' : Nat} {ranges : List ReadRange}
    {t : ContiguousTransfer} {a : ReadRange} {ts : List ContiguousTransfer}
    (hfile : t.fileIndex = fileIndex) (hi : i = t.firstRangeIndex + t.rangeSizes.length)
    (hends : t.EndsWith a)
    (h : coalesceRanges fileIndex i ranges (some t) total = .ok (ts, total')) :
    ts.map ContiguousTransfer.rangeSpan
        = runsFrom BothAdjacent t.firstRangeIndex t.rangeSizes.length a ranges ∧
      ∀ u ∈ ts, u.fileIndex = fileIndex := by
  induction ranges generalizing i total t a ts total' with
  | nil =>
      unfold coalesceRanges at h
      obtain ⟨rfl, -⟩ : [t] = ts ∧ total = total' := by simpa using h
      exact ⟨rfl, fun u hu => by rw [List.mem_singleton.mp hu, hfile]⟩
  | cons range ranges ih =>
      unfold coalesceRanges at h
      split at h
      · simp at h
      · simp only at h
        unfold runsFrom
        by_cases hadj : t.adjacent range = true
        · rw [if_pos hadj] at h
          rw [if_pos (hends.adjacent_iff.mp hadj)]
          have hlen : (t.extend range).rangeSizes.length = t.rangeSizes.length + 1 := by
            unfold ContiguousTransfer.extend
            rw [List.length_append, List.length_singleton]
          have hgrown := ih (t := t.extend range) hfile (by rw [hlen, hi]; rfl)
            (endsWith_extend hadj) h
          rw [hlen] at hgrown
          exact hgrown
        · rw [if_neg hadj] at h
          rw [if_neg (fun hboth => hadj (hends.adjacent_iff.mpr hboth))]
          split at h
          · simp at h
          · next transfers total'' hrest =>
              obtain ⟨rfl, -⟩ : t :: transfers = ts ∧ total'' = total' := by simpa using h
              obtain ⟨hspans, hfiles⟩ :=
                ih rfl rfl (endsWith_opened fileIndex i range) hrest
              refine ⟨?_, ?_⟩
              · rw [List.map_cons, hspans, hi]
                rfl
              · intro u hu
                rcases List.mem_cons.mp hu with rfl | hu
                · exact hfile
                · exact hfiles u hu

/-- The inner loop on a whole file. -/
theorem coalesceRanges_runs {fileIndex total total' : Nat} {ranges : List ReadRange}
    {ts : List ContiguousTransfer}
    (h : coalesceRanges fileIndex 0 ranges none total = .ok (ts, total')) :
    ts.map ContiguousTransfer.rangeSpan = runs BothAdjacent ranges ∧
      ∀ u ∈ ts, u.fileIndex = fileIndex := by
  cases ranges with
  | nil =>
      unfold coalesceRanges at h
      obtain ⟨rfl, -⟩ : [] = ts ∧ total = total' := by simpa using h
      exact ⟨rfl, by simp⟩
  | cons range ranges =>
      unfold coalesceRanges at h
      split at h
      · simp at h
      · exact coalesceRanges_runsFrom rfl rfl (endsWith_opened fileIndex 0 range) h

theorem coalesceFiles_index {fileIndex total total' : Nat} {files : List FileRanges}
    {ts : List ContiguousTransfer} (h : coalesceFiles fileIndex files total = .ok (ts, total')) :
    ∀ t ∈ ts, fileIndex ≤ t.fileIndex := by
  induction files generalizing fileIndex total ts total' with
  | nil =>
      unfold coalesceFiles at h
      obtain ⟨rfl, -⟩ : [] = ts ∧ total = total' := by simpa using h
      simp
  | cons file files ih =>
      unfold coalesceFiles at h
      split at h
      · simp at h
      · next transfers total₁ hfile =>
          split at h
          · simp at h
          · next rest total₂ hrest =>
              obtain ⟨rfl, -⟩ : transfers ++ rest = ts ∧ total₂ = total' := by simpa using h
              intro t ht
              rcases List.mem_append.mp ht with ht | ht
              · rw [(coalesceRanges_runs hfile).2 t ht]
              · have := ih hrest t ht
                omega

theorem coalesceFiles_runs {fileIndex total total' : Nat} {files : List FileRanges}
    {ts : List ContiguousTransfer} (h : coalesceFiles fileIndex files total = .ok (ts, total'))
    {k : Nat} {file : FileRanges} (hk : files[k]? = some file) :
    (transfersOf (fileIndex + k) ts).map ContiguousTransfer.rangeSpan
      = runs BothAdjacent file.ranges := by
  induction files generalizing fileIndex total ts total' k with
  | nil => simp at hk
  | cons first files ih =>
      unfold coalesceFiles at h
      split at h
      · simp at h
      · next transfers total₁ hfirst =>
          split at h
          · simp at h
          · next rest total₂ hrest =>
              obtain ⟨rfl, -⟩ : transfers ++ rest = ts ∧ total₂ = total' := by simpa using h
              obtain ⟨hspans, hindex⟩ := coalesceRanges_runs hfirst
              have hlater := coalesceFiles_index hrest
              unfold transfersOf
              rw [List.filter_append]
              cases k with
              | zero =>
                  obtain rfl : first = file := by simpa using hk
                  -- all of the first file's transfers, and none of the others'
                  rw [List.filter_eq_self.mpr (fun t ht => by rw [hindex t ht]; simp),
                    List.filter_eq_nil_iff.mpr (fun t ht => by
                      have := hlater t ht
                      simp only [decide_eq_true_eq]
                      omega), List.append_nil]
                  exact hspans
              | succ k =>
                  rw [List.filter_eq_nil_iff.mpr (fun t ht => by
                    rw [hindex t ht]
                    simp), List.nil_append]
                  have hnext := ih hrest (k := k) (by simpa using hk)
                  rw [Nat.add_assoc, Nat.add_comm 1 k] at hnext
                  exact hnext

/-- **The transfers of a file are the runs of its ranges.** -/
theorem coalesce_runs {request : List FileRanges} {ts : List ContiguousTransfer} {total : Nat}
    (h : coalesce request = .ok (ts, total)) {f : Nat} {file : FileRanges}
    (hf : request[f]? = some file) :
    (transfersOf f ts).map ContiguousTransfer.rangeSpan = runs BothAdjacent file.ranges := by
  have hruns := coalesceFiles_runs h hf
  rw [Nat.zero_add] at hruns
  exact hruns

end ModelStreamer.Planning
