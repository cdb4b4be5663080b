/-
  ModelStreamer.Planning.Refused
  ──────────────────────────────
  **WHICH REQUESTS ARE PLANNED.**

  Planning has two checks: `coalesce` refuses a request of 2^64 bytes or
  more, `Batch::Range` an end before its start.  The second is met exactly
  where a range wraps, however it was merged or split: a task that does not
  wrap is where its offset says, and the tasks of a range are its pieces, one
  behind the other.  Either way the code is `InvalidParameterError`; the
  `ASSERT`s never fire.

    • `plan_noWrap` — no range of a plan wraps,
    • `assigner_refuses` — the Assigner refuses too many bytes only,
    • `plan_refuses` — and the batches wrapping ranges only.
-/
import ModelStreamer.Planning.Lossless

namespace ModelStreamer.Planning

open ModelStreamer.Lib

/-! ## §1. A plan that is built does not wrap. -/

/-- **Pieces that do not wrap** are pieces of a range that does not. -/
theorem numbered_noWrap {sizes : List Nat} :
    ∀ {k offset rel : Nat}, offset < 2 ^ 64 →
      (∀ e ∈ numbered k offset rel sizes, e.2.stop = e.2.offset + e.2.bytesize) →
      offset + sizes.sum < 2 ^ 64 := by
  induction sizes with
  | nil =>
      intro k offset rel hoffset _
      simpa using hoffset
  | cons s sizes ih =>
      intro k offset rel _ hpieces
      rw [numbered, List.forall_mem_cons] at hpieces
      obtain ⟨hfirst, hrest⟩ := hpieces
      have hfirst : wrap (offset + s) = offset + s := hfirst
      have hlt : offset + s < 2 ^ 64 := by
        rw [← hfirst]
        exact wrap_lt _
      rw [hfirst] at hrest
      have := ih hlt hrest
      rw [List.sum_cons]
      omega

/-- **No range of a plan wraps.** -/
theorem plan_noWrap {config : Config} {submissionId : Nat} {request : List FileRanges} {p : Plan}
    (hworkers : 1 ≤ numWorkers config request) (h : plan config submissionId request = .ok p) :
    NoWrap request := by
  intro file hfile range hrange
  obtain ⟨⟨cuts, hall, -, hperm⟩, -⟩ := plan_ok hworkers h
  obtain ⟨f, hf⟩ := List.mem_iff_getElem?.mp hfile
  obtain ⟨j, hj⟩ := List.mem_iff_getElem?.mp hrange
  have hmem : (⟨f, j, range⟩ : Indexed) ∈ indexFiles 0 request := by
    refine mem_indexFiles.mpr ⟨Nat.zero_le _, ?_⟩
    rw [rangeAt, Option.bind_eq_some_iff]
    exact ⟨file, hf, hj⟩
  obtain ⟨cut, hcut, -, hsel⟩ := hall.select (indexFiles_keys 0 request) _ hmem
  have htasks : (p.tasksOf f j).Perm cut.2 := by
    rw [← hsel]
    exact hperm.filter _
  obtain ⟨k, sizes, -, hsum, hpieces⟩ := hcut.pieces
  rw [← hsum]
  refine @numbered_noWrap sizes k range.offset 0 range.offset_lt (fun e he => ?_)
  -- each piece is the info of a task of the plan
  have htask : (⟨cut.1, e.2⟩ : Task) ∈ cut.2 := by
    rw [hpieces, tasksOf]
    exact List.mem_map_of_mem he
  have hplanned := List.mem_of_mem_filter (htasks.mem_iff.mpr htask)
  obtain ⟨batch, hbatch, hin⟩ := List.mem_flatMap.mp hplanned
  exact (planned_stops hworkers h batch hbatch _ hin).1

instance (request : List FileRanges) : Decidable (NoWrap request) := by
  unfold NoWrap
  infer_instance

/-! ## §2. The code of a refusal. -/

theorem coalesceRanges_error {fileIndex : Nat} (ranges : List ReadRange) :
    ∀ {i total : Nat} {current : Option ContiguousTransfer} {e : Failure},
      coalesceRanges fileIndex i ranges current total = .error e →
      e = .exception .invalidParameterError := by
  induction ranges with
  | nil =>
      intro i total current e h
      simp [coalesceRanges] at h
  | cons range ranges ih =>
      intro i total current e h
      rw [coalesceRanges] at h
      split at h
      next =>
        simp only [Except.error.injEq] at h
        exact h.symm
      next =>
        cases current with
        | none => exact ih h
        | some current =>
            simp only at h
            split at h
            · exact ih h
            · split at h
              next e' hrun =>
                simp only [Except.error.injEq] at h
                rw [← h]
                exact ih hrun
              next => simp at h

theorem coalesceFiles_error (files : List FileRanges) :
    ∀ {fileIndex total : Nat} {e : Failure}, coalesceFiles fileIndex files total = .error e →
      e = .exception .invalidParameterError := by
  induction files with
  | nil =>
      intro fileIndex total e h
      simp [coalesceFiles] at h
  | cons file files ih =>
      intro fileIndex total e h
      rw [coalesceFiles] at h
      split at h
      next e' hrun =>
        simp only [Except.error.injEq] at h
        rw [← h]
        exact coalesceRanges_error file.ranges hrun
      next =>
        split at h
        next e' hrest =>
          simp only [Except.error.injEq] at h
          rw [← h]
          exact ih hrest
        next => simp at h

/-- **The Assigner refuses too many bytes only.** -/
theorem assigner_refuses {config : Config} {request : List FileRanges} {e : Failure}
    (hworkers : 1 ≤ numWorkers config request) (h : Assigner.new config request = .error e) :
    e = .exception .invalidParameterError ∧ 2 ^ 64 ≤ requestBytes request := by
  have hbytes : 2 ^ 64 ≤ requestBytes request := by
    by_contra hlt
    obtain ⟨assigner, hnew⟩ := assigner_total hworkers (Nat.lt_of_not_le hlt)
    rw [hnew] at h
    simp at h
  refine ⟨?_, hbytes⟩
  rw [Assigner.new] at h
  split at h
  next => simp at h
  next =>
    split at h
    next e' hrun =>
      simp only [Except.error.injEq] at h
      rw [← h]
      exact coalesceFiles_error request hrun
    next transfers total hrun =>
      have := coalesceFiles_total request (by omega) hrun
      omega

theorem makeBatches_error {submissionId fileIndex : Nat} {path : String}
    {uri : Option StorageUri} (slices : List FileReadTask) :
    ∀ {vTasks : List (List Task)} {e : Failure},
      makeBatches submissionId fileIndex path uri slices vTasks = .error e →
      e = .exception .invalidParameterError := by
  induction slices with
  | nil =>
      intro vTasks e h
      simp [makeBatches] at h
  | cons slice slices ih =>
      intro vTasks e h
      cases vTasks with
      | nil => simp [makeBatches] at h
      | cons tasks vTasks =>
          rw [makeBatches] at h
          split at h
          next => exact ih h
          next =>
            cases hrange : BatchRange.new tasks with
            | error e' =>
                simp only [hrange, Except.error.injEq] at h
                rw [BatchRange.new] at hrange
                split at hrange
                next => simp at hrange
                next =>
                  simp only [Except.error.injEq] at hrange
                  rw [← h, ← hrange]
            | ok range =>
                simp only [hrange] at h
                split at h
                next e' hmake =>
                  simp only [Except.error.injEq] at h
                  rw [← h]
                  exact ih hmake
                next => simp at h

/-- The batches of a transfer that covers ranges fail by their ranges only. -/
theorem batchesNew_error {submissionId n : Nat} {path : String} {t : ContiguousTransfer}
    {g : Group} {e : Failure} (hcov : Serves t g) (hsliced : t.Sliced n)
    (h : Batches.new submissionId path t = .error e) :
    e = .exception .invalidParameterError := by
  obtain ⟨vTasks, cuts, hbuild, -⟩ := buildTasks_spec hcov hsliced
  rw [Batches.new, hbuild] at h
  simp only at h
  split at h
  next e' hmake =>
    simp only [Except.error.injEq] at h
    rw [← h]
    exact makeBatches_error t.tasks hmake
  next => simp at h

theorem planTransfers_error {submissionId n : Nat} {request : List FileRanges}
    {ts : List ContiguousTransfer} {groups : List Group} (h : List.Forall₂ Serves ts groups) :
    ∀ {e : Failure}, (∀ t ∈ ts, t.Sliced n) →
      planTransfers submissionId request ts = .error e →
      e = .exception .invalidParameterError := by
  induction h with
  | nil =>
      intro e _ hrun
      simp [planTransfers] at hrun
  | @cons t g ts groups hserve _ ih =>
      intro e hsliced hrun
      rw [planTransfers] at hrun
      split at hrun
      next e' hnew =>
        simp only [Except.error.injEq] at hrun
        rw [← hrun]
        exact batchesNew_error hserve (hsliced t (by simp)) hnew
      next =>
        split at hrun
        next e' hrest =>
          simp only [Except.error.injEq] at hrun
          rw [← hrun]
          exact ih (fun u hu => hsliced u (by simp [hu])) hrest
        next => simp at hrun

/-- **The batches refuse wrapping ranges only.** -/
theorem plan_refuses {config : Config} {submissionId : Nat} {request : List FileRanges}
    {assigner : Assigner} (hworkers : 1 ≤ numWorkers config request)
    (hnew : Assigner.new config request = .ok assigner) :
    (NoWrap request →
      ∃ batches, planTransfers submissionId request assigner.transfers = .ok batches) ∧
    (¬ NoWrap request → planTransfers submissionId request assigner.transfers
      = .error (.exception .invalidParameterError)) := by
  obtain ⟨groups, hserves, hindex, hsliced⟩ := assigner_ok hworkers hnew
  refine ⟨fun hno => planTransfers_total submissionId request hserves hsliced
    (groups_noWrap hno hindex), fun hwraps => ?_⟩
  cases hplan : planTransfers submissionId request assigner.transfers with
  | error e => rw [planTransfers_error hserves hsliced hplan]
  | ok batches =>
      have hok : plan config submissionId request
          = .ok ⟨assigner.numWorkloads, batches.batches, batches.requests⟩ := by
        rw [plan, hnew]
        simp only [hplan]
      exact absurd (plan_noWrap hworkers hok) hwraps

end ModelStreamer.Planning
