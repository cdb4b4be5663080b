/-
  ModelStreamer.Delivery.Unwrapped
  ────────────────────────────────
  **NOTHING THAT WRAPS IS COMMITTED.**

  Offsets and sizes are words.  Merging compares their sums, slices and
  tasks are cut at them, and none of this is guarded on its own; two checks
  are enough.  `coalesce` refuses a request of 2^64 bytes or more, and
  `Batch::Range` refuses an end before its start.  So a batch that wraps is
  refused; a task that does not wrap is where its offset says; and the tasks
  of a range are its pieces, one behind the other, so neither does the range
  wrap, nor the run it was merged into.

    • `unwrapped` — with the ranges (`plan_noWrap`), nothing derived from them
      wraps,
    • `wrapping_rejected` — as `async_request` sees it.
-/
import ModelStreamer.Delivery.Outcome

namespace ModelStreamer.Delivery

open ModelStreamer.Lib ModelStreamer.Planning

/-! ## §1. What is derived from the ranges. -/

/-- Slices of a transfer stay inside it. -/
theorem slicesAt_inside {t : ContiguousTransfer} {cuts : List (Nat × Nat)} :
    ∀ {pos : Nat}, t.offset + pos + cutBytes cuts < 2 ^ 64 →
      ∀ slice ∈ t.slicesAt pos cuts,
        t.offset + pos ≤ slice.offsetInFile ∧
          slice.offsetInFile + slice.size ≤ t.offset + pos + cutBytes cuts := by
  induction cuts with
  | nil =>
      intro pos _ slice hslice
      simp [ContiguousTransfer.slicesAt] at hslice
  | cons c cuts ih =>
      intro pos hlt slice hslice
      rw [cutBytes_cons] at hlt ⊢
      simp only [ContiguousTransfer.slicesAt, List.mem_cons] at hslice
      rcases hslice with rfl | hslice
      · have hoffset : (t.slice c.1 pos c.2).offsetInFile = t.offset + pos :=
          wrap_of_lt (by omega)
        have hsize : (t.slice c.1 pos c.2).size = c.2 := rfl
        omega
      · have := ih (by omega) slice hslice
        omega

/-- **Nothing wraps**: not the ranges, not the runs they are merged into, not
the slices the workers get of these, no batch, no task, no total of sizes. -/
structure Unwrapped (request : List FileRanges) (assigner : Assigner) (p : Plan) : Prop where
  ranges : NoWrap request
  total : requestBytes request < 2 ^ 64
  run : ∀ t ∈ assigner.transfers, t.offset + t.size < 2 ^ 64
  slice : ∀ t ∈ assigner.transfers, ∀ slice ∈ t.tasks,
    t.offset ≤ slice.offsetInFile ∧ slice.offsetInFile + slice.size ≤ t.offset + t.size
  batch : ∀ batch ∈ p.batches,
    batch.range.stop = batch.range.start + tasksBytes batch.tasks ∧ batch.range.stop < 2 ^ 64
  task : ∀ batch ∈ p.batches, ∀ task ∈ batch.tasks,
    task.info.stop = task.info.offset + task.info.bytesize ∧ task.info.stop < 2 ^ 64

/-- **In a plan that is built nothing wraps.** -/
theorem unwrapped {config : Config} {submissionId : Nat} {request : List FileRanges}
    {assigner : Assigner} {p : Plan} (hworkers : 1 ≤ numWorkers config request)
    (hnew : Assigner.new config request = .ok assigner)
    (h : plan config submissionId request = .ok p) : Unwrapped request assigner p := by
  have hno := plan_noWrap hworkers h
  obtain ⟨groups, hserves, hindex, hsliced⟩ := assigner_ok hworkers hnew
  have hgroups := groups_noWrap hno hindex
  -- a run ends where the last of its ranges does
  have hrun : ∀ t ∈ assigner.transfers, t.offset + t.size < 2 ^ 64 := by
    intro t ht
    obtain ⟨i, hi, rfl⟩ := List.mem_iff_getElem.mp ht
    have hi' : i < groups.length := by
      rw [← hserves.length_eq]
      exact hi
    have hserve : Serves assigner.transfers[i] groups[i] := hserves.get hi hi'
    rw [hserve.size_eq]
    exact hserve.placed.no_wrap hserve.offset_lt (hgroups _ (List.getElem_mem hi'))
  have hstart : ∀ batch ∈ p.batches,
      batch.range.stop = batch.range.start + tasksBytes batch.tasks ∧
        batch.range.stop < 2 ^ 64 := by
    intro batch hbatch
    obtain ⟨task, tasks, htasks, -, hlt, hstop⟩ := planned_fits hworkers h hbatch
    have hrange := ((plan_ok hworkers h).batch batch hbatch).range_eq
    have hfirst : batch.range.start = task.info.offset := by
      rw [htasks, BatchRange.new] at hrange
      split at hrange
      · simp only [Except.ok.injEq] at hrange
        rw [← hrange]
        rfl
      · simp at hrange
    rw [hfirst]
    exact ⟨hstop, by omega⟩
  refine ⟨hno, plan_bytes h, hrun, ?_, hstart, ?_⟩
  · intro t ht slice hslice
    obtain ⟨cuts, htasks, hsum, -⟩ := hsliced t ht
    have hlt := hrun t ht
    rw [htasks] at hslice
    have hin := @slicesAt_inside t cuts 0 (by omega) slice hslice
    rw [hsum] at hin
    exact hin
  · intro batch hbatch task htask
    obtain ⟨hstop, hle⟩ := planned_stops hworkers h batch hbatch task htask
    have := (hstart batch hbatch).2
    exact ⟨hstop, by omega⟩

/-! ## §2. As `async_request` sees it. -/

variable {n : Nat}

/-- A submission that is accepted, and has ranges, was planned. -/
theorem accepted_planned {host : Host} {config : StreamerConfig} {s : Service n}
    {request : List FileRanges}
    (haccepted : (s.asyncRequest host config request).exit = .returned .success)
    (hpos : 0 < totalRanges request) :
    ∃ id assigner p, (s.asyncRequest host config request).outId = some id ∧
      Assigner.new config.config request = .ok assigner ∧
      plan config.config id request = .ok p := by
  unfold Service.asyncRequest at haccepted ⊢
  split at haccepted
  next hverified =>
    rw [if_pos hverified]
    split at haccepted
    next s' hlock =>
      split at haccepted
      next hlt =>
        simp only [dif_pos hlt]
        refine ⟨s'.core.mgr.generate.1, ?_⟩
        simp only [Service.submit] at haccepted
        rw [dif_neg (by omega)] at haccepted
        split at haccepted
        next => simp at haccepted
        next assigner hnew =>
          split at haccepted
          next s'' hbuild =>
            split at haccepted
            next => simp at haccepted
            next p hplan => exact ⟨assigner, p, rfl, hnew, hplan⟩
          next failed hne => exact (hne _ (Prod.ext haccepted rfl)).elim
      next => simp at haccepted
    next failed s' hne hlock => exact absurd haccepted hne
  next => simp at haccepted

/-- **Wrapping ranges are rejected before the commit**: with a range that
wraps the call fails, and the accounting is as it was; and in a submission
that is accepted nothing wraps. -/
theorem wrapping_rejected (host : Host) (config : StreamerConfig) (s : Service n)
    (request : List FileRanges) :
    ((∃ file ∈ request, ∃ range ∈ file.ranges,
        0 < range.size ∧ 2 ^ 64 ≤ range.offset + range.size) →
      (s.asyncRequest host config request).exit ≠ .returned .success ∧
        SameAccounting s.core (s.asyncRequest host config request).service.core) ∧
    ((s.asyncRequest host config request).exit = .returned .success →
      0 < totalRanges request →
      ∃ id assigner p, (s.asyncRequest host config request).outId = some id ∧
        Assigner.new config.config request = .ok assigner ∧
        plan config.config id request = .ok p ∧ Unwrapped request assigner p) := by
  have haccepted : (s.asyncRequest host config request).exit = .returned .success →
      0 < totalRanges request →
      ∃ id assigner p, (s.asyncRequest host config request).outId = some id ∧
        Assigner.new config.config request = .ok assigner ∧
        plan config.config id request = .ok p ∧ Unwrapped request assigner p := by
    intro hexit hpos
    obtain ⟨id, assigner, p, hid, hnew, hplan⟩ := accepted_planned hexit hpos
    exact ⟨id, assigner, p, hid, hnew, hplan, unwrapped (config.workers request) hnew hplan⟩
  refine ⟨?_, haccepted⟩
  rintro ⟨file, hfile, range, hrange, -, hwraps⟩
  have hpos : 0 < totalRanges request := by
    have hle : file.ranges.length ≤ totalRanges request :=
      List.single_le_sum (fun _ _ => Nat.zero_le _) _ (List.mem_map_of_mem hfile)
    have := List.length_pos_of_mem hrange
    omega
  have hrejected : (s.asyncRequest host config request).exit ≠ .returned .success := by
    intro hexit
    obtain ⟨id, assigner, p, -, -, -, hun⟩ := haccepted hexit hpos
    have := hun.ranges file hfile range hrange
    omega
  refine ⟨hrejected, ?_⟩
  rcases build_core hrejected with ⟨-, hcore⟩ | ⟨-, hcore⟩
  · rw [hcore]
    exact ⟨rfl, rfl, rfl, rfl, rfl, rfl⟩
  · rw [hcore]
    exact ⟨rfl, rfl, rfl, rfl, rfl, rfl⟩

/-- A range of two bytes, the second of them past the last address. -/
def pastTheEnd : List FileRanges := [⟨"/a", [⟨2 ^ 64 - 1, 2, 1, last_lt_word, two_lt_word, one_lt_word⟩]⟩]

/-- The last byte there is, read alone. -/
def lastByte : List FileRanges := [⟨"/a", [⟨2 ^ 64 - 2, 1, 1, by omega, one_lt_word, one_lt_word⟩]⟩]

/-- The one is refused, and in the other nothing wraps. -/
theorem wrapping_rejected_pastTheEnd :
    ((⟨idle, none, false, false⟩ : Service 1).asyncRequest noDescriptors oneWorker
      pastTheEnd).exit ≠ .returned .success ∧
    ∃ assigner p, Unwrapped lastByte assigner p := by
  have hrejected := ((wrapping_rejected noDescriptors oneWorker ⟨idle, none, false, false⟩
    pastTheEnd).1 ⟨_, List.mem_singleton.mpr rfl, _, List.mem_singleton.mpr rfl, by decide,
      by decide⟩).1
  have hexit := asyncRequest_exit noDescriptors oneWorker
    (.init idle_init : (streamer 1).Reachable (⟨idle, none, false, false⟩ : Service 1).core)
    lastByte
  have hjudge : (judge noDescriptors oneWorker.config ⟨none, false, false⟩ lastByte).1
      = .returned .success := by decide +kernel
  have haccepted := hexit.trans hjudge
  obtain ⟨-, assigner, p, -, -, -, hun⟩ := (wrapping_rejected noDescriptors oneWorker
    ⟨idle, none, false, false⟩ lastByte).2 haccepted (by decide)
  exact ⟨hrejected, assigner, p, hun⟩

end ModelStreamer.Delivery
