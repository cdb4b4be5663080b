/-
  ModelStreamer.ObjectStorage.NoneLost
  ────────────────────────────────────
  **NO WORKLOAD IS LOST TO AN EXCEPTION**, where the worker can answer it.

  A throw in the middle of `enqueue` ends in `abort_all`, so the worker is
  left as if the workload had been cut in full and then aborted.  What tells
  the two apart is the record of the past alone, and no hook reads it.  The
  run is therefore followed by one without throws, whose worker has the same
  present (`Twin`).

    • `Started.concluded` — a workload aborted half-built is reported in full,
    • `twin_step` — the two runs stay together,
    • `none_lost` — over whole runs,
    • `entry_lost` — a throw at the node of `_inflight` loses the workload.
-/
import ModelStreamer.ObjectStorage.Past
import ModelStreamer.ObjectStorage.Truthful

namespace ModelStreamer.ObjectStorage

open ModelStreamer.Lib ModelStreamer.Planning ModelStreamer.Delivery

/-! ## §1. Workloads that are aborted half-built. -/

/-- What is built of a workload: its batches, and of its tasks only such of
no bytes are reported. -/
structure Started (workload : Workload) (total : Nat) (wl : Inflight) : Prop where
  batches_eq : wl.batches = workload.batches
  size_le : blockSize wl ≤ total
  runs : ∃ finished, RunsAt wl.workload finished ∧ ∀ b i, finished b i →
    ∃ p ∈ placedTasks 0 workload.batches, p.ref = (b, i) ∧ p.value.info.bytesize = 0

/-- The loop of `enqueue`, stopped before the task `p`. -/
theorem started_loop {w : Worker} {workload : Workload} {total : Nat}
    (htotal : total = chunksTotal w.chunkBytesize workload.tasks)
    (hword : w.asyncHandleCounter + total < 2 ^ 64) {placed rest : List Placed} {p : Placed}
    (hplaced : placedTasks 0 workload.batches = placed ++ p :: rest) {b : Building}
    (hloop : enqueueLoop w.chunkBytesize w.chunk_pos w.asyncHandleCounter placed
      (buildingStart workload total) = .ok b) :
    Started workload total b.wl := by
  have hsub : ∀ q ∈ placed, q ∈ placedTasks 0 workload.batches := by
    intro q hq
    rw [hplaced]
    exact List.mem_append.mpr (.inl hq)
  have hroom : chunksTotal w.chunkBytesize ((([] : List Placed) ++ placed).map Placed.value)
      ≤ total := by
    rw [htotal, Workload.tasks, ← placedTasks_values 0, hplaced, List.nil_append]
    simp only [chunksTotal, List.map_append, List.sum_append]
    exact Nat.le_add_right _ _
  obtain ⟨b', cut, hok, hbuilt⟩ := enqueueLoop_ok w.chunk_pos hword placed
    (built_start w.chunkBytesize w.asyncHandleCounter total workload)
    (fun q hq => hasTask_placed (start_batches workload) (hsub q hq)) hroom
  obtain rfl : b' = b := Except.ok.inj (hok.symm.trans hloop)
  refine ⟨hbuilt.batches_eq, ?_, _, hbuilt.runs, ?_⟩
  · rw [blockSize, hbuilt.kept.idx_eq, List.length_append, List.length_map,
      List.length_replicate]
    have hcount := hbuilt.count
    rw [List.nil_append] at hcount hroom
    omega
  · rintro b₁ i ⟨q, hq, href, hempty⟩
    rw [List.nil_append] at hq
    exact ⟨q, hsub q hq, href, hempty⟩

theorem Half.started {w : Worker} {workload : Workload} {total : Nat} {half : Building}
    (h : Half w workload total half) (htotal : total = chunksTotal w.chunkBytesize workload.tasks)
    (hword : w.asyncHandleCounter + total < 2 ^ 64) : Started workload total half.wl := by
  cases h with
  | resize =>
      exact ⟨start_batches workload, Nat.zero_le _, _, runsAt_start workload,
        fun _ _ hf => hf.elim⟩
  | task placed rest p b hplaced hread hloop => exact started_loop htotal hword hplaced hloop
  | chunk placed rest p m b b' hplaced hloop hmore hchunks =>
      obtain ⟨hbatches, hsize, finished, hruns, hempty⟩ := started_loop htotal hword hplaced hloop
      obtain ⟨hworkload, hlength⟩ := chunkLoop_keeps _ _ _ _ _ hchunks
      refine ⟨?_, ?_, finished, ?_, hempty⟩
      · rw [Inflight.batches] at hbatches ⊢
        show b'.wl.workload.map Running.batch = _
        rw [hworkload]
        exact hbatches
      · show (b'.wl.chunkTaskIdx.set _ _).length ≤ total
        rw [List.length_set, hlength]
        exact hsize
      · show RunsAt b'.wl.workload finished
        rw [hworkload]
        exact hruns

/-- **A workload aborted half-built is reported in full**, whatever the
completions. -/
theorem Started.concluded {workload : Workload} {total : Nat} {wl : Inflight}
    (h : Started workload total wl) {code : ResponseCode} (hcode : code ≠ .success)
    (credits : List (Nat × ResponseCode)) (base : Nat) :
    Concluded credits base (wl.reportWorkload code) := by
  obtain ⟨finished, hruns, hempty⟩ := h.runs
  refine concluded_report hruns (fun b i hf => ?_) (fun b r _ hsuccess => ?_)
  · obtain ⟨p, hp, href, hzero⟩ := hempty b i hf
    rw [← h.batches_eq] at hp
    exact .inl ⟨p, hp, href, hzero⟩
  · rw [Inflight.errorCode, if_neg hcode] at hsuccess
    exact absurd hsuccess hcode

/-! ## §2. `enqueue`, whether it throws or not. -/

/-- What bringing the window up does not touch. -/
theorem windowUp_keeps {w wu : Worker} {workload : Workload} {backend : Backend}
    (hup : w.windowUp workload backend = some wu) :
    wu.inflight = w.inflight ∧ wu.reported = w.reported ∧ wu.credits = w.credits ∧
      wu.asyncHandleCounter = w.asyncHandleCounter := by
  unfold Worker.windowUp at hup
  cases hq : w.queue with
  | some q =>
      simp only [hq, Option.some.injEq] at hup
      subst hup
      exact ⟨rfl, rfl, rfl, rfl⟩
  | none =>
      obtain ⟨chunk, hchunk, reader, code, hcap, -⟩ := capacity_ok w workload backend
      have hpair : w.capacity workload backend
          = ((w.capacity workload backend).1, (w.capacity workload backend).2) := rfl
      simp only [hq] at hup
      rw [hpair, hcap] at hup
      cases hwindow : (w.capacity workload backend).2 with
      | none => simp [hwindow] at hup
      | some window =>
          simp only [hwindow, Option.some.injEq] at hup
          subst hup
          exact ⟨rfl, rfl, rfl, rfl⟩

/-- **The window is up**: what `enqueue` is called on. -/
theorem windowUp_ok {w wu : Worker} (h : w.Inv) {workload : Workload} {backend : Backend}
    (hup : w.windowUp workload backend = some wu) :
    wu.Inv ∧ wu.chunkBytesize = w.chunkFor workload ∧
      w.receive workload backend = (wu.enqueue workload).map (·, true) := by
  unfold Worker.windowUp at hup
  unfold Worker.receive
  cases hq : w.queue with
  | some q =>
      simp only [hq, Option.some.injEq] at hup
      subst hup
      exact ⟨h, by rw [Worker.chunkFor, if_pos (h.reader (by simp [hq]))], rfl⟩
  | none =>
      obtain ⟨chunk, hchunk, reader, code, hcap, hwindow⟩ := capacity_ok w workload backend
      have hinv := h.rebuild hq chunk hchunk reader code
      have hpair : w.capacity workload backend
          = ((w.capacity workload backend).1, (w.capacity workload backend).2) := rfl
      simp only [hq] at hup
      rw [hpair, hcap] at hup ⊢
      cases hsome : (w.capacity workload backend).2 with
      | none => simp [hsome] at hup
      | some window =>
          simp only [hsome, Option.some.injEq] at hup
          subst hup
          obtain ⟨hreader, hpos, hsize⟩ := hwindow window hsome
          exact ⟨hinv.open hq hreader hpos, hsize, rfl⟩

theorem windowUp_of_present {w w' wu : Worker} (h : w.present = w'.present) {workload : Workload}
    {backend : Backend} (hup : w.windowUp workload backend = some wu) :
    ∃ wu', w'.windowUp workload backend = some wu' ∧ wu.present = wu'.present := by
  have hown := windowUp_after w.present w.enqueued w.reported workload backend
  have hother := windowUp_after w.present w'.enqueued w'.reported workload backend
  rw [present_after, hup] at hown
  rw [h, present_after, ← h] at hother
  obtain ⟨wp, hwp, hafter⟩ := Option.map_eq_some_iff.mp hown.symm
  rw [hwp] at hother
  refine ⟨_, hother, ?_⟩
  rw [← hafter]
  rfl

/-- Without a throw the workload enters `_inflight` cut in full. -/
theorem enqueue_entered {w : Worker} (h : w.Inv) {workload : Workload}
    (hfit : Fits w.chunkBytesize w.asyncHandleCounter workload) {total : Nat}
    (htotal : totalChunks w.chunkBytesize workload.batches = total) (hpos : total ≠ 0) :
    ∃ b : Building, w.enqueue workload = .ok (w.entered total b) ∧
      b.wl.batches = workload.batches ∧ blockSize b.wl = total := by
  obtain ⟨b, cut, hbuilt, hfull, hok⟩ := enqueue_built h hfit htotal hpos
  refine ⟨{ b with wl := { b.wl with remainingTasks := b.wl.tasks.length } }, hok,
    hbuilt.batches_eq, ?_⟩
  show b.wl.chunkTaskIdx.length = total
  rw [hbuilt.kept.idx_eq, hfull, Nat.sub_self]
  simpa using hfull

/-- **Aborting forgets how far the workload was built.** -/
theorem entered_abort_present (w : Worker) (total : Nat) (b : Building) (code : ResponseCode) :
    ((w.entered total b).abortAll code).present = { w.present with
      asyncHandleCounter := wrap (w.asyncHandleCounter + total)
      queue := w.queue.map CapacityQueue.clear
      inflight := [] } := by
  have hqueue : (w.queue.map (fun q => b.chunks.foldl (fun q c => q.enqueue c 1) q)).map
      CapacityQueue.clear = w.queue.map CapacityQueue.clear := by
    cases w.queue with
    | none => rfl
    | some q =>
        rw [Option.map_some, Option.map_some, foldl_enqueue]
        rfl
  simp only [Worker.present, Worker.abortAll, Worker.entered, hqueue]

/-- What such an abort drops. -/
theorem entered_abort_reported {w : Worker} (hkeys : ∀ e ∈ w.inflight, e.1 < w.asyncHandleCounter)
    (total : Nat) (b : Building) (code : ResponseCode) :
    ((w.entered total b).abortAll code).reported
      = w.reported ++ w.inflight.map (fun e => (e.1, e.2.reportWorkload code))
        ++ [(w.asyncHandleCounter, b.wl.reportWorkload code)] := by
  show w.reported ++ (tryEmplace w.inflight w.asyncHandleCounter b.wl).map _ = _
  rw [tryEmplace_above _ hkeys, List.map_append, ← List.append_assoc]
  rfl

/-! ## §3. The run without throws. -/

/-- A workload dropped half-built: it is concluded, and the other worker
dropped it with a block at least as large, of which no chunk is credited. -/
structure Cropped (w : Worker) (e : Nat × Inflight) : Prop where
  within : ∃ e' ∈ w.reported, e.1 = e'.1 ∧ blockSize e.2 ≤ blockSize e'.2 ∧
    ∀ handle, InBlock blockSize e' handle → handle ∉ w.credits.map Prod.fst
  concluded : ∀ credits, Concluded credits e.1 e.2

/-- The worker `w` is in the same present, holds its invariant, and has
dropped the same workloads, each of them cut in full. -/
structure Twin (s : State) (w : Worker) : Prop where
  present : s.worker.present = w.present
  steady : Steady { s with worker := w }
  filed : ∃ drops, Filed w drops
  batches : s.worker.reported.map (fun e => e.2.batches)
    = w.reported.map (fun e => e.2.batches)
  dropped : ∀ e ∈ s.worker.reported, e ∈ w.reported ∨ Cropped w e

theorem twin_init {s : State} (h : Init s) : Twin s s.worker := by
  obtain ⟨chunk, hchunk, hworker⟩ := h.worker_eq
  refine ⟨rfl, (good_init h).steady, ⟨[], ?_, ?_, by simp⟩, rfl, fun e he => .inl he⟩
  · rw [hworker]
    simp [Worker.new]
  · rw [hworker]
    rfl

/-- Completions credit no chunk of a workload dropped before. -/
theorem Completes.silent {w w' : Worker} (h : Completes w w') :
    ∀ {e : Nat × Inflight}, e ∈ w.reported → ∀ {handle : Nat}, InBlock blockSize e handle →
      handle ∉ w.credits.map Prod.fst → handle ∉ w'.credits.map Prod.fst := by
  induction h with
  | refl w => exact fun _ _ _ hnew => hnew
  | @step w w' w'' base t k wl ret hinv he hown _ hok _ ih =>
      intro e hdropped handle hin hnew
      have hother : handle ≠ k := by
        rintro rfl
        have hout := hinv.outside he hdropped hown.lt
        have hle := hin.1
        have hlt := hin.2
        omega
      -- the completion adds one credit, and drops at most one workload more
      have hmore : e ∈ w'.reported ∧ w'.credits = w.credits ++ [(k, ret)] := by
        unfold Worker.completeChunk at hok
        rw [find_mem hinv.ascending he] at hok
        dsimp only at hok
        cases hwl : wl.completeChunk t ret with
        | error e => simp [hwl] at hok
        | ok result =>
            obtain ⟨wl', last⟩ := result
            rw [hwl] at hok
            obtain rfl := Except.ok.inj hok
            cases last with
            | false => exact ⟨hdropped, rfl⟩
            | true => exact ⟨List.mem_append.mpr (.inl hdropped), rfl⟩
      refine ih hmore.1 hin ?_
      rw [hmore.2, List.map_append, List.mem_append, not_or]
      exact ⟨hnew, by simpa using hother⟩

/-- Neither does any step. -/
theorem step_silent {s t : State} {a : Action} (h : Steady s) (hfit : StepFits s a)
    (hstep : Step s a t) {e : Nat × Inflight} (he : e ∈ s.worker.reported) {handle : Nat}
    (hin : InBlock blockSize e handle) (hnew : handle ∉ s.worker.credits.map Prod.fst) :
    handle ∉ t.worker.credits.map Prod.fst := by
  cases hstep with
  | execute workload backend hpc =>
      obtain ⟨w', enqueued, hok, -, hrec, -⟩ := receive_ok h.inv backend hfit
      simp only [hok, State.after]
      rw [hrec.credits]
      exact hnew
  | fill q hq hpc => exact hnew
  | submit outcome q q' chunk hq hpc htake =>
      obtain ⟨hinv, hopen, -, hnot⟩ := take_ok h.inv hq htake
      obtain ⟨w', issued, hok, -, -, -, -, hcompletes⟩ := submit_ok hinv outcome hopen hnot
      simp only [hok, State.after]
      exact hcompletes.silent he hin hnew
  | drain stopped round delivered next hdraining hround =>
      obtain ⟨w', hok, -, -, -, w₁, hcompletes, -, -, hlast⟩ := drainBatch_ok h.inv h.env hround
      simp only [hok, State.after]
      have hsilent := hcompletes.silent he hin hnew
      rcases hlast with rfl | rfl
      · exact hsilent
      · exact hsilent
  | pumped q hq hdone hpc => exact hnew
  | close q hq hpc hroom => exact hnew

theorem Cropped.step {s t : State} {a : Action} (h : Steady s) (hfit : StepFits s a)
    (hstep : Step s a t) (hmore : s.worker.reported ⊆ t.worker.reported) {e : Nat × Inflight}
    (he : Cropped s.worker e) : Cropped t.worker e := by
  obtain ⟨⟨e', he', hbase, hsize, hnone⟩, hconcluded⟩ := he
  exact ⟨⟨e', hmore he', hbase, hsize, fun handle hin =>
    step_silent h hfit hstep he' hin (hnone handle hin)⟩, hconcluded⟩

/-- **A step that does not throw** is followed. -/
theorem Twin.returns {s t : State} {w : Worker} {a : Action} (h : Twin s w) (hfit : StepFits s a)
    (hstep : Step s a t) : ∃ w', Twin t w' := by
  obtain ⟨w', hown, hpresent, more, hreported, hreported'⟩ := follow h.present h.steady hfit hstep
  have hfits := stepFits_of_present h.present hfit
  obtain ⟨drops, hfiled⟩ := h.filed
  obtain ⟨rest, hfiled', -⟩ := Filed.step (s := { s with worker := w }) hfiled h.steady hfits hown
  refine ⟨w', hpresent, steady_step h.steady hfits hown, ⟨_, hfiled'⟩, ?_, fun e he => ?_⟩
  · rw [hreported, hreported', List.map_append, List.map_append, h.batches]
  · rw [hreported, List.mem_append] at he
    rcases he with he | he
    · have hmore : w.reported ⊆ w'.reported := by
        rw [hreported']
        exact List.subset_append_left _ _
      exact (h.dropped e he).imp (fun he => hmore he)
        (fun he => Cropped.step (s := { s with worker := w }) h.steady hfits hown hmore he)
    · rw [hreported']
      exact .inl (List.mem_append.mpr (.inr he))

theorem steady_abort {s : State} (h : Steady s) {code : ResponseCode} (hcode : code ≠ .success) :
    Steady { s with worker := s.worker.abortAll code } := by
  obtain ⟨hinv, hkept, hcredits⟩ := abortAll_ok h.inv hcode
  exact ⟨hinv, h.env.kept hkept (by rw [hcredits]; exact h.env.credited),
    hkept.works.trans h.executed, hkept.live h.live, h.running⟩

theorem Cropped.mono {w w' : Worker} {e : Nat × Inflight} (he : Cropped w e)
    (hreported : w.reported ⊆ w'.reported) (hcredits : w'.credits = w.credits) : Cropped w' e := by
  obtain ⟨⟨e', he', hbase, hsize, hnone⟩, hconcluded⟩ := he
  refine ⟨⟨e', hreported he', hbase, hsize, ?_⟩, hconcluded⟩
  rw [hcredits]
  exact hnone

/-- Both drop `more`, and one workload after that, cropped here. -/
theorem dropped_snoc {w w' : Worker} {reported more : List (Nat × Inflight)}
    {e₀ e₁ : Nat × Inflight} (h : ∀ e ∈ reported, e ∈ w.reported ∨ Cropped w e)
    (hreported : w'.reported = w.reported ++ more ++ [e₁]) (hcredits : w'.credits = w.credits)
    (hlast : Cropped w' e₀) :
    ∀ e ∈ reported ++ more ++ [e₀], e ∈ w'.reported ∨ Cropped w' e := by
  have hold : w.reported ⊆ w'.reported := by
    rw [hreported, List.append_assoc]
    exact List.subset_append_left _ _
  intro e he
  rw [List.append_assoc, List.mem_append, List.mem_append, List.mem_singleton] at he
  rcases he with he | he | rfl
  · exact (h e he).imp (fun he => hold he) (fun he => he.mono hold hcredits)
  · refine .inl ?_
    rw [hreported]
    exact List.mem_append.mpr (.inl (List.mem_append.mpr (.inr he)))
  · exact .inr hlast

/-- A workload aborted half-built, next to the same one cut in full. -/
theorem Started.cropped {wt : Worker} (h : wt.Inv) {workload : Workload} {total : Nat}
    {half b : Building} (hstarted : Started workload total half.wl) (hblock : blockSize b.wl = total)
    {code : ResponseCode} (hcode : code ≠ .success) :
    Cropped ((wt.entered total b).abortAll code)
      (wt.asyncHandleCounter, half.wl.reportWorkload code) := by
  have hkeys : ∀ e ∈ wt.inflight, e.1 < wt.asyncHandleCounter := fun e he => h.keys_lt he
  refine ⟨⟨(wt.asyncHandleCounter, b.wl.reportWorkload code), ?_, rfl, ?_, fun handle hin => ?_⟩,
    fun credits => hstarted.concluded hcode credits _⟩
  · rw [entered_abort_reported hkeys]
    exact List.mem_append.mpr (.inr (List.mem_singleton.mpr rfl))
  · show blockSize half.wl ≤ blockSize b.wl
    rw [hblock]
    exact hstarted.size_le
  · -- the block is new, and every credit is below it
    intro hcredited
    have hle : wt.asyncHandleCounter ≤ handle := hin.1
    obtain ⟨c, hc, rfl⟩ := List.mem_map.mp hcredited
    have hlt := (h.credits_known c hc).2
    omega

/-- **A throw in the middle of `enqueue`** is followed by cutting the whole
workload, and aborting after that. -/
theorem Twin.building {s : State} {w wu : Worker} (h : Twin s w) {workload : Workload}
    {backend : Backend} {half : Building} (hpc : s.pc = .ready)
    (hfit : StepFits s (.execute workload backend))
    (hup : s.worker.windowUp workload backend = some wu)
    (htotal : totalChunks wu.chunkBytesize workload.batches ≠ 0)
    (hhalf : Half wu workload (totalChunks wu.chunkBytesize workload.batches) half) :
    ∃ w', Twin { s with
      worker := (wu.entered (totalChunks wu.chunkBytesize workload.batches) half).abortAll
        .unknownError
      pc := .filling
      executed := s.executed ++ [workload.batches] } w' := by
  have hfits := stepFits_of_present h.present hfit
  obtain ⟨wt, hup', hpresent⟩ := windowUp_of_present h.present hup
  obtain ⟨hinv, hsize, hreceive⟩ := windowUp_ok h.steady.inv hup'
  obtain ⟨-, hreported, -, -⟩ := windowUp_keeps hup
  obtain ⟨-, hreported', hcredits, hcounter'⟩ := windowUp_keeps hup'
  -- what the two share once the window is up
  obtain ⟨hchunk, hcounter, hqueue, hinflight, -⟩ := shared_of_present hpresent
  have hfull : Fits wt.chunkBytesize wt.asyncHandleCounter workload := by
    rw [hsize, hcounter']
    exact hfits
  have hcount := total_of_fits hfull
  rw [hchunk] at htotal hhalf ⊢
  obtain ⟨total, hdef⟩ : ∃ n, totalChunks wt.chunkBytesize workload.batches = n := ⟨_, rfl⟩
  rw [hdef] at hcount htotal hhalf ⊢
  obtain ⟨b, hok, hbatches, hblock⟩ := enqueue_entered hinv hfull hdef htotal
  have hstarted : Started workload total half.wl :=
    hhalf.started (by rw [hcount, hchunk]) (by rw [hcounter, hcount]; exact hfull.handles)
  have hstep := Step.execute (s := { s with worker := w }) workload backend hpc
  rw [hreceive, hok] at hstep
  have hsteady := steady_step h.steady hfits hstep
  obtain ⟨drops, hfiled⟩ := h.filed
  obtain ⟨rest, hfiled', -⟩ := Filed.step (s := { s with worker := w }) hfiled h.steady hfits hstep
  have hcode : ResponseCode.unknownError ≠ .success := by simp
  obtain ⟨last, hfiled'', -⟩ := Filed.abortAll hfiled' hsteady.inv hsteady.live hcode
  have hkeys : ∀ e ∈ wt.inflight, e.1 < wt.asyncHandleCounter := fun e he => hinv.keys_lt he
  have hown := entered_abort_reported (w := wu) (by rw [hinflight, hcounter]; exact hkeys) total
    half .unknownError
  have hother := entered_abort_reported hkeys total b .unknownError
  rw [hreported, hinflight, hcounter] at hown
  rw [hreported'] at hother
  refine ⟨(wt.entered total b).abortAll .unknownError, ?_, steady_abort hsteady hcode,
    ⟨_, hfiled''⟩, ?_, ?_⟩
  · show ((wu.entered total half).abortAll .unknownError).present = _
    rw [entered_abort_present, entered_abort_present, hpresent, hcounter, hqueue]
  · show ((wu.entered total half).abortAll .unknownError).reported.map _ = _
    have hsame : (half.wl.reportWorkload .unknownError).batches
        = (b.wl.reportWorkload .unknownError).batches := by
      have hcut := report_batches half.wl .unknownError
      have hwhole := report_batches b.wl .unknownError
      exact hcut.trans (hstarted.batches_eq.trans (hbatches.symm.trans hwhole.symm))
    rw [hown, hother]
    simp only [List.map_append, List.map_cons, List.map_nil, h.batches, hsame]
  · show ∀ e ∈ ((wu.entered total half).abortAll .unknownError).reported, _
    rw [hown]
    exact dropped_snoc h.dropped hother hcredits (hstarted.cropped hinv hblock hcode)

/-- **The two runs stay together**, wherever what is thrown is covered. -/
theorem twin_step {s t : ThrowingState} {a : ThrowingAction} {w : Worker} (h : Twin s.base w)
    (hcovered : Covered s a) (hstep : ThrowingStep s a t) :
    (∃ w', Twin t.base w') ∧ t.unanswered = s.unanswered := by
  obtain ⟨hfit, hpoint⟩ := hcovered
  cases hstep with
  | returns a t hstep => exact ⟨h.returns hfit hstep, rfl⟩
  | throws a point ranges t hthrows =>
      cases hthrows with
      | building workload backend wu half hpc hup htotal hhalf =>
          exact ⟨h.building hpc hfit hup htotal hhalf, List.append_nil _⟩
      | fetch round next hdraining hreader =>
          refine ⟨⟨w, h.present, ?_, h.filed, h.batches, h.dropped⟩, List.append_nil _⟩
          exact ⟨h.steady.inv, h.steady.env, h.steady.executed, h.steady.live, by simp⟩
      | entry => exact hpoint.elim
      | emptyTask => exact hpoint.elim
      | abortBuilding => exact hpoint.elim
      | inline => exact hpoint.elim
      | discard => exact hpoint.elim
      | submit outcome ret q q' chunk base taskIdx ts point ranges w' hq hpc htake hlocate hts hret
          hfailed hcompletion =>
          cases hcompletion with
          | record => exact hpoint.elim
          | respond => exact hpoint.elim
          | finalize => exact hpoint.elim
      | handover => exact hpoint.elim
      | complete round delivered next before after response d base taskIdx point ranges w' hdraining
          hreader hret hround hsplit hgoing hevent hloop hlocate hcompletion =>
          cases hcompletion with
          | record => exact hpoint.elim
          | respond => exact hpoint.elim
          | finalize => exact hpoint.elim
      | abortDraining => exact hpoint.elim

theorem reachable_twin : ∀ s, (throwingWorker.restrict Covered).Reachable s →
    (∃ w, Twin s.base w) ∧ s.unanswered = [] := by
  apply System.Reachable.invariant
  · rintro s ⟨hinit, hnone⟩
    exact ⟨⟨_, twin_init hinit⟩, hnone⟩
  · rintro s a t - ⟨⟨w, htwin⟩, hnone⟩ hstep
    obtain ⟨hnext, hsame⟩ := twin_step htwin hstep.1 hstep.2
    exact ⟨hnext, hsame.trans hnone⟩

/-! ## §4. What is not lost. -/

/-- Task `i` of batch `b` was read: it has chunks, all of them credited with
Success. -/
def WasRead (credits : List (Nat × ResponseCode)) (base : Nat) (wl : Inflight) (b i : Nat) :
    Prop :=
  ∃ t p, wl.reads[t]? = some p ∧ p.ref = (b, i) ∧ t ∈ wl.chunkTaskIdx ∧
    ∀ handle, Owns base wl.chunkTaskIdx t handle → (handle, ResponseCode.success) ∈ credits

/-- **No workload is lost.**

    (a) every workload received is in flight or dropped;
    (b) of a dropped workload every task is finished, once, by what is an
        execution of its batch, and every response reached the responder;
    (c) a task that was read is finished with Success; any other one fails,
        if it had something to read;
    (d) the handles of a dropped workload are not pending, and completions
        for them are dropped;
    (e) the window counts the open chunks of the workloads in flight, each of
        which has one, pending or under way; it is idle when there are none. -/
structure NoneLost (s : ThrowingState) : Prop where
  executed : (s.base.worker.entries.map (fun e => e.2.batches)).Perm s.base.executed
  finished : ∀ e ∈ s.base.worker.reported, ∀ r ∈ e.2.workload,
    (r.run.log.map Finish.task).Perm (List.range r.batch.tasks.length)
  executions : ∀ e ∈ s.base.worker.reported, ∀ r ∈ e.2.workload,
    ∃ x : Execution r.batch, x.run = r.run
  answered : s.unanswered = []
  once : ∀ e ∈ s.base.worker.entries, ∀ r ∈ e.2.workload, (r.run.log.map Finish.task).Nodup
  read : ∀ e ∈ s.base.worker.entries, ∀ b r, e.2.workload[b]? = some r → ∀ i,
    WasRead s.base.worker.credits e.1 e.2 b i → ⟨i, .success⟩ ∈ r.run.log
  success : ∀ e ∈ s.base.worker.entries, ∀ b r, e.2.workload[b]? = some r → ∀ f ∈ r.run.log,
    f.ret = .success →
      e.2.NothingToRead b f.task ∨ WasRead s.base.worker.credits e.1 e.2 b f.task
  gone : ∀ e ∈ s.base.worker.reported, ∀ handle, InBlock blockSize e handle →
    handle ∉ s.base.worker.pendingHandles ∧ locate s.base.worker.inflight handle = none
  window : ∀ q, s.base.worker.queue = some q →
    Window s.base.worker q ∧ (q.idle = true ↔ s.base.worker.inflight = [])
  waiting : ∀ e ∈ s.base.worker.inflight,
    ∃ handle, InBlock blockSize e handle ∧ handle ∈ s.base.worker.openHandles
  issued : ∀ handle ∈ s.base.worker.openHandles, handle ∉ s.base.worker.pendingHandles →
    handle ∈ s.base.started
  running : s.base.pc ≠ .crashed

theorem wasRead_congr {credits : List (Nat × ResponseCode)} {base : Nat} {wl wl' : Inflight}
    (hidx : wl'.chunkTaskIdx = wl.chunkTaskIdx) (hbatches : wl'.batches = wl.batches) {b i : Nat} :
    WasRead credits base wl' b i ↔ WasRead credits base wl b i := by
  rw [WasRead, WasRead, Inflight.reads, Inflight.reads, hidx, hbatches]

/-- **A tracked workload has reported the tasks that were read.** -/
theorem Tracked.wasRead {credits : List (Nat × ResponseCode)} {base : Nat} {wl : Inflight}
    (h : Tracked credits base wl) (hnodup : (credits.map Prod.fst).Nodup) {b i : Nat} {r : Running}
    (hr : wl.workload[b]? = some r) (hread : WasRead credits base wl b i) :
    ⟨i, .success⟩ ∈ r.run.log := by
  obtain ⟨t, p, hp, href, ht, hall⟩ := hread
  obtain ⟨ts, hts⟩ : ∃ ts, wl.tasks[t]? = some ts :=
    ⟨_, List.getElem?_eq_getElem (h.counted.idx t ht)⟩
  obtain ⟨p', r', hp', href', hr', htask, -⟩ := h.placed hts
  obtain rfl := Option.some.inj (hp.symm.trans hp')
  obtain ⟨hb, hi⟩ := Prod.mk.inj (show (ts.batch, ts.task) = (b, i) from href'.symm.trans href)
  rw [hb] at hr'
  obtain rfl := Option.some.inj (hr.symm.trans hr')
  rw [hi] at htask
  have hdone : ts.Done := by
    refine ⟨?_, (h.counted.error t ts hts).mpr (fun c hc hown => ?_)⟩
    · rw [h.counted.remaining t ts hts, openChunks, List.countP_eq_zero]
      intro handle hopen hidx
      obtain ⟨hle, -, hnew⟩ := mem_openHandles.mp hopen
      exact hnew (List.mem_map_of_mem (hall handle ⟨hle, of_decide_eq_true hidx⟩))
    · have hsame := List.inj_on_of_nodup_map hnodup hc (hall c.1 hown) rfl
      rw [hsame]
  have hrun := h.runs b r hr
  have hlt : i < r.batch.tasks.length := (List.getElem?_eq_some_iff.mp htask).1
  have hget := (hrun.finished_iff i hlt).mpr
    (.inr ⟨ts, List.mem_of_getElem? hts, href'.symm.trans href, hdone⟩)
  obtain ⟨f, hf, hfi⟩ := List.mem_map.mp ((hrun.ran.consistent.logged i).mpr hget)
  have hret := hrun.log_success f hf
  rw [← hfi, ← hret]
  exact hf

/-- So has a dropped one. -/
theorem Dropped.wasRead {credits : List (Nat × ResponseCode)} {d : Drop} (h : Dropped credits d)
    (hnodup : (credits.map Prod.fst).Nodup) {b i : Nat} {r : Running}
    (hr : d.wl.workload[b]? = some r) (hread : WasRead credits d.base d.wl b i) :
    ⟨i, .success⟩ ∈ r.run.log := by
  cases h with
  | @tracked base wl code htracked hcoded hended =>
      have hr : (wl.reportWorkload code).workload[b]? = some r := hr
      rw [Inflight.reportWorkload, List.getElem?_map, Option.map_eq_some_iff] at hr
      obtain ⟨r₀, hr₀, rfl⟩ := hr
      have hidx : (wl.reportWorkload code).chunkTaskIdx = wl.chunkTaskIdx := rfl
      have hbatches : (wl.reportWorkload code).batches = wl.batches := report_batches wl code
      exact handleError_keeps
        (htracked.wasRead hnodup hr₀ ((wasRead_congr hidx hbatches).mp hread)) _
  | @whole base wl code hidx hlog =>
      obtain ⟨t, p, -, -, ht, -⟩ := hread
      have ht : t ∈ wl.chunkTaskIdx := ht
      rw [hidx] at ht
      simp at ht

/-- Of a cropped one nothing was read. -/
theorem Cropped.unread {w : Worker} {e : Nat × Inflight} (h : Cropped w e) {b i : Nat} :
    ¬ WasRead w.credits e.1 e.2 b i := by
  rintro ⟨t, p, -, -, ht, hall⟩
  obtain ⟨⟨e', he', hbase, hsize, hnone⟩, -⟩ := h
  obtain ⟨k, hk⟩ := List.mem_iff_getElem?.mp ht
  have hlt : k < blockSize e.2 := (List.getElem?_eq_some_iff.mp hk).1
  have hown : Owns e.1 e.2.chunkTaskIdx t (e.1 + k) :=
    ⟨Nat.le_add_right _ _, by rw [Nat.add_sub_cancel_left]; exact hk⟩
  refine hnone (e.1 + k) ⟨?_, ?_⟩ (List.mem_map_of_mem (hall _ hown))
  · omega
  · omega

/-- A workload dropped, whichever way. -/
theorem Twin.concluded {s : State} {w : Worker} (h : Twin s w) {e : Nat × Inflight}
    (he : e ∈ s.worker.reported) : Concluded w.credits e.1 e.2 := by
  rcases h.dropped e he with he | hcropped
  · exact h.steady.inv.concluded e he
  · exact hcropped.concluded w.credits

/-- A chunk not submitted yet is open. -/
theorem pending_isOpen {w : Worker} (h : w.Inv) {handle : Nat} (hp : handle ∈ w.pendingHandles) :
    handle ∈ w.openHandles := by
  cases hq : w.queue with
  | none => simp [Worker.pendingHandles, hq] at hp
  | some q =>
      rw [pendingHandles_eq hq] at hp
      obtain ⟨x, hx, rfl⟩ := List.mem_map.mp hp
      exact (h.window q hq).pending_open x hx

/-- **What the run without throws says of the other.** -/
theorem Twin.noneLost {s : ThrowingState} {w : Worker} (h : Twin s.base w)
    (hnone : s.unanswered = []) : NoneLost s := by
  have hinv : w.Inv := h.steady.inv
  have henv : Env w s.base.started s.base.delivered := h.steady.env
  have hlive : w.Live := h.steady.live
  -- the two workers share their present
  obtain ⟨-, -, hqueues, hinflight, hcredits⟩ := shared_of_present h.present
  have hopen : s.base.worker.openHandles = w.openHandles := by
    rw [Worker.openHandles, hinflight, hcredits]
    rfl
  have hpending : s.base.worker.pendingHandles = w.pendingHandles := by
    rw [Worker.pendingHandles, hqueues]
    rfl
  have hentry : ∀ e ∈ s.base.worker.entries, e ∈ w.inflight ∨ e ∈ s.base.worker.reported := by
    intro e he
    rw [Worker.entries, hinflight, List.mem_append] at he
    exact he
  refine ⟨?_, fun e he r hr => ?_, fun e he r hr => ?_, hnone, fun e he r hr => ?_,
    fun e he b r hr i hread => ?_, fun e he b r hr f hf hret => ?_, fun e he handle hin => ?_,
    fun q hq => ?_, fun e he => ?_, fun handle hk hp => ?_, h.steady.running⟩
  · rw [Worker.entries, hinflight, List.map_append, h.batches, ← List.map_append]
    exact h.steady.executed
  · obtain ⟨hran, hcomplete⟩ := (h.concluded he).complete r hr
    exact hcomplete.log_perm hran
  · obtain ⟨hran, hcomplete⟩ := (h.concluded he).complete r hr
    exact ⟨⟨r.run, hran, hcomplete⟩, rfl⟩
  · rcases hentry e he with he | he
    · obtain ⟨b, hb⟩ := List.mem_iff_getElem?.mp hr
      exact ((hinv.tracked e he).runs b r hb).ran.consistent.nodup
    · exact ((h.concluded he).complete r hr).1.consistent.nodup
  · rw [hcredits] at hread
    rcases hentry e he with he | he
    · exact (hinv.tracked e he).wasRead hinv.credits_nodup hr hread
    · rcases h.dropped e he with he | hcropped
      · obtain ⟨drops, hfiled⟩ := h.filed
        rw [← hfiled.entries] at he
        obtain ⟨d, hd, rfl⟩ := List.mem_map.mp he
        exact (hfiled.dropped d hd).wasRead hinv.credits_nodup hr hread
      · exact absurd hread hcropped.unread
  · rw [hcredits]
    rcases hentry e he with he | he
    · exact (hinv.tracked e he).successBacked b r hr f hf hret
    · exact (h.concluded he).success b r hr f hf hret
  · -- a block the other worker dropped holds the handle
    have hblock : ∃ e' ∈ w.reported, InBlock blockSize e' handle := by
      rcases h.dropped e he with he | hcropped
      · exact ⟨e, he, hin⟩
      · obtain ⟨⟨e', he', hbase, hsize, -⟩, -⟩ := hcropped
        have hle := hin.1
        have hlt := hin.2
        exact ⟨e', he', by omega, by omega⟩
    obtain ⟨e', he', hin'⟩ := hblock
    have hgone := locate_gone hinv he' hin'
    rw [hinflight]
    refine ⟨fun hp => ?_, hgone⟩
    rw [hpending] at hp
    obtain ⟨⟨live, hmem, hinside⟩, -⟩ := mem_openAll.mp (pending_isOpen hinv hp)
    have hout := hinv.outside hmem he' hinside
    have hle := hin'.1
    have hlt := hin'.2
    omega
  · have hw := hinv.window q (queue_of_present h.present hq)
    refine ⟨⟨hw.capacity_pos, hw.bounded, hw.costs, hw.pending_nodup, ?_, ?_⟩, ?_⟩
    · rw [hopen]
      exact hw.pending_open
    · rw [hopen]
      exact hw.count
    · rw [hinflight, CapacityQueue.idle, Bool.and_eq_true, List.isEmpty_iff, beq_iff_eq]
      have hcount := hw.count
      constructor
      · rintro ⟨hpend, hzero⟩
        rw [hpend, hzero] at hcount
        exact open_of_live hinv hlive (List.length_eq_zero_iff.mp hcount.symm)
      · intro hempty
        have hnil : w.openHandles = [] := by
          rw [Worker.openHandles, hempty]
          rfl
        rw [hnil, List.length_nil] at hcount
        exact ⟨List.length_eq_zero_iff.mp (by omega), by omega⟩
  · rw [hinflight] at he
    obtain ⟨handle, hk⟩ := (hinv.tracked e he).exists_open (hlive e he)
    obtain ⟨hle, hlt, -⟩ := mem_openHandles.mp hk
    refine ⟨handle, ⟨hle, hlt⟩, ?_⟩
    rw [hopen]
    exact List.mem_flatMap.mpr ⟨e, he, hk⟩
  · rw [hopen] at hk
    rw [hpending] at hp
    exact henv.open_started handle hk hp

/-! ## §5. Over whole runs. -/

/-- **NO WORKLOAD IS LOST** in a run whose workloads fit in the word
arithmetic of `enqueue`, and where what is thrown is thrown at a client or a
window that cannot be made, at a read that cannot be issued, at an allocation
of `enqueue` once the workload is in `_inflight`, or in `drain_batch` before
the backend hands anything out. -/
theorem none_lost {s : ThrowingState} (h : (throwingWorker.restrict Covered).Reachable s) :
    NoneLost s := by
  obtain ⟨⟨w, htwin⟩, hnone⟩ := reachable_twin s h
  exact htwin.noneLost hnone

/-- The worker once the window is up for the two bytes. -/
def upWorker : Worker :=
  { cutWorker with
    queue := some (.new 18446744073709551615)
    inflight := []
    asyncHandleCounter := 1
    enqueued := [] }

theorem windowUp_twoBytes : fresh.worker.windowUp (twoBytes 2) unbounded = some upWorker := rfl

theorem fresh_throwing : throwingWorker.init ⟨fresh, []⟩ := ⟨fresh_init, rfl⟩

/-- The handle table of the two bytes cannot be allocated, and they are
reported. -/
theorem none_lost_resize : ∃ s, (throwingWorker.restrict Covered).Reachable s ∧
    s.base.worker.reported.map (fun e => e.2.batches) = [(twoBytes 2).batches] ∧ NoneLost s := by
  have hthrows := Throws.building (twoBytes 2) unbounded upWorker _ (s := fresh) rfl
    windowUp_twoBytes (by decide) .resize
  have hcovered : Covered ⟨fresh, []⟩ (.throws (.execute (twoBytes 2) unbounded) .building) :=
    ⟨fits_twoBytes, trivial⟩
  have hreach : (throwingWorker.restrict Covered).Reachable _ :=
    .step (.init fresh_throwing) ⟨hcovered, .throws _ .building [] _ hthrows⟩
  exact ⟨_, hreach, rfl, none_lost hreach⟩

/-- **A throw of `responder->push` loses a response.** -/
theorem respond_lost {s t : ThrowingState} {a : Action}
    (hstep : ThrowingStep s (.throws a .respond) t) : ¬ NoneLost t := by
  intro hlost
  have hnone := hlost.answered
  cases hstep with
  | throws a point ranges t hthrows =>
      have hnil : ranges = [] := (List.append_eq_nil_iff.mp hnone).2
      cases hthrows with
      | emptyTask => simp at hnil
      | abortBuilding => simp at hnil
      | inline => simp at hnil
      | discard => simp at hnil
      | submit outcome ret q q' chunk base taskIdx ts point ranges w' hq hpc htake hlocate hts hret
          hfailed hcompletion =>
          cases hcompletion with
          | respond => simp at hnil
          | finalize => simp at hnil
      | complete round delivered next before after response d base taskIdx point ranges w' hdraining
          hreader hret hround hsplit hgoing hevent hloop hlocate hcompletion =>
          cases hcompletion with
          | respond => simp at hnil
          | finalize => simp at hnil
      | abortDraining => simp at hnil

/-- **A throw at the node of `_inflight` loses the workload.** -/
theorem entry_lost {s t : ThrowingState} {a : Action} (h : NoneLost s)
    (hstep : ThrowingStep s (.throws a .entry) t) : ¬ NoneLost t := by
  intro hlost
  have hbefore := h.executed.length_eq
  have hafter := hlost.executed.length_eq
  cases hstep with
  | throws a point ranges t hthrows =>
      cases hthrows with
      | entry workload backend w hpc hup htotal =>
          -- one workload more is received, and as many are in flight or dropped
          obtain ⟨hinflight, hreported, -, -⟩ := windowUp_keeps hup
          simp only [Worker.entries, Worker.abortAll, List.nil_append, List.length_map,
            List.length_append, List.length_singleton, hinflight, hreported] at hbefore hafter
          omega
      | submit outcome ret q q' chunk base taskIdx ts point ranges w' hq hpc htake hlocate hts hret
          hfailed hcompletion => cases hcompletion
      | complete round delivered next before after response d base taskIdx point ranges w' hdraining
          hreader hret hround hsplit hgoing hevent hloop hlocate hcompletion => cases hcompletion

/-- The two bytes are lost: their node of `_inflight` cannot be allocated, and
the `catch` of `enqueue` does not find them. -/
theorem node_unanswered : ∃ s, (throwingWorker.restrict Fitting).Reachable s ∧
    s.base.executed = [(twoBytes 2).batches] ∧ s.base.worker.entries = [] ∧ ¬ NoneLost s := by
  have hthrows := Throws.entry (twoBytes 2) unbounded upWorker (s := fresh) rfl
    windowUp_twoBytes (by decide)
  have hfitting : Fitting ⟨fresh, []⟩ (.throws (.execute (twoBytes 2) unbounded) .entry) :=
    fits_twoBytes
  have hreach : (throwingWorker.restrict Fitting).Reachable _ :=
    .step (.init fresh_throwing) ⟨hfitting, .throws _ .entry [] _ hthrows⟩
  refine ⟨_, hreach, rfl, rfl, fun hlost => ?_⟩
  have hlength := hlost.executed.length_eq
  exact absurd (show 0 = 1 from hlength) (by decide)

end ModelStreamer.ObjectStorage
