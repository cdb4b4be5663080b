/-
  ModelStreamer.ObjectStorage.Hooks
  ─────────────────────────────────
  **EVERY HOOK KEEPS THE INVARIANT**, and none of them crashes.

    • `abortAll_ok`, `drainBatch_ok` — completions, late ones and strays
      included, the end of a round, errors and a stop,
    • `submit_ok` — a chunk is read, or failed at once,
    • `enqueue_ok`, `receive_ok` — a workload is cut, reported inline, or
      discarded; the word arithmetic has to fit.

  `Env` is what the backend has to do with it: reads started are not pending,
  and what is credited of them was delivered.
-/
import ModelStreamer.ObjectStorage.Invariant
import ModelStreamer.Planning.Pieces
import Mathlib.Algebra.Order.BigOperators.Group.List

namespace ModelStreamer.ObjectStorage

open ModelStreamer.Lib ModelStreamer.Planning ModelStreamer.Delivery

/-! ## §1. Aborting. -/

theorem abortAll_ok {w : Worker} (h : w.Inv) {code : ResponseCode} (hcode : code ≠ .success) :
    (w.abortAll code).Inv ∧ Kept w (w.abortAll code) ∧
      (w.abortAll code).credits = w.credits := by
  have hopen : (w.abortAll code).openHandles = [] := rfl
  have hpending : (w.abortAll code).pendingHandles = [] := by
    simp only [Worker.pendingHandles, Worker.abortAll]
    cases w.queue <;> rfl
  have hblocks : (w.inflight.map (fun e : Nat × Inflight => (e.1, e.2.reportWorkload code))).map blockOf
      = w.inflight.map blockOf := by
    rw [List.map_map]
    exact List.map_congr_left (fun e _ => report_blockOf e.1 e.2 code)
  refine ⟨⟨?_, by simp [Worker.abortAll], ?_, h.credits_nodup, h.credits_known, ?_, ?_, ?_⟩,
    ⟨⟨rfl, by rw [hpending]; exact List.nil_sublist _, by simp [Worker.abortAll], ?_,
      List.prefix_append _ _, by rw [hopen]; simp⟩, fun _ => by simp [Worker.Live, Worker.abortAll]⟩,
    rfl⟩
  · -- the blocks move from the window to the reported ones
    refine h.layout.drop (List.nil_sublist _) ?_
    show ([] ++ (w.reported ++ w.inflight.map
      (fun e : Nat × Inflight => (e.1, e.2.reportWorkload code))).map blockOf).Perm _
    rw [List.nil_append, List.map_append, hblocks]
    exact List.perm_append_comm
  · intro e he
    rcases List.mem_append.mp he with he | he
    · exact h.concluded e he
    · obtain ⟨e', he', rfl⟩ := List.mem_map.mp he
      exact (h.tracked e' he').report (.inl hcode)
  · intro q' hq'
    obtain ⟨q, hq, rfl⟩ := Option.map_eq_some_iff.mp hq'
    have hw := h.window q hq
    exact ⟨hw.capacity_pos, Nat.zero_le _, by simp [CapacityQueue.clear],
      by simp [CapacityQueue.clear], by simp [CapacityQueue.clear], by rw [hopen]; rfl⟩
  · intro hnone
    obtain ⟨henq, hinf, hrep⟩ := h.unsized (by simpa [Worker.abortAll] using hnone)
    refine ⟨henq, rfl, ?_⟩
    show ∀ e ∈ w.reported ++ w.inflight.map _, _
    rw [hinf]
    simpa using hrep
  · intro hsome
    exact h.reader (by simpa [Worker.abortAll] using hsome)
  · show (([] ++ (w.reported ++ w.inflight.map _)).map _).Perm _
    have hbatches : (w.inflight.map (fun e : Nat × Inflight => (e.1, e.2.reportWorkload code))).map
        (fun e => e.2.batches) = w.inflight.map (fun e => e.2.batches) := by
      rw [List.map_map]
      exact List.map_congr_left (fun e _ => report_batches e.2 code)
    rw [List.nil_append, List.map_append, hbatches, Worker.works, List.map_append]
    exact List.perm_append_comm

/-! ## §2. The backend. -/

/-- What the reads started have to do with the worker. -/
structure Env (w : Worker) (started delivered : List Nat) : Prop where
  started_known : ∀ handle ∈ started, handle < w.asyncHandleCounter
  started_pending : ∀ handle ∈ started, handle ∉ w.pendingHandles
  credited : ∀ handle ∈ started, handle ∈ w.credits.map Prod.fst → handle ∈ delivered
  open_started : ∀ handle ∈ w.openHandles, handle ∉ w.pendingHandles → handle ∈ started

theorem Env.kept {w w' : Worker} {started delivered delivered' : List Nat}
    (h : Env w started delivered) (hkept : Kept w w')
    (hcredited : ∀ handle ∈ started, handle ∈ w'.credits.map Prod.fst → handle ∈ delivered') :
    Env w' started delivered' :=
  ⟨fun handle hs => by rw [hkept.counter_eq]; exact h.started_known handle hs,
    fun handle hs hp => h.started_pending handle hs (hkept.pending.subset hp), hcredited,
    fun handle hopen hp => h.open_started handle (hkept.opens handle hopen).1
      (fun hp' => hp ((hkept.opens handle hopen).2 hp'))⟩

theorem Env.mono {w : Worker} {started delivered delivered' : List Nat}
    (h : Env w started delivered) (hsub : delivered ⊆ delivered') : Env w started delivered' :=
  h.kept (Kept.refl w) (fun handle hs hc => hsub (h.credited handle hs hc))

theorem Delivers.subset {counter : Nat} {started delivered delivered' : List Nat}
    {responses : List Completion} (h : Delivers counter started delivered responses delivered') :
    delivered ⊆ delivered' := by
  induction h with
  | nil => exact List.Subset.refl _
  | real _ _ _ _ ih => exact fun k hk => ih (List.mem_cons_of_mem _ hk)
  | sentinel _ ih => exact ih
  | unknown _ _ ih => exact ih

/-- A stray event is dropped. -/
theorem locate_unknown {w : Worker} (h : w.Inv) {handle : Nat}
    (hunknown : handle = 0 ∨ w.asyncHandleCounter ≤ handle) :
    locate w.inflight handle = none := by
  cases hlocate : locate w.inflight handle with
  | none => rfl
  | some found =>
      obtain ⟨wl, hmem, hown⟩ := locate_owns
        (show locate w.inflight handle = some (found.1, found.2) from hlocate)
      have := h.known hmem (show InBlock blockSize (found.1, wl) handle from hown.lt)
      omega

/-- Chunks completed one after the other, each of a workload in flight and
none of them twice. -/
inductive Completes : Worker → Worker → Prop
  | refl (w : Worker) : Completes w w
  | step {w w' w'' : Worker} {base t handle : Nat} {wl : Inflight} {ret : ResponseCode}
      (hinv : w.Inv) (he : (base, wl) ∈ w.inflight) (hown : Owns base wl.chunkTaskIdx t handle)
      (hnew : handle ∉ w.credits.map Prod.fst)
      (hok : w.completeChunk handle base t ret = .ok w') (hrest : Completes w' w'') :
      Completes w w''

/-- **The loop of `drain_batch`.** -/
theorem drainLoop_ok {started : List Nat} {responses : List Completion} {counter : Nat}
    {delivered delivered' : List Nat}
    (hround : Delivers counter started delivered responses delivered') :
    ∀ d : Drained, d.worker.Inv → d.worker.asyncHandleCounter = counter →
      Env d.worker started delivered →
      ∃ d', drainLoop responses d = .ok d' ∧ d'.worker.Inv ∧ Kept d.worker d'.worker ∧
        Env d'.worker started delivered' ∧ Completes d.worker d'.worker := by
  induction hround with
  | nil =>
      intro d hinv _ henv
      exact ⟨d, rfl, hinv, Kept.refl _, henv, .refl _⟩
  | @real delivered delivered' handle ret rest hstarted hnew hret hrest ih =>
      intro d hinv hcounter henv
      have henv' : Env d.worker started (handle :: delivered) :=
        henv.mono (List.subset_cons_self _ _)
      simp only [drainLoop, if_neg hret]
      -- a late completion, of a workload that is gone, is dropped
      cases hlocate : locate d.worker.inflight handle with
      | none => exact ih d hinv hcounter henv'
      | some found =>
          obtain ⟨wl, hmem, hown⟩ := locate_owns
            (show locate d.worker.inflight handle = some (found.1, found.2) from hlocate)
          have hopen : handle ∉ d.worker.credits.map Prod.fst :=
            fun hc => hnew (henv.credited handle hstarted hc)
          obtain ⟨w', hok, hinv', hkept, hcredits⟩ := hinv.completeChunk hmem ret hown hopen
            (henv.started_pending handle hstarted)
          have henv'' : Env w' started (handle :: delivered) := by
            refine henv'.kept hkept (fun k hk hc => ?_)
            rw [hcredits, List.map_append, List.mem_append] at hc
            rcases hc with hc | hc
            · exact henv'.credited k hk hc
            · exact List.mem_cons.mpr (.inl (by simpa using hc))
          obtain ⟨d', hok', hinv'', hkept', henv''', hmore⟩ :=
            ih ⟨w', true, d.responderDrained⟩ hinv' (hkept.counter_eq.trans hcounter) henv''
          exact ⟨d', by simp only [hok, hok'], hinv'', hkept.trans hkept', henv''',
            .step hinv hmem hown hopen hok hmore⟩
  | sentinel hrest _ =>
      intro d hinv _ henv
      exact ⟨{ d with responderDrained := true }, by simp only [drainLoop, if_true], hinv,
        Kept.refl _, henv.mono hrest.subset, .refl _⟩
  | @unknown delivered delivered' handle ret rest hunknown hrest ih =>
      intro d hinv hcounter henv
      -- a handle nobody was given: the sentinel, or nothing to credit
      by_cases hret : ret = .finishedError
      · exact ⟨{ d with responderDrained := true }, by simp only [drainLoop, if_pos hret], hinv,
          Kept.refl _, henv.mono hrest.subset, .refl _⟩
      · have hlocate := locate_unknown hinv
          (show handle = 0 ∨ d.worker.asyncHandleCounter ≤ handle by rwa [hcounter])
        simp only [drainLoop, if_neg hret, hlocate]
        exact ih d hinv hcounter henv

/-- The code `drain_batch` fails the workloads in flight with. -/
def drainCode (stopped : Bool) (round : Round) : ResponseCode :=
  if stopped = true ∨ round.ret = .success then .finishedError else round.ret

theorem drainCode_ne (stopped : Bool) (round : Round) : drainCode stopped round ≠ .success := by
  unfold drainCode
  split
  · simp
  next h => exact fun hret => h (.inr hret)

/-- **`drain_batch`**, for whatever the backend hands out: completions, and
perhaps an abort at the end. -/
theorem drainBatch_ok {w : Worker} (h : w.Inv) {started delivered delivered' : List Nat}
    (henv : Env w started delivered) {stopped : Bool} {round : Round}
    (hround : if stopped = true ∨ round.ret ≠ .success then delivered' = delivered
      else Delivers w.asyncHandleCounter started delivered round.responses delivered') :
    ∃ w', w.drainBatch stopped round = .ok w' ∧ w'.Inv ∧ Kept w w' ∧
      Env w' started delivered' ∧ ∃ w₁, Completes w w₁ ∧ w₁.Inv ∧ Kept w w₁ ∧
        (w' = w₁ ∨ w' = w₁.abortAll (drainCode stopped round)) := by
  have habort : ∀ code, code ≠ .success → ∀ w' started delivered, w'.Inv →
      Env w' started delivered → (w'.abortAll code).Inv ∧ Kept w' (w'.abortAll code) ∧
        Env (w'.abortAll code) started delivered := by
    intro code hcode w' started delivered hinv henv
    obtain ⟨hinv', hkept, hcredits⟩ := abortAll_ok hinv hcode
    exact ⟨hinv', hkept, henv.kept hkept (by rw [hcredits]; exact henv.credited)⟩
  -- what is delivered stays delivered, in every branch
  have hsub : delivered ⊆ delivered' := by
    split at hround
    · rw [hround]
      exact List.Subset.refl _
    · exact hround.subset
  rw [Worker.drainBatch]
  by_cases hreader : w.reader = true
  · simp only [hreader, Bool.not_true, Bool.false_eq_true, if_false]
    by_cases hstop : stopped = true
    · rw [if_pos hstop]
      obtain ⟨hinv', hkept, henv'⟩ :=
        habort .finishedError (by simp) w started delivered h henv
      refine ⟨_, rfl, hinv', hkept, henv'.mono hsub, w, .refl w, h, Kept.refl w, .inr ?_⟩
      rw [drainCode, if_pos (.inl hstop)]
    · rw [if_neg hstop]
      by_cases hret : round.ret = .success
      · rw [if_neg (by simp [hstop, hret])] at hround
        obtain ⟨d, hok, hinv', hkept, henv', hmore⟩ :=
          drainLoop_ok hround ⟨w, false, round.responses.isEmpty⟩ h rfl henv
        rw [if_neg (not_not.mpr hret)]
        simp only [hok]
        split
        · obtain ⟨hinv'', hkept', henv''⟩ :=
            habort .finishedError (by simp) d.worker started delivered' hinv' henv'
          refine ⟨_, rfl, hinv'', hkept.trans hkept', henv'', d.worker, hmore, hinv', hkept,
            .inr ?_⟩
          rw [drainCode, if_pos (.inr hret)]
        · exact ⟨_, rfl, hinv', hkept, henv', d.worker, hmore, hinv', hkept, .inl rfl⟩
      · rw [if_pos hret]
        obtain ⟨hinv', hkept, henv'⟩ := habort round.ret hret w started delivered h henv
        refine ⟨_, rfl, hinv', hkept, henv'.mono hsub, w, .refl w, h, Kept.refl w, .inr ?_⟩
        rw [drainCode, if_neg (by simp [hstop, hret])]
  · simp only [hreader, Bool.not_false, if_true]
    exact ⟨w, rfl, h, Kept.refl w, henv.mono hsub, w, .refl w, h, Kept.refl w, .inl rfl⟩

/-! ## §3. Submitting. -/

/-- There are fewer open chunks than handles, so a count of them does not wrap. -/
theorem Worker.Inv.openHandles_lt {w : Worker} (h : w.Inv) : w.openHandles.length < 2 ^ 64 := by
  have hsub : w.openHandles ⊆ List.range w.asyncHandleCounter := by
    intro handle hopen
    obtain ⟨⟨e, he, hin⟩, -⟩ := mem_openAll.mp hopen
    exact List.mem_range.mpr (h.known he hin).2
  have hle := (List.subperm_of_subset (openAll_nodup h.ordered) hsub).length_le
  rw [List.length_range] at hle
  exact Nat.lt_of_le_of_lt hle h.layout.counter_lt

/-- **`try_take`** moves the first pending chunk into the window. -/
theorem take_ok {w : Worker} (h : w.Inv) {q q' : CapacityQueue ObjectChunk} {chunk : ObjectChunk}
    (hq : w.queue = some q) (htake : q.tryTake = some (chunk, q')) :
    Worker.Inv { w with queue := some q' } ∧ chunk.handle ∈ w.openHandles ∧
      w.pendingHandles = chunk.handle :: Worker.pendingHandles { w with queue := some q' } ∧
      chunk.handle ∉ Worker.pendingHandles { w with queue := some q' } := by
  have hw := h.window q hq
  have hopens := h.openHandles_lt
  rcases q.tryTake_cases with ⟨hnone, -⟩ | ⟨x, rest, hpending, hroom, hsome⟩
  · rw [hnone] at htake
    simp at htake
  have hcost : x.cost = 1 := hw.costs x (by simp [hpending])
  have hcount := hw.count
  rw [hpending, List.length_cons] at hcount
  have hsum : wrap (q.inflight + x.cost) = q.inflight + x.cost := wrap_of_lt (by omega)
  rw [hsum] at hroom hsome
  rw [hsome, Option.some.injEq, Prod.mk.injEq] at htake
  obtain ⟨rfl, rfl⟩ := htake
  have hnodup := hw.pending_nodup
  rw [hpending, List.map_cons, List.nodup_cons] at hnodup
  have hpos := hw.capacity_pos
  have hbounded := hw.bounded
  -- the chunk leaves the queue and takes its place in the window
  refine ⟨⟨h.layout, h.tracked, h.concluded, h.credits_nodup, h.credits_known, ?_, by simp,
    fun _ => h.reader (by simp [hq])⟩, hw.pending_open x (by simp [hpending]), ?_, ?_⟩
  · intro q' hq'
    simp only [Option.some.injEq] at hq'
    subst hq'
    refine ⟨hpos, ?_, fun y hy => hw.costs y (by simp [hpending, hy]), hnodup.2,
      fun y hy => hw.pending_open y (by simp [hpending, hy]), ?_⟩
    · show q.inflight + x.cost ≤ q.capacity
      omega
    · show q.inflight + x.cost + rest.length = w.openHandles.length
      omega
  · simp only [Worker.pendingHandles, hq, hpending, Option.map_some, Option.getD_some,
      List.map_cons]
  · exact hnodup.1

/-- **`submit`** either starts the read or credits the chunk. -/
theorem submit_ok {w : Worker} (h : w.Inv) {chunk : ObjectChunk} (outcome : ResponseCode)
    (hopen : chunk.handle ∈ w.openHandles) (hpend : chunk.handle ∉ w.pendingHandles) :
    ∃ w' issued, w.submit chunk outcome = .ok (w', issued) ∧ w'.Inv ∧ Kept w w' ∧
      (issued = true → w' = w) ∧
      (issued = false → ∃ ret, w'.credits = w.credits ++ [(chunk.handle, ret)]) ∧
      Completes w w' := by
  obtain ⟨⟨e, he, hin⟩, hnew⟩ := mem_openAll.mp hopen
  have hlt : chunk.handle - e.1 < e.2.chunkTaskIdx.length := by
    have h₁ := hin.1
    have h₂ : chunk.handle < e.1 + e.2.chunkTaskIdx.length := hin.2
    omega
  have hown : Owns e.1 e.2.chunkTaskIdx e.2.chunkTaskIdx[chunk.handle - e.1] chunk.handle :=
    ⟨hin.1, List.getElem?_eq_getElem hlt⟩
  have hlocate := locate_live h he hown
  obtain ⟨ts, hts⟩ := (h.tracked e he).counted.task hown
  have hfind := find_mem h.ascending he
  simp only [Worker.submit, hlocate, hfind, Option.bind_some, hts]
  by_cases herr : ts.error = .success
  · rw [if_neg (not_not.mpr herr)]
    by_cases houtcome : outcome = .success
    · rw [if_neg (not_not.mpr houtcome)]
      exact ⟨w, true, rfl, h, Kept.refl w, fun _ => rfl, by simp, .refl w⟩
    · rw [if_pos houtcome]
      obtain ⟨w', hok, hinv, hkept, hcredits⟩ := h.completeChunk he outcome hown hnew hpend
      exact ⟨w', false, by rw [hok]; rfl, hinv, hkept, by simp, fun _ => ⟨_, hcredits⟩,
        .step h he hown hnew hok (.refl w')⟩
  · rw [if_pos herr]
    obtain ⟨w', hok, hinv, hkept, hcredits⟩ := h.completeChunk he ts.error hown hnew hpend
    exact ⟨w', false, by rw [hok]; rfl, hinv, hkept, by simp, fun _ => ⟨_, hcredits⟩,
      .step h he hown hnew hok (.refl w')⟩

/-! ## §4. Workloads reported inline. -/

/-- What receiving a workload does to everything else. -/
structure Received (w w' : Worker) (batches : List Batch) : Prop where
  works : w'.works.Perm (batches :: w.works)
  reported : w.reported <+: w'.reported
  counter_le : w.asyncHandleCounter ≤ w'.asyncHandleCounter
  pending : ∀ k ∈ w'.pendingHandles, k ∈ w.pendingHandles ∨ w.asyncHandleCounter ≤ k
  opens : ∀ k ∈ w'.openHandles, k ∉ w'.pendingHandles →
    k ∈ w.openHandles ∧ k ∉ w.pendingHandles
  credits : w'.credits = w.credits
  live : w.Live → w'.Live

/-- A workload that never enters `_inflight`. -/
theorem reportInline_ok {w : Worker} (h : w.Inv) (wl : Inflight) {code : ResponseCode}
    (hidx : wl.chunkTaskIdx = []) (hconcluded : Concluded w.credits 0 (wl.reportWorkload code)) :
    (w.reportInline wl code).Inv ∧ Received w (w.reportInline wl code) wl.batches := by
  have hbatches : (wl.reportWorkload code).batches = wl.batches := report_batches wl code
  have hblock : blockOf (0, wl.reportWorkload code) = ⟨0, [], wl.batches⟩ := by
    rw [report_blockOf, blockOf, hidx]
  refine ⟨⟨?_, h.tracked, ?_, h.credits_nodup, h.credits_known, fun q hq => ?_, fun hnone => ?_,
    h.reader⟩, ?_, List.prefix_append _ _, Nat.le_refl _, fun _ hk => .inl hk,
    fun _ hk hp => ⟨hk, hp⟩, rfl, id⟩
  · show Layout _ _ _ _ ((w.reported ++ [_]).map blockOf)
    rw [List.map_append, List.map_singleton, hblock]
    exact h.layout.inline wl.batches
  · intro e he
    rcases List.mem_append.mp he with he | he
    · exact h.concluded e he
    · rw [List.mem_singleton.mp he]
      exact hconcluded
  · have hw := h.window q hq
    exact ⟨hw.capacity_pos, hw.bounded, hw.costs, hw.pending_nodup, hw.pending_open, hw.count⟩
  · obtain ⟨henq, hinf, hrep⟩ := h.unsized hnone
    refine ⟨henq, hinf, fun e he => ?_⟩
    rcases List.mem_append.mp he with he | he
    · exact hrep e he
    · rw [List.mem_singleton.mp he]
      show wl.chunkTaskIdx.length = 0
      rw [hidx]
      rfl
  · show ((w.inflight ++ (w.reported ++ [_])).map _).Perm _
    rw [← List.append_assoc, List.map_append, List.map_singleton, hbatches]
    exact List.perm_append_singleton _ _

theorem hasTask_placed {workload : Workload} {running : List Running}
    (hbatches : running.map Running.batch = workload.batches) {p : Placed}
    (hp : p ∈ placedTasks 0 workload.batches) : HasTask running p.batch p.task := by
  obtain ⟨k, batch, hb, hbatch, htask⟩ := mem_placedTasks.mp hp
  rw [← hbatches, List.getElem?_map, Option.map_eq_some_iff] at hbatch
  obtain ⟨r, hr, rfl⟩ := hbatch
  refine ⟨r, ?_, (List.getElem?_eq_some_iff.mp htask).1⟩
  rw [hb, Nat.zero_add]
  exact hr

theorem start_batches (workload : Workload) :
    (workload.batches.map Running.start).map Running.batch = workload.batches := by
  rw [List.map_map]
  exact List.map_id _

theorem respondAll_ok (placed : List Placed) :
    ∀ {running : List Running} {finished : Nat → Nat → Prop}, RunsAt running finished →
      (∀ p ∈ placed, HasTask running p.batch p.task) →
      ∃ running', respondAll placed running = .ok running' ∧
        running'.map Running.batch = running.map Running.batch ∧
        RunsAt running' (fun b i => finished b i ∨ ∃ p ∈ placed, p.ref = (b, i)) := by
  induction placed with
  | nil =>
      intro running finished h _
      exact ⟨running, rfl, rfl, h.congr (fun b i _ => by simp)⟩
  | cons p placed ih =>
      intro running finished h htask
      obtain ⟨running', hok, hbatches, hruns⟩ := respond_ok h (htask p (by simp))
      obtain ⟨running'', hok', hbatches', hruns'⟩ :=
        ih hruns (fun q hq => (htask q (by simp [hq])).of_batches hbatches)
      refine ⟨running'', by simp only [respondAll, hok, hok'], hbatches'.trans hbatches,
        hruns'.congr (fun b i _ => ?_)⟩
      simp only [List.mem_cons, or_and_right, exists_or, exists_eq_left, Placed.ref, Prod.mk.injEq,
        or_assoc]
      exact or_congr Iff.rfl (or_congr (and_congr eq_comm eq_comm) Iff.rfl)

/-- The code `discard` fails a workload with. -/
def Worker.discardCode (w : Worker) (workload : Workload) : ResponseCode :=
  if workload.batches.isEmpty then .emptyRequestError
  else if w.readerError ≠ .success then w.readerError
  else .unknownError

theorem discardCode_ne (w : Worker) (workload : Workload) :
    w.discardCode workload ≠ .success := by
  unfold Worker.discardCode
  split
  · simp
  · split
    next hne => exact hne
    next => simp

/-- Discarding a workload. -/
theorem discard_ok {w : Worker} (h : w.Inv) (workload : Workload) :
    (w.discard workload).Inv ∧ Received w (w.discard workload) workload.batches := by
  have hcode := discardCode_ne w workload
  have hbatches := start_batches workload
  obtain ⟨hinv, hrec⟩ := reportInline_ok h (Inflight.ofWorkload workload) rfl
    (concluded_report (runsAt_start workload) (fun _ _ hf => hf.elim)
      (fun _ _ _ hsuccess => absurd (by rwa [Inflight.errorCode, if_neg hcode] at hsuccess) hcode))
  refine ⟨⟨hinv.layout, hinv.tracked, hinv.concluded, hinv.credits_nodup, hinv.credits_known,
    fun q hq => ?_, hinv.unsized, hinv.reader⟩, ?_⟩
  · have hw := hinv.window q hq
    exact ⟨hw.capacity_pos, hw.bounded, hw.costs, hw.pending_nodup, hw.pending_open, hw.count⟩
  · have hof : (Inflight.ofWorkload workload).batches = workload.batches := hbatches
    rw [hof] at hrec
    exact ⟨hrec.works, hrec.reported, hrec.counter_le, hrec.pending, hrec.opens, hrec.credits,
      hrec.live⟩

/-! ## §5. Workloads that are cut. -/

/-- The tasks of a workload. -/
def Workload.tasks (workload : Workload) : List Task := workload.batches.flatMap Batch.tasks

/-- **The word arithmetic of `enqueue` fits**: no ceiling division wraps,
and the handle counter stays a word. -/
structure Fits (chunk counter : Nat) (workload : Workload) : Prop where
  counts : CountsFit chunk workload.tasks
  handles : counter + chunksTotal chunk workload.tasks < 2 ^ 64

instance (chunk counter : Nat) (workload : Workload) : Decidable (Fits chunk counter workload) :=
  decidable_of_iff
    (CountsFit chunk workload.tasks ∧ counter + chunksTotal chunk workload.tasks < 2 ^ 64)
    ⟨fun h => ⟨h.1, h.2⟩, fun h => ⟨h.counts, h.handles⟩⟩

theorem built_start (chunk handleBase total : Nat) (workload : Workload) :
    Built chunk handleBase total workload.batches [] []
      ⟨{ Inflight.ofWorkload workload with chunkTaskIdx := List.replicate total 0 }, [], 0⟩ where
  kept := ⟨rfl, Nat.zero_le _, by simp, rfl, by simp⟩
  count := rfl
  refs := rfl
  idx := by simp
  state := by simp [Inflight.ofWorkload]
  tiled := by simp [readTasks]
  batches_eq := start_batches workload
  runs := (runsAt_start workload).congr (fun b i _ => by simp)
  errors := rfl

/-- Counting through the positions of a list. -/
theorem countP_range (l : List Nat) (t : Nat) :
    (List.range l.length).countP (fun k => decide (l[k]? = some t))
      = l.countP (fun a => decide (a = t)) := by
  induction l using List.reverseRecOn with
  | nil => rfl
  | append_singleton l a ih =>
      have hleft : (List.range l.length).countP (fun k => decide ((l ++ [a])[k]? = some t))
          = (List.range l.length).countP (fun k => decide (l[k]? = some t)) := by
        refine List.countP_congr (fun k hk => ?_)
        rw [List.getElem?_append_left (List.mem_range.mp hk)]
      rw [List.length_append, List.length_singleton, List.range_succ, List.countP_append,
        List.countP_append, hleft, ih]
      simp

theorem countP_positions (l : List Nat) (t base : Nat) :
    (List.range' base l.length).countP (fun h => decide (l[h - base]? = some t))
      = l.countP (fun a => decide (a = t)) := by
  have hrange : List.range' base l.length = (List.range l.length).map (base + ·) := by
    rw [List.range_eq_range', List.map_add_range']
    simp
  rw [hrange, List.countP_map, ← countP_range]
  refine List.countP_congr (fun k _ => ?_)
  simp

/-- Handles above every credit are open. -/
theorem openHandles_fresh {credits : List (Nat × ResponseCode)} (base size : Nat)
    (h : ∀ c ∈ credits, c.1 < base) :
    ObjectStorage.openHandles credits base size = List.range' base size := by
  rw [ObjectStorage.openHandles, List.filter_eq_self]
  intro k hk
  simp only [decide_eq_true_eq]
  intro hmem
  obtain ⟨c, hc, rfl⟩ := List.mem_map.mp hmem
  have := h c hc
  have := (List.mem_range'_1.mp hk).1
  omega

/-- A workload just cut is tracked: nothing is credited to it yet. -/
theorem tracked_built {chunk handleBase total : Nat} (hpos : 0 < total)
    {batches : List Batch} {cut : List (ObjectChunk × Nat)} {b : Building}
    (h : Built chunk handleBase total batches (placedTasks 0 batches) cut b)
    (hfull : cut.length = total) {credits : List (Nat × ResponseCode)}
    (hcredits : ∀ c ∈ credits, c.1 < handleBase) :
    Tracked credits handleBase { b.wl with remainingTasks := b.wl.tasks.length } := by
  -- the indices are all filled, one for each chunk cut
  have hidx : b.wl.chunkTaskIdx = cut.map Prod.snd := by
    rw [h.kept.idx_eq, hfull, Nat.sub_self]
    simp
  have hlen : b.wl.chunkTaskIdx.length = total := by rw [hidx, List.length_map, hfull]
  have hbatches : ({ b.wl with remainingTasks := b.wl.tasks.length } : Inflight).batches
      = batches := h.batches_eq
  have hwaits : ∀ ts ∈ b.wl.tasks, 0 < ts.remainingChunks := by
    intro ts hts
    obtain ⟨t, ht⟩ := List.mem_iff_getElem?.mp hts
    exact (h.state t ts ht).2.2
  refine ⟨by rw [blockSize, hlen]; exact hpos, ?_, ⟨?_, ?_, ?_, ?_⟩, ?_, ?_, ?_, ?_⟩
  · rw [Inflight.reads, hbatches]
    exact h.refs
  · intro t ht
    rw [hidx] at ht
    obtain ⟨c, hc, rfl⟩ := List.mem_map.mp ht
    exact h.idx c hc
  · -- a task with something to read has a chunk
    intro t ht
    obtain ⟨-, hcount, hwait⟩ := h.state t _ (List.getElem?_eq_getElem ht)
    rw [hcount, List.countP_pos_iff] at hwait
    obtain ⟨c, hc, hct⟩ := hwait
    rw [hidx]
    exact List.mem_map.mpr ⟨c, hc, of_decide_eq_true hct⟩
  · intro t ts hts
    rw [(h.state t ts hts).2.1, openChunks, openHandles_fresh _ _ hcredits, countP_positions, hidx, List.countP_map]
    rfl
  · intro t ts hts
    -- no handle of the workload was credited before
    refine iff_of_true (h.state t ts hts).1 (fun c hc hown => ?_)
    have := hcredits c hc
    have := hown.1
    omega
  · refine (List.countP_eq_length.mpr (fun ts hts => ?_)).symm
    have := hwaits ts hts
    simp only [ne_eq, decide_eq_true_eq]
    omega
  · refine h.runs.congr (fun b' i _ => ?_)
    rw [Inflight.NothingToRead, hbatches]
    refine ⟨.inl, fun hor => hor.resolve_right ?_⟩
    rintro ⟨ts, hts, -, hdone⟩
    have := hwaits ts hts
    have := hdone.1
    omega
  · rw [ErrorCodes]
    show ∀ e ∈ b.wl.errorByFileIndex, _
    rw [h.errors]
    simp
  · intro ts hts hzero
    have := hwaits ts hts
    omega

/-- The queue after `enqueue`. -/
theorem foldl_enqueue (chunks : List ObjectChunk) :
    ∀ q : CapacityQueue ObjectChunk, chunks.foldl (fun q c => q.enqueue c 1) q
      = { q with pending := q.pending ++ chunks.map (fun c => ⟨c, 1⟩) } := by
  induction chunks with
  | nil =>
      intro q
      simp
  | cons c chunks ih =>
      intro q
      rw [List.foldl_cons, ih]
      simp [CapacityQueue.enqueue]

/-- What `enqueue` leaves of a workload with something to read. -/
def Worker.cut (w : Worker) (q : CapacityQueue ObjectChunk) (total : Nat) (b : Building) : Worker :=
  { w with
    asyncHandleCounter := w.asyncHandleCounter + total
    queue := some { q with pending := q.pending ++ b.chunks.map (fun c => ⟨c, 1⟩) }
    inflight := w.inflight
      ++ [(w.asyncHandleCounter, { b.wl with remainingTasks := b.wl.tasks.length })]
    enqueued := w.enqueued ++ b.chunks }

theorem Worker.Inv.keys_lt {w : Worker} (h : w.Inv) {e : Nat × Inflight} (he : e ∈ w.inflight) :
    e.1 < w.asyncHandleCounter := by
  have hpos : 0 < blockSize e.2 := (h.tracked e he).size_pos
  have hbelow : e.1 + blockSize e.2 ≤ w.asyncHandleCounter :=
    h.layout.below (blockOf e) (List.mem_append.mpr (.inl (List.mem_map_of_mem he)))
  omega

/-- The chunks cut have the handles from the counter on. -/
theorem Built.handles {chunk start total : Nat} {batches : List Batch} {tasks : List Placed}
    {cut : List (ObjectChunk × Nat)} {b : Building}
    (h : Built chunk start total batches tasks cut b) (hfull : cut.length = total) :
    b.chunks.map ObjectChunk.handle = List.range' start total := by
  rw [h.kept.chunks_eq, List.map_map]
  refine List.ext_getElem (by simpa using hfull) (fun k hk _ => ?_)
  have hlt : k < cut.length := by simpa using hk
  have hhandle := h.kept.handles k _ (List.getElem?_eq_getElem hlt)
  simpa only [List.getElem_map, Function.comp_apply, List.getElem_range', Nat.one_mul]
    using hhandle

/-- They are open, besides those that were. -/
theorem cut_openHandles {w : Worker} {q : CapacityQueue ObjectChunk} {total : Nat} {b : Building}
    (hcredits : ∀ c ∈ w.credits, c.1 < w.asyncHandleCounter)
    (hsize : b.wl.chunkTaskIdx.length = total) :
    (w.cut q total b).openHandles
      = w.openHandles ++ List.range' w.asyncHandleCounter total := by
  have hfresh := openHandles_fresh w.asyncHandleCounter total hcredits
  rw [Worker.openHandles, Worker.cut, List.flatMap_append, List.flatMap_singleton]
  simp only [blockSize, hsize, hfresh]
  rfl

/-- And they are pending. -/
theorem cut_pendingHandles {w : Worker} {q : CapacityQueue ObjectChunk} (hq : w.queue = some q)
    {total : Nat} {b : Building}
    (hhandles : b.chunks.map ObjectChunk.handle = List.range' w.asyncHandleCounter total) :
    (w.cut q total b).pendingHandles
      = w.pendingHandles ++ List.range' w.asyncHandleCounter total := by
  rw [← hhandles]
  simp only [Worker.pendingHandles, Worker.cut, hq, Option.map_some, Option.getD_some,
    List.map_append, List.map_map]
  rfl

/-- **The window** counts the chunks put into its queue. -/
theorem Window.cut {w : Worker} {q : CapacityQueue ObjectChunk} (hw : Window w q)
    (hold : ∀ k ∈ w.openHandles, k < w.asyncHandleCounter) {total : Nat} {b : Building}
    (hhandles : b.chunks.map ObjectChunk.handle = List.range' w.asyncHandleCounter total)
    (hopen : (w.cut q total b).openHandles
      = w.openHandles ++ List.range' w.asyncHandleCounter total) :
    Window (w.cut q total b)
      { q with pending := q.pending ++ b.chunks.map (fun c => ⟨c, 1⟩) } := by
  have hchunks : (b.chunks.map (fun c => (⟨c, 1⟩ : Entry ObjectChunk))).map
      (fun x => x.item.handle) = List.range' w.asyncHandleCounter total := by
    rw [List.map_map]
    exact hhandles
  refine ⟨hw.capacity_pos, hw.bounded, ?_, ?_, ?_, ?_⟩
  · intro x hx
    rcases List.mem_append.mp hx with hx | hx
    · exact hw.costs x hx
    · obtain ⟨c, -, rfl⟩ := List.mem_map.mp hx
      rfl
  · rw [List.map_append, hchunks, List.nodup_append]
    refine ⟨hw.pending_nodup, List.nodup_range' 1, fun a ha k hk hak => ?_⟩
    obtain ⟨x, hx, rfl⟩ := List.mem_map.mp ha
    have := hold _ (hw.pending_open x hx)
    have := (List.mem_range'_1.mp hk).1
    omega
  · intro x hx
    rw [hopen, List.mem_append, ← hchunks]
    rcases List.mem_append.mp hx with hx | hx
    · exact .inl (hw.pending_open x hx)
    · exact .inr (List.mem_map_of_mem hx)
  · have hlen : b.chunks.length = total := by
      simpa using congrArg List.length hhandles
    have := hw.count
    simp only [hopen, List.length_append, List.length_range', List.length_map]
    omega

/-- **The worker after `enqueue`.** -/
theorem cut_ok {w : Worker} (h : w.Inv) {q : CapacityQueue ObjectChunk} (hq : w.queue = some q)
    {workload : Workload} {total : Nat} (hpos : 0 < total)
    (hword : w.asyncHandleCounter + total < 2 ^ 64) {cut : List (ObjectChunk × Nat)}
    {b : Building}
    (hbuilt : Built w.chunkBytesize w.asyncHandleCounter total workload.batches
      (placedTasks 0 workload.batches) cut b) (hfull : cut.length = total) :
    (w.cut q total b).Inv ∧ Received w (w.cut q total b) workload.batches := by
  have hcredits : ∀ c ∈ w.credits, c.1 < w.asyncHandleCounter :=
    fun c hc => (h.credits_known c hc).2
  have htrack := tracked_built hpos hbuilt hfull hcredits
  have hbatches : ({ b.wl with remainingTasks := b.wl.tasks.length } : Inflight).batches
      = workload.batches := hbuilt.batches_eq
  have hsize : b.wl.chunkTaskIdx.length = total := by
    rw [hbuilt.kept.idx_eq, hfull, Nat.sub_self]
    simpa using hfull
  have hhandles := hbuilt.handles hfull
  have hopen := @cut_openHandles w q total b hcredits hsize
  have hpending := @cut_pendingHandles w q hq total b hhandles
  have hold : ∀ k ∈ w.openHandles, k < w.asyncHandleCounter := by
    intro k hk
    obtain ⟨⟨e, he, hin⟩, -⟩ := mem_openAll.mp hk
    exact (h.known he hin).2
  refine ⟨⟨?_, ?_, h.concluded, h.credits_nodup, ?_, ?_, by simp [Worker.cut], ?_⟩, ?_,
    List.prefix_refl _, Nat.le_add_right _ _, ?_, ?_, rfl, ?_⟩
  · show Layout w.chunkBytesize _ _ ((w.inflight ++ [_]).map blockOf) _
    rw [List.map_append, List.map_singleton]
    refine h.layout.enqueue rfl hsize hpos hword hhandles (fun t p hp => ?_)
    rw [Block.reads, blockOf, hbatches] at hp
    rw [blockOf, chunksOf_cut hbuilt.kept]
    exact hbuilt.tiled t p hp
  · intro e he
    rcases List.mem_append.mp he with he | he
    · exact h.tracked e he
    · rw [List.mem_singleton.mp he]
      exact htrack
  · intro c hc
    have := h.credits_known c hc
    show 1 ≤ c.1 ∧ c.1 < w.asyncHandleCounter + total
    omega
  · intro q' hq'
    simp only [Worker.cut, Option.some.injEq] at hq'
    subst hq'
    exact (h.window q hq).cut hold hhandles hopen
  · exact fun _ => h.reader (by simp [hq])
  · show ((w.inflight ++ [_] ++ w.reported).map _).Perm _
    rw [Worker.works]
    simp only [List.map_append, List.map_singleton, hbatches, List.append_assoc]
    exact List.perm_middle
  · intro k hk
    rw [hpending, List.mem_append] at hk
    exact hk.imp_right (fun hk => (List.mem_range'_1.mp hk).1)
  · intro k hk hnot
    rw [hopen, List.mem_append] at hk
    rw [hpending, List.mem_append, not_or] at hnot
    exact ⟨hk.resolve_right hnot.2, hnot.1⟩
  · intro hlive e he
    rcases List.mem_append.mp he with he | he
    · exact hlive e he
    · rw [List.mem_singleton.mp he]
      -- the first chunk belongs to a task
      obtain ⟨c, hc⟩ := List.exists_mem_of_length_pos (show 0 < cut.length by omega)
      have := hbuilt.idx c hc
      show b.wl.tasks.length ≠ 0
      omega

/-- The chunks of a workload that fits are counted right. -/
theorem total_of_fits {w : Worker} {workload : Workload}
    (hfit : Fits w.chunkBytesize w.asyncHandleCounter workload) :
    totalChunks w.chunkBytesize workload.batches = chunksTotal w.chunkBytesize workload.tasks := by
  have hhandles := hfit.handles
  exact totalChunks_eq w.chunk_pos hfit.counts (by rw [Workload.tasks] at hhandles; omega)

/-- `enqueue`, once the chunks of the workload are known. -/
theorem enqueue_of_cut {w : Worker} {workload : Workload} {total : Nat} {b : Building}
    (htotal : totalChunks w.chunkBytesize workload.batches = total) (hpos : total ≠ 0)
    (hfree : find w.inflight w.asyncHandleCounter = none)
    (hcut : enqueueLoop w.chunkBytesize w.chunk_pos w.asyncHandleCounter
      (placedTasks 0 workload.batches)
      ⟨{ Inflight.ofWorkload workload with chunkTaskIdx := List.replicate total 0 }, [], 0⟩
        = .ok b) :
    w.enqueue workload = .ok { w with
      asyncHandleCounter := wrap (w.asyncHandleCounter + total)
      queue := w.queue.map (fun q => b.chunks.foldl (fun q c => q.enqueue c 1) q)
      inflight := tryEmplace w.inflight w.asyncHandleCounter
        { b.wl with remainingTasks := b.wl.tasks.length }
      enqueued := w.enqueued ++ b.chunks } := by
  rw [Worker.enqueue]
  simp only [htotal, if_neg hpos, hfree, hcut]

/-- **A workload with something to read is cut in full**, and enters
`_inflight` with all its chunks. -/
theorem enqueue_built {w : Worker} (h : w.Inv) {workload : Workload}
    (hfit : Fits w.chunkBytesize w.asyncHandleCounter workload) {total : Nat}
    (htotal : totalChunks w.chunkBytesize workload.batches = total) (hpos : total ≠ 0) :
    ∃ b cut, Built w.chunkBytesize w.asyncHandleCounter total workload.batches
        (placedTasks 0 workload.batches) cut b ∧ cut.length = total ∧
      w.enqueue workload = .ok { w with
        asyncHandleCounter := wrap (w.asyncHandleCounter + total)
        queue := w.queue.map (fun q => b.chunks.foldl (fun q c => q.enqueue c 1) q)
        inflight := tryEmplace w.inflight w.asyncHandleCounter
          { b.wl with remainingTasks := b.wl.tasks.length }
        enqueued := w.enqueued ++ b.chunks } := by
  have hcount : total = chunksTotal w.chunkBytesize workload.tasks :=
    htotal.symm.trans (total_of_fits hfit)
  obtain ⟨b, cut, hok, hbuilt⟩ := enqueueLoop_ok w.chunk_pos
    (show w.asyncHandleCounter + total < 2 ^ 64 by rw [hcount]; exact hfit.handles)
    (placedTasks 0 workload.batches)
    (built_start w.chunkBytesize w.asyncHandleCounter total workload)
    (fun p hp => hasTask_placed (start_batches workload) hp)
    (by rw [List.nil_append, placedTasks_values, hcount]; exact Nat.le_refl _)
  have hfull : cut.length = total := by
    rw [hbuilt.count, List.nil_append, placedTasks_values, hcount]
    rfl
  have hfind : find w.inflight w.asyncHandleCounter = none := by
    rw [find, Option.map_eq_none_iff, List.find?_eq_none]
    intro e he
    have := h.keys_lt he
    simp only [decide_eq_true_eq]
    omega
  exact ⟨b, cut, hbuilt, hfull, enqueue_of_cut htotal hpos hfind hok⟩

/-- What `enqueue` makes of a workload: a new entry of `_inflight` without a
failure, or a report that every task succeeded. -/
inductive Entered (w w' : Worker) : Prop
  | cut {wl : Inflight} (hinflight : w'.inflight = w.inflight ++ [(w.asyncHandleCounter, wl)])
      (hreported : w'.reported = w.reported) (herrors : wl.errorByFileIndex = [])
      (htasks : ∀ ts ∈ wl.tasks, ts.error = .success)
  | inline {wl : Inflight} (hinflight : w'.inflight = w.inflight) (hidx : wl.chunkTaskIdx = [])
      (hreported : w'.reported = w.reported ++ [(0, wl.reportWorkload .success)])
      (herrors : wl.errorByFileIndex = [])
      (hsuccess : ∀ r ∈ wl.workload, ∀ f ∈ r.run.log, f.ret = .success)

/-- **`enqueue`** returns, and keeps everything in step. -/
theorem enqueue_ok {w : Worker} (h : w.Inv) {q : CapacityQueue ObjectChunk}
    (hq : w.queue = some q) {workload : Workload}
    (hfit : Fits w.chunkBytesize w.asyncHandleCounter workload) :
    ∃ w', w.enqueue workload = .ok w' ∧ w'.Inv ∧ Received w w' workload.batches ∧
      w'.queue.isSome = true ∧ Entered w w' := by
  have hhandles := hfit.handles
  have htotal := total_of_fits hfit
  obtain ⟨total, hdef⟩ : ∃ n, n = chunksTotal w.chunkBytesize workload.tasks := ⟨_, rfl⟩
  rw [← hdef] at htotal hhandles
  have htask : ∀ p ∈ placedTasks 0 workload.batches,
      HasTask (Inflight.ofWorkload workload).workload p.batch p.task :=
    fun p hp => hasTask_placed (start_batches workload) hp
  by_cases hzero : total = 0
  · rw [Worker.enqueue]
    simp only [htotal]
    -- nothing to read: every task is reported at once
    obtain ⟨running, hok, hbatches, hruns⟩ :=
      respondAll_ok _ (runsAt_start workload) htask
    have hempty : ∀ p ∈ placedTasks 0 workload.batches, p.value.info.bytesize = 0 := by
      intro p hp
      by_contra hne
      have hmem : p.value ∈ workload.tasks := by
        rw [Workload.tasks, ← placedTasks_values 0]
        exact List.mem_map_of_mem hp
      have hsum := hdef.symm.trans hzero
      rw [chunksTotal, List.sum_eq_zero_iff_forall_eq_nat] at hsum
      have hnone := hsum _ (List.mem_map_of_mem hmem)
      have := chunkCount_pos w.chunk_pos (Nat.pos_of_ne_zero hne)
      omega
    have hall : ({ Inflight.ofWorkload workload with workload := running } : Inflight).batches
        = workload.batches := hbatches.trans (start_batches workload)
    have hconcluded : Concluded w.credits 0
        ({ Inflight.ofWorkload workload with workload := running }.reportWorkload .success) := by
      refine concluded_report hruns (fun b i hf => ?_) (fun b r hr _ i hi => ?_)
      · obtain ⟨p, hp, href⟩ := hf.resolve_left id
        exact .inl ⟨p, by rw [hall]; exact hp, href, hempty p hp⟩
      · refine .inr ⟨⟨b, i, r.batch.tasks[i]⟩, mem_placedTasks.mpr
          ⟨b, r.batch, (Nat.zero_add b).symm, ?_, List.getElem?_eq_getElem hi⟩, rfl⟩
        rw [← hall, Inflight.batches, List.getElem?_map, hr]
        rfl
    obtain ⟨hinv, hrec⟩ := reportInline_ok h _ rfl hconcluded
    rw [hall] at hrec
    have hok' : respondAll (placedTasks 0 workload.batches) (Inflight.ofWorkload workload).workload
        = .ok running := hok
    refine ⟨_, by rw [if_pos hzero, hok'], hinv, hrec, by rw [Worker.reportInline, hq]; rfl,
      .inline rfl rfl rfl rfl (fun r hr => ?_)⟩
    obtain ⟨b, hb⟩ := List.mem_iff_getElem?.mp hr
    exact (hruns b r hb).log_success
  · obtain ⟨b, cut, hbuilt, hfull, hok⟩ := enqueue_built h hfit htotal hzero
    obtain ⟨hinv, hrec⟩ := cut_ok h hq (Nat.pos_of_ne_zero hzero) hhandles hbuilt hfull
    refine ⟨w.cut q total b, ?_, hinv, hrec, rfl, .cut rfl rfl hbuilt.errors (fun ts hts => ?_)⟩
    swap
    · obtain ⟨t, ht⟩ := List.mem_iff_getElem?.mp hts
      exact (hbuilt.state t ts ht).1
    rw [hok]
    simp only [wrap_of_lt hhandles, hq, Option.map_some, foldl_enqueue,
      tryEmplace_above _ (fun e he => h.keys_lt he)]
    rfl

/-! ## §6. Receiving a workload. -/

/-- The chunk size a workload meets: the first one to bring the client up
sets it. -/
def Worker.chunkFor (w : Worker) (workload : Workload) : Nat :=
  if w.reader then w.chunkBytesize else max 1 workload.config.s3BlockBytesize

/-- Before the window is up, the chunk size may change. -/
theorem Worker.Inv.rebuild {w : Worker} (h : w.Inv) (hq : w.queue = none) (chunk : Nat)
    (hchunk : 0 < chunk) (reader : Bool) (code : ResponseCode) :
    Worker.Inv { w with
      chunkBytesize := chunk
      chunk_pos := hchunk
      reader := reader
      readerError := code } := by
  obtain ⟨henq, hinf, hrep⟩ := h.unsized hq
  have hl := h.layout
  refine ⟨⟨hl.counter_pos, hl.counter_lt, hl.handles, hl.ordered, hl.apart, hl.below, hl.nonempty, ?_⟩, h.tracked,
    h.concluded, h.credits_nodup, h.credits_known, fun q hq' => ?_, h.unsized,
    fun hne => absurd hq hne⟩
  · intro b hb hne
    rw [hinf, List.map_nil, List.nil_append] at hb
    obtain ⟨e, he, rfl⟩ := List.mem_map.mp hb
    exact absurd (hrep e he) hne
  · have hnone : w.queue = some q := hq'
    rw [hq] at hnone
    simp at hnone

/-- The window comes up. -/
theorem Worker.Inv.open {w : Worker} (h : w.Inv) (hq : w.queue = none) (hreader : w.reader = true)
    {window : Nat} (hwindow : 1 ≤ window) :
    Worker.Inv { w with queue := some (.new window) } := by
  obtain ⟨-, hinf, -⟩ := h.unsized hq
  refine ⟨h.layout, h.tracked, h.concluded, h.credits_nodup, h.credits_known, fun q hq' => ?_,
    by simp, fun _ => hreader⟩
  simp only [Option.some.injEq] at hq'
  subst hq'
  refine ⟨hwindow, Nat.zero_le _, by simp [CapacityQueue.new], by simp [CapacityQueue.new],
    by simp [CapacityQueue.new], ?_⟩
  simp [CapacityQueue.new, Worker.openHandles, hinf]

theorem window_pos (w : Worker) (bytes : Nat) : 1 ≤ w.window bytes := by
  rw [Worker.window]
  split
  · omega
  · exact Nat.le_max_left _ _

/-- What building the client changes. -/
theorem buildReader_ok (w : Worker) (workload : Workload) (backend : Backend) :
    ∃ chunk hchunk reader code,
      (w.buildReader workload backend).1 = { w with
        chunkBytesize := chunk
        chunk_pos := hchunk
        reader := reader
        readerError := code } ∧
      ((w.buildReader workload backend).2 = true → reader = true ∧ chunk = w.chunkFor workload) := by
  rw [Worker.buildReader]
  by_cases hreader : w.reader = true
  · rw [if_pos hreader]
    exact ⟨w.chunkBytesize, w.chunk_pos, w.reader, w.readerError, rfl,
      fun _ => ⟨hreader, by rw [Worker.chunkFor, if_pos hreader]⟩⟩
  · rw [if_neg hreader]
    have hpos : 0 < max 1 workload.config.s3BlockBytesize := by omega
    cases backend.build with
    | none =>
        exact ⟨_, hpos, true, w.readerError, rfl,
          fun _ => ⟨rfl, by rw [Worker.chunkFor, if_neg hreader]⟩⟩
    | some failure =>
        cases failure with
        | none => exact ⟨_, hpos, w.reader, w.readerError, rfl, fun h => absurd h Bool.false_ne_true⟩
        | some code => exact ⟨_, hpos, w.reader, code, rfl, fun h => absurd h Bool.false_ne_true⟩

/-- What `capacity` changes, and what its window is. -/
theorem capacity_ok (w : Worker) (workload : Workload) (backend : Backend) :
    ∃ chunk hchunk reader code,
      (w.capacity workload backend).1 = { w with
        chunkBytesize := chunk
        chunk_pos := hchunk
        reader := reader
        readerError := code } ∧
      ∀ window, (w.capacity workload backend).2 = some window →
        reader = true ∧ 1 ≤ window ∧ chunk = w.chunkFor workload := by
  rw [Worker.capacity]
  split
  · exact ⟨w.chunkBytesize, w.chunk_pos, w.reader, w.readerError, rfl, by simp⟩
  · obtain ⟨chunk, hchunk, reader, code, hbuild, hok⟩ := buildReader_ok w workload backend
    generalize w.buildReader workload backend = built at hbuild hok
    obtain ⟨w', through⟩ := built
    cases through with
    | false => exact ⟨chunk, hchunk, reader, code, hbuild, by simp⟩
    | true =>
        refine ⟨chunk, hchunk, reader, code, hbuild, fun window hwindow => ?_⟩
        obtain ⟨bytes, -, rfl⟩ := Option.map_eq_some_iff.mp hwindow
        exact ⟨(hok rfl).1, window_pos w' bytes, (hok rfl).2⟩

/-- **A workload is received**: enqueued, or discarded. -/
theorem receive_ok {w : Worker} (h : w.Inv) {workload : Workload} (backend : Backend)
    (hfit : Fits (w.chunkFor workload) w.asyncHandleCounter workload) :
    ∃ w' enqueued, w.receive workload backend = .ok (w', enqueued) ∧ w'.Inv ∧
      Received w w' workload.batches ∧ (enqueued = true → w'.queue.isSome = true) ∧
      (enqueued = false → w'.pendingHandles = []) ∧ (enqueued = true → Entered w w') ∧
      (enqueued = false → w'.inflight = w.inflight ∧
        w'.reported = w.reported ++ [(0, (Inflight.ofWorkload workload).reportWorkload
          ((w.capacity workload backend).1.discardCode workload))]) := by
  -- the window is there from the first workload on
  cases hq : w.queue with
  | some q =>
      rw [Worker.chunkFor, if_pos (h.reader (by simp [hq]))] at hfit
      obtain ⟨w', hok, hinv, hrec, hqueue, hentered⟩ := enqueue_ok h hq hfit
      exact ⟨w', true, by simp only [Worker.receive, hq, hok]; rfl, hinv, hrec, fun _ => hqueue,
        by simp, fun _ => hentered, by simp⟩
  | none =>
      obtain ⟨chunk, hchunk, reader, code, hcap, hwindow⟩ := capacity_ok w workload backend
      have hinv := h.rebuild hq chunk hchunk reader code
      have hpair : w.capacity workload backend
          = ((w.capacity workload backend).1, (w.capacity workload backend).2) := rfl
      simp only [Worker.receive, hq]
      rw [hpair, hcap]
      cases hsome : (w.capacity workload backend).2 with
      | none =>
          obtain ⟨hinv', hrec⟩ := discard_ok hinv workload
          refine ⟨_, false, rfl, hinv', ⟨hrec.works, hrec.reported, hrec.counter_le, hrec.pending,
            hrec.opens, hrec.credits, hrec.live⟩, by simp, fun _ => ?_, by simp,
            fun _ => ⟨rfl, rfl⟩⟩
          simp only [Worker.pendingHandles, Worker.discard, Worker.reportInline, hq, Option.map_none,
            Option.getD_none, List.map_nil]
      | some window =>
          obtain ⟨rfl, hpos, rfl⟩ := hwindow window hsome
          have hinv' := hinv.open hq rfl hpos
          obtain ⟨w', hok, hinv'', hrec, hqueue, hentered⟩ := enqueue_ok hinv' rfl hfit
          have hnone : w.pendingHandles = [] := by
            simp only [Worker.pendingHandles, hq, Option.map_none, Option.getD_none, List.map_nil]
          refine ⟨w', true, by simp only [hok]; rfl, hinv'', ⟨hrec.works, hrec.reported,
            hrec.counter_le, ?_, ?_, hrec.credits, hrec.live⟩, fun _ => hqueue, by simp,
            fun _ => ?_, by simp⟩
          · intro k hk
            refine (hrec.pending k hk).imp_left (fun hp => ?_)
            simp [Worker.pendingHandles, CapacityQueue.new] at hp
          · intro k hk hp
            rw [hnone]
            exact ⟨(hrec.opens k hk hp).1, by simp⟩
          · cases hentered with
            | cut hinf hrep herrors htasks => exact .cut hinf hrep herrors htasks
            | inline hinf hidx hrep herrors hsuccess => exact .inline hinf hidx hrep herrors hsuccess

end ModelStreamer.ObjectStorage
