/-
  ModelStreamer.ObjectStorage.Sound
  ─────────────────────────────────
  **THE WORKER'S INVARIANT, OVER WHOLE RUNS.**

    • `worker_sound` — in every run whose workloads fit in the word
      arithmetic of `enqueue`, `Sound` holds in every state,
    • `wrapped_unsound` — with a chunk size near 2^64 the count of the chunks
      wraps to 0, and a task is reported as read without a single read,
    • `Good.execution` — what the worker does to a batch is an `Execution`, so
      it is one of the threads of `Delivery.System`.
-/
import ModelStreamer.Delivery.Tickets
import ModelStreamer.ObjectStorage.Hooks

namespace ModelStreamer.ObjectStorage

open ModelStreamer.Lib ModelStreamer.Planning ModelStreamer.Delivery

/-! ## §1. What holds between any two steps. -/

/-- What holds of a worker with its backend, wherever its thread is and
whatever has stopped its last hook. -/
structure Steady (s : State) : Prop where
  inv : s.worker.Inv
  env : Env s.worker s.started s.delivered
  executed : s.worker.works.Perm s.executed
  live : s.worker.Live
  running : s.pc ≠ .crashed

/-- The same, while no hook is stopped: nothing is pending between calls. -/
structure Good (s : State) : Prop where
  inv : s.worker.Inv
  env : Env s.worker s.started s.delivered
  executed : s.worker.works.Perm s.executed
  live : s.worker.Live
  pending : s.pc = .ready ∨ s.pc = .closing ∨ s.pc = .refilling → s.worker.pendingHandles = []
  running : s.pc ≠ .crashed

theorem Good.steady {s : State} (h : Good s) : Steady s :=
  ⟨h.inv, h.env, h.executed, h.live, h.running⟩

theorem good_init {s : State} (h : Init s) : Good s := by
  obtain ⟨⟨chunk, hchunk, hworker⟩, hpc, hstarted, hdelivered, hexecuted⟩ := h
  refine ⟨?_, ⟨?_, ?_, ?_, ?_⟩, ?_, ?_, fun _ => ?_, by simp [hpc]⟩
  · rw [hworker]
    exact ⟨⟨Nat.le_refl 1, one_lt_word, rfl, .nil, .nil, by simp [Worker.new], by simp [Worker.new],
      by simp [Worker.new]⟩, by simp [Worker.new], by simp [Worker.new], by simp [Worker.new],
      by simp [Worker.new], by simp [Worker.new], fun _ => ⟨rfl, rfl, by simp [Worker.new]⟩,
      by simp [Worker.new]⟩
  · simp [hstarted]
  · simp [hstarted]
  · simp [hstarted]
  · simp [hworker, Worker.new, Worker.openHandles]
  · rw [hworker, hexecuted]
    exact List.Perm.refl _
  · simp [hworker, Worker.new, Worker.Live]
  · rw [hworker]
    rfl

/-- The workloads received fit in the word arithmetic of `enqueue`. -/
def StepFits (s : State) : Action → Prop
  | .execute workload _ =>
      Fits (s.worker.chunkFor workload) s.worker.asyncHandleCounter workload
  | _ => True

instance (s : State) : (a : Action) → Decidable (StepFits s a)
  | .execute _ _ => inferInstanceAs (Decidable (Fits _ _ _))
  | .fill | .submit _ | .drain _ _ | .pumped | .close => isTrue trivial

theorem steady_execute {s : State} (h : Steady s) {workload : Workload} {backend : Backend}
    (hfit : Fits (s.worker.chunkFor workload) s.worker.asyncHandleCounter workload) :
    Steady (s.after (s.worker.receive workload backend) (fun result =>
      { s with
        worker := result.1
        pc := if result.2 then .filling else .ready
        executed := s.executed ++ [workload.batches] })) := by
  obtain ⟨w', enqueued, hok, hinv, hrec, -⟩ := receive_ok h.inv backend hfit
  simp only [hok, State.after]
  refine ⟨hinv, ⟨fun k hk => ?_, fun k hk hp => ?_, fun k hk hc => ?_, fun k hk hp => ?_⟩, ?_,
    hrec.live h.live, ?_⟩
  · exact Nat.lt_of_lt_of_le (h.env.started_known k hk) hrec.counter_le
  · rcases hrec.pending k hp with hp | hp
    · exact h.env.started_pending k hk hp
    · have := h.env.started_known k hk
      omega
  · rw [hrec.credits] at hc
    exact h.env.credited k hk hc
  · obtain ⟨hopen, hpend⟩ := hrec.opens k hk hp
    exact h.env.open_started k hopen hpend
  · exact hrec.works.trans ((h.executed.cons _).trans (List.perm_append_singleton _ _).symm)
  · cases enqueued <;> simp

theorem steady_submit {s : State} (h : Steady s) {q q' : CapacityQueue ObjectChunk}
    {chunk : ObjectChunk} (outcome : ResponseCode) (hq : s.worker.queue = some q)
    (htake : q.tryTake = some (chunk, q')) :
    Steady (s.after ({ s.worker with queue := some q' }.submit chunk outcome) (fun result =>
      { s with
        worker := result.1
        started := if result.2 then chunk.handle :: s.started else s.started })) := by
  obtain ⟨hinv, hopen, hpending, hnot⟩ := take_ok h.inv hq htake
  obtain ⟨w', issued, hok, hinv', hkept, hissued, hcredited, -⟩ :=
    submit_ok hinv outcome hopen hnot
  have hknown : chunk.handle < s.worker.asyncHandleCounter := by
    obtain ⟨⟨e, he, hin⟩, -⟩ := mem_openAll.mp hopen
    exact (h.inv.known he hin).2
  have hfresh : chunk.handle ∉ s.started := by
    intro hs
    exact h.env.started_pending _ hs (by rw [hpending]; exact List.mem_cons_self)
  have hsub : ∀ k ∈ w'.pendingHandles, k ∈ s.worker.pendingHandles := by
    intro k hk
    rw [hpending]
    exact List.mem_cons_of_mem _ (hkept.pending.subset hk)
  have hcounter : w'.asyncHandleCounter = s.worker.asyncHandleCounter := hkept.counter_eq
  simp only [hok, State.after]
  refine ⟨hinv', ?_, hkept.works.trans h.executed, hkept.live h.live, h.running⟩
  cases issued with
  | true =>
      -- the read is started: the chunk is neither pending nor credited
      rw [hissued rfl, if_pos rfl]
      refine ⟨fun k hk => ?_, fun k hk hp => ?_, fun k hk hc => ?_, fun k hk hp => ?_⟩
      · rcases List.mem_cons.mp hk with rfl | hk
        · exact hknown
        · exact h.env.started_known k hk
      · rcases List.mem_cons.mp hk with rfl | hk
        · exact hnot hp
        · exact h.env.started_pending k hk (by rw [hpending]; exact List.mem_cons_of_mem _ hp)
      · rcases List.mem_cons.mp hk with rfl | hk
        · exact absurd hc (mem_openAll.mp hopen).2
        · exact h.env.credited k hk hc
      · by_cases hsame : k = chunk.handle
        · exact List.mem_cons.mpr (.inl hsame)
        · refine List.mem_cons_of_mem _ (h.env.open_started k hk ?_)
          rw [hpending, List.mem_cons, not_or]
          exact ⟨hsame, hp⟩
  | false =>
      -- the chunk is credited at once, without a read
      obtain ⟨ret, hcredits⟩ := hcredited rfl
      rw [if_neg (by simp)]
      refine ⟨fun k hk => hcounter ▸ h.env.started_known k hk,
        fun k hk hp => h.env.started_pending k hk (hsub k hp), fun k hk hc => ?_,
        fun k hk hp => ?_⟩
      · rw [hcredits, List.map_append, List.mem_append] at hc
        rcases hc with hc | hc
        · exact h.env.credited k hk hc
        · have hsame : k = chunk.handle := by simpa using hc
          exact absurd (hsame ▸ hk) hfresh
      · obtain ⟨hopen', hpend'⟩ := hkept.opens k hk
        refine h.env.open_started k hopen' ?_
        rw [hpending, List.mem_cons, not_or]
        refine ⟨?_, fun hp' => hp (hpend' hp')⟩
        rintro rfl
        refine (mem_openAll.mp hk).2 ?_
        rw [hcredits, List.map_append]
        simp

/-- **Every step keeps what holds.** -/
theorem steady_step {s t : State} {a : Action} (h : Steady s) (hfit : StepFits s a)
    (hstep : Step s a t) : Steady t := by
  cases hstep with
  | execute workload backend hpc => exact steady_execute h hfit
  | fill q hq hpc =>
      refine ⟨h.inv, h.env, h.executed, h.live, ?_⟩
      show (if q.empty = true then Pc.closing else Pc.pumping) ≠ .crashed
      split <;> simp
  | submit outcome q q' chunk hq hpc htake => exact steady_submit h outcome hq htake
  | drain stopped round delivered next hdraining hround =>
      obtain ⟨w', hok, hinv, hkept, henv, -⟩ := drainBatch_ok h.inv h.env hround
      simp only [hok, State.after]
      refine ⟨hinv, henv, hkept.works.trans h.executed, hkept.live h.live, ?_⟩
      cases hdraining <;> simp
  | pumped q hq hdone hpc =>
      refine ⟨h.inv, h.env, h.executed, h.live, ?_⟩
      show (if s.pc = .refilling then Pc.ready else Pc.filling) ≠ .crashed
      split <;> simp
  | close q hq hpc hroom => exact ⟨h.inv, h.env, h.executed, h.live, by simp⟩

theorem pendingHandles_eq {w : Worker} {q : CapacityQueue ObjectChunk} (hq : w.queue = some q) :
    w.pendingHandles = q.pending.map (fun x => x.item.handle) := by
  simp only [Worker.pendingHandles, hq, Option.map_some, Option.getD_some]

theorem good_submit {s : State} (h : Good s) {q q' : CapacityQueue ObjectChunk}
    {chunk : ObjectChunk} (outcome : ResponseCode) (hq : s.worker.queue = some q)
    (htake : q.tryTake = some (chunk, q')) :
    Good (s.after ({ s.worker with queue := some q' }.submit chunk outcome) (fun result =>
      { s with
        worker := result.1
        started := if result.2 then chunk.handle :: s.started else s.started })) := by
  obtain ⟨hinv, henv, hexecuted, hlive, hrunning⟩ := steady_submit h.steady outcome hq htake
  refine ⟨hinv, henv, hexecuted, hlive, ?_, hrunning⟩
  obtain ⟨hinv', hopen, hpending, hnot⟩ := take_ok h.inv hq htake
  obtain ⟨w', issued, hok, -⟩ := submit_ok hinv' outcome hopen hnot
  simp only [hok, State.after]
  intro hwhere
  -- a chunk was pending, so this is not between calls
  have hnil := h.pending hwhere
  rw [hpending] at hnil
  simp at hnil

theorem good_step {s t : State} {a : Action} (h : Good s) (hfit : StepFits s a)
    (hstep : Step s a t) : Good t := by
  obtain ⟨hinv, henv, hexecuted, hlive, hrunning⟩ := steady_step h.steady hfit hstep
  refine ⟨hinv, henv, hexecuted, hlive, ?_, hrunning⟩
  cases hstep with
  | execute workload backend hpc =>
      obtain ⟨w', enqueued, hok, -, -, -, hnone, -⟩ := receive_ok h.inv backend hfit
      simp only [hok, State.after]
      intro hwhere
      -- a workload discarded leaves nothing pending
      cases enqueued with
      | false => exact hnone rfl
      | true => simp at hwhere
  | fill q hq hpc =>
      intro hwhere
      rw [pendingHandles_eq hq]
      by_cases hempty : q.empty = true
      · rw [CapacityQueue.empty, List.isEmpty_iff] at hempty
        rw [hempty]
        rfl
      · simp [hempty] at hwhere
  | submit outcome q q' chunk hq hpc htake => exact (good_submit h outcome hq htake).pending
  | drain stopped round delivered next hdraining hround =>
      obtain ⟨w', hok, -, hkept, -⟩ := drainBatch_ok h.inv h.env hround
      simp only [hok, State.after]
      intro hwhere
      -- a round that is not the loop's comes after the pump
      have hnil : s.worker.pendingHandles = [] := by
        cases hdraining with
        | loop q hq hpc => simp at hwhere
        | full q hq hpc => exact h.pending (by simp [hpc])
        | tail q hq hpc => exact h.pending (by simp [hpc])
      have hsub := hkept.pending
      rw [hnil] at hsub
      exact List.sublist_nil.mp hsub
  | pumped q hq hdone hpc =>
      intro hwhere
      rcases hpc with hpc | ⟨hpc, -⟩
      · exact h.pending (by simp [hpc])
      · simp [hpc] at hwhere
  | close q hq hpc hroom => exact fun _ => h.pending (by simp [hpc])

theorem reachable_good : ∀ s, (worker.restrict StepFits).Reachable s → Good s := by
  apply System.Reachable.invariant
  · intro s hinit
    exact good_init hinit
  · intro s a t _ h hstep
    exact good_step h hstep.1 hstep.2

/-! ## §2. The invariant. -/

/-- The workloads of a worker, in flight and dropped. -/
def Worker.entries (w : Worker) : List (Nat × Inflight) := w.inflight ++ w.reported

/-- The chunks enqueued for task `t` of an entry. -/
def Worker.chunksOf (w : Worker) (e : Nat × Inflight) (t : Nat) : List ObjectChunk :=
  (blockOf e).chunksOf w.enqueued t

/-- Task `i` of batch `b` was read: it is tiled by its chunks, and each of
them is credited with Success.  A task of no bytes is read at once. -/
def Worker.Read (w : Worker) (e : Nat × Inflight) (b i : Nat) : Prop :=
  e.2.NothingToRead b i ∨ ∃ t p, e.2.reads[t]? = some p ∧ p.ref = (b, i) ∧
    TilesTask w.chunkBytesize p.value (w.chunksOf e t) ∧
    ∀ c ∈ w.chunksOf e t, (c.handle, ResponseCode.success) ∈ w.credits

/-- The invariant of the worker.

    (a) the chunks of a task tile it;
    (b) no handle is used twice, the blocks are disjoint, a completion counts
        for its own task, once, and one for a dropped workload for none;
    (c) every workload received is in flight or dropped; no task is finished
        twice, with Success only if it was read, and a dropped workload has
        every task finished;
    (d) between calls nothing is pending, the window counts the reads under
        way for the workloads in flight, and it is idle when there are none. -/
structure Sound (s : State) : Prop where
  tiled : ∀ e ∈ s.worker.entries, e.2.chunkTaskIdx ≠ [] → ∀ t p, e.2.reads[t]? = some p →
    TilesTask s.worker.chunkBytesize p.value (s.worker.chunksOf e t)
  handles_nodup : (s.worker.enqueued.map ObjectChunk.handle).Nodup
  apart : (s.worker.entries.map blockOf).Pairwise Apart
  credited_once : (s.worker.credits.map Prod.fst).Nodup
  counted : ∀ e ∈ s.worker.inflight,
    Counted s.worker.credits e.1 e.2.chunkTaskIdx e.2.tasks
  late : ∀ e ∈ s.worker.reported, ∀ handle, InBlock blockSize e handle →
    locate s.worker.inflight handle = none
  executed : (s.worker.entries.map (fun e => e.2.batches)).Perm s.executed
  once : ∀ e ∈ s.worker.entries, ∀ r ∈ e.2.workload, (r.run.log.map Finish.task).Nodup
  success : ∀ e ∈ s.worker.entries, ∀ b r, e.2.workload[b]? = some r → ∀ f ∈ r.run.log,
    f.ret = .success → s.worker.Read e b f.task
  finished : ∀ e ∈ s.worker.reported, ∀ r ∈ e.2.workload,
    (r.run.log.map Finish.task).Perm (List.range r.batch.tasks.length)
  between : s.pc = .ready → ∀ q, s.worker.queue = some q → q.pending = [] ∧
    q.inflight = s.worker.openHandles.length ∧ (∀ h ∈ s.worker.openHandles, h ∈ s.started) ∧
    (q.idle = true ↔ s.worker.inflight = [])
  bounded : ∀ q, s.worker.queue = some q → q.inflight ≤ q.capacity
  running : s.pc ≠ .crashed

/-- Backed tasks were read. -/
theorem read_of_backed {w : Worker} (h : w.Inv) {e : Nat × Inflight} (he : e ∈ w.entries)
    {b i : Nat} (hbacked : Backed w.credits e.1 e.2 b i) : w.Read e b i := by
  refine hbacked.imp_right ?_
  rintro ⟨t, p, hp, href, hmem, hall⟩
  have hblock : blockOf e ∈ w.inflight.map blockOf ++ w.reported.map blockOf := by
    rw [← List.map_append]
    exact List.mem_map_of_mem he
  have hsize : (blockOf e).size ≠ 0 := Nat.pos_iff_ne_zero.mp (List.length_pos_of_mem hmem)
  refine ⟨t, p, hp, href, h.layout.tiled _ hblock hsize t p hp, fun c hc => ?_⟩
  have hown : (blockOf e).base ≤ c.handle ∧
      (blockOf e).chunkTaskIdx[c.handle - (blockOf e).base]? = some t :=
    of_decide_eq_true (List.mem_filter.mp hc).2
  exact hall c.handle hown

/-- A workload in flight has an open chunk. -/
theorem open_of_live {w : Worker} (h : w.Inv) (hlive : w.Live) (hnone : w.openHandles = []) :
    w.inflight = [] := by
  refine List.eq_nil_iff_forall_not_mem.mpr (fun e he => ?_)
  obtain ⟨handle, hopen⟩ := (h.tracked e he).exists_open (hlive e he)
  have hmem : handle ∈ w.openHandles := List.mem_flatMap.mpr ⟨e, he, hopen⟩
  rw [hnone] at hmem
  simp at hmem

theorem Good.sound {s : State} (h : Good s) : Sound s := by
  have hlayout := h.inv.layout
  refine ⟨fun e he hne t p hp => ?_, ?_, ?_, h.inv.credits_nodup,
    fun e he => (h.inv.tracked e he).counted, fun e he handle hin => locate_gone h.inv he hin,
    h.executed, fun e he r hr => ?_, fun e he b r hr f hf hret => read_of_backed h.inv he ?_,
    fun e he r hr => ?_, fun hpc q hq => ?_, fun q hq => (h.inv.window q hq).bounded, h.running⟩
  · refine hlayout.tiled (blockOf e) ?_ (by simpa [Block.size, blockOf] using hne) t p hp
    rw [← List.map_append]
    exact List.mem_map_of_mem he
  · rw [hlayout.handles]
    exact List.nodup_range' 1
  · rw [Worker.entries, List.map_append]
    exact hlayout.apart
  · have hran : Ran r.batch r.run := by
      rcases List.mem_append.mp he with he | he
      · obtain ⟨b, hb⟩ := List.mem_iff_getElem?.mp hr
        exact ((h.inv.tracked e he).runs b r hb).ran
      · exact ((h.inv.concluded e he).complete r hr).1
    exact hran.consistent.nodup
  · rcases List.mem_append.mp he with he | he
    · exact (h.inv.tracked e he).successBacked b r hr f hf hret
    · exact (h.inv.concluded e he).success b r hr f hf hret
  · obtain ⟨hran, hcomplete⟩ := (h.inv.concluded e he).complete r hr
    exact hcomplete.log_perm hran
  · -- closed, so all that is open was started
    have hw := h.inv.window q hq
    have hnil := h.pending (.inl hpc)
    have hpending : q.pending = [] := by
      rw [pendingHandles_eq hq, List.map_eq_nil_iff] at hnil
      exact hnil
    have hcount := hw.count
    rw [hpending, List.length_nil, Nat.add_zero] at hcount
    refine ⟨hpending, hcount, fun handle hopen => h.env.open_started handle hopen ?_, ?_⟩
    · rw [hnil]
      simp
    · simp only [CapacityQueue.idle, hpending, List.isEmpty_nil, Bool.true_and, beq_iff_eq]
      constructor
      · intro hzero
        exact open_of_live h.inv h.live (List.length_eq_zero_iff.mp (hcount ▸ hzero))
      · intro hempty
        rw [hcount, Worker.openHandles, hempty]
        rfl

/-! ## §3. An object of two bytes. -/

/-- The two bytes at the start of an object. -/
def twoByteRange : BatchRange := ⟨0, 2, by decide⟩

/-- A workload of one object of two bytes, read in chunks of `chunk` bytes. -/
def twoBytes (chunk : Nat) : Workload where
  config := ⟨1, 1, chunk, 1⟩
  batches := [⟨1, 0, 0, "s3://bucket/object", some ⟨"s3", "bucket", "object"⟩,
    [⟨⟨0, 0, 0, 1, 2, 0⟩, ⟨0, 2, 2, 0⟩⟩], twoByteRange⟩]
  owned := by simp

/-- A worker with the default chunk size, and nothing received. -/
def fresh : State := ⟨.new 8388608 (by decide), .ready, [], [], []⟩

theorem fresh_init : Init fresh := ⟨⟨_, _, rfl⟩, rfl, rfl, rfl, rfl⟩

/-- A client that builds, with no bound on the bytes in flight. -/
def unbounded : Backend := ⟨none, some 18446744073709551615⟩

/-- The worker once the two bytes are cut, in one chunk. -/
def cutWorker : Worker where
  chunkBytesize := 2
  chunk_pos := by decide
  reader := true
  readerError := .success
  queue := some ⟨18446744073709551615, 0, [⟨⟨1, 0, 2, 0⟩, 1⟩]⟩
  inflight := [(1, ⟨(twoBytes 2).batches.map Running.start, [0], [⟨0, 0, 1, .success⟩], [], 1⟩)]
  asyncHandleCounter := 2
  enqueued := [⟨1, 0, 2, 0⟩]
  credits := []
  reported := []

theorem chunkLoop_zero {chunk : Nat} (hchunk : 0 < chunk) (handleBase taskIdx offset buffer : Nat)
    (b : Building) : chunkLoop chunk hchunk handleBase taskIdx offset 0 buffer b = .ok b := by
  rw [chunkLoop, dif_neg (by omega)]

theorem cut_twoBytes :
    enqueueLoop 2 (by decide) 1 (placedTasks 0 (twoBytes 2).batches)
      ⟨{ Inflight.ofWorkload (twoBytes 2) with chunkTaskIdx := [0] }, [], 0⟩
      = .ok ⟨⟨(twoBytes 2).batches.map Running.start, [0], [⟨0, 0, 1, .success⟩], [], 0⟩,
          [⟨1, 0, 2, 0⟩], 1⟩ := by
  have hloop : chunkLoop 2 (by decide) 1 0 0 2 0
      ⟨{ Inflight.ofWorkload (twoBytes 2) with
          chunkTaskIdx := [0]
          tasks := [⟨0, 0, 0, .success⟩] }, [], 0⟩
      = .ok ⟨⟨(twoBytes 2).batches.map Running.start, [0], [⟨0, 0, 1, .success⟩], [], 0⟩,
          [⟨1, 0, 2, 0⟩], 1⟩ := by
    rw [chunkLoop]
    exact chunkLoop_zero _ _ _ _ _ _
  have htask : enqueueTask 2 (by decide) 1 0 0 ⟨⟨0, 0, 0, 1, 2, 0⟩, ⟨0, 2, 2, 0⟩⟩
      ⟨{ Inflight.ofWorkload (twoBytes 2) with chunkTaskIdx := [0] }, [], 0⟩
      = .ok ⟨⟨(twoBytes 2).batches.map Running.start, [0], [⟨0, 0, 1, .success⟩], [], 0⟩,
          [⟨1, 0, 2, 0⟩], 1⟩ := hloop
  show enqueueLoop 2 _ 1 [⟨0, 0, ⟨⟨0, 0, 0, 1, 2, 0⟩, ⟨0, 2, 2, 0⟩⟩⟩] _ = _
  simp only [enqueueLoop, htask]

theorem receive_twoBytes : fresh.worker.receive (twoBytes 2) unbounded = .ok (cutWorker, true) := by
  have hopen : fresh.worker.receive (twoBytes 2) unbounded
      = (Worker.enqueue { cutWorker with
          queue := some (.new 18446744073709551615)
          inflight := []
          asyncHandleCounter := 1
          enqueued := [] } (twoBytes 2)).map (·, true) := rfl
  have hcut : Worker.enqueue { cutWorker with
          queue := some (.new 18446744073709551615)
          inflight := []
          asyncHandleCounter := 1
          enqueued := [] } (twoBytes 2) = .ok cutWorker := by
    refine Eq.trans (enqueue_of_cut ?_ Nat.one_ne_zero ?_ cut_twoBytes) ?_ <;> rfl
  rw [hopen, hcut]
  rfl

theorem fits_twoBytes : StepFits fresh (.execute (twoBytes 2) unbounded) := by
  refine ⟨fun task htask _ => ?_, by decide⟩
  obtain rfl := List.mem_singleton.mp htask
  decide

/-! ## §4. Over whole runs. -/

/-- **THE WORKER'S INVARIANT**, in every state of every run whose workloads
fit. -/
theorem worker_sound {s : State} (h : (worker.restrict StepFits).Reachable s) : Sound s :=
  (reachable_good s h).sound

/-- The two bytes are received, read, and reported. -/
theorem worker_sound_read : ∃ s, (worker.restrict StepFits).Reachable s ∧
    s.worker.inflight = [] ∧ s.worker.credits = [(1, .success)] ∧ Sound s := by
  have hexecute := Step.execute (s := fresh) (twoBytes 2) unbounded rfl
  rw [receive_twoBytes] at hexecute
  have next : ∀ {s t : State} (a : Action), (worker.restrict StepFits).Reachable s →
      StepFits s a → Step s a t → (worker.restrict StepFits).Reachable t :=
    fun _ h hfit hstep => .step h ⟨hfit, hstep⟩
  have h₁ := next _ (.init fresh_init) fits_twoBytes hexecute
  have h₂ := next .fill h₁ trivial (.fill _ rfl rfl)
  have h₃ := next (.submit .success) h₂ trivial (.submit .success _ _ _ rfl (.inl rfl) rfl)
  have h₄ := next .pumped h₃ trivial (.pumped _ rfl rfl (.inr ⟨rfl, rfl⟩))
  have h₅ := next .fill h₄ trivial (.fill _ rfl rfl)
  have h₆ := next .close h₅ trivial (.close _ rfl rfl (by decide))
  have h₇ := next (.drain false ⟨.success, [⟨1, .success⟩]⟩) h₆ trivial (.drain false _ [1] _
    (.tail _ rfl rfl) (.real (by decide) (by decide) (by decide) .nil))
  exact ⟨_, h₇, rfl, rfl, worker_sound h₇⟩

/-- **The count wraps**: two bytes in chunks of `2 ^ 64 - 1` bytes make no
chunk, and the task is reported as read. -/
theorem wrapped_unsound : ∃ s, worker.Reachable s ∧ ¬ Sound s := by
  have hstep := Step.execute (s := fresh) (twoBytes 18446744073709551615) unbounded rfl
  refine ⟨_, .step (.init fresh_init) hstep, fun hsound => ?_⟩
  have hread := hsound.success (0, _) (List.mem_singleton.mpr rfl) 0 _ rfl ⟨0, .success⟩
    (List.mem_singleton.mpr rfl) rfl
  rcases hread with ⟨p, hp, -, hzero⟩ | ⟨t, p, hp, -, htiles, -⟩
  · obtain rfl := List.mem_singleton.mp hp
    simp at hzero
  · cases t with
    | zero =>
        obtain rfl := Option.some.inj hp
        exact absurd (show 2 = 0 from htiles) (by decide)
    | succ t =>
        have hlt : t + 1 < 1 := (List.getElem?_eq_some_iff.mp hp).1
        omega

/-! ## §5. The streamer's threads. -/

/-- **A dropped workload is an execution of each of its batches**, as the
threads of the streamer run them. -/
def Good.execution {s : State} (h : Good s) {e : Nat × Inflight} (he : e ∈ s.worker.reported)
    {r : Running} (hr : r ∈ e.2.workload) : Execution r.batch where
  run := r.run
  ran := ((h.inv.concluded e he).complete r hr).1
  complete := ((h.inv.concluded e he).complete r hr).2

end ModelStreamer.ObjectStorage
