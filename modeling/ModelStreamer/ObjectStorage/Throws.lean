/-
  ModelStreamer.ObjectStorage.Throws
  ──────────────────────────────────
  **WHERE A HOOK OF THE WORKER MAY THROW**, and what it leaves behind.

  In `ObjectStorage.Worker` allocations do not fail.  Here any of them may,
  and so may the backend's calls.  What the worker answers itself is in the
  hooks already: a client or a window that cannot be made (`discard`), and a
  read that cannot be issued (`submit`).  The other points are these:

    • `building` — in `enqueue`, once the workload is in `_inflight`; its
      `catch` aborts every workload in flight, this one included,
    • `fetch` — in `drain_batch`, before the backend hands anything out; the
      thread's loop comes back to it,
    • `entry` — in `enqueue`, the node of `_inflight`: the same `catch`, but
      the workload is not moved yet,
    • `record` — in `complete_chunk`, the node of `error_by_file_index`,
    • `handover` — in `drain_batch`, when the events are copied,
    • `respond` — `responder->push`, wherever a range's last task is
      reported.

  What escapes a hook ends the call of `execute` or `drain`; the thread logs
  it and goes on.
-/
import ModelStreamer.ObjectStorage.Sound

namespace ModelStreamer.ObjectStorage

open ModelStreamer.Lib ModelStreamer.Planning ModelStreamer.Delivery

/-! ## §1. Points. -/

/-- Where a hook throws. -/
inductive Point where
  | building
  | fetch
  | entry
  | record
  | handover
  | respond
  deriving DecidableEq, Repr

/-- Nothing is lost there. -/
def Point.Covered : Point → Prop
  | .building | .fetch => True
  | .entry | .record | .handover | .respond => False

/-- The range a task of a batch reports to. -/
def rangeOf (batch : Batch) (task : Task) : RangeId :=
  ⟨batch.submissionId, batch.fileIndex, task.request.index⟩

/-! ## §2. Reports that are cut off. -/

/-- `report_workload` throws while task `i` of one batch is reported: the
batches before it are done with, and of this one the tasks up to `i`. -/
inductive ReportThrows (wl : Inflight) (code : ResponseCode) : RangeId → Inflight → Prop
  | task (before after : List Running) (r : Running) (i : Nat) (task : Task)
      (hwl : wl.workload = before ++ r :: after) (htask : r.batch.tasks[i]? = some task)
      (hopen : r.run.finished[i]? = some false) (hcode : wl.errorCode code r.batch ≠ .success) :
      ReportThrows wl code (rangeOf r.batch task)
        { wl with
          workload :=
            before.map (fun r => { r with run := r.run.handleError (wl.errorCode code r.batch) })
            ++ { r with
                run := (List.range (i + 1)).foldl
                  (fun run j => run.finishedRequest j (wl.errorCode code r.batch)) r.run }
            :: after }

/-- `abort_all` throws: the workloads before are dropped, this one is not,
and the window stays as it is. -/
inductive AbortThrows (w : Worker) (code : ResponseCode) : RangeId → Worker → Prop
  | entry (before after : List (Nat × Inflight)) (base : Nat) (wl wl' : Inflight) (range : RangeId)
      (hinflight : w.inflight = before ++ (base, wl) :: after)
      (hreport : ReportThrows wl code range wl') :
      AbortThrows w code range
        { w with
          inflight := (base, wl') :: after
          reported := w.reported ++ before.map (fun e => (e.1, e.2.reportWorkload code)) }

/-- The slot of a chunk is free, and its workload is `wl`. -/
def Worker.credited (w : Worker) (handle base : Nat) (ret : ResponseCode) (wl : Inflight) :
    Worker :=
  { w with
    queue := w.queue.map (fun q => q.complete 1)
    inflight := replace w.inflight base wl
    credits := w.credits ++ [(handle, ret)] }

/-- `complete_chunk` throws, at the last chunk of a task.  `remaining_tasks`
still counts the task, or the workload stays where it is with none left. -/
inductive CompletionThrows (w : Worker) (handle base taskIdx : Nat) (ret : ResponseCode) :
    Point → List RangeId → Worker → Prop
  | record (wl : Inflight) (ts : TaskState) (hwl : find w.inflight base = some wl)
      (hts : wl.tasks[taskIdx]? = some ts) (hlast : ts.remainingChunks = 1)
      (herror : (ts.completeChunk ret).error ≠ .success) :
      CompletionThrows w handle base taskIdx ret .record []
        (w.credited handle base ret
          { wl with tasks := wl.tasks.set taskIdx (ts.completeChunk ret) })
  | respond (wl : Inflight) (ts : TaskState) (r : Running) (task : Task)
      (running : List Running) (hwl : find w.inflight base = some wl)
      (hts : wl.tasks[taskIdx]? = some ts) (hlast : ts.remainingChunks = 1)
      (herror : (ts.completeChunk ret).error = .success)
      (hr : wl.workload[ts.batch]? = some r) (htask : r.batch.tasks[ts.task]? = some task)
      (hrespond : ObjectStorage.respond wl.workload ts.batch ts.task = .ok running) :
      CompletionThrows w handle base taskIdx ret .respond [rangeOf r.batch task]
        (w.credited handle base ret
          { wl with
            tasks := wl.tasks.set taskIdx (ts.completeChunk ret)
            workload := running })
  | finalize (wl wl' wl'' : Inflight) (range : RangeId) (hwl : find w.inflight base = some wl)
      (hok : wl.completeChunk taskIdx ret = .ok (wl', true))
      (hreport : ReportThrows wl' .success range wl'') :
      CompletionThrows w handle base taskIdx ret .respond [range]
        (w.credited handle base ret wl'')

/-! ## §3. `enqueue`. -/

/-- The worker once the window is up, or `none` where the workload is
discarded: the beginning of `execute`. -/
def Worker.windowUp (w : Worker) (workload : Workload) (backend : Backend) : Option Worker :=
  match w.queue with
  | some _ => some w
  | none =>
      match w.capacity workload backend with
      | (_, none) => none
      | (w, some window) => some { w with queue := some (.new window) }

/-- A workload enters `_inflight` as `b` has it, its chunks in the queue. -/
def Worker.entered (w : Worker) (total : Nat) (b : Building) : Worker :=
  { w with
    asyncHandleCounter := wrap (w.asyncHandleCounter + total)
    queue := w.queue.map (fun q => b.chunks.foldl (fun q c => q.enqueue c 1) q)
    inflight := tryEmplace w.inflight w.asyncHandleCounter b.wl
    enqueued := w.enqueued ++ b.chunks }

/-- The workload in `_inflight` before its first task. -/
def buildingStart (workload : Workload) (total : Nat) : Building :=
  ⟨{ Inflight.ofWorkload workload with chunkTaskIdx := List.replicate total 0 }, [], 0⟩

/-- What `enqueue` has built when an allocation throws. -/
inductive Half (w : Worker) (workload : Workload) (total : Nat) : Building → Prop
  /-- `wl.chunk_task_idx.resize`. -/
  | resize : Half w workload total ⟨Inflight.ofWorkload workload, [], 0⟩
  /-- `wl.tasks.push_back`, for the task `p`. -/
  | task (placed rest : List Placed) (p : Placed) (b : Building)
      (hplaced : placedTasks 0 workload.batches = placed ++ p :: rest)
      (hread : p.value.info.bytesize ≠ 0)
      (hloop : enqueueLoop w.chunkBytesize w.chunk_pos w.asyncHandleCounter placed
        (buildingStart workload total) = .ok b) : Half w workload total b
  /-- `_queue->enqueue`, for a chunk of the task `p` after the first `m`. -/
  | chunk (placed rest : List Placed) (p : Placed) (m : Nat) (b b' : Building)
      (hplaced : placedTasks 0 workload.batches = placed ++ p :: rest)
      (hloop : enqueueLoop w.chunkBytesize w.chunk_pos w.asyncHandleCounter placed
        (buildingStart workload total) = .ok b)
      (hmore : m * w.chunkBytesize < p.value.info.bytesize)
      (hchunks : chunkLoop w.chunkBytesize w.chunk_pos w.asyncHandleCounter b.wl.tasks.length
        p.value.info.offset (m * w.chunkBytesize) p.value.destination
        { b with
          wl := { b.wl with tasks := b.wl.tasks ++ [⟨p.batch, p.task, 0, .success⟩] } }
        = .ok b') :
      Half w workload total
        { b' with
          wl := { b'.wl with
            chunkTaskIdx := b'.wl.chunkTaskIdx.set b'.nextChunk b.wl.tasks.length } }

/-! ## §4. `drain_batch`. -/

/-- The `abort_all` that ends a `drain_batch`: its code, and the worker
before it. -/
inductive DrainAborts (w : Worker) (stopped : Bool) (round : Round) :
    Worker → ResponseCode → Prop
  | stopped (hstopped : stopped = true) : DrainAborts w stopped round w .finishedError
  | failed (hstopped : stopped = false) (hret : round.ret ≠ .success) :
      DrainAborts w stopped round w round.ret
  | drained (d : Drained) (hstopped : stopped = false) (hret : round.ret = .success)
      (hloop : drainLoop round.responses ⟨w, false, round.responses.isEmpty⟩ = .ok d)
      (hprogressed : d.progressed = false) (hdrained : d.responderDrained = true)
      (hbusy : d.worker.idle = false) : DrainAborts w stopped round d.worker .finishedError

/-- What a round does to the completions delivered. -/
def RoundDelivers (s : State) (stopped : Bool) (round : Round) (delivered : List Nat) : Prop :=
  if stopped = true ∨ round.ret ≠ .success then delivered = s.delivered
  else Delivers s.worker.asyncHandleCounter s.started s.delivered round.responses delivered

/-! ## §5. What a throw leaves behind. -/

/-- The action, the point where it throws, the ranges whose response is gone,
and the state after it. -/
inductive Throws : State → Action → Point → List RangeId → State → Prop
  /-- `enqueue` catches, aborts, and returns. -/
  | building {s : State} (workload : Workload) (backend : Backend) (w : Worker) (half : Building)
      (hpc : s.pc = .ready) (hup : s.worker.windowUp workload backend = some w)
      (htotal : totalChunks w.chunkBytesize workload.batches ≠ 0)
      (hhalf : Half w workload (totalChunks w.chunkBytesize workload.batches) half) :
      Throws s (.execute workload backend) .building []
        { s with
          worker := (w.entered (totalChunks w.chunkBytesize workload.batches) half).abortAll
            .unknownError
          pc := .filling
          executed := s.executed ++ [workload.batches] }
  /-- The same, and the workload is not there to be aborted. -/
  | entry {s : State} (workload : Workload) (backend : Backend) (w : Worker)
      (hpc : s.pc = .ready) (hup : s.worker.windowUp workload backend = some w)
      (htotal : totalChunks w.chunkBytesize workload.batches ≠ 0) :
      Throws s (.execute workload backend) .entry []
        { s with
          worker := Worker.abortAll
            { w with
              asyncHandleCounter :=
                wrap (w.asyncHandleCounter + totalChunks w.chunkBytesize workload.batches) }
            .unknownError
          pc := .filling
          executed := s.executed ++ [workload.batches] }
  /-- A task of no bytes is reported in the middle of `enqueue`. -/
  | emptyTask {s : State} (workload : Workload) (backend : Backend) (w : Worker)
      (placed rest : List Placed) (p : Placed) (b : Building) (running : List Running) (r : Running)
      (hpc : s.pc = .ready) (hup : s.worker.windowUp workload backend = some w)
      (htotal : totalChunks w.chunkBytesize workload.batches ≠ 0)
      (hplaced : placedTasks 0 workload.batches = placed ++ p :: rest)
      (hempty : p.value.info.bytesize = 0)
      (hloop : enqueueLoop w.chunkBytesize w.chunk_pos w.asyncHandleCounter placed
        (buildingStart workload (totalChunks w.chunkBytesize workload.batches)) = .ok b)
      (hr : b.wl.workload[p.batch]? = some r)
      (hrespond : respond b.wl.workload p.batch p.task = .ok running) :
      Throws s (.execute workload backend) .respond [rangeOf r.batch p.value]
        { s with
          worker := (w.entered (totalChunks w.chunkBytesize workload.batches)
            { b with wl := { b.wl with workload := running } }).abortAll .unknownError
          pc := .filling
          executed := s.executed ++ [workload.batches] }
  /-- The `abort_all` of `enqueue` throws itself, and so does `enqueue`. -/
  | abortBuilding {s : State} (workload : Workload) (backend : Backend) (w w' : Worker)
      (half : Building) (range : RangeId) (hpc : s.pc = .ready)
      (hup : s.worker.windowUp workload backend = some w)
      (htotal : totalChunks w.chunkBytesize workload.batches ≠ 0)
      (hhalf : Half w workload (totalChunks w.chunkBytesize workload.batches) half)
      (habort : AbortThrows (w.entered (totalChunks w.chunkBytesize workload.batches) half)
        .unknownError range w') :
      Throws s (.execute workload backend) .respond [range]
        { s with worker := w', executed := s.executed ++ [workload.batches] }
  /-- A workload without chunks is reported outside the `try`. -/
  | inline {s : State} (workload : Workload) (backend : Backend) (w : Worker)
      (batch : Batch) (task : Task) (hpc : s.pc = .ready)
      (hup : s.worker.windowUp workload backend = some w)
      (htotal : totalChunks w.chunkBytesize workload.batches = 0)
      (hbatch : batch ∈ workload.batches) (htask : task ∈ batch.tasks) :
      Throws s (.execute workload backend) .respond [rangeOf batch task]
        { s with worker := w, executed := s.executed ++ [workload.batches] }
  /-- `discard` throws. -/
  | discard {s : State} (workload : Workload) (backend : Backend) (batch : Batch) (task : Task)
      (hpc : s.pc = .ready) (hdown : s.worker.windowUp workload backend = none)
      (hbatch : batch ∈ workload.batches) (htask : task ∈ batch.tasks) :
      Throws s (.execute workload backend) .respond [rangeOf batch task]
        { s with
          worker := (s.worker.capacity workload backend).1
          executed := s.executed ++ [workload.batches] }
  /-- A chunk is failed at once, and that throws. -/
  | submit {s : State} (outcome ret : ResponseCode) (q q' : CapacityQueue ObjectChunk)
      (chunk : ObjectChunk) (base taskIdx : Nat) (ts : TaskState) (point : Point)
      (ranges : List RangeId) (w' : Worker) (hq : s.Queue q)
      (hpc : s.pc = .pumping ∨ s.pc = .refilling) (htake : q.tryTake = some (chunk, q'))
      (hlocate : locate s.worker.inflight chunk.handle = some (base, taskIdx))
      (hts : (find s.worker.inflight base).bind (fun wl => wl.tasks[taskIdx]?) = some ts)
      (hret : ret = if ts.error ≠ .success then ts.error else outcome) (hfailed : ret ≠ .success)
      (hthrows : CompletionThrows { s.worker with queue := some q' } chunk.handle base taskIdx ret
        point ranges w') :
      Throws s (.submit outcome) point ranges { s with worker := w', pc := .ready }
  /-- Nothing is taken from the backend. -/
  | fetch {s : State} (round : Round) (next : Pc) (hdraining : Draining s next)
      (hreader : s.worker.reader = true) :
      Throws s (.drain false round) .fetch [] { s with pc := .ready }
  /-- The events are taken, and gone. -/
  | handover {s : State} (round : Round) (delivered : List Nat) (next : Pc)
      (hdraining : Draining s next) (hreader : s.worker.reader = true)
      (hret : round.ret = .success) (hsome : round.responses ≠ [])
      (hround : RoundDelivers s false round delivered) :
      Throws s (.drain false round) .handover []
        { s with pc := .ready, delivered := delivered }
  /-- An event throws; those after it are gone. -/
  | complete {s : State} (round : Round) (delivered : List Nat) (next : Pc)
      (before after : List Completion) (response : Completion) (d : Drained) (base taskIdx : Nat)
      (point : Point) (ranges : List RangeId) (w' : Worker)
      (hdraining : Draining s next) (hreader : s.worker.reader = true)
      (hret : round.ret = .success) (hround : RoundDelivers s false round delivered)
      (hsplit : round.responses = before ++ response :: after)
      (hgoing : ∀ c ∈ before, c.ret ≠ .finishedError) (hevent : response.ret ≠ .finishedError)
      (hloop : drainLoop before ⟨s.worker, false, false⟩ = .ok d)
      (hlocate : locate d.worker.inflight response.handle = some (base, taskIdx))
      (hthrows : CompletionThrows d.worker response.handle base taskIdx response.ret point ranges
        w') :
      Throws s (.drain false round) point ranges
        { s with worker := w', pc := .ready, delivered := delivered }
  /-- The `abort_all` of `drain_batch` throws. -/
  | abortDraining {s : State} (stopped : Bool) (round : Round) (delivered : List Nat) (next : Pc)
      (w w' : Worker) (code : ResponseCode) (range : RangeId) (hdraining : Draining s next)
      (hreader : s.worker.reader = true) (hround : RoundDelivers s stopped round delivered)
      (haborts : DrainAborts s.worker stopped round w code)
      (hthrows : AbortThrows w code range w') :
      Throws s (.drain stopped round) .respond [range]
        { s with worker := w', pc := .ready, delivered := delivered }

/-! ## §6. The system. -/

/-- The worker, and the ranges whose response was lost on its way to the
responder. -/
structure ThrowingState where
  base : State
  unanswered : List RangeId

/-- What happens, and where it throws if it does. -/
inductive ThrowingAction where
  | returns (a : Action)
  | throws (a : Action) (point : Point)

/-- The steps. -/
inductive ThrowingStep : ThrowingState → ThrowingAction → ThrowingState → Prop
  | returns {s : ThrowingState} (a : Action) (t : State) (hstep : Step s.base a t) :
      ThrowingStep s (.returns a) ⟨t, s.unanswered⟩
  | throws {s : ThrowingState} (a : Action) (point : Point) (ranges : List RangeId) (t : State)
      (hthrows : Throws s.base a point ranges t) :
      ThrowingStep s (.throws a point) ⟨t, s.unanswered ++ ranges⟩

/-- The worker with its backend, where anything may throw. -/
def throwingWorker : System ThrowingState ThrowingAction :=
  ⟨fun s => Init s.base ∧ s.unanswered = [], ThrowingStep⟩

/-- The workloads fit in the word arithmetic of `enqueue`. -/
def Fitting (s : ThrowingState) : ThrowingAction → Prop
  | .returns a | .throws a _ => StepFits s.base a

/-- What is thrown is thrown where nothing is lost. -/
def ThrowingAction.Covered : ThrowingAction → Prop
  | .returns _ => True
  | .throws _ point => point.Covered

/-- Both. -/
def Covered (s : ThrowingState) (a : ThrowingAction) : Prop := Fitting s a ∧ a.Covered

end ModelStreamer.ObjectStorage
