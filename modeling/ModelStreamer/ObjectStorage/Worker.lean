/-
  ModelStreamer.ObjectStorage.Worker
  ──────────────────────────────────
  **THE OBJECT-STORAGE WORKER** (`impl/object_storage_worker`,
  `utils/capacity_queue`, the hooks of `utils/capacity_worker`).

  One worker owns one backend client, a window of chunks in flight, and the
  workloads these chunks belong to.  Everything here is what ONE hook call
  does; `ObjectStorage.System` puts the calls together.

  Allocations do not fail here.  Three lists record the past and decide
  nothing: `enqueued`, the chunks put in the window's queue; `credits`, the
  chunk completions accounted for; `reported`, the workloads as they were
  when the worker dropped them.
-/
import ModelStreamer.Delivery.Execution
import ModelStreamer.Lib.KeyedList

namespace ModelStreamer.ObjectStorage

open ModelStreamer.Lib ModelStreamer.Planning ModelStreamer.Delivery

/-! ## §1. `CapacityQueue`. -/

/-- A pending item and its cost. -/
structure Entry (α : Type) where
  item : α
  cost : Nat
  deriving DecidableEq, Repr

/-- `CapacityQueue`: pending items, and a bound on the cost in flight. -/
structure CapacityQueue (α : Type) where
  capacity : Nat
  inflight : Nat
  pending : List (Entry α)
  deriving DecidableEq, Repr

namespace CapacityQueue

variable {α : Type}

def new (capacity : Nat) : CapacityQueue α := ⟨capacity, 0, []⟩

def enqueue (q : CapacityQueue α) (item : α) (cost : Nat) : CapacityQueue α :=
  { q with pending := q.pending ++ [⟨item, cost⟩] }

/-- `try_take`.  With nothing in flight one item is always returned. -/
def tryTake (q : CapacityQueue α) : Option (α × CapacityQueue α) :=
  match q.pending with
  | [] => none
  | entry :: pending =>
      -- both sums are of type `size_t`
      if q.inflight ≠ 0 ∧ q.capacity < wrap (q.inflight + entry.cost) then none
      else some (entry.item, ⟨q.capacity, wrap (q.inflight + entry.cost), pending⟩)

/-- `complete`, clamped at zero. -/
def complete (q : CapacityQueue α) (cost : Nat) : CapacityQueue α :=
  { q with inflight := if cost ≤ q.inflight then q.inflight - cost else 0 }

def clear (q : CapacityQueue α) : CapacityQueue α := { q with inflight := 0, pending := [] }

def empty (q : CapacityQueue α) : Bool := q.pending.isEmpty

def idle (q : CapacityQueue α) : Bool := q.pending.isEmpty && q.inflight == 0

/-- **`try_take`**: nothing, if nothing is pending or the window is full; or
else the head. -/
theorem tryTake_cases (q : CapacityQueue α) :
    (q.tryTake = none ∧ ∀ entry pending, q.pending = entry :: pending →
        q.inflight ≠ 0 ∧ q.capacity < wrap (q.inflight + entry.cost)) ∨
      ∃ entry pending, q.pending = entry :: pending ∧
        (q.inflight = 0 ∨ wrap (q.inflight + entry.cost) ≤ q.capacity) ∧
        q.tryTake
          = some (entry.item, ⟨q.capacity, wrap (q.inflight + entry.cost), pending⟩) := by
  unfold tryTake
  cases hpending : q.pending with
  | nil => exact Or.inl ⟨rfl, by simp⟩
  | cons entry pending =>
      by_cases hfull : q.inflight ≠ 0 ∧ q.capacity < wrap (q.inflight + entry.cost)
      · left
        refine ⟨if_pos hfull, fun e rest heq => ?_⟩
        obtain ⟨rfl, rfl⟩ := List.cons.inj heq
        exact hfull
      · right
        exact ⟨entry, pending, rfl, by omega, if_neg hfull⟩

end CapacityQueue

/-! ## §2. Workloads and what the worker keeps of them. -/

/-- A `Workload` as dispatched: its batches, each with tasks of its own file
only, and the config they share. -/
structure Workload where
  config : Config
  batches : List Batch
  owned : ∀ batch ∈ batches, ∀ task ∈ batch.tasks, task.request.fileIndex = batch.fileIndex

/-- A batch, and what has been reported of it. -/
structure Running where
  batch : Batch
  run : BatchRun
  deriving DecidableEq, Repr

def Running.start (batch : Batch) : Running := ⟨batch, startRun batch⟩

/-- One ranged read. -/
structure ObjectChunk where
  handle : Nat
  offset : Nat
  bytesize : Nat
  buffer : Nat
  deriving DecidableEq, Repr

/-- `TaskState`; the two pointers are positions, of the batch in the workload
and of the task in the batch. -/
structure TaskState where
  batch : Nat
  task : Nat
  remainingChunks : Nat
  error : ResponseCode
  deriving DecidableEq, Repr

/-- `Inflight`. -/
structure Inflight where
  workload : List Running
  chunkTaskIdx : List Nat
  tasks : List TaskState
  errorByFileIndex : List (Nat × ResponseCode)
  remainingTasks : Nat
  deriving DecidableEq, Repr

/-- `Inflight wl; wl.workload = std::move(workload);` -/
def Inflight.ofWorkload (workload : Workload) : Inflight :=
  ⟨workload.batches.map Running.start, [], [], [], 0⟩

/-- `ObjectStorageWorker`.  A chunk size is never 0. -/
structure Worker where
  chunkBytesize : Nat
  chunk_pos : 0 < chunkBytesize
  reader : Bool
  readerError : ResponseCode
  queue : Option (CapacityQueue ObjectChunk)
  inflight : List (Nat × Inflight)
  asyncHandleCounter : Nat
  enqueued : List ObjectChunk
  credits : List (Nat × ResponseCode)
  reported : List (Nat × Inflight)

/-- A worker that has not received anything.  `chunk` is the plugin's default
chunk size. -/
def Worker.new (chunk : Nat) (hchunk : 0 < chunk) : Worker :=
  ⟨chunk, hchunk, false, .success, none, [], 1, [], [], []⟩

/-- How a hook fails to return. -/
inductive Crash where
  /-- A failed `ASSERT`; nothing is said about what comes after it. -/
  | assertion
  /-- An access past the end of a container: undefined behaviour. -/
  | outOfBounds
  deriving DecidableEq, Repr

/-! ## §3. Reporting. -/

/-- `error_code` in `report_workload`: the abort's code, or else the first
error of the batch's file. -/
def Inflight.errorCode (wl : Inflight) (code : ResponseCode) (batch : Batch) : ResponseCode :=
  if code = .success then (find wl.errorByFileIndex batch.fileIndex).getD .success else code

/-- `report_workload`. -/
def Inflight.reportWorkload (wl : Inflight) (code : ResponseCode) : Inflight :=
  { wl with
    workload := wl.workload.map (fun r =>
      { r with run := r.run.handleError (wl.errorCode code r.batch) }) }

/-- `batch.handle_response(Success, task)` for task `i` of batch `b`. -/
def respond (workload : List Running) (b i : Nat) : Except Crash (List Running) :=
  match workload[b]? with
  | none => .error .assertion
  | some r =>
      match handleResponse r.batch i .success r.run with
      | .error _ => .error .assertion
      | .ok run => .ok (workload.set b { r with run := run })

/-- Report a workload that never enters `_inflight`. -/
def Worker.reportInline (w : Worker) (wl : Inflight) (code : ResponseCode) : Worker :=
  { w with reported := w.reported ++ [(0, wl.reportWorkload code)] }

/-- `finalize`. -/
def Worker.finalize (w : Worker) (base : Nat) (wl : Inflight) (code : ResponseCode) : Worker :=
  { w with
    inflight := remove w.inflight base
    reported := w.reported ++ [(base, wl.reportWorkload code)] }

/-- `abort_all`: finalize every workload, in key order, and zero the window. -/
def Worker.abortAll (w : Worker) (code : ResponseCode) : Worker :=
  { w with
    queue := w.queue.map CapacityQueue.clear
    inflight := []
    reported := w.reported ++ w.inflight.map (fun e => (e.1, e.2.reportWorkload code)) }

/-! ## §4. Completions. -/

/-- `locate`: the workload whose block holds `handle`, and the chunk's task. -/
def locate (inflight : List (Nat × Inflight)) (handle : Nat) : Option (Nat × Nat) :=
  match floorEntry inflight handle with
  | none => none
  | some (base, wl) => (wl.chunkTaskIdx[handle - base]?).map (fun taskIdx => (base, taskIdx))

/-- One chunk of a task is done; the first failing chunk's code stays. -/
def TaskState.completeChunk (ts : TaskState) (ret : ResponseCode) : TaskState :=
  { ts with
    remainingChunks := ts.remainingChunks - 1
    error := if ret ≠ .success ∧ ts.error = .success then ret else ts.error }

/-- `complete_chunk` on the workload's own state, after the slot is freed.
Also tells whether `--wl.remaining_tasks` reached 0. -/
def Inflight.completeChunk (wl : Inflight) (taskIdx : Nat) (ret : ResponseCode) :
    Except Crash (Inflight × Bool) :=
  match wl.tasks[taskIdx]? with
  | none => .error .outOfBounds
  | some ts =>
      if ts.remainingChunks = 0 then .error .assertion
      else
        let ts := ts.completeChunk ret
        let wl := { wl with tasks := wl.tasks.set taskIdx ts }
        let last := decide (wl.remainingTasks = 1)
        -- the task waits for other chunks
        if ts.remainingChunks ≠ 0 then .ok (wl, false)
        else if ts.error = .success then
          match respond wl.workload ts.batch ts.task with
          | .error e => .error e
          | .ok workload =>
              .ok ({ wl with workload := workload, remainingTasks := wl.remainingTasks - 1 }, last)
        else
          -- the error of a task is kept for its file, and reported when the workload is done
          match wl.workload[ts.batch]? with
          | none => .error .outOfBounds
          | some r =>
              .ok ({ wl with
                errorByFileIndex := tryEmplace wl.errorByFileIndex r.batch.fileIndex ts.error
                remainingTasks := wl.remainingTasks - 1 }, last)

/-- `complete_chunk`.  `handle` only goes into the record. -/
def Worker.completeChunk (w : Worker) (handle base taskIdx : Nat) (ret : ResponseCode) :
    Except Crash Worker :=
  match find w.inflight base with
  | none => .error .outOfBounds
  | some wl =>
      match wl.completeChunk taskIdx ret with
      | .error e => .error e
      | .ok (wl, last) =>
          let w : Worker :=
            { w with
              queue := w.queue.map (fun q => q.complete 1)
              inflight := replace w.inflight base wl
              credits := w.credits ++ [(handle, ret)] }
          .ok (if last then w.finalize base wl .success else w)

/-- `submit`, for a chunk just taken from the queue.  `outcome` is what comes
of `async_read`: Success, or the code of what it throws.  Also tells whether
the read was issued. -/
def Worker.submit (w : Worker) (chunk : ObjectChunk) (outcome : ResponseCode) :
    Except Crash (Worker × Bool) :=
  match locate w.inflight chunk.handle with
  | none => .error .assertion   -- "submitting a chunk with unknown handle"
  | some (base, taskIdx) =>
      match (find w.inflight base).bind (fun wl => wl.tasks[taskIdx]?) with
      | none => .error .outOfBounds
      | some ts =>
          if ts.error ≠ .success then
            (w.completeChunk chunk.handle base taskIdx ts.error).map (·, false)
          else if outcome ≠ .success then
            (w.completeChunk chunk.handle base taskIdx outcome).map (·, false)
          else .ok (w, true)

/-- `common::backend_api::Response`. -/
structure Completion where
  handle : Nat
  ret : ResponseCode
  deriving DecidableEq, Repr

/-- Where the loop of `drain_batch` stands: `progressed`, and
`responder_drained`. -/
structure Drained where
  worker : Worker
  progressed : Bool
  responderDrained : Bool

/-- The loop of `drain_batch`. -/
def drainLoop : List Completion → Drained → Except Crash Drained
  | [], d => .ok d
  | response :: responses, d =>
      -- the end-of-round sentinel: the rest of the events is not looked at
      if response.ret = .finishedError then .ok { d with responderDrained := true }
      else
        match locate d.worker.inflight response.handle with
        | none => drainLoop responses d
        | some (base, taskIdx) =>
            match d.worker.completeChunk response.handle base taskIdx response.ret with
            | .error e => .error e
            | .ok worker => drainLoop responses ⟨worker, true, d.responderDrained⟩

/-- The window is missing or idle. -/
def Worker.idle (w : Worker) : Bool := (w.queue.map CapacityQueue.idle).getD true

/-- What `async_response` returns. -/
structure Round where
  ret : ResponseCode
  responses : List Completion

/-- `drain_batch`. -/
def Worker.drainBatch (w : Worker) (stopped : Bool) (round : Round) : Except Crash Worker :=
  if !w.reader then .ok w
  else if stopped then .ok (w.abortAll .finishedError)
  else if round.ret ≠ .success then .ok (w.abortAll round.ret)
  else
    match drainLoop round.responses ⟨w, false, round.responses.isEmpty⟩ with
    | .error e => .error e
    | .ok d =>
        .ok (if !d.progressed && d.responderDrained && !d.worker.idle
          then d.worker.abortAll .finishedError else d.worker)

/-! ## §5. New workloads. -/

/-- The chunks `enqueue` expects of a task: a ceiling division, in words. -/
def ceilChunks (bytesize chunk : Nat) : Nat := wrap (bytesize + chunk - 1) / chunk

/-- The first loop of `enqueue`: `total_chunks`. -/
def totalChunks (chunk : Nat) (batches : List Batch) : Nat :=
  (batches.flatMap Batch.tasks).foldl (fun total task =>
    if task.info.bytesize ≠ 0 then wrap (total + ceilChunks task.info.bytesize chunk) else total) 0

/-- What the second half of `enqueue` builds. -/
structure Building where
  wl : Inflight
  chunks : List ObjectChunk
  nextChunk : Nat

/-- The `while (remaining > 0)` of `enqueue`. -/
def chunkLoop (chunk : Nat) (hchunk : 0 < chunk) (handleBase taskIdx : Nat) :
    Nat → Nat → Nat → Building → Except Crash Building
  | offset, remaining, buffer, b =>
      if h : 0 < remaining then
        let bs := min remaining chunk
        if b.nextChunk < b.wl.chunkTaskIdx.length then
          chunkLoop chunk hchunk handleBase taskIdx (wrap (offset + bs)) (remaining - bs)
            (wrap (buffer + bs))
            ⟨{ b.wl with
                chunkTaskIdx := b.wl.chunkTaskIdx.set b.nextChunk taskIdx
                tasks := b.wl.tasks.modify taskIdx
                  (fun ts => { ts with remainingChunks := ts.remainingChunks + 1 }) },
              b.chunks ++ [⟨wrap (handleBase + b.nextChunk), offset, bs, buffer⟩],
              b.nextChunk + 1⟩
        else .error .outOfBounds
      else .ok b
termination_by _ remaining => remaining
decreasing_by omega

/-- The body of the inner `for` of `enqueue`, for task `i` of batch `b`. -/
def enqueueTask (chunk : Nat) (hchunk : 0 < chunk) (handleBase b i : Nat) (task : Task)
    (building : Building) : Except Crash Building :=
  if task.info.bytesize = 0 then
    match respond building.wl.workload b i with
    | .error e => .error e
    | .ok workload => .ok { building with wl := { building.wl with workload := workload } }
  else
    let taskIdx := building.wl.tasks.length
    chunkLoop chunk hchunk handleBase taskIdx task.info.offset task.info.bytesize task.destination
      { building with
        wl := { building.wl with tasks := building.wl.tasks ++ [⟨b, i, 0, .success⟩] } }

/-- A task, and where it is in its workload. -/
structure Placed where
  batch : Nat
  task : Nat
  value : Task
  deriving DecidableEq, Repr

/-- The tasks of a workload in the order of the loops, from batch `b` on. -/
def placedTasks (b : Nat) : List Batch → List Placed
  | [] => []
  | batch :: batches =>
      batch.tasks.mapIdx (fun i task => ⟨b, i, task⟩) ++ placedTasks (b + 1) batches

/-- The two `for`s of `enqueue`. -/
def enqueueLoop (chunk : Nat) (hchunk : 0 < chunk) (handleBase : Nat) :
    List Placed → Building → Except Crash Building
  | [], building => .ok building
  | p :: placed, building =>
      match enqueueTask chunk hchunk handleBase p.batch p.task p.value building with
      | .error e => .error e
      | .ok building => enqueueLoop chunk hchunk handleBase placed building

/-- Every task of a workload without chunks, finished with Success. -/
def respondAll : List Placed → List Running → Except Crash (List Running)
  | [], workload => .ok workload
  | p :: placed, workload =>
      match respond workload p.batch p.task with
      | .error e => .error e
      | .ok workload => respondAll placed workload

/-- `enqueue`. -/
def Worker.enqueue (w : Worker) (workload : Workload) : Except Crash Worker :=
  let total := totalChunks w.chunkBytesize workload.batches
  let wl := Inflight.ofWorkload workload
  -- nothing to read at all: reported at once, and no handles are taken
  if total = 0 then
    match respondAll (placedTasks 0 workload.batches) wl.workload with
    | .error e => .error e
    | .ok running => .ok (w.reportInline { wl with workload := running } .success)
  else
    let handleBase := w.asyncHandleCounter
    let w := { w with asyncHandleCounter := wrap (w.asyncHandleCounter + total) }
    match find w.inflight handleBase with
    | some _ => .error .assertion   -- "duplicate handle base"
    | none =>
        match enqueueLoop w.chunkBytesize w.chunk_pos handleBase (placedTasks 0 workload.batches)
            ⟨{ wl with chunkTaskIdx := List.replicate total 0 }, [], 0⟩ with
        | .error e => .error e
        | .ok b =>
            .ok { w with
              queue := w.queue.map (fun q => b.chunks.foldl (fun q c => q.enqueue c 1) q)
              inflight :=
                tryEmplace w.inflight handleBase { b.wl with remainingTasks := b.wl.tasks.length }
              enqueued := w.enqueued ++ b.chunks }

/-! ## §6. The window. -/

/-- What building the client and asking for its window comes to. -/
structure Backend where
  /-- What stops the client from being built: a `common::Exception` with its
  code, or anything else. -/
  build : Option (Option ResponseCode)
  /-- `max_inflight_bytes`; `none` when the call throws. -/
  maxInflightBytes : Option Nat

/-- The part of `capacity` that builds the client, unless there is one.
Also tells whether it went through. -/
def Worker.buildReader (w : Worker) (first : Workload) (backend : Backend) : Worker × Bool :=
  if w.reader then (w, true)
  else
    let w := { w with
      chunkBytesize := max 1 first.config.s3BlockBytesize
      chunk_pos := by omega }
    match backend.build with
    | none => ({ w with reader := true }, true)
    | some (some code) => ({ w with readerError := code }, false)
    | some none => (w, false)

/-- The window in chunks; `2 ^ 64 - 1` bytes mean no bound. -/
def Worker.window (w : Worker) (bytes : Nat) : Nat :=
  if bytes = 2 ^ 64 - 1 then 2 ^ 64 - 1 else max 1 (bytes / w.chunkBytesize)

/-- `capacity`: the window, or `none` when it throws. -/
def Worker.capacity (w : Worker) (first : Workload) (backend : Backend) : Worker × Option Nat :=
  if first.batches.isEmpty then (w, none)
  else
    match w.buildReader first backend with
    | (w, false) => (w, none)
    | (w, true) => (w, backend.maxInflightBytes.map w.window)

/-- `discard`. -/
def Worker.discard (w : Worker) (workload : Workload) : Worker :=
  let code : ResponseCode :=
    if workload.batches.isEmpty then .emptyRequestError
    else if w.readerError ≠ .success then w.readerError
    else .unknownError
  { w.reportInline (Inflight.ofWorkload workload) code with readerError := .success }

/-- The beginning of `execute`: bring the window up, or discard; then
`enqueue`.  Also tells whether the workload was enqueued. -/
def Worker.receive (w : Worker) (workload : Workload) (backend : Backend) :
    Except Crash (Worker × Bool) :=
  match w.queue with
  | some _ => (w.enqueue workload).map (·, true)
  | none =>
      match w.capacity workload backend with
      | (w, none) => .ok (w.discard workload, false)
      | (w, some window) =>
          (Worker.enqueue { w with queue := some (.new window) } workload).map (·, true)

end ModelStreamer.ObjectStorage
