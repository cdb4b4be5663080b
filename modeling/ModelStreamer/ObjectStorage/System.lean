/-
  ModelStreamer.ObjectStorage.System
  ──────────────────────────────────
  **THE WORKER AND ITS BACKEND AS A SYSTEM** (`utils/capacity_worker`,
  `ThreadPool::worker_routine`).

  The worker's thread is in one of the loops of `execute` or `drain`, or
  between calls.  The backend answers each `request_read` at once with a
  code, and each round of completions with events for reads that were
  issued, at most one for each; an event may also carry a handle no chunk
  has, or be the end-of-round sentinel.
-/
import ModelStreamer.Lib.TransitionSystem
import ModelStreamer.ObjectStorage.Worker

namespace ModelStreamer.ObjectStorage

open ModelStreamer.Lib ModelStreamer.Planning ModelStreamer.Delivery

/-- Where the worker's thread is. -/
inductive Pc where
  /-- Between calls. -/
  | ready
  /-- In `execute`, at the test of its `while`. -/
  | filling
  /-- In the `pump` of that loop. -/
  | pumping
  /-- In `execute`, after the loop. -/
  | closing
  /-- In the `pump` of `drain`. -/
  | refilling
  /-- A hook did not return. -/
  | crashed
  deriving DecidableEq, Repr

/-- A worker with its backend.  `started` holds the handles whose
`request_read` returned Success, `delivered` those whose completion the
backend has handed out, and `executed` the workloads received. -/
structure State where
  worker : Worker
  pc : Pc
  started : List Nat
  delivered : List Nat
  executed : List (List Batch)

/-- What the backend may hand out in one round: `delivered` grows. -/
inductive Delivers (counter : Nat) (started : List Nat) :
    List Nat → List Completion → List Nat → Prop
  | nil {delivered : List Nat} : Delivers counter started delivered [] delivered
  /-- The completion of a read.  It never carries FinishedError. -/
  | real {delivered delivered' : List Nat} {handle : Nat} {ret : ResponseCode}
      {rest : List Completion} (hstarted : handle ∈ started) (hnew : handle ∉ delivered)
      (hret : ret ≠ .finishedError)
      (hrest : Delivers counter started (handle :: delivered) rest delivered') :
      Delivers counter started delivered (⟨handle, ret⟩ :: rest) delivered'
  /-- The end-of-round sentinel. -/
  | sentinel {delivered delivered' : List Nat} {handle : Nat} {rest : List Completion}
      (hrest : Delivers counter started delivered rest delivered') :
      Delivers counter started delivered (⟨handle, .finishedError⟩ :: rest) delivered'
  /-- An event with a handle no chunk has. -/
  | unknown {delivered delivered' : List Nat} {handle : Nat} {ret : ResponseCode}
      {rest : List Completion} (hunknown : handle = 0 ∨ counter ≤ handle)
      (hrest : Delivers counter started delivered rest delivered') :
      Delivers counter started delivered (⟨handle, ret⟩ :: rest) delivered'

/-- What happens. -/
inductive Action where
  | execute (workload : Workload) (backend : Backend)
  | fill
  /-- `submit` of the next chunk, with what `async_read` comes to. -/
  | submit (outcome : ResponseCode)
  /-- `drain_batch`. -/
  | drain (stopped : Bool) (round : Round)
  /-- `pump` is over, with nothing to wait for. -/
  | pumped
  /-- The end of `execute`, with room in the window. -/
  | close

/-- After a hook: its result, or a crash. -/
def State.after {α : Type} (s : State) (result : Except Crash α) (next : α → State) : State :=
  match result with
  | .ok a => next a
  | .error _ => { s with pc := .crashed }

/-- The queue, when the window is up. -/
def State.Queue (s : State) (q : CapacityQueue ObjectChunk) : Prop := s.worker.queue = some q

/-- Where `drain_batch` is called from, and where it returns to. -/
inductive Draining (s : State) : Pc → Prop
  /-- In the loop of `execute`, when chunks are left. -/
  | loop (q : CapacityQueue ObjectChunk) (hq : s.Queue q) (hpc : s.pc = .pumping)
      (hfull : q.tryTake = none) (hmore : q.empty = false) : Draining s .filling
  /-- At the end of `execute`, when the window is full. -/
  | full (q : CapacityQueue ObjectChunk) (hq : s.Queue q) (hpc : s.pc = .closing)
      (hfull : q.capacity ≤ q.inflight) : Draining s .ready
  /-- In `drain`. -/
  | tail (q : CapacityQueue ObjectChunk) (hq : s.Queue q) (hpc : s.pc = .ready) :
      Draining s .refilling

/-- The steps. -/
inductive Step : State → Action → State → Prop
  | execute {s : State} (workload : Workload) (backend : Backend) (hpc : s.pc = .ready) :
      Step s (.execute workload backend)
        (s.after (s.worker.receive workload backend) (fun result =>
          { s with
            worker := result.1
            pc := if result.2 then .filling else .ready
            executed := s.executed ++ [workload.batches] }))
  | fill {s : State} (q : CapacityQueue ObjectChunk) (hq : s.Queue q) (hpc : s.pc = .filling) :
      Step s .fill { s with pc := if q.empty then .closing else .pumping }
  /-- `try_take`, then `submit`. -/
  | submit {s : State} (outcome : ResponseCode) (q q' : CapacityQueue ObjectChunk)
      (chunk : ObjectChunk) (hq : s.Queue q) (hpc : s.pc = .pumping ∨ s.pc = .refilling)
      (htake : q.tryTake = some (chunk, q')) :
      Step s (.submit outcome)
        (s.after ({ s.worker with queue := some q' }.submit chunk outcome) (fun result =>
          { s with
            worker := result.1
            started := if result.2 then chunk.handle :: s.started else s.started }))
  | drain {s : State} (stopped : Bool) (round : Round) (delivered : List Nat) (next : Pc)
      (hdraining : Draining s next)
      (hround : if stopped = true ∨ round.ret ≠ .success then delivered = s.delivered
        else Delivers s.worker.asyncHandleCounter s.started s.delivered round.responses delivered) :
      Step s (.drain stopped round)
        (s.after (s.worker.drainBatch stopped round) (fun worker =>
          { s with worker := worker, pc := next, delivered := delivered }))
  | pumped {s : State} (q : CapacityQueue ObjectChunk) (hq : s.Queue q) (hdone : q.tryTake = none)
      (hpc : s.pc = .refilling ∨ (s.pc = .pumping ∧ q.empty = true)) :
      Step s .pumped { s with pc := if s.pc = .refilling then .ready else .filling }
  | close {s : State} (q : CapacityQueue ObjectChunk) (hq : s.Queue q) (hpc : s.pc = .closing)
      (hroom : q.inflight < q.capacity) : Step s .close { s with pc := .ready }

/-- A worker that has not received anything. -/
structure Init (s : State) : Prop where
  worker_eq : ∃ chunk hchunk, s.worker = .new chunk hchunk
  pc_eq : s.pc = .ready
  started_eq : s.started = []
  delivered_eq : s.delivered = []
  executed_eq : s.executed = []

/-- The worker with its backend. -/
def worker : System State Action := ⟨Init, Step⟩

end ModelStreamer.ObjectStorage
