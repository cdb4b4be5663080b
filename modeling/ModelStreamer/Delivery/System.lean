/-
  ModelStreamer.Delivery.System
  ─────────────────────────────
  **THE STREAMER AS A SYSTEM OF THREADS**: submissions are committed, worker
  threads run their batches and report to the shared `Request`s, the last
  report of a range pushes its response, and one consumer pops responses.

  Any number of threads; a batch may go to any of them, and a thread may
  interleave the reports of the batches it holds in any order (as an
  object-storage worker does).  The atomic actions of a report are steps of
  their own:

      store     _ret = result                  (unless Success)
      sub       _tasks.fetch_sub(1)
      answer    ret(), when fetch_sub returned 1
      push      responder->push(...)
-/
import ModelStreamer.Common.SharedQueue
import ModelStreamer.Delivery.Execution
import ModelStreamer.Delivery.Submissions
import ModelStreamer.Lib.TransitionSystem
import ModelStreamer.Planning.Positions

namespace ModelStreamer.Delivery

open ModelStreamer.Lib ModelStreamer.Planning

/-! ## §1. Submissions. -/

/-- One range of one submission. -/
structure RangeId where
  submission : Nat
  fileIndex : Nat
  index : Nat
  deriving DecidableEq, Repr

/-- `total_ranges` of `async_request`. -/
def totalRanges (request : List FileRanges) : Nat := (request.map (·.ranges.length)).sum

/-- A submission `async_request` commits: it has ranges, few enough for an
`unsigned`, and it was planned. -/
structure Submission where
  id : Nat
  config : Config
  request : List FileRanges
  plan : Plan
  workers_pos : 1 ≤ numWorkers config request
  ranges_pos : 0 < totalRanges request
  ranges_lt : totalRanges request < 2 ^ 32
  planned : Planning.plan config id request = .ok plan

/-- The ranges of a submission. -/
def Submission.ranges (sub : Submission) : List RangeId :=
  (indexFiles 0 sub.request).map (fun r => ⟨sub.id, r.fileIndex, r.index⟩)

/-- One task of one submission: its place in the plan. -/
structure TaskRef where
  submission : Nat
  batch : Nat
  task : Nat
  deriving DecidableEq, Repr

/-- A task and the range it reports to. -/
structure Ticket where
  ref : TaskRef
  range : RangeId
  deriving DecidableEq, Repr

/-- A batch waiting for a thread, and its place in the plan. -/
structure Job where
  position : Nat
  batch : Batch
  deriving DecidableEq, Repr

/-- The ticket of task `i` of a job. -/
def Job.ticket (job : Job) (i : Nat) (task : Task) : Ticket :=
  ⟨⟨job.batch.submissionId, job.position, i⟩,
    ⟨job.batch.submissionId, job.batch.fileIndex, task.request.index⟩⟩

/-- The tickets of a job. -/
def Job.tickets (job : Job) : List Ticket := job.batch.tasks.mapIdx job.ticket

/-- The jobs of a submission. -/
def Submission.jobs (sub : Submission) : List Job := sub.plan.batches.mapIdx Job.mk

/-- The tickets of a submission. -/
def Submission.tickets (sub : Submission) : List Ticket := sub.jobs.flatMap Job.tickets

/-! ## §2. Threads and shared requests. -/

/-- One call of `Request::finished`, by the task `ref`. -/
structure Event where
  ref : TaskRef
  range : RangeId
  ret : ResponseCode
  deriving DecidableEq, Repr

/-- The task of an event. -/
def Event.ticket (e : Event) : Ticket := ⟨e.ref, e.range⟩

/-- The calls an execution of a job makes. -/
def Job.events (job : Job) (x : Execution job.batch) : List Event :=
  x.run.log.filterMap (fun f =>
    job.batch.tasks[f.task]?.map (fun task =>
      ⟨(job.ticket f.task task).ref, (job.ticket f.task task).range, f.ret⟩))

/-- The members of a `Request` that change. -/
structure Latch where
  tasks : Nat
  ret : ResponseCode
  deriving DecidableEq, Repr

/-- Where a thread stands in the call at the head of its list. -/
inductive Pc where
  | store
  | sub
  | answer
  | push (response : Response)
  deriving DecidableEq, Repr

/-- A worker thread: the calls it has left, the first of them under way. -/
structure Thread where
  todo : List Event
  pc : Pc
  deriving DecidableEq, Repr

/-- A popped response, and the `submission_done` returned with it. -/
structure Popped where
  response : Response
  done : Bool
  deriving DecidableEq, Repr

/-- The streamer with `n` threads.  `minted` holds the ids of the calls of
`async_request` that have not committed.  `finished`, `pushed` and `popped`
record what happened: the calls of `Request::finished` in the order of their
`fetch_sub`, the calls of `push`, and the range responses returned. -/
structure State (n : Nat) where
  mgr : SubmissionsMgr
  minted : List Nat
  committed : List Submission
  queue : List Job
  threads : Fin n → Thread
  requests : RangeId → Latch
  responder : SharedQueue Response
  finished : List Event
  pushed : List Response
  popped : List Popped

/-- The requests made for a submission, over those there are. -/
def Submission.requests (sub : Submission) (requests : RangeId → Latch) (k : RangeId) : Latch :=
  if k.submission = sub.id then
    match sub.plan.requestsOf k.fileIndex k.index with
    | [] => requests k
    | r :: _ => ⟨r.tasks, .success⟩
  else requests k

/-- `total_bytes` of `async_request`. -/
def Submission.totalBytes (sub : Submission) : Nat := wrap (requestBytes sub.request)

/-! ## §3. Steps. -/

/-- `async_request` commits `sub` and dispatches its jobs. -/
def State.commit {n : Nat} (s : State n) (sub : Submission) (mgr : SubmissionsMgr) : State n :=
  { s with
    mgr := mgr
    minted := s.minted.erase sub.id
    committed := s.committed ++ [sub]
    queue := s.queue ++ sub.jobs
    requests := sub.requests s.requests
    responder := s.responder.increment (totalRanges sub.request) }

/-- Thread `i` stores the result of call `e`. -/
def State.storeRet {n : Nat} (s : State n) (i : Fin n) (e : Event) (todo : List Event) :
    State n :=
  { s with
    threads := Function.update s.threads i ⟨e :: todo, .sub⟩
    requests :=
      if e.ret = .success then s.requests
      else Function.update s.requests e.range { s.requests e.range with ret := e.ret } }

/-- Thread `i` counts call `e`; whoever gets 1 from `fetch_sub` answers. -/
def State.count {n : Nat} (s : State n) (i : Fin n) (e : Event) (todo : List Event) : State n :=
  { s with
    threads := Function.update s.threads i
      (if (s.requests e.range).tasks = 1 then ⟨e :: todo, .answer⟩ else ⟨todo, .store⟩)
    requests := Function.update s.requests e.range
      { s.requests e.range with tasks := (s.requests e.range).tasks - 1 }
    finished := s.finished ++ [e] }

/-- The response a thread makes of `ret()`. -/
def State.answerTo {n : Nat} (s : State n) (k : RangeId) : Response :=
  ⟨k.submission, k.fileIndex, k.index, (s.requests k).ret⟩

/-- Who moves. -/
inductive Action (n : Nat) where
  | mint
  | submit (sub : Submission)
  | take (i : Fin n) (job : Job)
  | store (i : Fin n)
  | sub (i : Fin n)
  | answer (i : Fin n)
  | push (i : Fin n)
  | pop
  /-- `response` returns without a range: teardown or timeout. -/
  | bare (code : ResponseCode)
  | stop

/-- The steps. -/
inductive Step {n : Nat} : State n → Action n → State n → Prop
  /-- `async_request` mints an id. -/
  | mint {s : State n} :
      Step s .mint { s with mgr := s.mgr.generate.2, minted := s.mgr.generate.1 :: s.minted }
  /-- `async_request` commits and dispatches.  Dispatching only makes jobs
  available, so it is one step with the commit.  A call that fails earlier
  leaves its id unused. -/
  | submit {s : State n} (sub : Submission) (mgr : SubmissionsMgr) (hid : sub.id ∈ s.minted)
      (hadd : s.mgr.add sub.id (totalRanges sub.request) sub.totalBytes = .ok mgr) :
      Step s (.submit sub) (s.commit sub mgr)
  /-- A thread between two calls takes a job; `x` is what will come of it,
  and `todo` an order of everything the thread then has to report. -/
  | take {s : State n} (i : Fin n) (job : Job) (x : Execution job.batch) (todo : List Event)
      (hjob : job ∈ s.queue) (hpc : (s.threads i).pc = .store)
      (htodo : todo.Perm ((s.threads i).todo ++ job.events x)) :
      Step s (.take i job)
        { s with
          queue := s.queue.erase job
          threads := Function.update s.threads i ⟨todo, .store⟩ }
  /-- `_ret = result`, unless it is Success. -/
  | store {s : State n} (i : Fin n) (e : Event) (todo : List Event)
      (hthread : s.threads i = ⟨e :: todo, .store⟩) :
      Step s (.store i) (s.storeRet i e todo)
  /-- `_tasks.fetch_sub(1)`. -/
  | sub {s : State n} (i : Fin n) (e : Event) (todo : List Event)
      (hthread : s.threads i = ⟨e :: todo, .sub⟩) :
      Step s (.sub i) (s.count i e todo)
  /-- Build the response, with `ret()`. -/
  | answer {s : State n} (i : Fin n) (e : Event) (todo : List Event)
      (hthread : s.threads i = ⟨e :: todo, .answer⟩) :
      Step s (.answer i)
        { s with
          threads := Function.update s.threads i ⟨e :: todo, .push (s.answerTo e.range)⟩ }
  /-- `responder->push`. -/
  | push {s : State n} (i : Fin n) (e : Event) (todo : List Event) (r : Response)
      (hthread : s.threads i = ⟨e :: todo, .push r⟩) :
      Step s (.push i)
        { s with
          threads := Function.update s.threads i ⟨todo, .store⟩
          responder := s.responder.push r
          pushed := s.pushed ++ [r] }
  /-- `Streamer::response` pops a range response and accounts for it. -/
  | pop {s : State n} (r : Response) (q : SharedQueue Response) (done : Bool)
      (mgr : SubmissionsMgr) (hpop : s.responder.pop = .response r q)
      (haccount : accountResponse s.mgr r = .ok (done, mgr)) :
      Step s .pop { s with responder := q, mgr := mgr, popped := s.popped ++ [⟨r, done⟩] }
  /-- The same, where the accounting fails an `ASSERT`: the response is gone. -/
  | popFailed {s : State n} (r : Response) (q : SharedQueue Response) (e : Failure)
      (hpop : s.responder.pop = .response r q) (haccount : accountResponse s.mgr r = .error e) :
      Step s .pop { s with responder := q }
  /-- `Streamer::response` returns a bare code: FinishedError of a stopped
  responder, TimedOut of an empty one. -/
  | bare {s : State n} (code : ResponseCode) (done : Bool) (mgr : SubmissionsMgr)
      (hcode : (code = .finishedError ∧ s.responder.pop = .finished) ∨
        (code = .timedOut ∧ s.responder.pop = .waits))
      (haccount : accountResponse s.mgr (.ofCode code) = .ok (done, mgr)) :
      Step s (.bare code) { s with mgr := mgr }
  /-- `~Streamer`. -/
  | stop {s : State n} : Step s .stop { s with responder := s.responder.stop }

/-- A streamer nothing has been submitted to. -/
structure Init {n : Nat} (s : State n) : Prop where
  mgr_eq : s.mgr = .new
  minted_eq : s.minted = []
  committed_eq : s.committed = []
  queue_eq : s.queue = []
  threads_eq : ∀ i, s.threads i = ⟨[], .store⟩
  responder_eq : s.responder = .new .persistent 0
  finished_eq : s.finished = []
  pushed_eq : s.pushed = []
  popped_eq : s.popped = []

/-- The streamer with `n` threads. -/
def streamer (n : Nat) : System (State n) (Action n) := ⟨Init, Step⟩

end ModelStreamer.Delivery
