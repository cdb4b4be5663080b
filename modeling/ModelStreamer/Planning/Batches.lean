/-
  ModelStreamer.Planning.Batches
  ──────────────────────────────
  **BATCHES** (`impl/batches/batches.cc`, with the records of
  `impl/task/task.h`, `impl/request/request.h` and `impl/batch/batch.h`).

  One `Batches` per transfer.  `handleRequest` cuts one range at the slice
  boundaries of the transfer: a `Task` per slice it touches, and ONE
  `Request`, shared by these tasks, which counts them.
-/
import ModelStreamer.Planning.Assigner

namespace ModelStreamer.Planning

/-! ## §1. Requests, tasks, batches. -/

/-- `impl::Request` as constructed.  `tasks` is the initial value of its
counter of unfinished tasks. -/
structure Request where
  offset : Nat
  fileIndex : Nat
  index : Nat
  tasks : Nat
  bytesize : Nat
  dst : Nat
  deriving DecidableEq, Repr

/-- `Task::Info`; `stop` is the member `end`. -/
structure Info where
  offset : Nat
  bytesize : Nat
  stop : Nat
  relativeOffset : Nat
  deriving DecidableEq, Repr

/-- The constructor of `Task::Info`. -/
def Info.new (offset bytesize relativeOffset : Nat) : Info :=
  ⟨offset, bytesize, wrap (offset + bytesize), relativeOffset⟩

/-- `impl::Task`: the part of a range read by one worker. -/
structure Task where
  request : Request
  info : Info
  deriving DecidableEq, Repr

/-- `Task::destination`. -/
def Task.destination (task : Task) : Nat :=
  wrap (task.request.dst + task.info.relativeOffset)

/-- `Batch::Range`: `end` does not lie before `start`. -/
structure BatchRange where
  start : Nat
  stop : Nat
  start_le : start ≤ stop
  deriving DecidableEq, Repr

/-- `Batch::Range::size`. -/
def BatchRange.size (range : BatchRange) : Nat := range.stop - range.start

/-- `Batch::Range::Range(const Tasks &)`, which throws on an end before the
start. -/
def BatchRange.new (tasks : List Task) : Except Failure BatchRange :=
  let start := (tasks.head?.map (·.info.offset)).getD 0
  let stop := (tasks.getLast?.map (·.info.stop)).getD 0
  if h : start ≤ stop then .ok ⟨start, stop, h⟩
  else .error (.exception .invalidParameterError)

/-- `impl::Batch`, less the responder and the config it shares with every
other batch.  `uri` is the object-storage parameter; `none` for a file. -/
structure Batch where
  submissionId : Nat
  workloadIndex : Nat
  fileIndex : Nat
  path : String
  uri : Option StorageUri
  tasks : List Task
  range : BatchRange
  deriving DecidableEq, Repr

/-- `Batch::is_object_storage`. -/
def Batch.isObjectStorage (batch : Batch) : Bool := batch.uri.isSome

/-! ## §2. `Batches::BatchItr`. -/

/-- The slice being filled, and how many of its bytes are still free. -/
structure BatchItr where
  fileReadTasks : List FileReadTask
  currentTaskIndex : Nat
  currentWorkerBytesize : Nat
  deriving DecidableEq, Repr

/-- The first half of `consume`: advance to the next slice when the current
one is full.  Reading past the last slice is a failed `ASSERT`. -/
def BatchItr.advance (itr : BatchItr) (bytesize : Nat) : Except Failure BatchItr :=
  if itr.currentWorkerBytesize = 0 ∧ bytesize ≠ 0 then
    match itr.fileReadTasks[itr.currentTaskIndex + 1]? with
    | none => .error .assertion
    | some task => .ok ⟨itr.fileReadTasks, itr.currentTaskIndex + 1, task.size⟩
  else .ok itr

/-- `BatchItr::consume`. -/
def BatchItr.consume (itr : BatchItr) (bytesize : Nat) : Except Failure (Nat × BatchItr) :=
  match itr.advance bytesize with
  | .error e => .error e
  | .ok itr =>
      let toRead := min itr.currentWorkerBytesize bytesize
      .ok (toRead, { itr with currentWorkerBytesize := itr.currentWorkerBytesize - toRead })

/-- A step that leaves bytes to request either moved to a later slice or
consumed something. -/
theorem BatchItr.consume_progress {itr itr' : BatchItr} {bytesize toRead : Nat}
    (h : itr.consume bytesize = .ok (toRead, itr')) (hmore : 0 < bytesize - toRead) :
    itr'.fileReadTasks = itr.fileReadTasks ∧
      ((itr.currentTaskIndex < itr'.currentTaskIndex ∧
          itr'.currentTaskIndex < itr.fileReadTasks.length) ∨
        (itr'.currentTaskIndex = itr.currentTaskIndex ∧ 0 < toRead)) := by
  unfold BatchItr.consume at h
  cases hadv : itr.advance bytesize with
  | error e => simp [hadv] at h
  | ok next =>
      simp only [hadv, Except.ok.injEq, Prod.mk.injEq] at h
      obtain ⟨rfl, rfl⟩ := h
      unfold BatchItr.advance at hadv
      split at hadv
      next =>
        cases hget : itr.fileReadTasks[itr.currentTaskIndex + 1]? with
        | none => simp [hget] at hadv
        | some task =>
            simp only [hget, Except.ok.injEq] at hadv
            subst hadv
            have := (List.getElem?_eq_some_iff.mp hget).1
            exact ⟨rfl, .inl ⟨by simp, this⟩⟩
      next hfull =>
        simp only [Except.ok.injEq] at hadv
        subst hadv
        exact ⟨rfl, .inr ⟨rfl, by omega⟩⟩

/-! ## §3. `Batches::handle_request`. -/

/-- `std::map::try_emplace`, on a map kept as a list in key order: an
existing key keeps its value. -/
def tryEmplace {α : Type} : List (Nat × α) → Nat → α → List (Nat × α)
  | [], key, value => [(key, value)]
  | (k, v) :: entries, key, value =>
      if key < k then (key, value) :: (k, v) :: entries
      else if key = k then (k, v) :: entries
      else (k, v) :: tryEmplace entries key value

set_option linter.unusedVariables false in
/-- The `do ... while` of `handle_request`: the task infos of one range, by
batch index. -/
def handleLoop (itr : BatchItr) (infos : List (Nat × Info))
    (taskOffset bytesToRequest destinationOffset : Nat) :
    Except Failure (List (Nat × Info) × BatchItr) :=
  match h : itr.consume bytesToRequest with
  | .error e => .error e
  | .ok (toRead, next) =>
      let infos := tryEmplace infos next.currentTaskIndex
        (Info.new taskOffset toRead destinationOffset)
      if hmore : 0 < bytesToRequest - toRead then
        handleLoop next infos (wrap (taskOffset + toRead)) (bytesToRequest - toRead)
          (destinationOffset + toRead)
      else .ok (infos, next)
termination_by (itr.fileReadTasks.length - itr.currentTaskIndex, bytesToRequest)
decreasing_by
  obtain ⟨hsame, ⟨hlt, hbound⟩ | ⟨heq, hpos⟩⟩ := BatchItr.consume_progress h hmore
  · rw [hsame]
    exact Prod.Lex.left _ _ (by omega)
  · rw [hsame, heq]
    exact Prod.Lex.right _ (by omega)

/-- `v_tasks[batch_id].emplace_back(...)` for every info of one request. -/
def pushTasks (request : Request) :
    List (List Task) → List (Nat × Info) → Except Failure (List (List Task))
  | vTasks, [] => .ok vTasks
  | vTasks, (batchId, info) :: infos =>
      if batchId < vTasks.length then
        pushTasks request (vTasks.modify batchId (· ++ [⟨request, info⟩])) infos
      else .error .assertion

/-- What `handle_request` leaves: the iterator, the tasks by batch, and the
`Request` it made. -/
structure Handled where
  itr : BatchItr
  vTasks : List (List Task)
  request : Request

/-- `Batches::handle_request`. -/
def handleRequest (fileIndex : Nat) (itr : BatchItr) (vTasks : List (List Task))
    (rangeIndex requestFileOffset requestSize destination : Nat) : Except Failure Handled :=
  match handleLoop itr [] requestFileOffset requestSize 0 with
  | .error e => .error e
  | .ok (infos, itr) =>
      let request : Request :=
        ⟨requestFileOffset, fileIndex, rangeIndex, infos.length, requestSize, destination⟩
      match pushTasks request vTasks infos with
      | .error e => .error e
      | .ok vTasks => .ok ⟨itr, vTasks, request⟩

/-! ## §4. `Batches::build_tasks`. -/

/-- The loop of `build_tasks` over the transfer's ranges, from file index
`rangeIndex` on.  Also returns the requests made, in order. -/
def buildLoop (fileIndex : Nat) :
    Nat → List Nat → BatchItr → List (List Task) → Nat → Nat →
      Except Failure (List (List Task) × List Request)
  | _, [], _, vTasks, _, _ => .ok (vTasks, [])
  | rangeIndex, requestSize :: sizes, itr, vTasks, requestFileOffset, destination =>
      match handleRequest fileIndex itr vTasks rangeIndex requestFileOffset requestSize
          destination with
      | .error e => .error e
      | .ok handled =>
          match buildLoop fileIndex (rangeIndex + 1) sizes handled.itr handled.vTasks
              (wrap (requestFileOffset + requestSize)) (wrap (destination + requestSize)) with
          | .error e => .error e
          | .ok (vTasks, requests) => .ok (vTasks, handled.request :: requests)

/-- The tasks of a transfer by slice, and its requests. -/
def buildTasks (t : ContiguousTransfer) :
    Except Failure (List (List Task) × List Request) :=
  match t.tasks with
  | [] => .error .assertion   -- "Zero file read requests"
  | first :: tasks =>
      buildLoop t.fileIndex t.firstRangeIndex t.rangeSizes ⟨first :: tasks, 0, first.size⟩
        (List.replicate (first :: tasks).length []) first.offsetInFile first.destination

/-- The second loop of `build_tasks`: a batch for every slice with tasks. -/
def makeBatches (submissionId fileIndex : Nat) (path : String) (uri : Option StorageUri) :
    List FileReadTask → List (List Task) → Except Failure (List Batch)
  | slice :: slices, tasks :: vTasks =>
      if tasks.isEmpty then makeBatches submissionId fileIndex path uri slices vTasks
      else
        match BatchRange.new tasks with
        | .error e => .error e
        | .ok range =>
            match makeBatches submissionId fileIndex path uri slices vTasks with
            | .error e => .error e
            | .ok batches =>
                .ok (⟨submissionId, slice.workloadIndex, fileIndex, path, uri, tasks, range⟩
                  :: batches)
  | _, _ => .ok []

/-- The batches of a transfer and the requests made for its ranges. -/
structure Batches where
  batches : List Batch
  requests : List Request
  deriving DecidableEq, Repr

/-- `Batches::Batches`. -/
def Batches.new (submissionId : Nat) (path : String) (t : ContiguousTransfer) :
    Except Failure Batches :=
  match buildTasks t with
  | .error e => .error e
  | .ok (vTasks, requests) =>
      match makeBatches submissionId t.fileIndex path (StorageUri.parse path) t.tasks vTasks with
      | .error e => .error e
      | .ok batches => .ok ⟨batches, requests⟩

end ModelStreamer.Planning
