/-
  ModelStreamer.Planning.Assigner
  ───────────────────────────────
  **THE ASSIGNER** (`impl/assigner/assigner.cc`): which worker reads which
  bytes of a submission.

    1. `coalesce` merges each file's ranges, in the order given, into
       `ContiguousTransfer`s: groups adjacent both in the file and in the
       destination buffer.
    2. `assign` divides the transfers between the workers by total bytes,
       cutting a transfer that is larger than a worker's remaining target.
-/
import ModelStreamer.Common.Word
import ModelStreamer.Common.StorageUri

namespace ModelStreamer.Planning

/-! ## §1. The request. -/

/-- A single range to read, as supplied by the caller: three machine words. -/
structure ReadRange where
  offset : Nat
  size : Nat
  dst : Nat
  offset_lt : offset < 2 ^ 64 := by omega
  size_lt : size < 2 ^ 64 := by omega
  dst_lt : dst < 2 ^ 64 := by omega
  deriving DecidableEq, Repr

/-- One file of a submission, with all the ranges requested from it. -/
structure FileRanges where
  path : String
  ranges : List ReadRange
  deriving DecidableEq, Repr

/-- `impl::Config`. -/
structure Config where
  concurrency : Nat
  s3Concurrency : Nat
  s3BlockBytesize : Nat
  fsBlockBytesize : Nat
  deriving DecidableEq, Repr

/-- One worker's slice of a `ContiguousTransfer`. -/
structure FileReadTask where
  workloadIndex : Nat
  originalFileIndex : Nat
  offsetInFile : Nat
  size : Nat
  destination : Nat
  deriving DecidableEq, Repr

/-- A maximal group of the caller's ranges that are adjacent in both the
file and the destination buffer, and its slices. -/
structure ContiguousTransfer where
  fileIndex : Nat
  offset : Nat
  size : Nat
  destination : Nat
  firstRangeIndex : Nat
  rangeSizes : List Nat
  tasks : List FileReadTask
  deriving DecidableEq, Repr

/-! ## §2. `Assigner::coalesce`. -/

/-- The transfer opened for range `i` of a file. -/
def ContiguousTransfer.opened (fileIndex i : Nat) (range : ReadRange) : ContiguousTransfer :=
  ⟨fileIndex, range.offset, range.size, range.dst, i, [range.size], []⟩

/-- Adjacent in BOTH the file and the destination. -/
def ContiguousTransfer.adjacent (current : ContiguousTransfer) (range : ReadRange) : Bool :=
  decide (wrap (current.offset + current.size) = range.offset) &&
    decide (wrap (current.destination + current.size) = range.dst)

/-- Extend the open transfer by an adjacent range. -/
def ContiguousTransfer.extend (current : ContiguousTransfer) (range : ReadRange) :
    ContiguousTransfer :=
  { current with
    size := current.size + range.size
    rangeSizes := current.rangeSizes ++ [range.size] }

/-- The inner loop of `coalesce`: the ranges of one file from index `i` on.
`current` is the transfer open for extension; `totalBytes` runs over the
whole request.  Returns the transfers closed from here on. -/
def coalesceRanges (fileIndex : Nat) :
    Nat → List ReadRange → Option ContiguousTransfer → Nat →
      Except Failure (List ContiguousTransfer × Nat)
  | _, [], current, totalBytes => .ok (current.toList, totalBytes)
  | i, range :: ranges, current, totalBytes =>
      -- `total_bytes > max - range.size`: the running total would wrap
      if totalBytes > 2 ^ 64 - 1 - range.size then
        .error (.exception .invalidParameterError)
      else
        let opened := ContiguousTransfer.opened fileIndex i range
        match current with
        | none =>
            coalesceRanges fileIndex (i + 1) ranges (some opened) (totalBytes + range.size)
        | some current =>
            if current.adjacent range then
              coalesceRanges fileIndex (i + 1) ranges (some (current.extend range))
                (totalBytes + range.size)
            else
              match coalesceRanges fileIndex (i + 1) ranges (some opened)
                  (totalBytes + range.size) with
              | .error e => .error e
              | .ok (transfers, total) => .ok (current :: transfers, total)

/-- The outer loop of `coalesce`: no transfer spans two files. -/
def coalesceFiles :
    Nat → List FileRanges → Nat → Except Failure (List ContiguousTransfer × Nat)
  | _, [], totalBytes => .ok ([], totalBytes)
  | fileIndex, file :: files, totalBytes =>
      match coalesceRanges fileIndex 0 file.ranges none totalBytes with
      | .error e => .error e
      | .ok (transfers, totalBytes) =>
          match coalesceFiles (fileIndex + 1) files totalBytes with
          | .error e => .error e
          | .ok (rest, totalBytes) => .ok (transfers ++ rest, totalBytes)

/-- `Assigner::coalesce`: the transfers, and the total bytes of the request. -/
def coalesce (request : List FileRanges) :
    Except Failure (List ContiguousTransfer × Nat) :=
  coalesceFiles 0 request 0

/-! ## §3. `Assigner::bytes_per_worker`. -/

/-- `Assigner::check_object_storage`: the first file WITH RANGES decides. -/
def checkObjectStorage : List FileRanges → Bool
  | [] => false
  | file :: files =>
      if file.ranges.isEmpty then checkObjectStorage files
      else (StorageUri.parse file.path).isSome

/-- The worker count of the request's backend. -/
def numWorkers (config : Config) (request : List FileRanges) : Nat :=
  if checkObjectStorage request then config.s3Concurrency else config.concurrency

/-- The block size of the request's backend. -/
def blockBytesize (config : Config) (request : List FileRanges) : Nat :=
  if checkObjectStorage request then config.s3BlockBytesize else config.fsBlockBytesize

/-- How the bytes are shared: `_num_workloads`, the bytes of every worker,
and the first worker's surplus. -/
structure Shares where
  numWorkloads : Nat
  base : Nat
  remainder : Nat
  deriving DecidableEq, Repr

/-- `Assigner::bytes_per_worker`. -/
def bytesPerWorker (blockBytesize numWorkers totalBytes : Nat) : Shares :=
  let numBlocks := totalBytes / blockBytesize
  let numWorkloads := max (min numBlocks numWorkers) 1
  let base := numBlocks / numWorkloads * blockBytesize
  ⟨numWorkloads, base, totalBytes - numWorkloads * base⟩

/-! ## §4. `Assigner::assign`. -/

/-- Where the assignment stands: `done` is `_transfers[0 .. index)`, `todo`
is `_transfers[index ..)`, and `consumed` bytes of the first transfer of
`todo` are already assigned. -/
structure Cursor where
  done : List ContiguousTransfer
  todo : List ContiguousTransfer
  consumed : Nat
  deriving DecidableEq, Repr

/-- The slice of `transfer` that starts `consumed` bytes into it. -/
def ContiguousTransfer.slice (transfer : ContiguousTransfer)
    (workloadIndex consumed toAssign : Nat) : FileReadTask :=
  ⟨workloadIndex, transfer.fileIndex, wrap (transfer.offset + consumed), toAssign,
    wrap (transfer.destination + consumed)⟩

/-- `transfer.tasks.emplace_back(...)`. -/
def ContiguousTransfer.addTask (transfer : ContiguousTransfer) (task : FileReadTask) :
    ContiguousTransfer :=
  { transfer with tasks := transfer.tasks ++ [task] }

/-- The inner `while` of `assign`: fill one worker up to `target` bytes.
Returns the cursor after it and the bytes the worker got. -/
def assignWorker (workloadIndex target : Nat) :
    Nat → Nat → List ContiguousTransfer → List ContiguousTransfer → Cursor × Nat
  | assigned, consumed, done, [] => (⟨done, [], consumed⟩, assigned)
  | assigned, consumed, done, transfer :: todo =>
      -- a zero sized transfer is still given a task
      if transfer.size > 0 ∧ assigned ≥ target then
        (⟨done, transfer :: todo, consumed⟩, assigned)
      else
        let toAssign := min (transfer.size - consumed) (target - assigned)
        let transfer := transfer.addTask (transfer.slice workloadIndex consumed toAssign)
        if consumed + toAssign = transfer.size then
          assignWorker workloadIndex target (assigned + toAssign) 0 (done ++ [transfer]) todo
        else
          -- the slice was cut at the target, so the loop's next test breaks
          (⟨done, transfer :: todo, consumed + toAssign⟩, assigned + toAssign)

/-- The outer `for` of `assign`, over the workers that are left.  Collects
`_worker_assignments[..].total_bytes`. -/
def assignWorkers (base remainder : Nat) :
    Nat → Nat → Cursor → List Nat → Cursor × List Nat
  | 0, _, cursor, totals => (cursor, totals)
  | workers + 1, workloadIndex, cursor, totals =>
      if cursor.todo.isEmpty then (cursor, totals)
      else
        let target := if workloadIndex = 0 then base + remainder else base
        let (cursor, assigned) :=
          assignWorker workloadIndex target 0 cursor.consumed cursor.done cursor.todo
        assignWorkers base remainder workers (workloadIndex + 1) cursor (totals ++ [assigned])

/-- Bytes of a transfer's slices. -/
def ContiguousTransfer.taskBytes (transfer : ContiguousTransfer) : Nat :=
  (transfer.tasks.map FileReadTask.size).sum

/-- `Assigner::assign`, with its two verification `ASSERT`s. -/
def assign (numWorkers : Nat) (shares : Shares) (totalBytes : Nat)
    (transfers : List ContiguousTransfer) : Except Failure (List ContiguousTransfer) :=
  let (cursor, totals) :=
    assignWorkers shares.base shares.remainder numWorkers 0 ⟨[], transfers, 0⟩ []
  let transfers := cursor.done ++ cursor.todo
  if totals.sum ≠ totalBytes then .error .assertion
  else if transfers.all (fun transfer => transfer.taskBytes == transfer.size) then
    .ok transfers
  else .error .assertion

/-! ## §5. The constructor. -/

/-- What an `Assigner` holds once constructed. -/
structure Assigner where
  transfers : List ContiguousTransfer
  numWorkloads : Nat
  deriving DecidableEq, Repr

/-- `Assigner::Assigner`. -/
def Assigner.new (config : Config) (request : List FileRanges) : Except Failure Assigner :=
  if request.isEmpty then .ok ⟨[], 0⟩
  else
    match coalesce request with
    | .error e => .error e
    | .ok (transfers, totalBytes) =>
        if transfers.isEmpty then .ok ⟨[], 0⟩
        else
          let workers := numWorkers config request
          let shares := bytesPerWorker (blockBytesize config request) workers totalBytes
          match assign workers shares totalBytes transfers with
          | .error e => .error e
          | .ok transfers => .ok ⟨transfers, shares.numWorkloads⟩

end ModelStreamer.Planning
