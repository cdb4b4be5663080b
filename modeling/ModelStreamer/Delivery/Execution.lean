/-
  ModelStreamer.Delivery.Execution
  ────────────────────────────────
  **WHAT ONE WORKER DOES WITH ONE BATCH** (`impl/batch/batch.cc`,
  `impl/task/task.cc`).

  A batch reports its tasks as it goes (`finished_until`, `handle_response`)
  and fails what is left in bulk (`handle_error`).  `Task::_finished` makes
  every report after the first a no-op.  The batch belongs to one thread, so
  all of this is sequential; what the other threads see of it is the list of
  calls of `Request::finished`, the `log`.

  `Ran` is the closure of the batch under these reports, in ANY order.  A
  batch that ran to completion has finished every task exactly once
  (`Complete.log_perm`), whatever was reported before it failed;
  `Batch.execute` always runs to completion (`execute_complete`).
-/
import ModelStreamer.Planning.Batches

namespace ModelStreamer.Delivery

open ModelStreamer.Planning

/-! ## §1. Reports. -/

/-- One call of `Request::finished`, by the task with this index. -/
structure Finish where
  task : Nat
  ret : ResponseCode
  deriving DecidableEq, Repr

/-- The members of a batch that change: `_finished` of every task, and
`_unfinished`.  `log` collects the calls of `Request::finished`. -/
structure BatchRun where
  finished : List Bool
  unfinished : Nat
  log : List Finish
  deriving DecidableEq, Repr

/-- Nothing reported yet. -/
def startRun (batch : Batch) : BatchRun :=
  ⟨List.replicate batch.tasks.length false, 0, []⟩

/-- `Task::finished_request`. -/
def BatchRun.finishedRequest (run : BatchRun) (i : Nat) (ret : ResponseCode) : BatchRun :=
  if run.finished[i]? = some false then
    { run with
      finished := run.finished.set i true
      log := run.log ++ [⟨i, ret⟩] }
  else run

/-- The loop of `finished_until`, over the tasks from index `i` on. -/
def finishedUntilLoop (fileOffset : Nat) (ret : ResponseCode) :
    List Task → Nat → BatchRun → BatchRun
  | [], i, run => { run with unfinished := i }
  | task :: tasks, i, run =>
      if fileOffset < task.info.stop then { run with unfinished := i }
      else finishedUntilLoop fileOffset ret tasks (i + 1) (run.finishedRequest i ret)

/-- `Batch::finished_until`. -/
def finishedUntil (batch : Batch) (fileOffset : Nat) (ret : ResponseCode) (run : BatchRun) :
    BatchRun :=
  finishedUntilLoop fileOffset ret (batch.tasks.drop run.unfinished) run.unfinished run

/-- `Batch::handle_error`. -/
def BatchRun.handleError (run : BatchRun) (code : ResponseCode) : BatchRun :=
  if code = .success then run
  else (List.range run.finished.length).foldl (fun run i => run.finishedRequest i code) run

/-- `Batch::handle_response` for task `i`, which throws on an error instead
of reporting it. -/
def handleResponse (batch : Batch) (i : Nat) (ret : ResponseCode) (run : BatchRun) :
    Except Failure BatchRun :=
  if ret ≠ .success then .error (.exception ret)
  else
    match batch.tasks[i]? with
    | none => .error .assertion   -- "Received response from a null task"
    | some task =>
        if task.request.fileIndex ≠ batch.fileIndex then .error .assertion
        else .ok (run.finishedRequest i ret)

/-! ## §2. `Batch::execute`. -/

/-- How opening, seeking or reading a file fails. -/
inductive Fault where
  /-- The file cannot be opened, or `read` failed. -/
  | access
  /-- The seek failed, or the file is too short. -/
  | eof
  /-- Any other exception. -/
  | other
  deriving DecidableEq, Repr

/-- The code `execute` catches. -/
def Fault.code : Fault → ResponseCode
  | .access => .fileAccessError
  | .eof => .eofError
  | .other => .unknownError

/-- What a reader and the stop flag do during one execution: the flag is up
from its `stopAt`-th look on. -/
structure Reads where
  opens : Option Fault
  seeks : Option Fault
  reads : Nat → Option Fault
  stopAt : Nat

/-- The value of the stop flag at a look. -/
def Reads.stopped (o : Reads) (look : Nat) : Bool := decide (o.stopAt ≤ look)

/-- The `for` of `Batch::read`: block `i` and the `left` blocks from it on.
Returns the file offset reached. -/
def readLoop (batch : Batch) (block : Nat) (o : Reads) :
    Nat → Nat → Nat → BatchRun → BatchRun × Except ResponseCode Nat
  | 0, _, fileOffset, run => (run, .ok fileOffset)
  | left + 1, i, fileOffset, run =>
      if o.stopped i then (run, .ok fileOffset)
      else
        match o.reads i with
        | some fault => (run, .error fault.code)
        | none =>
            readLoop batch block o left (i + 1) (fileOffset + block)
              (finishedUntil batch (fileOffset + block) .success run)

/-- The rest of `Batch::read`: the last, partial block and the tasks of an
empty range.  `look` counts the looks at the stop flag. -/
def readTail (batch : Batch) (o : Reads) (look fileOffset : Nat) (run : BatchRun) :
    BatchRun × Except ResponseCode Unit :=
  let partialRead := decide (fileOffset < batch.range.stop) && !o.stopped look
  match if partialRead then o.reads look else none with
  | some fault => (run, .error fault.code)
  | none =>
      let run := if partialRead then finishedUntil batch batch.range.stop .success run else run
      let run :=
        if o.stopped (look + 1) then run
        else finishedUntil batch batch.range.stop .success run
      if o.stopped (look + 2) then (run, .error .finishedError) else (run, .ok ())

/-- `Batch::read`. -/
def readBatch (config : Config) (o : Reads) (batch : Batch) (run : BatchRun) :
    BatchRun × Except ResponseCode Unit :=
  if batch.tasks.isEmpty then (run, .ok ())
  else
    match o.seeks with
    | some fault => (run, .error fault.code)
    | none =>
        let numChunks := batch.range.size / config.fsBlockBytesize
        match readLoop batch config.fsBlockBytesize o numChunks 0 batch.range.start run with
        | (run, .error code) => (run, .error code)
        | (run, .ok fileOffset) => readTail batch o numChunks fileOffset run

/-- The `try` block of `Batch::execute`, and the code it leaves. -/
def tryExecute (config : Config) (o : Reads) (batch : Batch) : BatchRun × ResponseCode :=
  if batch.isObjectStorage then (startRun batch, .unknownError)
  else
    match o.opens with
    | some fault => (startRun batch, fault.code)
    | none =>
        match readBatch config o batch (startRun batch) with
        | (run, .error code) => (run, code)
        | (run, .ok ()) => (run, .success)

/-- `Batch::execute`. -/
def execute (config : Config) (o : Reads) (batch : Batch) : BatchRun :=
  let (run, code) := tryExecute config o batch
  run.handleError code

/-! ## §3. Reports in any order. -/

/-- What reports on a batch can lead to. -/
inductive Ran (batch : Batch) : BatchRun → Prop
  | start : Ran batch (startRun batch)
  | finishedUntil {run : BatchRun} (fileOffset : Nat) (ret : ResponseCode) :
      Ran batch run → Ran batch (finishedUntil batch fileOffset ret run)
  | handleResponse {run run' : BatchRun} {i : Nat} {ret : ResponseCode} :
      Ran batch run → handleResponse batch i ret run = .ok run' → Ran batch run'
  | handleError {run : BatchRun} (code : ResponseCode) :
      Ran batch run → Ran batch (run.handleError code)

/-- The log holds exactly the finished tasks, once each. -/
structure Consistent (n : Nat) (run : BatchRun) : Prop where
  length_eq : run.finished.length = n
  nodup : (run.log.map Finish.task).Nodup
  logged : ∀ i, i ∈ run.log.map Finish.task ↔ run.finished[i]? = some true

theorem Consistent.finishedRequest {n : Nat} {run : BatchRun} (h : Consistent n run) (i : Nat)
    (ret : ResponseCode) : Consistent n (run.finishedRequest i ret) := by
  rw [BatchRun.finishedRequest]
  split
  next hget =>
    have hlt := (List.getElem?_eq_some_iff.mp hget).1
    have hnew : i ∉ run.log.map Finish.task := by
      rw [h.logged, hget]
      simp
    refine ⟨by simpa using h.length_eq, ?_, fun k => ?_⟩
    · rw [List.map_append, List.nodup_append]
      refine ⟨h.nodup, by simp, ?_⟩
      intro a ha b hb hab
      simp only [List.map_cons, List.map_nil, List.mem_singleton] at hb
      subst hb
      exact hnew (hab ▸ ha)
    · simp only [List.map_append, List.map_cons, List.map_nil, List.mem_append, h.logged,
        List.mem_singleton, List.getElem?_set]
      by_cases hik : i = k
      · subst hik
        simp [hlt]
      · simp [hik, Ne.symm hik]
  next => exact h

theorem Consistent.finishedUntilLoop {n fileOffset : Nat} {ret : ResponseCode}
    (tasks : List Task) :
    ∀ {i : Nat} {run : BatchRun}, Consistent n run →
      Consistent n (finishedUntilLoop fileOffset ret tasks i run) := by
  induction tasks with
  | nil =>
      intro i run h
      exact ⟨h.length_eq, h.nodup, h.logged⟩
  | cons task tasks ih =>
      intro i run h
      rw [Delivery.finishedUntilLoop]
      split
      · exact ⟨h.length_eq, h.nodup, h.logged⟩
      · exact ih (h.finishedRequest _ _)

theorem Consistent.foldl {n : Nat} {code : ResponseCode} (is : List Nat) :
    ∀ {run : BatchRun}, Consistent n run →
      Consistent n (is.foldl (fun run i => run.finishedRequest i code) run) := by
  induction is with
  | nil =>
      intro run h
      exact h
  | cons i is ih =>
      intro run h
      exact ih (h.finishedRequest _ _)

theorem Consistent.handleError {n : Nat} {run : BatchRun} (h : Consistent n run)
    (code : ResponseCode) : Consistent n (run.handleError code) := by
  rw [BatchRun.handleError]
  split
  · exact h
  · exact Consistent.foldl _ h

/-- **No report finishes a task twice.** -/
theorem Ran.consistent {batch : Batch} {run : BatchRun} (h : Ran batch run) :
    Consistent batch.tasks.length run := by
  induction h with
  | start =>
      refine ⟨by simp [startRun], by simp [startRun], fun i => ?_⟩
      simp [startRun, List.getElem?_replicate]
  | finishedUntil _ _ _ ih => exact Consistent.finishedUntilLoop _ ih
  | @handleResponse run run' i ret _ hrun ih =>
      rw [Delivery.handleResponse] at hrun
      split at hrun
      · simp at hrun
      · split at hrun
        · simp at hrun
        · split at hrun
          · simp at hrun
          · simp only [Except.ok.injEq] at hrun
            subst hrun
            exact ih.finishedRequest _ _
  | handleError code _ ih => exact ih.handleError code

/-! ## §4. Batches that ran to completion. -/

/-- Every one of the `n` tasks is finished. -/
def Complete (n : Nat) (run : BatchRun) : Prop := ∀ i, i < n → run.finished[i]? = some true

/-- A completed batch has finished every task exactly once. -/
theorem Complete.log_perm {batch : Batch} {run : BatchRun} (hran : Ran batch run)
    (h : Complete batch.tasks.length run) :
    (run.log.map Finish.task).Perm (List.range batch.tasks.length) := by
  have hcons := hran.consistent
  refine (List.perm_ext_iff_of_nodup hcons.nodup List.nodup_range).mpr (fun i => ?_)
  rw [hcons.logged, List.mem_range]
  constructor
  · intro hget
    rw [← hcons.length_eq]
    exact (List.getElem?_eq_some_iff.mp hget).1
  · exact h i

/-- Finished tasks stay finished. -/
theorem finishedRequest_mono {run : BatchRun} {i k : Nat} {ret : ResponseCode}
    (h : run.finished[k]? = some true) :
    (run.finishedRequest i ret).finished[k]? = some true := by
  rw [BatchRun.finishedRequest]
  split
  next hget =>
    rw [List.getElem?_set]
    split
    next hik =>
      subst hik
      rw [hget] at h
      simp at h
    next => exact h
  next => exact h

theorem finishedRequest_self {run : BatchRun} {i : Nat} {ret : ResponseCode}
    (h : i < run.finished.length) :
    (run.finishedRequest i ret).finished[i]? = some true := by
  rw [BatchRun.finishedRequest]
  split
  next => simp [h]
  next hget =>
    rw [List.getElem?_eq_getElem h] at hget ⊢
    simpa using hget

theorem finishedRequest_length (run : BatchRun) (i : Nat) (ret : ResponseCode) :
    (run.finishedRequest i ret).finished.length = run.finished.length := by
  rw [BatchRun.finishedRequest]
  split
  · simp
  · rfl

theorem foldl_finished {code : ResponseCode} (is : List Nat) :
    ∀ {run : BatchRun} {k : Nat}, k < run.finished.length →
      (k ∈ is ∨ run.finished[k]? = some true) →
      (is.foldl (fun run i => run.finishedRequest i code) run).finished[k]? = some true := by
  induction is with
  | nil =>
      intro run k _ h
      simpa using h
  | cons i is ih =>
      intro run k hk h
      rw [List.foldl_cons]
      refine ih (by rwa [finishedRequest_length]) ?_
      rcases h with h | h
      · rcases List.mem_cons.mp h with rfl | h
        · exact .inr (finishedRequest_self hk)
        · exact .inl h
      · exact .inr (finishedRequest_mono h)

theorem finishedRequest_log {run : BatchRun} {i : Nat} {ret : ResponseCode} {f : Finish}
    (hf : f ∈ (run.finishedRequest i ret).log) : f ∈ run.log ∨ f = ⟨i, ret⟩ := by
  rw [BatchRun.finishedRequest] at hf
  split at hf
  · simpa using hf
  · exact .inl hf

theorem finishedRequest_other {run : BatchRun} {i k : Nat} {ret : ResponseCode} (hik : k ≠ i) :
    (run.finishedRequest i ret).finished[k]? = run.finished[k]? := by
  rw [BatchRun.finishedRequest]
  split
  · exact List.getElem?_set_ne (Ne.symm hik)
  · rfl

theorem finishedRequest_keeps {run : BatchRun} {f : Finish} (hf : f ∈ run.log) (i : Nat)
    (ret : ResponseCode) : f ∈ (run.finishedRequest i ret).log := by
  rw [BatchRun.finishedRequest]
  split
  · exact List.mem_append_left _ hf
  · exact hf

theorem handleError_keeps {run : BatchRun} {f : Finish} (hf : f ∈ run.log)
    (code : ResponseCode) : f ∈ (run.handleError code).log := by
  rw [BatchRun.handleError]
  split
  · exact hf
  · generalize List.range run.finished.length = is
    induction is generalizing run with
    | nil => exact hf
    | cons i is ih => exact ih (finishedRequest_keeps hf i code)

/-- A failure reports only tasks not reported before. -/
theorem handleError_log {run : BatchRun} {code : ResponseCode} {f : Finish}
    (hf : f ∈ (run.handleError code).log) :
    f ∈ run.log ∨ f.ret = code ∧ run.finished[f.task]? = some false := by
  unfold BatchRun.handleError at hf
  split at hf
  · exact .inl hf
  · generalize List.range run.finished.length = is at hf
    induction is generalizing run with
    | nil => exact .inl hf
    | cons i is ih =>
        rcases ih hf with hf | ⟨hret, hopen⟩
        · have hf : f ∈ (run.finishedRequest i code).log := hf
          rw [BatchRun.finishedRequest] at hf
          split at hf
          next hget =>
            rcases List.mem_append.mp hf with hf | hf
            · exact .inl hf
            · obtain rfl := List.mem_singleton.mp hf
              exact .inr ⟨rfl, hget⟩
          next => exact .inl hf
        · refine .inr ⟨hret, ?_⟩
          have hopen : (run.finishedRequest i code).finished[f.task]? = some false := hopen
          rw [BatchRun.finishedRequest] at hopen
          split at hopen
          next hget =>
            rw [List.getElem?_set] at hopen
            split at hopen
            next => split at hopen <;> simp at hopen
            next => exact hopen
          next => exact hopen

/-- Failing a batch adds no Success. -/
theorem handleError_success {run : BatchRun} {code : ResponseCode} {f : Finish}
    (hf : f ∈ (run.handleError code).log) (hret : f.ret = .success) : f ∈ run.log := by
  by_cases hcode : code = .success
  · rwa [BatchRun.handleError, if_pos hcode] at hf
  · exact (handleError_log hf).resolve_right (fun hnew => hcode (hnew.1 ▸ hret))

/-- `handle_error` finishes whatever is left. -/
theorem handleError_complete {n : Nat} {run : BatchRun} (hlen : run.finished.length = n)
    {code : ResponseCode} (hcode : code ≠ .success) : Complete n (run.handleError code) := by
  intro i hi
  rw [BatchRun.handleError, if_neg hcode]
  exact foldl_finished _ (by omega) (.inl (List.mem_range.mpr (by omega)))

/-- **A failure reports every task not finished before.** -/
theorem handleError_fails {batch : Batch} {run : BatchRun} (hran : Ran batch run)
    {code : ResponseCode} (hcode : code ≠ .success) {i : Nat}
    (hopen : run.finished[i]? = some false) : ⟨i, code⟩ ∈ (run.handleError code).log := by
  have hlt : i < batch.tasks.length := by
    rw [← hran.consistent.length_eq]
    exact (List.getElem?_eq_some_iff.mp hopen).1
  have hfinished := handleError_complete hran.consistent.length_eq hcode i hlt
  obtain ⟨f, hf, rfl⟩ :=
    List.mem_map.mp (((Ran.handleError code hran).consistent.logged i).mpr hfinished)
  rcases handleError_log hf with hold | ⟨hret, -⟩
  · have htrue := (hran.consistent.logged f.task).mp (List.mem_map_of_mem hold)
    rw [hopen] at htrue
    simp at htrue
  · have hsame : f = ⟨f.task, code⟩ := by rw [← hret]
    rwa [← hsame]

theorem finishedUntilLoop_finished {fileOffset : Nat} {ret : ResponseCode} (tasks : List Task) :
    ∀ {i : Nat} {run : BatchRun}, (∀ task ∈ tasks, task.info.stop ≤ fileOffset) →
      i + tasks.length = run.finished.length →
      ∀ k, k < run.finished.length → (i ≤ k ∨ run.finished[k]? = some true) →
        (finishedUntilLoop fileOffset ret tasks i run).finished[k]? = some true := by
  induction tasks with
  | nil =>
      intro i run _ hlen k hk h
      simp only [List.length_nil] at hlen
      exact h.resolve_left (by omega)
  | cons task tasks ih =>
      intro i run hstop hlen k hk h
      have hhead := hstop task (by simp)
      rw [finishedUntilLoop, if_neg (by omega)]
      refine ih (fun u hu => hstop u (by simp [hu])) ?_ k ?_ ?_
      · rw [finishedRequest_length]
        simp only [List.length_cons] at hlen
        omega
      · rwa [finishedRequest_length]
      · by_cases hik : i = k
        · subst hik
          exact .inr (finishedRequest_self hk)
        · exact h.imp (by omega) finishedRequest_mono

/-- The tasks before `_unfinished` are finished. -/
def Reported (run : BatchRun) : Prop :=
  run.unfinished ≤ run.finished.length ∧
    ∀ k, k < run.unfinished → run.finished[k]? = some true

theorem finishedUntilLoop_reported (fileOffset : Nat) (ret : ResponseCode) (tasks : List Task) :
    ∀ (i : Nat) (run : BatchRun), i + tasks.length = run.finished.length →
      (∀ k, k < i → run.finished[k]? = some true) →
      Reported (finishedUntilLoop fileOffset ret tasks i run) ∧
        (finishedUntilLoop fileOffset ret tasks i run).finished.length
          = run.finished.length := by
  induction tasks with
  | nil =>
      intro i run hlen h
      simp only [List.length_nil] at hlen
      exact ⟨⟨by show i ≤ run.finished.length; omega, h⟩, rfl⟩
  | cons task tasks ih =>
      intro i run hlen h
      simp only [List.length_cons] at hlen
      rw [finishedUntilLoop]
      split
      · exact ⟨⟨by show i ≤ run.finished.length; omega, h⟩, rfl⟩
      · have hnext := ih (i + 1) (run.finishedRequest i ret)
          (by rw [finishedRequest_length]; omega) (by
            intro k hk
            by_cases hik : k = i
            · subst hik
              exact finishedRequest_self (by omega)
            · exact finishedRequest_mono (h k (by omega)))
        rw [finishedRequest_length] at hnext
        exact hnext

theorem finishedUntil_reported {batch : Batch} {fileOffset : Nat} {ret : ResponseCode}
    {run : BatchRun} (hlen : run.finished.length = batch.tasks.length) (h : Reported run) :
    Reported (finishedUntil batch fileOffset ret run) ∧
      (finishedUntil batch fileOffset ret run).finished.length = batch.tasks.length := by
  have := finishedUntilLoop_reported fileOffset ret
    (batch.tasks.drop run.unfinished) run.unfinished run
    (by rw [List.length_drop]; have := h.1; omega) h.2
  rw [hlen] at this
  exact this

/-- `finished_until` the end of the batch finishes every task. -/
theorem finishedUntil_complete {batch : Batch} {ret : ResponseCode} {run : BatchRun}
    (hstop : ∀ task ∈ batch.tasks, task.info.stop ≤ batch.range.stop)
    (hlen : run.finished.length = batch.tasks.length) (h : Reported run) :
    Complete batch.tasks.length (finishedUntil batch batch.range.stop ret run) := by
  intro k hk
  refine finishedUntilLoop_finished _ (fun task htask => hstop task (List.mem_of_mem_drop htask))
    ?_ k (by omega) ?_
  · rw [List.length_drop]
    have := h.1
    omega
  · by_cases hle : run.unfinished ≤ k
    · exact .inl hle
    · exact .inr (h.2 k (by omega))

/-! ## §5. `Batch::execute` runs to completion. -/

/-- A run that came about by reports, with `_unfinished` in step. -/
structure Going (batch : Batch) (run : BatchRun) : Prop where
  ran : Ran batch run
  reported : Reported run

theorem Going.length_eq {batch : Batch} {run : BatchRun} (h : Going batch run) :
    run.finished.length = batch.tasks.length := h.ran.consistent.length_eq

theorem going_start (batch : Batch) : Going batch (startRun batch) :=
  ⟨.start, by simp [Reported, startRun]⟩

theorem Going.finishedUntil {batch : Batch} {run : BatchRun} (h : Going batch run)
    (fileOffset : Nat) (ret : ResponseCode) :
    Going batch (finishedUntil batch fileOffset ret run) :=
  ⟨.finishedUntil _ _ h.ran, (finishedUntil_reported h.length_eq h.reported).1⟩

theorem readLoop_going {batch : Batch} {block : Nat} {o : Reads} (left : Nat) :
    ∀ {i fileOffset : Nat} {run : BatchRun}, Going batch run →
      Going batch (readLoop batch block o left i fileOffset run).1 ∧
        ∀ code, (readLoop batch block o left i fileOffset run).2 = .error code →
          code ≠ .success := by
  induction left with
  | zero =>
      intro i fileOffset run h
      exact ⟨h, by simp [readLoop]⟩
  | succ left ih =>
      intro i fileOffset run h
      rw [readLoop]
      split
      · exact ⟨h, by simp⟩
      · split
        next fault _ =>
          refine ⟨h, fun code hcode => ?_⟩
          simp only [Except.error.injEq] at hcode
          subst hcode
          cases fault <;> simp [Fault.code]
        next => exact ih (h.finishedUntil _ _)

/-- The tail reports every task unless it fails. -/
theorem readTail_going {batch : Batch} {o : Reads} {look fileOffset : Nat} {run : BatchRun}
    (hstop : ∀ task ∈ batch.tasks, task.info.stop ≤ batch.range.stop) (h : Going batch run) :
    Going batch (readTail batch o look fileOffset run).1 ∧
      ((readTail batch o look fileOffset run).2 = .ok () →
        Complete batch.tasks.length (readTail batch o look fileOffset run).1) ∧
      ∀ code, (readTail batch o look fileOffset run).2 = .error code → code ≠ .success := by
  rw [readTail]
  simp only
  split
  next fault _ =>
    -- the read ended with a fault: the caller reports the rest
    refine ⟨h, by simp, fun code hcode => ?_⟩
    simp only [Except.error.injEq] at hcode
    subst hcode
    cases fault <;> simp [Fault.code]
  next =>
    -- reporting up to the end of the range leaves the batch going, whether or not it is done
    have htail : Going batch
        (if (decide (fileOffset < batch.range.stop) && !o.stopped look) = true
          then finishedUntil batch batch.range.stop .success run else run) := by
      split
      · exact h.finishedUntil _ _
      · exact h
    generalize (if (decide (fileOffset < batch.range.stop) && !o.stopped look) = true
      then finishedUntil batch batch.range.stop .success run else run) = run₁ at htail ⊢
    by_cases hlast : o.stopped (look + 2) = true
    · -- the flag is up at the end: `FinishedError`
      rw [if_pos hlast]
      refine ⟨?_, by simp, ?_⟩
      · show Going batch (if o.stopped (look + 1) = true then run₁
          else finishedUntil batch batch.range.stop .success run₁)
        split
        · exact htail
        · exact htail.finishedUntil _ _
      · intro code hcode
        simp only [Except.error.injEq] at hcode
        subst hcode
        simp
    · -- the flag was down at the look before as well
      have hbefore : ¬ o.stopped (look + 1) = true := by
        simp only [Reads.stopped, decide_eq_true_eq] at hlast ⊢
        omega
      rw [if_neg hlast, if_neg hbefore]
      exact ⟨htail.finishedUntil _ _,
        fun _ => finishedUntil_complete hstop htail.length_eq htail.reported, by simp⟩

theorem readBatch_going {config : Config} {batch : Batch} {o : Reads} {run : BatchRun}
    (hstop : ∀ task ∈ batch.tasks, task.info.stop ≤ batch.range.stop) (h : Going batch run) :
    Going batch (readBatch config o batch run).1 ∧
      ((readBatch config o batch run).2 = .ok () →
        Complete batch.tasks.length (readBatch config o batch run).1) ∧
      ∀ code, (readBatch config o batch run).2 = .error code → code ≠ .success := by
  rw [readBatch]
  split
  next hempty =>
    have hnil : batch.tasks = [] := by simpa using hempty
    exact ⟨h, fun _ i hi => by simp [hnil] at hi, by simp⟩
  next =>
    split
    next fault _ =>
      refine ⟨h, by simp, fun code hcode => ?_⟩
      simp only [Except.error.injEq] at hcode
      subst hcode
      cases fault <;> simp [Fault.code]
    next =>
      simp only
      obtain ⟨hgoing, hcode⟩ := readLoop_going (o := o)
        (batch.range.size / config.fsBlockBytesize) (i := 0) h
      generalize readLoop batch config.fsBlockBytesize o
        (batch.range.size / config.fsBlockBytesize) 0 batch.range.start run = result
        at hgoing hcode ⊢
      obtain ⟨run', outcome⟩ := result
      cases outcome with
      | error code =>
          refine ⟨hgoing, by simp, fun code' hcode' => hcode code' ?_⟩
          simpa using hcode'
      | ok fileOffset => exact readTail_going hstop hgoing

/-- **Every execution finishes every task**, read or not, stopped or not. -/
theorem execute_complete {config : Config} {batch : Batch} {o : Reads}
    (hstop : ∀ task ∈ batch.tasks, task.info.stop ≤ batch.range.stop) :
    Ran batch (execute config o batch) ∧
      Complete batch.tasks.length (execute config o batch) := by
  have htry : Going batch (tryExecute config o batch).1 ∧
      ((tryExecute config o batch).2 = .success →
        Complete batch.tasks.length (tryExecute config o batch).1) := by
    rw [tryExecute]
    split
    · exact ⟨going_start batch, by simp⟩
    · split
      next fault _ =>
        refine ⟨going_start batch, fun h => ?_⟩
        cases fault <;> simp [Fault.code] at h
      next =>
        obtain ⟨hgoing, hok, hcode⟩ :=
          readBatch_going (o := o) hstop (going_start batch)
        generalize readBatch config o batch (startRun batch) = result at hgoing hok hcode ⊢
        obtain ⟨run, outcome⟩ := result
        cases outcome with
        | error code => exact ⟨hgoing, fun h => absurd h (hcode code rfl)⟩
        | ok _ => exact ⟨hgoing, fun _ => hok rfl⟩
  rw [execute]
  generalize tryExecute config o batch = result at htry ⊢
  obtain ⟨run, code⟩ := result
  refine ⟨.handleError _ htry.1.ran, ?_⟩
  by_cases hcode : code = .success
  · simp only [BatchRun.handleError, if_pos hcode]
    exact htry.2 hcode
  · exact handleError_complete htry.1.length_eq hcode

/-- A batch that ran to completion, in one way or another. -/
structure Execution (batch : Batch) where
  run : BatchRun
  ran : Ran batch run
  complete : Complete batch.tasks.length run

/-- `handle_error` on a batch nothing has run on (`Workload::fail`, and the
workers' aborts). -/
def Execution.fail (batch : Batch) (code : ResponseCode) (hcode : code ≠ .success) :
    Execution batch where
  run := (startRun batch).handleError code
  ran := .handleError _ .start
  complete := handleError_complete (by simp [startRun]) hcode

end ModelStreamer.Delivery
