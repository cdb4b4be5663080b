/-
  ModelStreamer.Filesystem.Execute
  ────────────────────────────────
  **A BATCH READ FROM A FILE, BYTE BY BYTE** (`Batch::execute` over
  `File::read`).

  `Delivery.Execution` has the same loop with an oracle for the reads; here
  the reads are those of a file, and the memory is written.

    • `executeFile_refines` — every execution of a file is one of
      `Delivery.execute`, for the faults it met,
    • `Served` — what holds wherever the loop stands: a front part of the
      range has arrived, and exactly the tasks that end within the blocks
      read in full are finished,
    • `execute_reads` — so for a whole execution, however it ended: every
      task is finished once, Success means the bytes are there, and nothing
      else was written,
    • `planned_contiguous` — the batches of a plan are such batches.
-/
import ModelStreamer.Filesystem.Device
import ModelStreamer.Planning.Lossless

namespace ModelStreamer.Filesystem

open ModelStreamer.Lib ModelStreamer.Planning ModelStreamer.Delivery

/-! ## §1. `Batch::read` and `Batch::execute`. -/

/-- The locals of `Batch::read`, with the batch and the descriptor.  `reached`
is history: the end of the blocks read in full, once there is one (an empty
range is one empty block). -/
structure Progress where
  run : BatchRun
  io : Io
  fileOffset : Nat
  buffer : Nat
  reached : Option Nat

section Read

variable (batch : Batch) (disk : Disk) (os : Os) (block stopAt : Nat)

/-- The `for` of `Batch::read`: block `i` and the `left` blocks from it on.
The flag is up from the `stopAt`-th look on. -/
def blockLoop : Nat → Nat → Progress → Progress × Option Fault
  | 0, _, p => (p, none)
  | left + 1, i, p =>
      if stopAt ≤ i then (p, none)
      else
        match fileRead disk os block block p.buffer p.io with
        | (io, some fault) => ({ p with io := io }, some fault)
        | (io, none) =>
            blockLoop left (i + 1)
              ⟨finishedUntil batch (p.fileOffset + block) .success p.run, io, p.fileOffset + block,
                wrap (p.buffer + block), some (p.fileOffset + block)⟩

/-- The last, partial block. -/
def lastBlock (look : Nat) (p : Progress) : Progress × Option Fault :=
  if p.fileOffset < batch.range.stop ∧ ¬ stopAt ≤ look then
    match fileRead disk os block (batch.range.stop - p.fileOffset) p.buffer p.io with
    | (io, some fault) => ({ p with io := io }, some fault)
    | (io, none) =>
        ({ p with
          run := finishedUntil batch batch.range.stop .success p.run
          io := io
          reached := some batch.range.stop }, none)
  else (p, none)

/-- The end of `Batch::read`: the tasks of an empty range, and a stop. -/
def finishRead (look : Nat) (p : Progress) : Progress × ResponseCode :=
  (if stopAt ≤ look + 1 then p
    else
      { p with
        run := finishedUntil batch batch.range.stop .success p.run
        reached := some batch.range.stop },
    if stopAt ≤ look + 2 then .finishedError else .success)

/-- The locals at the start. -/
def startRead (memory : Nat → UInt8) : Progress :=
  ⟨startRun batch, ⟨memory, batch.range.start, 0⟩, batch.range.start,
    (batch.tasks.head?.map Task.destination).getD 0, none⟩

/-- `Batch::read`, and the code of what it throws. -/
def readFile (memory : Nat → UInt8) : Progress × ResponseCode :=
  if batch.tasks.isEmpty then (startRead batch memory, .success)
  else if disk.seeks = false then (startRead batch memory, .eofError)
  else
    let numChunks := batch.range.size / block
    match blockLoop batch disk os block stopAt numChunks 0 (startRead batch memory) with
    | (p, some fault) => (p, fault.code)
    | (p, none) =>
        match lastBlock batch disk os block stopAt numChunks p with
        | (p, some fault) => (p, fault.code)
        | (p, none) => finishRead batch stopAt numChunks p

end Read

/-- What is left of an execution: the batch, the code caught, the memory, and
the end of the blocks read in full. -/
structure Outcome where
  run : BatchRun
  code : ResponseCode
  memory : Nat → UInt8
  reached : Option Nat

/-- The `try` of `Batch::execute`. -/
def tryFile (config : Config) (disk : Disk) (os : Os) (stopAt : Nat) (batch : Batch)
    (memory : Nat → UInt8) : Progress × ResponseCode :=
  if batch.isObjectStorage then (startRead batch memory, .unknownError)
  else if disk.opens = false then (startRead batch memory, .fileAccessError)
  else readFile batch disk os config.fsBlockBytesize stopAt memory

/-- `Batch::execute`. -/
def executeFile (config : Config) (disk : Disk) (os : Os) (stopAt : Nat) (batch : Batch)
    (memory : Nat → UInt8) : Outcome :=
  let (p, code) := tryFile config disk os stopAt batch memory
  ⟨p.run.handleError code, code, p.io.memory, p.reached⟩

/-! ## §2. Every execution is one with an oracle. -/

theorem blockLoop_refines (batch : Batch) (disk : Disk) (os : Os) (block stopAt : Nat)
    (opens seeks : Option Fault) (left : Nat) :
    ∀ (i : Nat) (p : Progress), ∃ faults : Nat → Option Fault, ∀ reads : Nat → Option Fault,
      (∀ j, i ≤ j → j < i + left → reads j = faults j) →
      readLoop batch block ⟨opens, seeks, reads, stopAt⟩ left i p.fileOffset p.run
        = ((blockLoop batch disk os block stopAt left i p).1.run,
            match (blockLoop batch disk os block stopAt left i p).2 with
            | some fault => .error fault.code
            | none => .ok (blockLoop batch disk os block stopAt left i p).1.fileOffset) := by
  induction left with
  | zero =>
      intro i p
      exact ⟨fun _ => none, fun _ _ => rfl⟩
  | succ left ih =>
      intro i p
      unfold blockLoop
      by_cases hstop : stopAt ≤ i
      · -- the flag is up: no read is made, and any outcomes would do
        refine ⟨fun _ => none, fun reads _ => ?_⟩
        rw [readLoop, if_pos hstop, if_pos (by simpa [Reads.stopped] using hstop)]
      · cases hread : fileRead disk os block block p.buffer p.io with
        | mk io outcome =>
            cases outcome with
            | some fault =>
                -- read `i` fails with the fault the device run met, and it is the last
                refine ⟨fun _ => some fault, fun reads hreads => ?_⟩
                have hi : reads i = some fault := hreads i (Nat.le_refl i) (by omega)
                rw [readLoop, if_neg (by simpa [Reads.stopped] using hstop), if_neg hstop]
                simp only [hi]
            | none =>
                -- read `i` succeeds, and the outcomes of the later ones are those of the rest of
                -- the loop
                obtain ⟨faults, hfaults⟩ := ih (i + 1)
                  ⟨finishedUntil batch (p.fileOffset + block) .success p.run, io,
                    p.fileOffset + block, wrap (p.buffer + block), some (p.fileOffset + block)⟩
                refine ⟨Function.update faults i none, fun reads hreads => ?_⟩
                have hi : reads i = none := by
                  rw [hreads i (Nat.le_refl i) (by omega), Function.update_self]
                rw [readLoop, if_neg (by simpa [Reads.stopped] using hstop), if_neg hstop]
                simp only [hi]
                refine hfaults reads (fun j hj hlt => ?_)
                rw [hreads j (by omega) (by omega), Function.update_of_ne (by omega)]

/-- The rest of `Batch::read`, against its oracle. -/
theorem tail_refines (batch : Batch) (disk : Disk) (os : Os) (block stopAt : Nat) (o : Reads)
    (hstop : o.stopAt = stopAt) (look : Nat) (p : Progress)
    (hread : o.reads look = (lastBlock batch disk os block stopAt look p).2) :
    readTail batch o look p.fileOffset p.run
      = match lastBlock batch disk os block stopAt look p with
        | (p, some fault) => (p.run, .error fault.code)
        | (p, none) => ((finishRead batch stopAt look p).1.run,
            if (finishRead batch stopAt look p).2 = .success then .ok ()
            else .error (finishRead batch stopAt look p).2) := by
  -- the looks at the flag after the last block are the same two on both sides
  have hfinish : ∀ q : Progress,
      ((if o.stopped (look + 1) = true then q.run
          else finishedUntil batch batch.range.stop .success q.run,
        if o.stopped (look + 2) = true then (.error .finishedError : Except ResponseCode Unit)
          else .ok ()) : BatchRun × Except ResponseCode Unit)
      = ((finishRead batch stopAt look q).1.run,
          if (finishRead batch stopAt look q).2 = .success then .ok ()
          else .error (finishRead batch stopAt look q).2) := by
    intro q
    unfold finishRead Reads.stopped
    rw [hstop]
    by_cases h₁ : stopAt ≤ look + 1
    · have h₂ : stopAt ≤ look + 2 := by omega
      simp [h₁, h₂]
    · by_cases h₂ : stopAt ≤ look + 2
      · simp [h₁, h₂]
      · simp [h₁, h₂]
  unfold readTail
  by_cases hpartial : p.fileOffset < batch.range.stop ∧ ¬ stopAt ≤ look
  · have hbool : (decide (p.fileOffset < batch.range.stop) && !o.stopped look) = true := by
      simpa [Reads.stopped, hstop] using hpartial
    simp only [hbool, if_true]
    unfold lastBlock at hread ⊢
    rw [if_pos hpartial] at hread ⊢
    cases hfile : fileRead disk os block (batch.range.stop - p.fileOffset) p.buffer p.io with
    | mk io outcome =>
        rw [hfile] at hread
        cases outcome with
        | some fault => simp only [hread]
        | none =>
            simp only [hread]
            refine Eq.trans ?_ (hfinish { p with
              run := finishedUntil batch batch.range.stop .success p.run
              io := io
              reached := some batch.range.stop })
            split <;> rfl
  · -- no last block: nothing is read
    have hbool : (decide (p.fileOffset < batch.range.stop) && !o.stopped look) = false := by
      simpa [Reads.stopped, hstop] using hpartial
    simp only [hbool, Bool.false_eq_true, if_false]
    unfold lastBlock
    rw [if_neg hpartial]
    refine Eq.trans ?_ (hfinish p)
    split <;> rfl

theorem Fault.code_ne (fault : Fault) : fault.code ≠ .success := by
  cases fault <;> simp [Fault.code]

/-- `Batch::read`, against its oracle. -/
theorem readFile_refines (config : Config) (batch : Batch) (disk : Disk) (os : Os) (stopAt : Nat)
    (memory : Nat → UInt8) (o : Reads) (hstop : o.stopAt = stopAt)
    (hseeks : o.seeks = if disk.seeks = false then some .eof else none)
    (hloop : readLoop batch config.fsBlockBytesize o
        (batch.range.size / config.fsBlockBytesize) 0 batch.range.start (startRun batch)
      = ((blockLoop batch disk os config.fsBlockBytesize stopAt
            (batch.range.size / config.fsBlockBytesize) 0 (startRead batch memory)).1.run,
          match (blockLoop batch disk os config.fsBlockBytesize stopAt
            (batch.range.size / config.fsBlockBytesize) 0 (startRead batch memory)).2 with
          | some fault => .error fault.code
          | none => .ok (blockLoop batch disk os config.fsBlockBytesize stopAt
            (batch.range.size / config.fsBlockBytesize) 0 (startRead batch memory)).1.fileOffset))
    (hlast : o.reads (batch.range.size / config.fsBlockBytesize)
      = (lastBlock batch disk os config.fsBlockBytesize stopAt
          (batch.range.size / config.fsBlockBytesize)
          (blockLoop batch disk os config.fsBlockBytesize stopAt
            (batch.range.size / config.fsBlockBytesize) 0 (startRead batch memory)).1).2) :
    readBatch config o batch (startRun batch)
      = ((readFile batch disk os config.fsBlockBytesize stopAt memory).1.run,
          if (readFile batch disk os config.fsBlockBytesize stopAt memory).2 = .success then .ok ()
          else .error (readFile batch disk os config.fsBlockBytesize stopAt memory).2) := by
  unfold readBatch readFile
  by_cases hempty : batch.tasks.isEmpty = true
  · rw [if_pos hempty, if_pos hempty]
    rfl
  · rw [if_neg hempty, if_neg hempty, hseeks]
    by_cases hseek : disk.seeks = false
    · rw [if_pos hseek, if_pos hseek]
      rfl
    · rw [if_neg hseek, if_neg hseek]
      simp only
      rw [hloop]
      generalize blockLoop batch disk os config.fsBlockBytesize stopAt
        (batch.range.size / config.fsBlockBytesize) 0 (startRead batch memory) = looped at hlast
      obtain ⟨p, outcome⟩ := looped
      cases outcome with
      -- the loop ended the read
      | some fault => simp only [if_neg (Fault.code_ne fault)]
      | none =>
          simp only
          rw [tail_refines batch disk os config.fsBlockBytesize stopAt o hstop _ p hlast]
          generalize lastBlock batch disk os config.fsBlockBytesize stopAt
            (batch.range.size / config.fsBlockBytesize) p = last
          obtain ⟨q, outcome⟩ := last
          cases outcome with
          | some fault => simp only [if_neg (Fault.code_ne fault)]
          | none => rfl

/-- **Reading a file refines the oracle's execution.** -/
theorem executeFile_refines (config : Config) (disk : Disk) (os : Os) (stopAt : Nat)
    (batch : Batch) (memory : Nat → UInt8) :
    ∃ o : Reads, (executeFile config disk os stopAt batch memory).run = execute config o batch := by
  obtain ⟨faults, hfaults⟩ := blockLoop_refines batch disk os config.fsBlockBytesize stopAt
    (if disk.opens = false then some .access else none)
    (if disk.seeks = false then some .eof else none)
    (batch.range.size / config.fsBlockBytesize) 0 (startRead batch memory)
  -- the faults of the loop, and then the one of the partial block
  refine ⟨⟨if disk.opens = false then some .access else none,
    if disk.seeks = false then some .eof else none,
    fun j => if j < batch.range.size / config.fsBlockBytesize then faults j
      else (lastBlock batch disk os config.fsBlockBytesize stopAt
        (batch.range.size / config.fsBlockBytesize)
        (blockLoop batch disk os config.fsBlockBytesize stopAt
          (batch.range.size / config.fsBlockBytesize) 0 (startRead batch memory)).1).2,
    stopAt⟩, ?_⟩
  have hread := readFile_refines config batch disk os stopAt memory
    ⟨if disk.opens = false then some .access else none,
      if disk.seeks = false then some .eof else none,
      fun j => if j < batch.range.size / config.fsBlockBytesize then faults j
        else (lastBlock batch disk os config.fsBlockBytesize stopAt
          (batch.range.size / config.fsBlockBytesize)
          (blockLoop batch disk os config.fsBlockBytesize stopAt
            (batch.range.size / config.fsBlockBytesize) 0 (startRead batch memory)).1).2,
      stopAt⟩ rfl rfl
    (hfaults _ (fun j _ hlt => if_pos (by omega))) (if_neg (by omega))
  unfold executeFile execute tryFile tryExecute
  by_cases hobject : batch.isObjectStorage = true
  · rw [if_pos hobject, if_pos hobject]
    rfl
  · rw [if_neg hobject, if_neg hobject]
    by_cases hopens : disk.opens = false
    · simp only [if_pos hopens]
      rfl
    · simp only [if_neg hopens] at hread ⊢
      rw [hread]
      generalize readFile batch disk os config.fsBlockBytesize stopAt memory = result
      obtain ⟨p, code⟩ := result
      by_cases hcode : code = .success
      · simp only [if_pos hcode]
        rw [hcode]
      · simp only [if_neg hcode]

/-! ## §3. Contiguous batches. -/

/-- **A contiguous sequence of tasks**: each begins where the one before it
ends, in the file and in memory, and no end wraps. -/
structure Contiguous (batch : Batch) : Prop where
  adjoins : batch.tasks.IsChain Task.Adjoins
  ended : ∀ task ∈ batch.tasks,
    task.info.stop = task.info.offset + task.info.bytesize ∧ task.info.stop < 2 ^ 64
  range_eq : BatchRange.new batch.tasks = .ok batch.range

/-- Where the batch writes to. -/
def bufferOf (batch : Batch) : Nat := (batch.tasks.head?.map Task.destination).getD 0

/-- The tasks of a chain, seen from its first. -/
theorem chain_placed {first : Task} {tasks : List Task} :
    (first :: tasks).IsChain Task.Adjoins →
      (∀ u ∈ first :: tasks, u.info.stop = u.info.offset + u.info.bytesize) →
      (∀ u ∈ first :: tasks, first.info.offset ≤ u.info.offset ∧
        wrap u.destination = wrap (first.destination + (u.info.offset - first.info.offset))) ∧
      (first :: tasks).Pairwise (fun a b => a.info.stop ≤ b.info.stop) ∧
      ∀ last ∈ (first :: tasks).getLast?,
        (∀ u ∈ first :: tasks, u.info.stop ≤ last.info.stop) ∧
        ∀ x, first.info.offset ≤ x → x < last.info.stop →
          ∃ u ∈ first :: tasks, u.info.offset ≤ x ∧ x < u.info.offset + u.info.bytesize := by
  induction tasks generalizing first with
  | nil =>
      intro _ hended
      have hfirst := hended first (by simp)
      refine ⟨fun u hu => ?_, List.pairwise_singleton _ _, fun last hlast => ?_⟩
      · obtain rfl := List.mem_singleton.mp hu
        exact ⟨Nat.le_refl _, by simp⟩
      · obtain rfl : first = last := by simpa using hlast
        refine ⟨fun u hu => ?_, fun x hx hlt => ⟨first, by simp, hx, by omega⟩⟩
        rw [List.mem_singleton.mp hu]
  | cons next tasks ih =>
      intro hchain hended
      rw [List.isChain_cons_cons] at hchain
      obtain ⟨⟨hoffset, hdestination⟩, hrest⟩ := hchain
      obtain ⟨hplaced, hsorted, hlast⟩ := ih hrest (fun u hu => hended u (List.mem_cons_of_mem _ hu))
      have hfirst := hended first (by simp)
      -- the first task ends where the second starts, so no later one ends before it
      have hstops : ∀ u ∈ next :: tasks, first.info.stop ≤ u.info.stop := by
        intro u hu
        have := (hplaced u hu).1
        have := hended u (List.mem_cons_of_mem _ hu)
        omega
      refine ⟨fun u hu => ?_, List.pairwise_cons.mpr ⟨hstops, hsorted⟩, fun last hmem => ?_⟩
      · rcases List.mem_cons.mp hu with rfl | hu
        · exact ⟨Nat.le_refl _, by simp⟩
        · obtain ⟨hle, heq⟩ := hplaced u hu
          refine ⟨by omega, ?_⟩
          rw [heq, hdestination, wrap_wrap_add]
          congr 1
          omega
      · rw [List.getLast?_cons_cons] at hmem
        obtain ⟨hle, hcover⟩ := hlast last hmem
        refine ⟨fun u hu => ?_, fun x hx hlt => ?_⟩
        · rcases List.mem_cons.mp hu with rfl | hu
          · exact hstops last (List.mem_of_getLast? hmem)
          · exact hle u hu
        · -- a byte of the first task, or of the rest of the chain
          by_cases hin : x < first.info.offset + first.info.bytesize
          · exact ⟨first, by simp, hx, hin⟩
          · obtain ⟨u, hu, hux⟩ := hcover x (by omega) hlt
            exact ⟨u, List.mem_cons_of_mem _ hu, hux⟩

/-- **What a contiguous batch is like**: its tasks lie in its range and land
as far into its buffer, their ends ascend, and they cover the range. -/
structure LaidOut (batch : Batch) : Prop where
  size_lt : batch.range.size < 2 ^ 64
  task : ∀ task ∈ batch.tasks, batch.range.start ≤ task.info.offset ∧
    task.info.stop = task.info.offset + task.info.bytesize ∧
    task.info.stop ≤ batch.range.stop ∧
    wrap task.destination = wrap (bufferOf batch + (task.info.offset - batch.range.start))
  sorted : batch.tasks.Pairwise (fun a b => a.info.stop ≤ b.info.stop)
  covered : ∀ x, batch.range.start ≤ x → x < batch.range.stop →
    ∃ task ∈ batch.tasks, task.info.offset ≤ x ∧ x < task.info.offset + task.info.bytesize

theorem batchRange_ends {tasks : List Task} {range : BatchRange}
    (h : BatchRange.new tasks = .ok range) :
    range.start = (tasks.head?.map (·.info.offset)).getD 0 ∧
      range.stop = (tasks.getLast?.map (·.info.stop)).getD 0 := by
  unfold BatchRange.new at h
  simp only at h
  split at h
  · rw [← Except.ok.inj h]
    exact ⟨rfl, rfl⟩
  · simp at h

theorem Contiguous.laidOut {batch : Batch} (h : Contiguous batch) : LaidOut batch := by
  obtain ⟨hstart, hstop⟩ := batchRange_ends h.range_eq
  have hchain := h.adjoins
  have hended := h.ended
  cases htasks : batch.tasks with
  | nil =>
      rw [htasks] at hstop
      have hstop : batch.range.stop = 0 := hstop
      refine ⟨?_, by simp [htasks], by simp [htasks], fun x _ hx => by omega⟩
      rw [BatchRange.size, hstop]
      omega
  | cons first tasks =>
      obtain ⟨last, hlast⟩ : ∃ last, (first :: tasks).getLast? = some last :=
        ⟨_, List.getLast?_eq_some_getLast (by simp)⟩
      rw [htasks] at hstart hstop hchain hended
      rw [hlast] at hstop
      have hstart : batch.range.start = first.info.offset := hstart
      have hstop : batch.range.stop = last.info.stop := hstop
      have hbuffer : bufferOf batch = first.destination := by
        rw [bufferOf, htasks]
        rfl
      obtain ⟨hplaced, hsorted, hend⟩ := chain_placed hchain (fun u hu => (hended u hu).1)
      obtain ⟨hle, hcover⟩ := hend last hlast
      refine ⟨?_, ?_, by rw [htasks]; exact hsorted, ?_⟩
      · have := (hended last (List.mem_of_getLast? hlast)).2
        rw [BatchRange.size, hstop]
        omega
      · rw [htasks, hstart, hstop, hbuffer]
        exact fun u hu => ⟨(hplaced u hu).1, (hended u hu).1, hle u hu, (hplaced u hu).2⟩
      · rw [htasks, hstart, hstop]
        exact hcover

/-! ## §4. The tasks reported. -/

/-- `finished_until` finishes the tasks in order, up to the first that ends
later. -/
theorem finishedUntilLoop_front {fileOffset : Nat} {ret : ResponseCode} (tasks : List Task) :
    ∀ (i : Nat) (run : BatchRun), i + tasks.length = run.finished.length →
      (∀ k, run.finished[k]? = some true ↔ k < i) →
      tasks.Pairwise (fun a b => a.info.stop ≤ b.info.stop) →
      i ≤ (finishedUntilLoop fileOffset ret tasks i run).unfinished ∧
      (∀ k, (finishedUntilLoop fileOffset ret tasks i run).finished[k]? = some true ↔
        k < (finishedUntilLoop fileOffset ret tasks i run).unfinished) ∧
      (∀ f ∈ (finishedUntilLoop fileOffset ret tasks i run).log, f ∈ run.log ∨ f.ret = ret) ∧
      ∀ j task, tasks[j]? = some task →
        (i + j < (finishedUntilLoop fileOffset ret tasks i run).unfinished ↔
          task.info.stop ≤ fileOffset) := by
  induction tasks with
  | nil =>
      intro i run hlen hfront _
      exact ⟨Nat.le_refl _, hfront, fun f hf => .inl hf, fun j task hj => by simp at hj⟩
  | cons task tasks ih =>
      intro i run hlen hfront hsorted
      rw [List.length_cons] at hlen
      obtain ⟨hhead, hrest⟩ := List.pairwise_cons.mp hsorted
      unfold finishedUntilLoop
      by_cases hlate : fileOffset < task.info.stop
      · -- this task ends later, and so do all after it
        rw [if_pos hlate]
        refine ⟨Nat.le_refl _, hfront, fun f hf => .inl hf, fun j u hj => ?_⟩
        have hstop : task.info.stop ≤ u.info.stop := by
          rcases List.mem_cons.mp (List.mem_of_getElem? hj) with rfl | hu
          · exact Nat.le_refl _
          · exact hhead u hu
        show i + j < i ↔ _
        omega
      · rw [if_neg hlate]
        -- the first open request is this task's own
        have hopen : run.finished[i]? = some false := by
          have hlt : i < run.finished.length := by omega
          rw [List.getElem?_eq_getElem hlt, Option.some.injEq]
          have hnot := (hfront i).not.mpr (Nat.lt_irrefl i)
          rw [List.getElem?_eq_getElem hlt, Option.some.injEq] at hnot
          simpa using hnot
        obtain ⟨hle, hfront', hlog, hedge⟩ := ih (i + 1) (run.finishedRequest i ret)
          (by rw [finishedRequest_length]; omega)
          (fun k => by
            by_cases hk : k = i
            · subst hk
              simp [finishedRequest_self (show k < run.finished.length by omega)]
            · rw [finishedRequest_other hk, hfront k]
              omega)
          hrest
        refine ⟨by omega, hfront', fun f hf => ?_, fun j u hj => ?_⟩
        · rcases hlog f hf with hf | hf
          · rcases finishedRequest_log hf with hf | rfl
            · exact .inl hf
            · exact .inr rfl
          · exact .inr hf
        · cases j with
          | zero =>
              obtain rfl : task = u := by simpa using hj
              refine ⟨fun _ => by omega, fun _ => by omega⟩
          | succ j =>
              rw [List.getElem?_cons_succ] at hj
              rw [← hedge j u hj]
              omega

/-- Exactly the tasks that end within what was reached are finished, with
Success. -/
structure Upto (batch : Batch) (run : BatchRun) (reached : Option Nat) : Prop where
  going : Going batch run
  front : ∀ k, run.finished[k]? = some true ↔ k < run.unfinished
  success : ∀ f ∈ run.log, f.ret = .success
  edge : ∀ k task, batch.tasks[k]? = some task →
    (k < run.unfinished ↔ ∃ e, reached = some e ∧ task.info.stop ≤ e)

theorem upto_start (batch : Batch) : Upto batch (startRun batch) none where
  going := going_start batch
  front := by
    intro k
    simp [startRun, List.getElem?_replicate]
  success := by simp [startRun]
  edge := by
    intro k task _
    simp [startRun]

/-- **Reporting up to a later offset.** -/
theorem Upto.finishedUntil {batch : Batch} {run : BatchRun} {reached : Option Nat}
    (h : Upto batch run reached)
    (hsorted : batch.tasks.Pairwise (fun a b => a.info.stop ≤ b.info.stop)) {fileOffset : Nat}
    (hlater : ∀ e, reached = some e → e ≤ fileOffset) :
    Upto batch (finishedUntil batch fileOffset .success run) (some fileOffset) := by
  have hlen := h.going.length_eq
  have hle := h.going.reported.1
  obtain ⟨hgrows, hfront, hlog, hedge⟩ := @finishedUntilLoop_front
    fileOffset .success (batch.tasks.drop run.unfinished) run.unfinished run
    (by rw [List.length_drop]; omega) h.front (hsorted.sublist (List.drop_sublist _ _))
  refine ⟨h.going.finishedUntil _ _, hfront, fun f hf => ?_, fun k task hk => ?_⟩
  · rcases hlog f hf with hf | hf
    · exact h.success f hf
    · exact hf
  · simp only [Option.some.injEq, exists_eq_left']
    by_cases hold : k < run.unfinished
    · -- reported before, and ends within what was reached then
      obtain ⟨e, he, hstop⟩ := (h.edge k task hk).mp hold
      have := hlater e he
      refine ⟨fun _ => by omega, fun _ => ?_⟩
      show k < (finishedUntilLoop _ _ _ _ _).unfinished
      omega
    · have hget : (batch.tasks.drop run.unfinished)[k - run.unfinished]? = some task := by
        rw [List.getElem?_drop, show run.unfinished + (k - run.unfinished) = k by omega]
        exact hk
      have := hedge _ task hget
      rw [show run.unfinished + (k - run.unfinished) = k by omega] at this
      exact this

/-! ## §5. What has arrived. -/

section Served

variable (batch : Batch) (disk : Disk) (memory : Nat → UInt8)

/-- The descriptor after the seek. -/
def sought : Io := ⟨memory, batch.range.start, 0⟩

/-- **Wherever the loop stands**: a front part of the range has arrived, and
the tasks that end within the blocks read in full are finished. -/
structure Served (p : Progress) : Prop where
  upto : Upto batch p.run p.reached
  arrived : ∃ count, Arrived disk (sought batch memory) p.io (bufferOf batch) count ∧
    count ≤ batch.range.size ∧ ∀ e, p.reached = some e → e ≤ batch.range.start + count

/-- Between two blocks: everything before `fileOffset` has arrived. -/
structure Looping (p : Progress) : Prop where
  upto : Upto batch p.run p.reached
  start_le : batch.range.start ≤ p.fileOffset
  le_stop : p.fileOffset ≤ batch.range.stop
  arrived : Arrived disk (sought batch memory) p.io (bufferOf batch)
    (p.fileOffset - batch.range.start)
  buffer : p.buffer % 2 ^ 64 = (bufferOf batch + (p.fileOffset - batch.range.start)) % 2 ^ 64
  reached : ∀ e, p.reached = some e → e ≤ p.fileOffset

variable {batch disk memory}

theorem Looping.served {p : Progress} (h : Looping batch disk memory p) :
    Served batch disk memory p := by
  have h₁ := h.start_le
  have h₂ := h.le_stop
  refine ⟨h.upto, _, h.arrived, ?_, fun e he => ?_⟩
  · rw [BatchRange.size]
    omega
  · have := h.reached e he
    omega

theorem looping_start : Looping batch disk memory (startRead batch memory) where
  upto := upto_start batch
  start_le := Nat.le_refl _
  le_stop := batch.range.start_le
  arrived := by
    rw [show (startRead batch memory).fileOffset = batch.range.start from rfl, Nat.sub_self]
    exact .none rfl rfl
  buffer := by
    rw [show (startRead batch memory).fileOffset = batch.range.start from rfl, Nat.sub_self]
    rfl
  reached := by simp [startRead]

/-- **One read of the loop.** -/
theorem Looping.read {p : Progress} (h : Looping batch disk memory p) (os : Os) {block : Nat}
    (hblock : 1 ≤ block) (hsorted : batch.tasks.Pairwise (fun a b => a.info.stop ≤ b.info.stop))
    {bytesize : Nat} (hfits : p.fileOffset + bytesize ≤ batch.range.stop) :
    Served batch disk memory
        { p with io := (fileRead disk os block bytesize p.buffer p.io).1 } ∧
      ((fileRead disk os block bytesize p.buffer p.io).2 = none →
        Looping batch disk memory
          ⟨finishedUntil batch (p.fileOffset + bytesize) .success p.run,
            (fileRead disk os block bytesize p.buffer p.io).1, p.fileOffset + bytesize,
            wrap (p.buffer + bytesize), some (p.fileOffset + bytesize)⟩) := by
  obtain ⟨count, hmore, hle, hall⟩ := fileRead_spec disk os hblock bytesize p.buffer p.io
  have hstart := h.start_le
  have hboth := h.arrived.trans (hmore.congr h.buffer)
  refine ⟨⟨h.upto, _, hboth, ?_, fun e he => ?_⟩, fun hnone => ?_⟩
  · rw [BatchRange.size]
    omega
  · have := h.reached e he
    omega
  · -- all bytes of the block arrived, so the requests up to its end are served
    obtain rfl := hall hnone
    have hsub : p.fileOffset + count - batch.range.start
        = p.fileOffset - batch.range.start + count := by omega
    refine ⟨h.upto.finishedUntil hsorted (fun e he => ?_), by show _ ≤ p.fileOffset + count; omega,
      hfits, ?_, ?_, fun e he => ?_⟩
    · have := h.reached e he
      omega
    · show Arrived _ _ _ _ (p.fileOffset + count - batch.range.start)
      rw [hsub]
      exact hboth
    · show wrap (p.buffer + count) % 2 ^ 64
        = (bufferOf batch + (p.fileOffset + count - batch.range.start)) % 2 ^ 64
      have hbuffer := h.buffer
      unfold wrap
      omega
    · obtain rfl := Option.some.inj he
      exact Nat.le_refl _

/-- **The loop over the blocks.** -/
theorem blockLoop_served (os : Os) {block : Nat} (hblock : 1 ≤ block) (stopAt : Nat)
    (hsorted : batch.tasks.Pairwise (fun a b => a.info.stop ≤ b.info.stop)) (left : Nat) :
    ∀ (i : Nat) (p : Progress), Looping batch disk memory p →
      p.fileOffset + left * block ≤ batch.range.stop →
      Served batch disk memory (blockLoop batch disk os block stopAt left i p).1 ∧
        ((blockLoop batch disk os block stopAt left i p).2 = none →
          Looping batch disk memory (blockLoop batch disk os block stopAt left i p).1) := by
  induction left with
  | zero => exact fun i p h _ => ⟨h.served, fun _ => h⟩
  | succ left ih =>
      intro i p h hfits
      rw [Nat.succ_mul] at hfits
      unfold blockLoop
      by_cases hstop : stopAt ≤ i
      · rw [if_pos hstop]
        exact ⟨h.served, fun _ => h⟩
      · rw [if_neg hstop]
        obtain ⟨hserved, hnext⟩ := h.read os hblock hsorted
          (show p.fileOffset + block ≤ batch.range.stop by omega)
        cases hread : fileRead disk os block block p.buffer p.io with
        | mk io outcome =>
            rw [hread] at hserved hnext
            cases outcome with
            | some fault => exact ⟨hserved, by simp⟩
            | none => exact ih (i + 1) _ (hnext rfl) (by show p.fileOffset + block + _ ≤ _; omega)

/-- **The partial block**: without a stop, everything has arrived after it. -/
theorem lastBlock_served (os : Os) {block : Nat} (hblock : 1 ≤ block) (stopAt : Nat)
    (hsorted : batch.tasks.Pairwise (fun a b => a.info.stop ≤ b.info.stop)) (look : Nat)
    {p : Progress} (h : Looping batch disk memory p) :
    Served batch disk memory (lastBlock batch disk os block stopAt look p).1 ∧
      ((lastBlock batch disk os block stopAt look p).2 = none → ¬ stopAt ≤ look →
        Arrived disk (sought batch memory) (lastBlock batch disk os block stopAt look p).1.io
          (bufferOf batch) batch.range.size) := by
  have hstart := h.start_le
  have hle := h.le_stop
  unfold lastBlock
  by_cases hpartial : p.fileOffset < batch.range.stop ∧ ¬ stopAt ≤ look
  · rw [if_pos hpartial]
    have hto : p.fileOffset + (batch.range.stop - p.fileOffset) = batch.range.stop := by omega
    obtain ⟨hserved, hnext⟩ := h.read os hblock hsorted (Nat.le_of_eq hto)
    rw [hto] at hnext
    cases hread : fileRead disk os block (batch.range.stop - p.fileOffset) p.buffer p.io with
    | mk io outcome =>
        rw [hread] at hserved hnext
        cases outcome with
        | some fault => exact ⟨hserved, by simp⟩
        | none =>
            have hfull := (hnext rfl).served
            exact ⟨⟨hfull.upto, hfull.arrived⟩, fun _ _ => (hnext rfl).arrived⟩
  · rw [if_neg hpartial]
    refine ⟨h.served, fun _ hrunning => ?_⟩
    have harrived := h.arrived
    rwa [show p.fileOffset - batch.range.start = batch.range.size by
      rw [BatchRange.size]; omega] at harrived

/-- **The end of `Batch::read`.** -/
theorem finishRead_served (stopAt : Nat)
    (hsorted : batch.tasks.Pairwise (fun a b => a.info.stop ≤ b.info.stop)) (look : Nat)
    {p : Progress} (h : Served batch disk memory p)
    (hfull : ¬ stopAt ≤ look →
      Arrived disk (sought batch memory) p.io (bufferOf batch) batch.range.size) :
    Served batch disk memory (finishRead batch stopAt look p).1 ∧
      ((finishRead batch stopAt look p).2 = .success →
        (finishRead batch stopAt look p).1.reached = some batch.range.stop) := by
  have hsize : batch.range.start + batch.range.size = batch.range.stop := by
    have := batch.range.start_le
    rw [BatchRange.size]
    omega
  unfold finishRead
  by_cases hstop : stopAt ≤ look + 1
  · rw [if_pos hstop, if_pos (by omega)]
    exact ⟨h, by simp⟩
  · rw [if_neg hstop]
    refine ⟨⟨h.upto.finishedUntil hsorted (fun e he => ?_), batch.range.size, hfull (by omega),
      Nat.le_refl _, fun e he => ?_⟩, fun _ => rfl⟩
    · obtain ⟨count, -, hle, hreached⟩ := h.arrived
      have := hreached e he
      omega
    · obtain rfl := Option.some.inj he
      omega

/-- **The whole of it.** -/
theorem tryFile_served (config : Config) (hblock : 1 ≤ config.fsBlockBytesize) (os : Os)
    (stopAt : Nat) (hsorted : batch.tasks.Pairwise (fun a b => a.info.stop ≤ b.info.stop)) :
    Served batch disk memory (tryFile config disk os stopAt batch memory).1 ∧
      ((tryFile config disk os stopAt batch memory).2 = .success → batch.tasks = [] ∨
        (tryFile config disk os stopAt batch memory).1.reached = some batch.range.stop) := by
  have hstart : Looping batch disk memory (startRead batch memory) := looping_start
  unfold tryFile
  by_cases hobject : batch.isObjectStorage = true
  · rw [if_pos hobject]
    exact ⟨hstart.served, by simp⟩
  · rw [if_neg hobject]
    by_cases hopens : disk.opens = false
    · rw [if_pos hopens]
      exact ⟨hstart.served, by simp⟩
    · rw [if_neg hopens]
      unfold readFile
      by_cases hempty : batch.tasks.isEmpty = true
      · rw [if_pos hempty]
        exact ⟨hstart.served, fun _ => .inl (List.isEmpty_iff.mp hempty)⟩
      · rw [if_neg hempty]
        by_cases hseeks : disk.seeks = false
        · rw [if_pos hseeks]
          exact ⟨hstart.served, by simp⟩
        · rw [if_neg hseeks]
          simp only
          have hfits : (startRead batch memory).fileOffset
              + batch.range.size / config.fsBlockBytesize * config.fsBlockBytesize
                ≤ batch.range.stop := by
            have h₁ := Nat.div_mul_le_self batch.range.size config.fsBlockBytesize
            have h₂ := batch.range.start_le
            have h₃ : batch.range.size = batch.range.stop - batch.range.start := rfl
            show batch.range.start + _ ≤ _
            omega
          obtain ⟨hserved, hloop⟩ := blockLoop_served os hblock stopAt hsorted
            (batch.range.size / config.fsBlockBytesize) 0 _ hstart hfits
          generalize blockLoop batch disk os config.fsBlockBytesize stopAt
            (batch.range.size / config.fsBlockBytesize) 0 (startRead batch memory) = looped
            at hserved hloop
          obtain ⟨p, outcome⟩ := looped
          cases outcome with
          | some fault => exact ⟨hserved, fun h => absurd h (Fault.code_ne fault)⟩
          | none =>
              obtain ⟨hserved', hlast⟩ := lastBlock_served os hblock stopAt hsorted
                (batch.range.size / config.fsBlockBytesize) (hloop rfl)
              simp only
              generalize lastBlock batch disk os config.fsBlockBytesize stopAt
                (batch.range.size / config.fsBlockBytesize) p = last at hserved' hlast
              obtain ⟨q, outcome⟩ := last
              cases outcome with
              | some fault => exact ⟨hserved', fun h => absurd h (Fault.code_ne fault)⟩
              | none =>
                  obtain ⟨hdone, hreached⟩ := finishRead_served stopAt hsorted
                    (batch.range.size / config.fsBlockBytesize) hserved' (hlast rfl)
                  exact ⟨hdone, fun h => .inr (hreached h)⟩

end Served

/-! ## §6. Executions nothing disturbs. -/

/-- Nothing fails, and no stop is observed. -/
structure Undisturbed (config : Config) (disk : Disk) (os : Os) (stopAt : Nat) (batch : Batch) :
    Prop where
  file : batch.isObjectStorage = false
  opens : disk.opens = true
  seeks : disk.seeks = true
  reads : ∀ i, os.next i ≠ .failed
  long : batch.range.size = 0 ∨ batch.range.stop ≤ disk.content.length
  running : batch.range.size / config.fsBlockBytesize + 2 < stopAt

/-- The blocks are read when no call fails and the file is long enough. -/
theorem blockLoop_ok {batch : Batch} {disk : Disk} {memory : Nat → UInt8} {os : Os} {block : Nat}
    (hblock : 1 ≤ block) {stopAt : Nat} (hos : ∀ i, os.next i ≠ .failed)
    (hlong : batch.range.stop ≤ disk.content.length)
    (hsorted : batch.tasks.Pairwise (fun a b => a.info.stop ≤ b.info.stop)) (left : Nat) :
    ∀ (i : Nat) (p : Progress), Looping batch disk memory p →
      p.fileOffset + left * block ≤ batch.range.stop → i + left ≤ stopAt →
      (blockLoop batch disk os block stopAt left i p).2 = none ∧
        (blockLoop batch disk os block stopAt left i p).1.fileOffset = p.fileOffset + left * block := by
  induction left with
  | zero => exact fun i p _ _ _ => ⟨rfl, by simp [blockLoop]⟩
  | succ left ih =>
      intro i p h hfits hstop
      rw [Nat.succ_mul] at hfits
      obtain ⟨-, hnext⟩ := h.read os hblock hsorted
        (show p.fileOffset + block ≤ batch.range.stop by omega)
      have hposition : p.io.position = p.fileOffset := by
        have := h.start_le
        rw [h.arrived.position]
        show batch.range.start + _ = _
        omega
      have hok := fileRead_ok disk hblock p.buffer hos
        (show p.io.position + block ≤ disk.content.length by omega)
      unfold blockLoop
      rw [if_neg (by omega)]
      cases hread : fileRead disk os block block p.buffer p.io with
      | mk io outcome =>
          rw [hread] at hok hnext
          obtain rfl : outcome = none := hok
          obtain ⟨hnone, hoffset⟩ := ih (i + 1) _ (hnext rfl)
            (by show p.fileOffset + block + _ ≤ _; omega) (by omega)
          refine ⟨hnone, hoffset.trans ?_⟩
          show p.fileOffset + block + left * block = p.fileOffset + (left + 1) * block
          rw [Nat.succ_mul]
          omega

theorem Undisturbed.success {config : Config} (hblock : 1 ≤ config.fsBlockBytesize) {disk : Disk}
    {os : Os} {stopAt : Nat} {batch : Batch} (h : Undisturbed config disk os stopAt batch)
    (hsorted : batch.tasks.Pairwise (fun a b => a.info.stop ≤ b.info.stop))
    (memory : Nat → UInt8) : (tryFile config disk os stopAt batch memory).2 = .success := by
  have hstart : Looping batch disk memory (startRead batch memory) := looping_start
  have hsize : batch.range.size = batch.range.stop - batch.range.start := rfl
  have hle := batch.range.start_le
  have hdiv := Nat.div_mul_le_self batch.range.size config.fsBlockBytesize
  have hrunning := h.running
  have hloop : (blockLoop batch disk os config.fsBlockBytesize stopAt
      (batch.range.size / config.fsBlockBytesize) 0 (startRead batch memory)).2 = none := by
    rcases h.long with hzero | hlong
    · rw [hzero, Nat.zero_div]
      rfl
    · exact (blockLoop_ok hblock h.reads hlong hsorted _ 0 _ hstart
        (by show batch.range.start + _ ≤ _; omega) (by omega)).1
  obtain ⟨-, hlooped⟩ := blockLoop_served os hblock stopAt hsorted
    (batch.range.size / config.fsBlockBytesize) 0 _ hstart
    (by show batch.range.start + _ ≤ _; omega)
  have hlooped := hlooped hloop
  have hlast : (lastBlock batch disk os config.fsBlockBytesize stopAt
      (batch.range.size / config.fsBlockBytesize) (blockLoop batch disk os config.fsBlockBytesize
        stopAt (batch.range.size / config.fsBlockBytesize) 0 (startRead batch memory)).1).2
      = none := by
    generalize (blockLoop batch disk os config.fsBlockBytesize stopAt
      (batch.range.size / config.fsBlockBytesize) 0 (startRead batch memory)).1 = p at hlooped
    have hposition : p.io.position = p.fileOffset := by
      have := hlooped.start_le
      rw [hlooped.arrived.position]
      show batch.range.start + _ = _
      omega
    unfold lastBlock
    split
    next hpartial =>
      have hlong := h.long.resolve_left (by have := hlooped.start_le; omega)
      have hok := @fileRead_ok disk os _ (batch.range.stop - p.fileOffset) hblock p.buffer p.io
        h.reads (by omega)
      cases hread : fileRead disk os config.fsBlockBytesize (batch.range.stop - p.fileOffset)
          p.buffer p.io with
      | mk io outcome =>
          rw [hread] at hok
          obtain rfl : outcome = none := hok
          rfl
    next => rfl
  unfold tryFile
  rw [if_neg (by simp [h.file]), if_neg (by simp [h.opens])]
  unfold readFile
  split
  · rfl
  · rw [if_neg (by simp [h.seeks])]
    simp only
    generalize blockLoop batch disk os config.fsBlockBytesize stopAt
      (batch.range.size / config.fsBlockBytesize) 0 (startRead batch memory) = looped at hloop hlast
    obtain ⟨p, outcome⟩ := looped
    obtain rfl : outcome = none := hloop
    simp only at hlast ⊢
    generalize lastBlock batch disk os config.fsBlockBytesize stopAt
      (batch.range.size / config.fsBlockBytesize) p = last at hlast
    obtain ⟨q, outcome⟩ := last
    obtain rfl : outcome = none := hlast
    show (if stopAt ≤ _ + 2 then ResponseCode.finishedError else .success) = .success
    rw [if_neg (by omega)]

/-! ## §7. What an execution leaves. -/

/-- The task ends within the blocks read in full. -/
def Within (reached : Option Nat) (task : Task) : Prop :=
  ∃ e, reached = some e ∧ task.info.stop ≤ e

instance (reached : Option Nat) (task : Task) : Decidable (Within reached task) :=
  match reached with
  | none => isFalse (by simp [Within])
  | some e => decidable_of_iff (task.info.stop ≤ e) (by simp [Within])

/-- **How an execution answers its tasks**: each once, with Success within the
blocks read in full, and else with the code the reading ended with. -/
theorem execute_answers {config : Config} (hblock : 1 ≤ config.fsBlockBytesize) {batch : Batch}
    (hbatch : Contiguous batch) (disk : Disk) (os : Os) (stopAt : Nat) (memory : Nat → UInt8) :
    ((executeFile config disk os stopAt batch memory).run.log.map Finish.task).Perm
        (List.range batch.tasks.length) ∧
      ∀ f ∈ (executeFile config disk os stopAt batch memory).run.log,
        ∀ task, batch.tasks[f.task]? = some task →
          f.ret = if Within (executeFile config disk os stopAt batch memory).reached task
            then .success else (executeFile config disk os stopAt batch memory).code := by
  have hlaid := hbatch.laidOut
  refine ⟨?_, fun f hf task htask => ?_⟩
  · obtain ⟨o, ho⟩ := executeFile_refines config disk os stopAt batch memory
    obtain ⟨hran, hcomplete⟩ := @execute_complete config batch o
      (fun task htask => (hlaid.task task htask).2.2.1)
    rw [ho]
    exact hcomplete.log_perm hran
  · obtain ⟨hserved, -⟩ := @tryFile_served batch disk memory config hblock os stopAt hlaid.sorted
    have hupto := hserved.upto
    rcases @handleError_log (tryFile config disk os stopAt batch memory).1.run _ f hf with
      hold | ⟨hret, hopen⟩
    · have hin : Within (tryFile config disk os stopAt batch memory).1.reached task := by
        refine (hupto.edge _ _ htask).mp ((hupto.front _).mp ?_)
        exact (hupto.going.ran.consistent.logged _).mp (List.mem_map_of_mem hold)
      rw [hupto.success f hold]
      exact (if_pos hin).symm
    · have hout : ¬ Within (tryFile config disk os stopAt batch memory).1.reached task := by
        intro hin
        have hdone := (hupto.front _).mpr ((hupto.edge _ _ htask).mpr hin)
        rw [hopen] at hdone
        simp at hdone
      rw [hret]
      exact (if_neg hout).symm

/-- **A FILE'S BATCH READS THE RIGHT BYTES**, whatever the OS does and
whenever the stop is observed.  Every task is finished once.  It is Success
for exactly the tasks that end within the blocks read in full, and for the
others the code of what ended the reading; that code is Success when nothing
fails.  A task finished with Success has the file's bytes at its destination,
and nothing outside the destinations of the batch is written. -/
theorem execute_reads {config : Config} (hblock : 1 ≤ config.fsBlockBytesize) {batch : Batch}
    (hbatch : Contiguous batch) (disk : Disk) (os : Os) (stopAt : Nat) (memory : Nat → UInt8) :
    ((executeFile config disk os stopAt batch memory).run.log.map Finish.task).Perm
        (List.range batch.tasks.length) ∧
      (∀ f ∈ (executeFile config disk os stopAt batch memory).run.log,
        ∀ task, batch.tasks[f.task]? = some task →
          f.ret = if Within (executeFile config disk os stopAt batch memory).reached task
            then .success else (executeFile config disk os stopAt batch memory).code) ∧
      (Undisturbed config disk os stopAt batch →
        (executeFile config disk os stopAt batch memory).code = .success) ∧
      (∀ f ∈ (executeFile config disk os stopAt batch memory).run.log,
        ∀ task, batch.tasks[f.task]? = some task → f.ret = .success →
          ∀ k, k < task.info.bytesize → disk.content[task.info.offset + k]?
            = some ((executeFile config disk os stopAt batch memory).memory
                (wrap (task.destination + k)))) ∧
      ∀ a, (∀ task ∈ batch.tasks, ∀ k, k < task.info.bytesize → wrap (task.destination + k) ≠ a) →
        (executeFile config disk os stopAt batch memory).memory a = memory a := by
  have hlaid := hbatch.laidOut
  obtain ⟨hperm, hret⟩ := execute_answers hblock hbatch disk os stopAt memory
  obtain ⟨hserved, hsuccess⟩ := @tryFile_served batch disk memory config hblock os stopAt
    hlaid.sorted
  obtain ⟨count, harrived, hcount, hreached⟩ := hserved.arrived
  have hlength : (window disk.content batch.range.start count).length = count := by
    have := harrived.count_le
    rw [window_length]
    exact Nat.min_eq_left this
  have hsize := hlaid.size_lt
  have hall : (tryFile config disk os stopAt batch memory).2 = .success →
      ∀ task ∈ batch.tasks, Within (tryFile config disk os stopAt batch memory).1.reached task := by
    intro hcode task htask
    rcases hsuccess hcode with hempty | hstop
    · rw [hempty] at htask
      simp at htask
    · exact ⟨_, hstop, (hlaid.task task htask).2.2.1⟩
  refine ⟨hperm, hret, fun h => h.success hblock hlaid.sorted memory,
    fun f hf task htask hdone k hk => ?_, fun a ha => ?_⟩
  · -- the bytes of the task are among those that arrived
    have hin : Within (tryFile config disk os stopAt batch memory).1.reached task := by
      have hcode := hret f hf task htask
      rw [hdone] at hcode
      split at hcode
      next hin => exact hin
      next => exact hall hcode.symm task (List.mem_of_getElem? htask)
    obtain ⟨e, he, hstop⟩ := hin
    have hle := hreached e he
    obtain ⟨hstart, hend, -, hdestination⟩ := hlaid.task task (List.mem_of_getElem? htask)
    have hindex : task.info.offset - batch.range.start + k < count := by omega
    have hget := @store_inside _ (2 ^ 64) memory (bufferOf batch)
      (window disk.content batch.range.start count) (task.info.offset - batch.range.start + k)
      (by rw [hlength]; exact hindex) (by rw [hlength]; omega)
    rw [window_get (by rw [hlength]; exact hindex),
      show batch.range.start + (task.info.offset - batch.range.start + k) = task.info.offset + k by
        omega] at hget
    rw [← hget]
    have haddress : wrap (task.destination + k)
        = (bufferOf batch + (task.info.offset - batch.range.start + k)) % 2 ^ 64 := by
      rw [← wrap_wrap_add, hdestination, wrap_wrap_add, Nat.add_assoc]
      rfl
    show some (store (2 ^ 64) memory (bufferOf batch) _ _)
      = some ((tryFile config disk os stopAt batch memory).1.io.memory _)
    rw [harrived.memory, haddress]
    rfl
  · -- what arrived went to the destinations
    show (tryFile config disk os stopAt batch memory).1.io.memory a = memory a
    rw [harrived.memory]
    refine store_outside (fun j hj heq => ?_)
    have hj : j < (window disk.content batch.range.start count).length := hj
    rw [hlength] at hj
    obtain ⟨task, htask, hle, hlt⟩ := hlaid.covered (batch.range.start + j) (Nat.le_add_right _ _)
      (by have := batch.range.start_le; rw [BatchRange.size] at hcount; omega)
    obtain ⟨hstart, -, -, hdestination⟩ := hlaid.task task htask
    refine ha task htask (batch.range.start + j - task.info.offset) (by omega) ?_
    rw [← heq, ← wrap_wrap_add, hdestination, wrap_wrap_add]
    unfold wrap
    congr 1
    omega

/-- **The batches of a plan are contiguous**, also where a range of the request
wraps. -/
theorem planned_contiguous {config : Config} {submissionId : Nat} {request : List FileRanges}
    {p : Plan} (hworkers : 1 ≤ numWorkers config request)
    (h : plan config submissionId request = .ok p) :
    ∀ batch ∈ p.batches, Contiguous batch := by
  intro batch hmem
  have hb := (plan_ok hworkers h).batch batch hmem
  have hstops := planned_stops hworkers h batch hmem
  obtain ⟨first, tasks, htasks, hended, -⟩ := planned_fits hworkers h hmem
  refine ⟨?_, fun task htask => ⟨(hstops task htask).1, ?_⟩, hb.range_eq⟩
  · refine hb.chained.imp_of_mem_imp ?_
    intro a b ha _ hab
    exact ⟨by rw [hab.1, (hstops a ha).1], hab.2⟩
  · rw [hended task htask]
    exact wrap_lt _

/-- A file of five bytes, of which the OS hands out one or two at a time,
interrupted once. -/
def fiveBytes : Disk := ⟨[10, 11, 12, 13, 14], true, true⟩

def haltingOs : Os where
  next := fun i => if i = 1 then .interrupted else .transfers (i % 2)
  lively := by
    intro i
    refine ⟨i + 2, by omega, ?_⟩
    rw [if_neg (by omega)]
    simp

/-- Three ranges of the file: one byte, none, and two bytes, back to back. -/
def threeRanges : Batch where
  submissionId := 1
  workloadIndex := 0
  fileIndex := 0
  path := "/data/weights"
  uri := none
  tasks := [⟨⟨1, 0, 0, 1, 1, 100⟩, ⟨1, 1, 2, 0⟩⟩, ⟨⟨2, 0, 1, 1, 0, 101⟩, ⟨2, 0, 2, 0⟩⟩,
    ⟨⟨2, 0, 2, 1, 2, 101⟩, ⟨2, 2, 4, 0⟩⟩]
  range := ⟨1, 4, by decide⟩

theorem threeRanges_contiguous : Contiguous threeRanges where
  adjoins := by
    simp only [threeRanges, List.isChain_cons_cons, List.IsChain.singleton, and_true]
    exact ⟨⟨rfl, rfl⟩, rfl, rfl⟩
  ended := by
    intro task htask
    simp only [threeRanges, List.mem_cons, List.not_mem_nil, or_false] at htask
    rcases htask with rfl | rfl | rfl <;> decide
  range_eq := rfl

/-- Blocks of two bytes: the second one is read in two parts. -/
theorem execute_reads_threeRanges :
    (executeFile ⟨1, 1, 2, 2⟩ fiveBytes haltingOs 10 threeRanges (fun _ => 0)).code = .success ∧
      (executeFile ⟨1, 1, 2, 2⟩ fiveBytes haltingOs 10 threeRanges (fun _ => 0)).memory 102 = 13 ∧
      (executeFile ⟨1, 1, 2, 2⟩ fiveBytes haltingOs 10 threeRanges (fun _ => 0)).memory 103 = 0 := by
  obtain ⟨hperm, hret, hcode, hbytes, hframe⟩ := @execute_reads ⟨1, 1, 2, 2⟩ (by decide) threeRanges
    threeRanges_contiguous fiveBytes haltingOs 10 (fun _ => 0)
  have hreads : ∀ i, haltingOs.next i ≠ .failed := by
    intro i
    simp only [haltingOs]
    split <;> simp
  have hsuccess := hcode ⟨rfl, rfl, rfl, hreads, .inr (by decide), by decide⟩
  refine ⟨hsuccess, ?_, hframe 103 ?_⟩
  · -- the last byte of the last range
    obtain ⟨f, hf, htask⟩ := List.mem_map.mp (hperm.mem_iff.mpr (show 2 ∈ List.range 3 by decide))
    have hlast : threeRanges.tasks[f.task]? = some ⟨⟨2, 0, 2, 1, 2, 101⟩, ⟨2, 2, 4, 0⟩⟩ := by
      rw [htask]
      rfl
    have hdone : f.ret = .success := by
      rw [hret f hf _ hlast, hsuccess, ite_self]
    have hbyte := hbytes f hf _ hlast hdone 1 (by decide)
    exact (Option.some.inj hbyte).symm
  · intro task htask k hk
    simp only [threeRanges, List.mem_cons, List.not_mem_nil, or_false] at htask
    rcases htask with rfl | rfl | rfl
    · obtain rfl : k = 0 := Nat.lt_one_iff.mp hk
      decide
    · exact absurd hk (Nat.not_lt_zero k)
    · have hk : k < 2 := hk
      rcases (show k = 0 ∨ k = 1 by omega) with rfl | rfl <;> decide

end ModelStreamer.Filesystem
