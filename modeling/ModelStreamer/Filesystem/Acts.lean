/-
  ModelStreamer.Filesystem.Acts
  ─────────────────────────────
  **WHAT A THREAD DOES, ACT BY ACT, WHILE IT READS A FILE.**

  `Execute` says what a whole execution leaves.  Here are the same functions
  as a list of acts: each transfer of the OS is a write, and each call of
  `Request::finished` a mark.  What a thread reads does not depend on the
  memory it writes to, so the acts are those of any memory.

    • `fdRead_over`, …, `tryFile_over` — the same reads on another memory end
      alike, and leave what the acts leave of it,
    • `marks_tryActs` — the marks are the log,
    • `executeFile_over` — both, for a whole execution.
-/
import ModelStreamer.Filesystem.Execute
import ModelStreamer.Lib.Writer

namespace ModelStreamer.Filesystem

open ModelStreamer.Lib ModelStreamer.Planning ModelStreamer.Delivery

/-! ## §1. The acts. -/

set_option linter.unusedVariables false in
/-- The writes of `Fd::read`, from byte `total` on. -/
def fdActs (disk : Disk) (os : Os) (chunk size data total : Nat) (io : Io) :
    List (Effect UInt8 Finish) :=
  if total < size then
    match h : osRead disk os io (wrap (data + total)) (min chunk (size - total)) with
    | (io', .interrupted) => fdActs disk os chunk size data total io'
    | (_, .failed) => []
    | (io', .bytes count) =>
        if count = 0 then []
        else
          .write (wrap (data + total)) (window disk.content io.position count)
            :: fdActs disk os chunk size data (total + count) io'
  else []
termination_by (size - total, os.interrupts io.calls)
decreasing_by
  · obtain ⟨rfl, hnext⟩ := osRead_interrupted h
    exact Prod.Lex.right _ (os.interrupts_lt hnext)
  · have := (osRead_bytes h).2.2.1
    exact Prod.Lex.left _ _ (by omega)

/-- The writes of `File::read`. -/
def fileActs (disk : Disk) (os : Os) (chunk bytesize buffer : Nat) (io : Io) :
    List (Effect UInt8 Finish) := fdActs disk os chunk bytesize buffer 0 io

/-- The calls made between two states of a batch. -/
def newMarks (run run' : BatchRun) : List (Effect UInt8 Finish) :=
  (run'.log.drop run.log.length).map .mark

section Acts

variable (batch : Batch) (disk : Disk) (os : Os) (block stopAt : Nat)

/-- The acts of the `for` of `Batch::read`. -/
def blockActs : Nat → Nat → Progress → List (Effect UInt8 Finish)
  | 0, _, _ => []
  | left + 1, i, p =>
      if stopAt ≤ i then []
      else
        fileActs disk os block block p.buffer p.io ++
          match fileRead disk os block block p.buffer p.io with
          | (_, some _) => []
          | (io, none) =>
              newMarks p.run (finishedUntil batch (p.fileOffset + block) .success p.run) ++
                blockActs left (i + 1)
                  ⟨finishedUntil batch (p.fileOffset + block) .success p.run, io,
                    p.fileOffset + block, wrap (p.buffer + block), some (p.fileOffset + block)⟩

/-- The acts of the last, partial block. -/
def lastActs (look : Nat) (p : Progress) : List (Effect UInt8 Finish) :=
  if p.fileOffset < batch.range.stop ∧ ¬ stopAt ≤ look then
    fileActs disk os block (batch.range.stop - p.fileOffset) p.buffer p.io ++
      match fileRead disk os block (batch.range.stop - p.fileOffset) p.buffer p.io with
      | (_, some _) => []
      | (_, none) => newMarks p.run (finishedUntil batch batch.range.stop .success p.run)
  else []

/-- The calls at the end of `Batch::read`. -/
def finishActs (look : Nat) (p : Progress) : List (Effect UInt8 Finish) :=
  if stopAt ≤ look + 1 then []
  else newMarks p.run (finishedUntil batch batch.range.stop .success p.run)

/-- The acts of `Batch::read`. -/
def readActs (memory : Nat → UInt8) : List (Effect UInt8 Finish) :=
  if batch.tasks.isEmpty then []
  else if disk.seeks = false then []
  else
    let numChunks := batch.range.size / block
    blockActs batch disk os block stopAt numChunks 0 (startRead batch memory) ++
      match blockLoop batch disk os block stopAt numChunks 0 (startRead batch memory) with
      | (_, some _) => []
      | (p, none) =>
          lastActs batch disk os block stopAt numChunks p ++
            match lastBlock batch disk os block stopAt numChunks p with
            | (_, some _) => []
            | (p, none) => finishActs batch stopAt numChunks p

end Acts

/-- The acts of the `try` of `Batch::execute`. -/
def tryActs (config : Config) (disk : Disk) (os : Os) (stopAt : Nat) (batch : Batch)
    (memory : Nat → UInt8) : List (Effect UInt8 Finish) :=
  if batch.isObjectStorage then []
  else if disk.opens = false then []
  else readActs batch disk os config.fsBlockBytesize stopAt memory

/-- A memory of zeros. -/
def blank : Nat → UInt8 := fun _ => 0

/-- The acts of `Batch::execute`. -/
def executeActs (config : Config) (disk : Disk) (os : Os) (stopAt : Nat) (batch : Batch) :
    List (Effect UInt8 Finish) :=
  let (p, code) := tryFile config disk os stopAt batch blank
  tryActs config disk os stopAt batch blank ++ newMarks p.run (p.run.handleError code)

/-! ## §2. The same reads on another memory. -/

section FdActs

variable {disk : Disk} {os : Os} {chunk size data total : Nat} {io io' : Io}

theorem fdActs_interrupted (hmore : total < size)
    (hread : osRead disk os io (wrap (data + total)) (min chunk (size - total))
      = (io', .interrupted)) :
    fdActs disk os chunk size data total io = fdActs disk os chunk size data total io' := by
  rw [fdActs, if_pos hmore]
  split
  next io₁ heq =>
    rw [hread] at heq
    obtain ⟨rfl, -⟩ := Prod.mk.inj heq
    rfl
  next io₁ heq => rw [hread] at heq; exact absurd (Prod.mk.inj heq).2 (by simp)
  next io₁ count₁ heq => rw [hread] at heq; exact absurd (Prod.mk.inj heq).2 (by simp)

theorem fdActs_failed (hmore : total < size)
    (hread : osRead disk os io (wrap (data + total)) (min chunk (size - total))
      = (io', .failed)) :
    fdActs disk os chunk size data total io = [] := by
  rw [fdActs, if_pos hmore]
  split
  next io₁ heq => rw [hread] at heq; exact absurd (Prod.mk.inj heq).2 (by simp)
  next io₁ heq => rfl
  next io₁ count₁ heq => rw [hread] at heq; exact absurd (Prod.mk.inj heq).2 (by simp)

theorem fdActs_bytes {count : Nat} (hmore : total < size)
    (hread : osRead disk os io (wrap (data + total)) (min chunk (size - total))
      = (io', .bytes count)) :
    fdActs disk os chunk size data total io
      = if count = 0 then []
        else
          .write (wrap (data + total)) (window disk.content io.position count)
            :: fdActs disk os chunk size data (total + count) io' := by
  rw [fdActs, if_pos hmore]
  split
  next io₁ heq => rw [hread] at heq; exact absurd (Prod.mk.inj heq).2 (by simp)
  next io₁ heq => rw [hread] at heq; exact absurd (Prod.mk.inj heq).2 (by simp)
  next io₁ count₁ heq =>
    rw [hread] at heq
    obtain ⟨rfl, hcount⟩ := Prod.mk.inj heq
    rw [Count.bytes.inj hcount]

end FdActs

/-- The same position and calls, with another memory. -/
def Io.over (io : Io) (memory : Nat → UInt8) : Io := { io with memory := memory }

theorem osRead_over (disk : Disk) (os : Os) (io : Io) (data want : Nat) (memory : Nat → UInt8) :
    osRead disk os (io.over memory) data want
      = match osRead disk os io data want with
        | (io', .interrupted) => (io'.over memory, .interrupted)
        | (io', .failed) => (io'.over memory, .failed)
        | (io', .bytes count) =>
            (io'.over (store (2 ^ 64) memory data (window disk.content io.position count)),
              .bytes count) := by
  unfold osRead Io.over
  cases os.next io.calls with
  | interrupted => rfl
  | failed => rfl
  | transfers more =>
      have hsame : window disk.content io.position
            (window disk.content io.position (min want (more + 1))).length
          = window disk.content io.position (min want (more + 1)) := by
        unfold window
        rw [List.length_take]
        exact List.take_eq_take_min.symm
      simp only [hsame]

/-- **`Fd::read` on another memory**: the same outcome, and its writes. -/
theorem fdRead_over (disk : Disk) (os : Os) (chunk size data total : Nat) (io : Io) :
    ∀ memory, fdRead disk os chunk size data total (io.over memory)
      = ((fdRead disk os chunk size data total io).1.over
          (replay (2 ^ 64) memory (fdActs disk os chunk size data total io)),
        (fdRead disk os chunk size data total io).2) := by
  induction total, io using fdRead.induct disk os chunk size data with
  | case1 total io hmore io' hread ih =>
      intro memory
      have hover := osRead_over disk os io (wrap (data + total)) (min chunk (size - total)) memory
      rw [hread] at hover
      rw [fdRead_interrupted hmore hover, fdRead_interrupted hmore hread,
        fdActs_interrupted hmore hread]
      exact ih memory
  | case2 total io hmore io' hread =>
      intro memory
      have hover := osRead_over disk os io (wrap (data + total)) (min chunk (size - total)) memory
      rw [hread] at hover
      rw [fdRead_failed hmore hover, fdRead_failed hmore hread, fdActs_failed hmore hread]
      rfl
  | case3 total io hmore io' hread =>
      -- the end of the file: nothing is stored
      intro memory
      have hover := osRead_over disk os io (wrap (data + total)) (min chunk (size - total)) memory
      rw [hread] at hover
      rw [fdRead_bytes hmore hover, fdRead_bytes hmore hread, fdActs_bytes hmore hread, if_pos rfl,
        if_pos rfl, if_pos rfl, window_zero]
      rfl
  | case4 total io hmore io' count hread hpos ih =>
      intro memory
      have hover := osRead_over disk os io (wrap (data + total)) (min chunk (size - total)) memory
      rw [hread] at hover
      rw [fdRead_bytes hmore hover, fdRead_bytes hmore hread, fdActs_bytes hmore hread,
        if_neg hpos, if_neg hpos, if_neg hpos]
      exact ih _
  | case5 total io hmore =>
      intro memory
      rw [fdRead, if_neg hmore, fdRead, if_neg hmore, fdActs, if_neg hmore]
      rfl

theorem fileRead_over (disk : Disk) (os : Os) (chunk bytesize buffer : Nat) (io : Io)
    (memory : Nat → UInt8) :
    fileRead disk os chunk bytesize buffer (io.over memory)
      = ((fileRead disk os chunk bytesize buffer io).1.over
          (replay (2 ^ 64) memory (fileActs disk os chunk bytesize buffer io)),
        (fileRead disk os chunk bytesize buffer io).2) := by
  unfold fileRead fileActs
  rw [fdRead_over]
  generalize fdRead disk os chunk bytesize buffer 0 io = result
  obtain ⟨io', outcome⟩ := result
  cases outcome with
  | none => rfl
  | some total => rfl

theorem replay_newMarks (memory : Nat → UInt8) (run run' : BatchRun) :
    replay (2 ^ 64) memory (newMarks run run') = memory := replay_marks _ memory

/-- The same locals, with another memory. -/
def Progress.over (p : Progress) (memory : Nat → UInt8) : Progress :=
  { p with io := p.io.over memory }

section Over

variable (batch : Batch) (disk : Disk) (os : Os) (block stopAt : Nat)

theorem blockLoop_over (left : Nat) :
    ∀ (i : Nat) (p : Progress) (memory : Nat → UInt8),
      blockLoop batch disk os block stopAt left i (p.over memory)
        = ((blockLoop batch disk os block stopAt left i p).1.over
            (replay (2 ^ 64) memory (blockActs batch disk os block stopAt left i p)),
          (blockLoop batch disk os block stopAt left i p).2) := by
  induction left with
  | zero => exact fun i p memory => rfl
  | succ left ih =>
      intro i p memory
      unfold blockLoop blockActs
      by_cases hstop : stopAt ≤ i
      · rw [if_pos hstop, if_pos hstop, if_pos hstop]
        rfl
      · rw [if_neg hstop, if_neg hstop, if_neg hstop]
        show (match fileRead disk os block block p.buffer (p.io.over memory) with
          | (io, some fault) => _
          | (io, none) => _) = _
        rw [fileRead_over, replay_append]
        generalize replay (2 ^ 64) memory (fileActs disk os block block p.buffer p.io) = memory'
        cases hread : fileRead disk os block block p.buffer p.io with
        | mk io outcome =>
            cases outcome with
            | some fault => rfl
            | none =>
                simp only [replay_append, replay_newMarks]
                exact ih (i + 1)
                  ⟨finishedUntil batch (p.fileOffset + block) .success p.run, io,
                    p.fileOffset + block, wrap (p.buffer + block), some (p.fileOffset + block)⟩
                  memory'

theorem lastBlock_over (look : Nat) (p : Progress) (memory : Nat → UInt8) :
    lastBlock batch disk os block stopAt look (p.over memory)
      = ((lastBlock batch disk os block stopAt look p).1.over
          (replay (2 ^ 64) memory (lastActs batch disk os block stopAt look p)),
        (lastBlock batch disk os block stopAt look p).2) := by
  unfold lastBlock lastActs
  show (if p.fileOffset < batch.range.stop ∧ ¬ stopAt ≤ look then _ else _) = _
  by_cases hpartial : p.fileOffset < batch.range.stop ∧ ¬ stopAt ≤ look
  · rw [if_pos hpartial, if_pos hpartial, if_pos hpartial]
    show (match fileRead disk os block (batch.range.stop - p.fileOffset) p.buffer
        (p.io.over memory) with
      | (io, some fault) => _
      | (io, none) => _) = _
    rw [fileRead_over, replay_append]
    cases hread : fileRead disk os block (batch.range.stop - p.fileOffset) p.buffer p.io with
    | mk io outcome =>
        cases outcome with
        | some fault => rfl
        | none =>
            simp only [replay_newMarks]
            rfl
  · rw [if_neg hpartial, if_neg hpartial, if_neg hpartial]
    rfl

theorem finishRead_over (look : Nat) (p : Progress) (memory : Nat → UInt8) :
    finishRead batch stopAt look (p.over memory)
      = ((finishRead batch stopAt look p).1.over
          (replay (2 ^ 64) memory (finishActs batch stopAt look p)),
        (finishRead batch stopAt look p).2) := by
  unfold finishRead finishActs
  by_cases hstop : stopAt ≤ look + 1
  · simp only [if_pos hstop]
    rfl
  · simp only [if_neg hstop, replay_newMarks]
    rfl

theorem readFile_over (memory memory' : Nat → UInt8) :
    readFile batch disk os block stopAt memory'
      = ((readFile batch disk os block stopAt memory).1.over
          (replay (2 ^ 64) memory' (readActs batch disk os block stopAt memory)),
        (readFile batch disk os block stopAt memory).2) := by
  unfold readFile readActs
  by_cases hempty : batch.tasks.isEmpty = true
  · rw [if_pos hempty, if_pos hempty, if_pos hempty]
    rfl
  · rw [if_neg hempty, if_neg hempty, if_neg hempty]
    by_cases hseeks : disk.seeks = false
    · rw [if_pos hseeks, if_pos hseeks, if_pos hseeks]
      rfl
    · rw [if_neg hseeks, if_neg hseeks, if_neg hseeks]
      have hloop := blockLoop_over batch disk os block stopAt (batch.range.size / block) 0
        (startRead batch memory) memory'
      -- the loop starts from the same locals
      rw [show (startRead batch memory).over memory' = startRead batch memory' from rfl] at hloop
      simp only [hloop, replay_append]
      generalize replay (2 ^ 64) memory' (blockActs batch disk os block stopAt
        (batch.range.size / block) 0 (startRead batch memory)) = memory''
      cases hlooped : blockLoop batch disk os block stopAt (batch.range.size / block) 0
          (startRead batch memory) with
      | mk p outcome =>
          cases outcome with
          | some fault => rfl
          | none =>
              simp only [lastBlock_over, replay_append]
              generalize replay (2 ^ 64) memory'' (lastActs batch disk os block stopAt
                (batch.range.size / block) p) = memory₃
              cases hlast : lastBlock batch disk os block stopAt (batch.range.size / block) p with
              | mk q outcome =>
                  cases outcome with
                  | some fault => rfl
                  | none => exact finishRead_over batch stopAt _ q memory₃

end Over

theorem tryFile_over (config : Config) (disk : Disk) (os : Os) (stopAt : Nat) (batch : Batch)
    (memory memory' : Nat → UInt8) :
    tryFile config disk os stopAt batch memory'
      = ((tryFile config disk os stopAt batch memory).1.over
          (replay (2 ^ 64) memory' (tryActs config disk os stopAt batch memory)),
        (tryFile config disk os stopAt batch memory).2) := by
  unfold tryFile tryActs
  by_cases hobject : batch.isObjectStorage = true
  · rw [if_pos hobject, if_pos hobject, if_pos hobject]
    rfl
  · rw [if_neg hobject, if_neg hobject, if_neg hobject]
    by_cases hopens : disk.opens = false
    · rw [if_pos hopens, if_pos hopens, if_pos hopens]
      rfl
    · rw [if_neg hopens, if_neg hopens, if_neg hopens]
      exact readFile_over batch disk os config.fsBlockBytesize stopAt memory memory'

/-! ## §3. The marks are the log. -/

theorem finishedRequest_grows (run : BatchRun) (i : Nat) (ret : ResponseCode) :
    ∃ new, (run.finishedRequest i ret).log = run.log ++ new ∧ ∀ f ∈ new, f.ret = ret := by
  unfold BatchRun.finishedRequest
  split
  · exact ⟨[⟨i, ret⟩], rfl, by simp⟩
  · exact ⟨[], (List.append_nil _).symm, by simp⟩

theorem finishedUntilLoop_grows (fileOffset : Nat) (ret : ResponseCode) (tasks : List Task) :
    ∀ (i : Nat) (run : BatchRun),
      ∃ new, (finishedUntilLoop fileOffset ret tasks i run).log = run.log ++ new := by
  induction tasks with
  | nil => exact fun i run => ⟨[], (List.append_nil _).symm⟩
  | cons task tasks ih =>
      intro i run
      unfold finishedUntilLoop
      split
      · exact ⟨[], (List.append_nil _).symm⟩
      · obtain ⟨first, hfirst, -⟩ := finishedRequest_grows run i ret
        obtain ⟨rest, hrest⟩ := ih (i + 1) (run.finishedRequest i ret)
        exact ⟨first ++ rest, by rw [hrest, hfirst, List.append_assoc]⟩

theorem handleError_grows (run : BatchRun) (code : ResponseCode) :
    ∃ new, (run.handleError code).log = run.log ++ new ∧ ∀ f ∈ new, f.ret ≠ .success := by
  unfold BatchRun.handleError
  split
  next => exact ⟨[], (List.append_nil _).symm, by simp⟩
  next hcode =>
    generalize List.range run.finished.length = is
    induction is generalizing run with
    | nil => exact ⟨[], (List.append_nil _).symm, by simp⟩
    | cons i is ih =>
        obtain ⟨first, hfirst, hret⟩ := finishedRequest_grows run i code
        obtain ⟨rest, hrest, hfails⟩ := ih (run.finishedRequest i code)
        refine ⟨first ++ rest, by rw [List.foldl_cons, hrest, hfirst, List.append_assoc], ?_⟩
        intro f hf
        rcases List.mem_append.mp hf with hf | hf
        · rw [hret f hf]
          exact hcode
        · exact hfails f hf

/-- The marks of a part of an execution are what it adds to the log. -/
theorem marks_newMarks {run run' : BatchRun} (h : ∃ new, run'.log = run.log ++ new) :
    run.log ++ marks (newMarks run run') = run'.log := by
  obtain ⟨new, hnew⟩ := h
  rw [newMarks, marks_map, hnew, List.drop_left]

theorem marks_finishedUntil (batch : Batch) (fileOffset : Nat) (run : BatchRun) :
    run.log ++ marks (newMarks run (finishedUntil batch fileOffset .success run))
      = (finishedUntil batch fileOffset .success run).log :=
  marks_newMarks (finishedUntilLoop_grows fileOffset .success _ _ run)

/-- Transfers leave no mark. -/
theorem marks_fdActs (disk : Disk) (os : Os) (chunk size data total : Nat) (io : Io) :
    marks (fdActs disk os chunk size data total io) = [] := by
  induction total, io using fdRead.induct disk os chunk size data with
  | case1 total io hmore io' hread ih => rwa [fdActs_interrupted hmore hread]
  | case2 total io hmore io' hread => rw [fdActs_failed hmore hread]; rfl
  | case3 total io hmore io' hread => rw [fdActs_bytes hmore hread, if_pos rfl]; rfl
  | case4 total io hmore io' count hread hpos ih =>
      rw [fdActs_bytes hmore hread, if_neg hpos]
      exact ih
  | case5 total io hmore => rw [fdActs, if_neg hmore]; rfl

theorem marks_fileActs (disk : Disk) (os : Os) (chunk bytesize buffer : Nat) (io : Io) :
    marks (fileActs disk os chunk bytesize buffer io) = [] := marks_fdActs ..

section Marks

variable (batch : Batch) (disk : Disk) (os : Os) (block stopAt : Nat)

theorem marks_blockActs (left : Nat) :
    ∀ (i : Nat) (p : Progress),
      p.run.log ++ marks (blockActs batch disk os block stopAt left i p)
        = (blockLoop batch disk os block stopAt left i p).1.run.log := by
  induction left with
  | zero => exact fun i p => List.append_nil _
  | succ left ih =>
      intro i p
      unfold blockLoop blockActs
      by_cases hstop : stopAt ≤ i
      · rw [if_pos hstop, if_pos hstop]
        exact List.append_nil _
      · rw [if_neg hstop, if_neg hstop, marks_append, marks_fileActs, List.nil_append]
        cases hread : fileRead disk os block block p.buffer p.io with
        | mk io outcome =>
            cases outcome with
            | some fault => exact List.append_nil _
            | none =>
                show p.run.log ++ marks (newMarks _ _ ++ blockActs _ _ _ _ _ _ _ _) = _
                rw [marks_append, ← List.append_assoc, marks_finishedUntil]
                exact ih (i + 1)
                  ⟨finishedUntil batch (p.fileOffset + block) .success p.run, io,
                    p.fileOffset + block, wrap (p.buffer + block), some (p.fileOffset + block)⟩

theorem marks_lastActs (look : Nat) (p : Progress) :
    p.run.log ++ marks (lastActs batch disk os block stopAt look p)
      = (lastBlock batch disk os block stopAt look p).1.run.log := by
  unfold lastBlock lastActs
  by_cases hpartial : p.fileOffset < batch.range.stop ∧ ¬ stopAt ≤ look
  · rw [if_pos hpartial, if_pos hpartial, marks_append, marks_fileActs, List.nil_append]
    cases hread : fileRead disk os block (batch.range.stop - p.fileOffset) p.buffer p.io with
    | mk io outcome =>
        cases outcome with
        | some fault => exact List.append_nil _
        | none => exact marks_finishedUntil batch batch.range.stop p.run
  · rw [if_neg hpartial, if_neg hpartial]
    exact List.append_nil _

theorem marks_finishActs (look : Nat) (p : Progress) :
    p.run.log ++ marks (finishActs batch stopAt look p)
      = (finishRead batch stopAt look p).1.run.log := by
  unfold finishRead finishActs
  by_cases hstop : stopAt ≤ look + 1
  · simp only [if_pos hstop]
    exact List.append_nil _
  · simp only [if_neg hstop]
    exact marks_finishedUntil batch batch.range.stop p.run

theorem marks_readActs (memory : Nat → UInt8) :
    marks (readActs batch disk os block stopAt memory)
      = (readFile batch disk os block stopAt memory).1.run.log := by
  unfold readFile readActs
  by_cases hempty : batch.tasks.isEmpty = true
  · rw [if_pos hempty, if_pos hempty]
    rfl
  · rw [if_neg hempty, if_neg hempty]
    by_cases hseeks : disk.seeks = false
    · rw [if_pos hseeks, if_pos hseeks]
      rfl
    · rw [if_neg hseeks, if_neg hseeks]
      have hloop := marks_blockActs batch disk os block stopAt (batch.range.size / block) 0
        (startRead batch memory)
      rw [show (startRead batch memory).run.log = [] from rfl, List.nil_append] at hloop
      simp only [marks_append, hloop]
      cases hlooped : blockLoop batch disk os block stopAt (batch.range.size / block) 0
          (startRead batch memory) with
      | mk p outcome =>
          cases outcome with
          | some fault => exact List.append_nil _
          | none =>
              simp only [marks_append]
              rw [← List.append_assoc, marks_lastActs]
              cases hlast : lastBlock batch disk os block stopAt (batch.range.size / block) p with
              | mk q outcome =>
                  cases outcome with
                  | some fault => exact List.append_nil _
                  | none => exact marks_finishActs batch stopAt _ q

end Marks

theorem marks_tryActs (config : Config) (disk : Disk) (os : Os) (stopAt : Nat) (batch : Batch)
    (memory : Nat → UInt8) :
    marks (tryActs config disk os stopAt batch memory)
      = (tryFile config disk os stopAt batch memory).1.run.log := by
  unfold tryFile tryActs
  by_cases hobject : batch.isObjectStorage = true
  · rw [if_pos hobject, if_pos hobject]
    rfl
  · rw [if_neg hobject, if_neg hobject]
    by_cases hopens : disk.opens = false
    · rw [if_pos hopens, if_pos hopens]
      rfl
    · rw [if_neg hopens, if_neg hopens]
      exact marks_readActs batch disk os config.fsBlockBytesize stopAt memory

/-- **The acts are those of the execution**, whatever memory it starts from:
replayed, they leave its memory, and their marks are its log. -/
theorem executeFile_over (config : Config) (disk : Disk) (os : Os) (stopAt : Nat) (batch : Batch)
    (memory : Nat → UInt8) :
    (executeFile config disk os stopAt batch memory).memory
        = replay (2 ^ 64) memory (executeActs config disk os stopAt batch) ∧
      (executeFile config disk os stopAt batch memory).run.log
        = marks (executeActs config disk os stopAt batch) := by
  have hover := tryFile_over config disk os stopAt batch blank memory
  have hmarks := marks_tryActs config disk os stopAt batch blank
  unfold executeFile executeActs
  rw [hover]
  simp only [replay_append, marks_append, replay_newMarks, hmarks]
  obtain ⟨new, hgrows, -⟩ := handleError_grows (tryFile config disk os stopAt batch blank).1.run
    (tryFile config disk os stopAt batch blank).2
  exact ⟨rfl, (marks_newMarks ⟨new, hgrows⟩).symm⟩

end ModelStreamer.Filesystem
