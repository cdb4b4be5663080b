/-
  ModelStreamer.ObjectStorage.Fetched
  ───────────────────────────────────
  **THE OBJECTS' BYTES IN MEMORY.**

  The backend writes into the buffers of the reads it has taken, as it
  likes, until it hands out a read's completion; and it hands out Success
  only for a read whose bytes it has all written.  The worker never looks at
  a byte: what it has is handles, and the chunks they stand for.

    • `Fetching` — the worker, its backend and the memory,
    • `Moves` — what a step of the worker does to what it has of reads,
    • `Fetched` — the invariant, kept by every step,
    • `object_bytes` — a task finished with Success has the bytes of its
      object at its destination.
-/
import ModelStreamer.ObjectStorage.Growth

namespace ModelStreamer.ObjectStorage

open ModelStreamer.Lib ModelStreamer.Planning ModelStreamer.Delivery

/-! ## §1. The backend and the memory. -/

/-- A read the backend has taken: the chunk and its object, and what had been
handed out before. -/
structure IssuedRead where
  chunk : ObjectChunk
  path : String
  earlier : List Nat

/-- The worker with its backend, the reads taken in order, the memory, and
what each read has written where. -/
structure Fetching where
  base : State
  reads : List IssuedRead
  wrote : Nat → Nat → Option UInt8
  memory : Nat → UInt8

/-- The object of a chunk: `ts.batch->object_storage_params`. -/
def Worker.pathOf (w : Worker) (handle : Nat) : Option String :=
  (locate w.inflight handle).bind (fun located =>
    (find w.inflight located.1).bind (fun wl =>
      (wl.tasks[located.2]?).bind (fun ts =>
        (wl.workload[ts.batch]?).map (fun r => r.batch.path))))

/-- The read that a step issues, if it does. -/
def issues (s t : State) : Action → List IssuedRead
  | .submit _ =>
      match s.worker.queue.bind CapacityQueue.tryTake with
      | some (chunk, _) =>
          if t.started = s.started then []
          else [⟨chunk, (s.worker.pathOf chunk.handle).getD "", s.delivered⟩]
      | none => []
  | _ => []

/-- The address of a byte of the chunk. -/
def Covers (chunk : ObjectChunk) (address : Nat) : Prop :=
  ∃ x < chunk.bytesize, address = wrap (chunk.buffer + x)

/-- A round in which the completion of this read is a success. -/
def Succeeds (handle : Nat) : Action → Prop
  | .drain _ round => (⟨handle, .success⟩ : Completion) ∈ round.responses
  | _ => False

/-- The read has written the bytes of its object, where they belong. -/
def Landed (objects : String → Nat → UInt8) (wrote : Nat → Nat → Option UInt8)
    (read : IssuedRead) : Prop :=
  ∀ x < read.chunk.bytesize, wrote read.chunk.handle (wrap (read.chunk.buffer + x))
    = some (objects read.path (read.chunk.offset + x))

inductive FetchAct where
  | inner (a : Action)
  | write (handle address : Nat) (byte : UInt8)

/-- A step of the worker, or a write of the backend. -/
inductive FetchStep (objects : String → Nat → UInt8) : Fetching → FetchAct → Fetching → Prop
  /-- A completion with Success is handed out for a read that has landed. -/
  | inner {s : Fetching} {a : Action} {t : State} (hstep : Step s.base a t)
      (hlanded : ∀ read ∈ s.reads, Succeeds read.chunk.handle a →
        read.chunk.handle ∉ s.base.delivered → read.chunk.handle ∈ t.delivered →
          Landed objects s.wrote read) :
      FetchStep objects s (.inner a)
        { s with base := t, reads := s.reads ++ issues s.base t a }
  /-- Into the buffer of a read that is not over. -/
  | write {s : Fetching} {read : IssuedRead} {address : Nat} (byte : UInt8)
      (hread : read ∈ s.reads) (hopen : read.chunk.handle ∉ s.base.delivered)
      (hcovers : Covers read.chunk address) :
      FetchStep objects s (.write read.chunk.handle address byte)
        { s with
          wrote := fun handle a =>
            if handle = read.chunk.handle ∧ a = address then some byte else s.wrote handle a
          memory := Function.update s.memory address byte }

/-- Nothing taken, nothing written. -/
structure FetchInit (s : Fetching) : Prop where
  base : Init s.base
  reads_eq : s.reads = []
  wrote_eq : ∀ handle address, s.wrote handle address = none

/-- The worker with its backend and the memory. -/
def fetching (objects : String → Nat → UInt8) : System Fetching FetchAct :=
  ⟨FetchInit, FetchStep objects⟩

/-- The workloads fit, as in `StepFits`. -/
def FetchFits (s : Fetching) : FetchAct → Prop
  | .inner a => StepFits s.base a
  | .write .. => True

/-- The worker's part of a run. -/
theorem fetching_base {objects : String → Nat → UInt8} {s : Fetching}
    (h : ((fetching objects).restrict FetchFits).Reachable s) :
    (worker.restrict StepFits).Reachable s.base := by
  induction h with
  | init hinit => exact .init hinit.base
  | step _ hstep ih =>
      obtain ⟨hfit, hstep⟩ := hstep
      cases hstep with
      | inner hstep _ => exact ih.step ⟨hfit, hstep⟩
      | write => exact ih

/-! ## §2. What a step moves. -/

/-- The chunk with this handle was cut for a task of a batch with this
object. -/
def Sourced (blocks : List Block) (handle : Nat) (path : String) : Prop :=
  ∃ block ∈ blocks, ∃ t p batch, Owns block.base block.chunkTaskIdx t handle ∧
    block.reads[t]? = some p ∧ block.batches[p.batch]? = some batch ∧ batch.path = path

/-- An open chunk has its object. -/
theorem sourced_of_open {w : Worker} (h : w.Inv) {handle : Nat} (hopen : handle ∈ w.openHandles) :
    ∃ path, w.pathOf handle = some path ∧ Sourced w.blocks handle path := by
  obtain ⟨⟨e, he, hin⟩, -⟩ := mem_openAll.mp hopen
  have hlt : handle - e.1 < e.2.chunkTaskIdx.length := by
    have hle : e.1 ≤ handle := hin.1
    have hend : handle < e.1 + e.2.chunkTaskIdx.length := hin.2
    omega
  have hown : Owns e.1 e.2.chunkTaskIdx e.2.chunkTaskIdx[handle - e.1] handle :=
    ⟨hin.1, List.getElem?_eq_getElem hlt⟩
  have htracked := h.tracked e he
  obtain ⟨ts, hts⟩ := htracked.counted.task hown
  -- the task's state stands where the task does
  have hplace : (e.2.tasks.map TaskState.ref)[e.2.chunkTaskIdx[handle - e.1]]? = some ts.ref := by
    rw [List.getElem?_map, hts]
    rfl
  rw [htracked.refs, List.getElem?_map, Option.map_eq_some_iff] at hplace
  obtain ⟨p, hp, href⟩ := hplace
  obtain ⟨hbatch, -⟩ := Prod.mk.inj (show (p.batch, p.task) = (ts.batch, ts.task) from href)
  obtain ⟨k, batch, hk, hget, -⟩ :=
    mem_placedTasks.mp (List.mem_of_mem_filter (List.mem_of_getElem? hp))
  obtain rfl : p.batch = k := hk.trans (Nat.zero_add k)
  obtain ⟨r, hr, rfl⟩ := Option.map_eq_some_iff.mp
    (show (e.2.workload[p.batch]?).map Running.batch = some batch from by
      rw [← List.getElem?_map]
      exact hget)
  refine ⟨r.batch.path, ?_, blockOf e, List.mem_map_of_mem (List.mem_append_left _ he),
    _, p, r.batch, hown, hp, hget, rfl⟩
  unfold Worker.pathOf
  rw [locate_live h he hown, Option.bind_some, find_mem h.ascending he, Option.bind_some, hts,
    Option.bind_some, ← hbatch, hr]
  rfl

/-- **What a step does** to what there is of reads: the worker only grows,
a read issued is one more, with a handle of its own, and a Success is of the
round. -/
structure Moves (s t : State) (a : Action) : Prop where
  grows : Grows s.worker t.worker
  delivered : s.delivered ⊆ t.delivered
  known : s.delivered ⊆ s.started → t.delivered ⊆ t.started
  success : ∀ handle, (handle, ResponseCode.success) ∈ t.worker.credits →
    (handle, ResponseCode.success) ∈ s.worker.credits ∨
      Succeeds handle a ∧ handle ∈ s.started ∧ handle ∉ s.delivered ∧ handle ∈ t.delivered
  issued : issues s t a = [] ∧ t.started = s.started ∨
    ∃ chunk path, issues s t a = [⟨chunk, path, s.delivered⟩] ∧
      t.started = chunk.handle :: s.started ∧ chunk.handle ∉ s.started ∧
      (Queued s.worker → chunk ∈ s.worker.enqueued) ∧
      Sourced s.worker.blocks chunk.handle path

/-- A step that leaves the reads alone. -/
theorem Moves.idle {s t : State} {a : Action} (hworker : t.worker = s.worker)
    (hdelivered : t.delivered = s.delivered) (hstarted : t.started = s.started)
    (hissues : issues s t a = []) : Moves s t a where
  grows := by
    rw [hworker]
    exact Grows.refl _
  delivered := by
    rw [hdelivered]
    exact List.Subset.refl _
  known := by
    intro h
    rw [hdelivered, hstarted]
    exact h
  success := by
    intro handle hmem
    rw [hworker] at hmem
    exact Or.inl hmem
  issued := Or.inl ⟨hissues, hstarted⟩

/-- The read of the chunk taken. -/
theorem issues_submit {s t : State} {outcome : ResponseCode} {q q' : CapacityQueue ObjectChunk}
    {chunk : ObjectChunk} (hq : s.worker.queue = some q) (htake : q.tryTake = some (chunk, q')) :
    issues s t (.submit outcome) = if t.started = s.started then []
      else [⟨chunk, (s.worker.pathOf chunk.handle).getD "", s.delivered⟩] := by
  unfold issues
  rw [hq, Option.bind_some, htake]

theorem moves_execute {s : State} (h : Good s) {workload : Workload} (backend : Backend)
    (hfit : Fits (s.worker.chunkFor workload) s.worker.asyncHandleCounter workload) :
    Moves s (s.after (s.worker.receive workload backend) (fun result =>
      { s with
        worker := result.1
        pc := if result.2 then .filling else .ready
        executed := s.executed ++ [workload.batches] })) (.execute workload backend) := by
  obtain ⟨w', enqueued, hok, -, hrec, -⟩ := receive_ok h.inv backend hfit
  have hgrows := receive_grows h.inv hfit hok
  simp only [hok, State.after]
  refine ⟨hgrows, List.Subset.refl _, id, fun handle hmem => ?_, Or.inl ⟨rfl, rfl⟩⟩
  have hmem : (handle, ResponseCode.success) ∈ w'.credits := hmem
  rw [hrec.credits] at hmem
  exact Or.inl hmem

theorem moves_submit {s : State} (h : Good s) {q q' : CapacityQueue ObjectChunk}
    {chunk : ObjectChunk} (outcome : ResponseCode) (hq : s.worker.queue = some q)
    (htake : q.tryTake = some (chunk, q')) :
    Moves s (s.after ({ s.worker with queue := some q' }.submit chunk outcome) (fun result =>
      { s with
        worker := result.1
        started := if result.2 then chunk.handle :: s.started else s.started }))
      (.submit outcome) := by
  obtain ⟨hinv, hopen, hpending, hnot⟩ := take_ok h.inv hq htake
  obtain ⟨w', issued, hok, -, -, hissued, -, hcompletes⟩ := submit_ok hinv outcome hopen hnot
  -- the chunk taken, and those that stay
  obtain ⟨x, hx, hitem, hrest⟩ : ∃ x ∈ q.pending, x.item = chunk ∧
      ∀ y ∈ q'.pending, y ∈ q.pending := by
    rcases q.tryTake_cases with ⟨hnone, -⟩ | ⟨x, rest, hlist, -, hsome⟩
    · rw [hnone] at htake
      exact absurd htake.symm (Option.some_ne_none _)
    · rw [hsome] at htake
      obtain ⟨hitem, rfl⟩ := Prod.mk.inj (Option.some.inj htake)
      rw [hlist]
      exact ⟨x, List.mem_cons_self, hitem, fun y hy => List.mem_cons_of_mem _ hy⟩
  have htaken : Grows s.worker { s.worker with queue := some q' } := by
    refine ⟨fun _ hb => hb, fun _ hc => hc, fun hqueued q'' hq'' y hy => ?_⟩
    obtain rfl : q' = q'' := Option.some.inj hq''
    exact hqueued q hq y (hrest y hy)
  have hgrows := htaken.trans hcompletes.grows
  simp only [hok, State.after]
  refine ⟨hgrows, List.Subset.refl _, ?_, ?_, ?_⟩
  · intro hsub handle hmem
    cases issued with
    | true => exact List.mem_cons_of_mem _ (hsub hmem)
    | false => exact hsub hmem
  · intro handle hmem
    exact Or.inl (submit_credits hok _ hmem rfl)
  · cases issued with
    | false =>
        left
        refine ⟨?_, rfl⟩
        rw [issues_submit hq htake]
        exact if_pos rfl
    | true =>
        right
        have hchunk : chunk.handle ∈ s.worker.openHandles := hopen
        obtain ⟨path, hpath, hsourced⟩ := sourced_of_open h.inv hchunk
        refine ⟨chunk, path, ?_, rfl, ?_, fun hqueued => hitem ▸ hqueued q hq x hx, hsourced⟩
        · rw [issues_submit hq htake, hpath]
          exact if_neg (List.cons_ne_self _ _)
        · intro hstarted
          apply h.env.started_pending _ hstarted
          rw [hpending]
          exact List.mem_cons_self

theorem moves_drain {s : State} (h : Good s) {stopped : Bool} {round : Round}
    {delivered : List Nat} (next : Pc)
    (hround : if stopped = true ∨ round.ret ≠ .success then delivered = s.delivered
      else Delivers s.worker.asyncHandleCounter s.started s.delivered round.responses delivered) :
    Moves s (s.after (s.worker.drainBatch stopped round) (fun worker =>
      { s with worker := worker, pc := next, delivered := delivered })) (.drain stopped round) := by
  obtain ⟨w', hok, hinv, hkept, -, w₁, hcompletes, -, -, hend⟩ := drainBatch_ok h.inv h.env hround
  have hgrows : Grows s.worker w' := by
    rcases hend with rfl | rfl
    · exact hcompletes.grows
    · exact hcompletes.grows.trans (abortAll_grows w₁ _)
  have hsub : s.delivered ⊆ delivered := by
    split at hround
    · rw [hround]
      exact List.Subset.refl _
    · exact hround.subset
  simp only [hok, State.after]
  refine ⟨hgrows, hsub, ?_, ?_, Or.inl ⟨rfl, rfl⟩⟩
  · intro hknown
    show delivered ⊆ s.started
    split at hround
    · rw [hround]
      exact hknown
    · exact hround.delivered_started hknown
  · intro handle hmem
    have hmem : (handle, ResponseCode.success) ∈ w'.credits := hmem
    refine (drainBatch_credits hok _ hmem).imp_right (fun hnew => ?_)
    obtain ⟨hresponse, hgoes⟩ := hnew
    rw [if_neg hgoes] at hround
    rcases hround.success hresponse with hreal | hunknown
    · exact ⟨hresponse, hreal⟩
    · -- nothing is credited to a handle that no chunk has
      have hbounds := hinv.credits_known _ hmem
      have hcounter := hkept.counter_eq
      dsimp only at hbounds
      omega

theorem moves_step {s t : State} {a : Action} (h : Good s) (hfit : StepFits s a)
    (hstep : Step s a t) : Moves s t a := by
  cases hstep with
  | execute workload backend hpc => exact moves_execute h backend hfit
  | fill q hq hpc => exact Moves.idle rfl rfl rfl rfl
  | submit outcome q q' chunk hq hpc htake => exact moves_submit h outcome hq htake
  | drain stopped round delivered next hdraining hround => exact moves_drain h next hround
  | pumped q hq hdone hpc => exact Moves.idle rfl rfl rfl rfl
  | close q hq hpc hroom => exact Moves.idle rfl rfl rfl rfl

/-! ## §3. What has landed. -/

/-- No other read writes there, other than those over before this one. -/
def Fetching.Alone (s : Fetching) (read : IssuedRead) (address : Nat) : Prop :=
  ∀ other ∈ s.reads, Covers other.chunk address →
    other.chunk.handle = read.chunk.handle ∨ other.chunk.handle ∈ read.earlier

/-- The reads are those the worker has started, and what is credited of them
with Success is in memory. -/
structure Fetched (objects : String → Nat → UInt8) (s : Fetching) : Prop where
  handles : s.reads.map (fun read => read.chunk.handle) = s.base.started.reverse
  enqueued : ∀ read ∈ s.reads, read.chunk ∈ s.base.worker.enqueued
  sourced : ∀ read ∈ s.reads, Sourced s.base.worker.blocks read.chunk.handle read.path
  queued : Queued s.base.worker
  known : s.base.delivered ⊆ s.base.started
  earlier : ∀ read ∈ s.reads, read.earlier ⊆ s.base.delivered
  wrote : ∀ handle address byte, s.wrote handle address = some byte → handle ∈ s.base.started
  kept : ∀ read ∈ s.reads, ∀ address byte, s.wrote read.chunk.handle address = some byte →
    s.Alone read address → s.memory address = byte
  closed : ∀ handle, (handle, ResponseCode.success) ∈ s.base.worker.credits →
    handle ∈ s.base.delivered
  landed : ∀ read ∈ s.reads, (read.chunk.handle, ResponseCode.success) ∈ s.base.worker.credits →
    Landed objects s.wrote read

theorem fetched_init {objects : String → Nat → UInt8} {s : Fetching} (h : FetchInit s) :
    Fetched objects s := by
  obtain ⟨⟨⟨chunk, hchunk, hworker⟩, -, hstarted, hdelivered, -⟩, hreads, hwrote⟩ := h
  have hcredits : s.base.worker.credits = [] := by
    rw [hworker]
    rfl
  refine ⟨?_, ?_, ?_, ?_, ?_, ?_, ?_, ?_, ?_, ?_⟩
  · rw [hreads, hstarted]
    rfl
  · simp [hreads]
  · simp [hreads]
  · intro q hq
    rw [hworker] at hq
    exact absurd hq.symm (Option.some_ne_none q)
  · rw [hdelivered]
    exact List.nil_subset _
  · simp [hreads]
  · intro handle address byte hbyte
    rw [hwrote] at hbyte
    exact absurd hbyte.symm (Option.some_ne_none byte)
  · simp [hreads]
  · simp [hcredits]
  · simp [hreads]

/-- A read's handle has been started. -/
theorem Fetched.started {objects : String → Nat → UInt8} {s : Fetching} (h : Fetched objects s)
    {read : IssuedRead} (hread : read ∈ s.reads) : read.chunk.handle ∈ s.base.started := by
  have hmem : read.chunk.handle ∈ s.reads.map (fun read => read.chunk.handle) :=
    List.mem_map_of_mem hread
  rw [h.handles] at hmem
  exact List.mem_reverse.mp hmem

theorem Sourced.mono {blocks blocks' : List Block} (hsub : ∀ block ∈ blocks, block ∈ blocks')
    {handle : Nat} {path : String} (h : Sourced blocks handle path) :
    Sourced blocks' handle path := by
  obtain ⟨block, hblock, hrest⟩ := h
  exact ⟨block, hsub block hblock, hrest⟩

/-- **The worker moves.** -/
theorem fetched_inner {objects : String → Nat → UInt8} {s : Fetching} {a : Action} {t : State}
    (h : Fetched objects s) (hmoves : Moves s.base t a)
    (hlanded : ∀ read ∈ s.reads, Succeeds read.chunk.handle a →
      read.chunk.handle ∉ s.base.delivered → read.chunk.handle ∈ t.delivered →
        Landed objects s.wrote read) :
    Fetched objects { s with base := t, reads := s.reads ++ issues s.base t a } := by
  -- a read issued is the last one, and no handle is started before it
  have hnew : ∀ read ∈ issues s.base t a, read.earlier = s.base.delivered ∧
      read.chunk.handle ∉ s.base.started ∧ read.chunk ∈ s.base.worker.enqueued ∧
      Sourced s.base.worker.blocks read.chunk.handle read.path := by
    intro read hread
    rcases hmoves.issued with ⟨hnone, -⟩ | ⟨chunk, path, hone, -, hfresh, hqueued, hsourced⟩
    · rw [hnone] at hread
      exact absurd hread List.not_mem_nil
    · rw [hone] at hread
      rw [List.mem_singleton.mp hread]
      exact ⟨rfl, hfresh, hqueued h.queued, hsourced⟩
  have hstarted : s.base.started ⊆ t.started := by
    rcases hmoves.issued with ⟨-, hsame⟩ | ⟨chunk, path, -, hcons, -⟩
    · rw [hsame]
      exact List.Subset.refl _
    · rw [hcons]
      exact List.subset_cons_self _ _
  have hsuccess : ∀ handle, (handle, ResponseCode.success) ∈ t.worker.credits →
      handle ∈ s.base.started := by
    intro handle hmem
    rcases hmoves.success handle hmem with hold | ⟨-, hknown, -⟩
    · exact h.known (h.closed handle hold)
    · exact hknown
  refine ⟨?_, ?_, ?_, hmoves.grows.queued h.queued, hmoves.known h.known, ?_, ?_, ?_, ?_, ?_⟩
  · show (s.reads ++ issues s.base t a).map _ = t.started.reverse
    rcases hmoves.issued with ⟨hnone, hsame⟩ | ⟨chunk, path, hone, hcons, -⟩
    · rw [hnone, hsame, List.append_nil, h.handles]
    · rw [hone, hcons, List.map_append, h.handles, List.reverse_cons]
      rfl
  · intro read hread
    rcases List.mem_append.mp hread with hread | hread
    · exact hmoves.grows.enqueued _ (h.enqueued read hread)
    · exact hmoves.grows.enqueued _ (hnew read hread).2.2.1
  · intro read hread
    rcases List.mem_append.mp hread with hread | hread
    · exact (h.sourced read hread).mono hmoves.grows.blocks
    · exact (hnew read hread).2.2.2.mono hmoves.grows.blocks
  · intro read hread
    rcases List.mem_append.mp hread with hread | hread
    · exact List.Subset.trans (h.earlier read hread) hmoves.delivered
    · rw [(hnew read hread).1]
      exact hmoves.delivered
  · intro handle address byte hbyte
    exact hstarted (h.wrote handle address byte hbyte)
  · intro read hread address byte hbyte halone
    rcases List.mem_append.mp hread with hread | hread
    · exact h.kept read hread address byte hbyte
        (fun other hother => halone other (List.mem_append_left _ hother))
    · -- it has not written anything yet
      exact absurd (h.wrote _ address byte hbyte) (hnew read hread).2.1
  · intro handle hmem
    rcases hmoves.success handle hmem with hold | ⟨-, -, -, hdelivered⟩
    · exact hmoves.delivered (h.closed handle hold)
    · exact hdelivered
  · intro read hread hmem
    rcases List.mem_append.mp hread with hread | hread
    · rcases hmoves.success _ hmem with hold | ⟨hround, -, hopen, hdelivered⟩
      · exact h.landed read hread hold
      · exact hlanded read hread hround hopen hdelivered
    · exact absurd (hsuccess _ hmem) (hnew read hread).2.1

/-- **The backend writes.** -/
theorem fetched_write {objects : String → Nat → UInt8} {s : Fetching} {read : IssuedRead}
    {address : Nat} (h : Fetched objects s) (byte : UInt8) (hread : read ∈ s.reads)
    (hopen : read.chunk.handle ∉ s.base.delivered) (hcovers : Covers read.chunk address) :
    Fetched objects { s with
      wrote := fun handle a =>
        if handle = read.chunk.handle ∧ a = address then some byte else s.wrote handle a
      memory := Function.update s.memory address byte } := by
  refine ⟨h.handles, h.enqueued, h.sourced, h.queued, h.known, h.earlier, ?_, ?_, h.closed, ?_⟩
  · intro handle a b hwrote
    by_cases hhere : handle = read.chunk.handle ∧ a = address
    · rw [hhere.1]
      exact h.started hread
    · exact h.wrote handle a b (Eq.trans (if_neg hhere).symm hwrote)
  · intro other hother a b hwrote halone
    have hwrote : (if other.chunk.handle = read.chunk.handle ∧ a = address then some byte
      else s.wrote other.chunk.handle a) = some b := hwrote
    show Function.update s.memory address byte a = b
    by_cases ha : a = address
    · rw [ha, Function.update_self]
      rw [ha] at hwrote
      by_cases hsame : other.chunk.handle = read.chunk.handle
      · rw [if_pos ⟨hsame, rfl⟩] at hwrote
        exact Option.some.inj hwrote
      · -- the read that writes is not over, so it is none of the earlier ones
        rcases halone read hread (ha ▸ hcovers) with heq | hearlier
        · exact absurd heq.symm hsame
        · exact absurd (h.earlier other hother hearlier) hopen
    · rw [Function.update_of_ne ha]
      rw [if_neg (fun hboth => ha hboth.2)] at hwrote
      exact h.kept other hother a b hwrote halone
  · intro other hother hmem x hx
    have hne : other.chunk.handle ≠ read.chunk.handle := by
      intro heq
      exact hopen (heq ▸ h.closed _ hmem)
    show (if other.chunk.handle = read.chunk.handle ∧ _ then some byte else _) = _
    rw [if_neg (fun hboth => hne hboth.1)]
    exact h.landed other hother hmem x hx

theorem reachable_fetched {objects : String → Nat → UInt8} :
    ∀ s, ((fetching objects).restrict FetchFits).Reachable s → Fetched objects s := by
  apply System.Reachable.invariant
  · intro s hinit
    exact fetched_init hinit
  · intro s a t hreach h hstep
    obtain ⟨hfit, hstep⟩ := hstep
    cases hstep with
    | inner hstep hlanded =>
        have hgood := reachable_good _ (fetching_base hreach)
        exact fetched_inner h (moves_step hgood hfit hstep) hlanded
    | write byte hread hopen hcovers => exact fetched_write h byte hread hopen hcovers

/-! ## §4. The bytes of a task. -/

/-- Every byte of what is tiled is a byte of a tile. -/
theorem Tiles.cover {chunk : Nat} (cs : List ObjectChunk) :
    ∀ {offset bytesize buffer : Nat}, Tiles chunk offset bytesize buffer cs →
      offset + bytesize ≤ 2 ^ 64 → ∀ y < bytesize, ∃ c ∈ cs, ∃ x < c.bytesize,
        c.offset + x = offset + y ∧ wrap (c.buffer + x) = wrap (buffer + y) := by
  induction cs with
  | nil =>
      intro offset bytesize buffer h _ y hy
      have hzero : bytesize = 0 := h
      omega
  | cons c cs ih =>
      intro offset bytesize buffer h hfit y hy
      obtain ⟨hoffset, hbuffer, -, -, hle, hrest⟩ := h
      by_cases hlt : y < c.bytesize
      · exact ⟨c, List.mem_cons_self, y, hlt, by rw [hoffset], by rw [hbuffer]⟩
      · -- the byte is behind this tile
        have hword : wrap (offset + c.bytesize) = offset + c.bytesize := wrap_of_lt (by omega)
        rw [hword] at hrest
        obtain ⟨c', hmem, x, hx, hposition, haddress⟩ :=
          ih hrest (by omega) (y - c.bytesize) (by omega)
        refine ⟨c', List.mem_cons_of_mem _ hmem, x, hx, by omega, ?_⟩
        rw [haddress, wrap_wrap_add]
        congr 1
        omega

/-- A handle is in one block only. -/
theorem block_unique {s : State} (h : Sound s) {block block' : Block}
    (hblock : block ∈ s.worker.blocks) (hblock' : block' ∈ s.worker.blocks) {t t' handle : Nat}
    (hown : Owns block.base block.chunkTaskIdx t handle)
    (hown' : Owns block'.base block'.chunkTaskIdx t' handle) : block = block' := by
  by_contra hne
  have : Std.Symm Apart := ⟨fun _ _ hab => apart_symm hab⟩
  have hapart := h.apart.forall hblock hblock' hne
  have hlt := hown.lt
  have hlt' := hown'.lt
  unfold Apart Block.size at hapart
  omega

/-- The read of a chunk credited with Success. -/
theorem Fetched.read_of_success {objects : String → Nat → UInt8} {s : Fetching}
    (h : Fetched objects s) (hsound : Sound s.base) {chunk : ObjectChunk}
    (hchunk : chunk ∈ s.base.worker.enqueued)
    (hsuccess : (chunk.handle, ResponseCode.success) ∈ s.base.worker.credits) :
    ∃ read ∈ s.reads, read.chunk = chunk := by
  have hstarted : chunk.handle ∈ s.base.started.reverse :=
    List.mem_reverse.mpr (h.known (h.closed _ hsuccess))
  rw [← h.handles] at hstarted
  obtain ⟨read, hread, hhandle⟩ := List.mem_map.mp hstarted
  exact ⟨read, hread,
    List.inj_on_of_nodup_map hsound.handles_nodup (h.enqueued read hread) hchunk hhandle⟩

/-- **THE OBJECT'S BYTES ARE IN MEMORY.**  Where a task has finished with
Success, each of its bytes has been written by a read of its batch's object,
at that byte's place in the object; and it is still there, unless another
read wrote there that was not over before. -/
theorem object_bytes {objects : String → Nat → UInt8} {s : Fetching}
    (h : ((fetching objects).restrict FetchFits).Reachable s) {e : Nat × Inflight}
    (he : e ∈ s.base.worker.entries) {b : Nat} {r : Running} (hr : e.2.workload[b]? = some r)
    {f : Finish} (hf : f ∈ r.run.log) (hret : f.ret = .success) {task : Task}
    (htask : r.batch.tasks[f.task]? = some task)
    (hfit : task.info.offset + task.info.bytesize ≤ 2 ^ 64) {y : Nat}
    (hy : y < task.info.bytesize) :
    ∃ read ∈ s.reads, read.path = r.batch.path ∧ ∃ x < read.chunk.bytesize,
      read.chunk.offset + x = task.info.offset + y ∧
      wrap (read.chunk.buffer + x) = wrap (task.destination + y) ∧
      s.wrote read.chunk.handle (wrap (task.destination + y))
        = some (objects r.batch.path (task.info.offset + y)) ∧
      (s.Alone read (wrap (task.destination + y)) →
        s.memory (wrap (task.destination + y)) = objects r.batch.path (task.info.offset + y)) := by
  have hsound := (reachable_good _ (fetching_base h)).sound
  have hfetched := reachable_fetched s h
  -- the task has its place, and was read
  have hplaced := Inflight.placed_mem hr htask
  have hbatch : e.2.batches[b]? = some r.batch := by
    rw [Inflight.batches, List.getElem?_map, hr]
    rfl
  have hvalue : ∀ p ∈ placedTasks 0 e.2.batches, p.ref = (b, f.task) → p.value = task := by
    intro p hp href
    obtain ⟨hpb, hpi⟩ := Prod.mk.inj href
    obtain ⟨k, batch, hk, hget, hvalue⟩ := mem_placedTasks.mp hp
    obtain rfl : k = b := by omega
    obtain rfl : r.batch = batch := Option.some.inj (hbatch.symm.trans hget)
    rw [hpi, htask] at hvalue
    exact (Option.some.inj hvalue).symm
  rcases hsound.success e he b r hr f hf hret with ⟨p, hp, href, hzero⟩ | ⟨t, p, hp, href, htiles,
    hcredited⟩
  · rw [hvalue p hp href] at hzero
    omega
  · have hmem : p ∈ placedTasks 0 e.2.batches :=
      List.mem_of_mem_filter (List.mem_of_getElem? hp)
    rw [hvalue p hmem href] at htiles
    obtain ⟨c, hc, x, hx, hposition, haddress⟩ := Tiles.cover _ htiles hfit y hy
    obtain ⟨henqueued, howned⟩ := List.mem_filter.mp hc
    have hown : e.1 ≤ c.handle ∧ e.2.chunkTaskIdx[c.handle - e.1]? = some t :=
      of_decide_eq_true howned
    have hsuccess := hcredited c hc
    obtain ⟨read, hread, rfl⟩ := hfetched.read_of_success hsound henqueued hsuccess
    -- its object is that of the block, which is the entry's
    obtain ⟨block, hblock, t', p', batch, hown', hp', hbatch', hpath⟩ :=
      hfetched.sourced read hread
    obtain rfl := block_unique hsound (List.mem_map_of_mem he) hblock hown hown'
    obtain rfl : t = t' := Option.some.inj (hown.2.symm.trans hown'.2)
    obtain rfl : p = p' := Option.some.inj (hp.symm.trans hp')
    have hpb : p.batch = b := (Prod.mk.inj href).1
    obtain rfl : r.batch = batch := by
      have hget : e.2.batches[p.batch]? = some batch := hbatch'
      rw [hpb, hbatch] at hget
      exact Option.some.inj hget
    have hlanded := hfetched.landed read hread hsuccess x hx
    rw [haddress, hposition, ← hpath] at hlanded
    exact ⟨read, hread, hpath.symm, x, hx, hposition, haddress, hlanded,
      fun halone => hfetched.kept read hread _ _ hlanded halone⟩

/-- An object that counts. -/
def countingObject : String → Nat → UInt8 := fun _ offset => UInt8.ofNat (offset + 1)

/-- The read of the two bytes. -/
def twoBytesRead : IssuedRead := ⟨⟨1, 0, 2, 0⟩, "s3://bucket/object", []⟩

/-- The worker once that is issued. -/
def issuedWorker : Worker :=
  { cutWorker with queue := some ⟨18446744073709551615, 1, []⟩ }

/-- The workload once it is read. -/
def readWorkload : Inflight where
  workload := [⟨⟨1, 0, 0, "s3://bucket/object", some ⟨"s3", "bucket", "object"⟩,
    [⟨⟨0, 0, 0, 1, 2, 0⟩, ⟨0, 2, 2, 0⟩⟩], twoByteRange⟩, ⟨[true], 0, [⟨0, .success⟩]⟩⟩]
  chunkTaskIdx := [0]
  tasks := [⟨0, 0, 0, .success⟩]
  errorByFileIndex := []
  remainingTasks := 0

/-- And the worker once that is credited. -/
def readWorker : Worker :=
  { issuedWorker with
    queue := some ⟨18446744073709551615, 0, []⟩
    inflight := []
    credits := [(1, .success)]
    reported := [(1, readWorkload)] }

theorem submit_twoBytes :
    issuedWorker.submit ⟨1, 0, 2, 0⟩ .success = .ok (issuedWorker, true) := rfl

theorem drain_twoBytes :
    issuedWorker.drainBatch false ⟨.success, [⟨1, .success⟩]⟩ = .ok readWorker := rfl

/-- A step of the worker that neither issues a read nor has a Success. -/
theorem FetchStep.quiet {objects : String → Nat → UInt8} {s : Fetching} {a : Action} {t : State}
    (hstep : Step s.base a t) (hnone : ∀ handle, ¬ Succeeds handle a)
    (hissues : issues s.base t a = []) :
    FetchStep objects s (.inner a) { s with base := t } := by
  have h : FetchStep objects s _ _ :=
    .inner hstep (fun _ _ hsuccess => absurd hsuccess (hnone _))
  rw [hissues, List.append_nil] at h
  exact h

/-- A step that may be in a run. -/
theorem fetching_next {s t : Fetching} (a : FetchAct)
    (h : ((fetching countingObject).restrict FetchFits).Reachable s) (hfit : FetchFits s a)
    (hstep : FetchStep countingObject s a t) :
    ((fetching countingObject).restrict FetchFits).Reachable t := .step h ⟨hfit, hstep⟩

/-- The two bytes are received and issued. -/
theorem issued_twoBytes : ((fetching countingObject).restrict FetchFits).Reachable
    ⟨⟨issuedWorker, .pumping, [1], [], [(twoBytes 2).batches]⟩, [twoBytesRead],
      fun _ _ => none, fun _ => 0⟩ := by
  have hinit : FetchInit ⟨fresh, [], fun _ _ => none, fun _ => 0⟩ :=
    ⟨fresh_init, rfl, fun _ _ => rfl⟩
  have hexecute := Step.execute (s := fresh) (twoBytes 2) unbounded rfl
  rw [receive_twoBytes] at hexecute
  have hsubmit := Step.submit (s := ⟨cutWorker, .pumping, [], [], [(twoBytes 2).batches]⟩) .success
    ⟨18446744073709551615, 0, [⟨⟨1, 0, 2, 0⟩, 1⟩]⟩ ⟨18446744073709551615, 1, []⟩ ⟨1, 0, 2, 0⟩
    rfl (.inl rfl) rfl
  have htaken : ({ cutWorker with queue := some ⟨18446744073709551615, 1, []⟩ } : Worker).submit
      ⟨1, 0, 2, 0⟩ .success = .ok (issuedWorker, true) := submit_twoBytes
  rw [htaken] at hsubmit
  have h₁ := fetching_next (.inner (.execute (twoBytes 2) unbounded)) (.init hinit)
    fits_twoBytes (.quiet hexecute (fun _ => id) rfl)
  have h₂ := fetching_next (.inner .fill) h₁ trivial (.quiet (.fill _ rfl rfl) (fun _ => id) rfl)
  exact fetching_next (.inner (.submit .success)) h₂ trivial
    (.inner hsubmit (fun _ _ hsuccess => hsuccess.elim))

/-- Then written and handed out. -/
theorem fetched_twoBytes : ∃ s, ((fetching countingObject).restrict FetchFits).Reachable s ∧
    s.base.worker = readWorker ∧ s.reads = [twoBytesRead] := by
  have h₁ := fetching_next (.write 1 0 1) issued_twoBytes trivial
    (@FetchStep.write countingObject _ twoBytesRead 0 1 List.mem_cons_self List.not_mem_nil
      ⟨0, by decide, rfl⟩)
  have h₂ := fetching_next (.write 1 1 2) h₁ trivial
    (@FetchStep.write countingObject _ twoBytesRead 1 2 List.mem_cons_self List.not_mem_nil
      ⟨1, by decide, rfl⟩)
  have h₃ := fetching_next (.inner .pumped) h₂ trivial
    (.quiet (.pumped _ rfl rfl (.inr ⟨rfl, rfl⟩)) (fun _ => id) rfl)
  have h₄ := fetching_next (.inner .fill) h₃ trivial (.quiet (.fill _ rfl rfl) (fun _ => id) rfl)
  have h₅ := fetching_next (.inner .close) h₄ trivial
    (.quiet (.close _ rfl rfl (by decide)) (fun _ => id) rfl)
  have hdrain := Step.drain
    (s := ⟨issuedWorker, .ready, [1], [], [(twoBytes 2).batches]⟩) false
    ⟨.success, [⟨1, .success⟩]⟩ [1] _ (.tail _ rfl rfl)
    (.real (by decide) (by decide) (by decide) .nil)
  rw [drain_twoBytes] at hdrain
  refine ⟨_, fetching_next (.inner (.drain false ⟨.success, [⟨1, .success⟩]⟩)) h₅ trivial
    (.inner hdrain ?_), rfl, rfl⟩
  intro read hread _ _ _ x hx
  obtain rfl : read = twoBytesRead := List.mem_singleton.mp hread
  have hx : x < 2 := hx
  rcases (show x = 0 ∨ x = 1 by omega) with rfl | rfl
  · rfl
  · rfl

/-- The two bytes are there. -/
theorem object_bytes_twoBytes : ∃ s, ((fetching countingObject).restrict FetchFits).Reachable s ∧
    s.memory 0 = 1 ∧ s.memory 1 = 2 := by
  obtain ⟨s, hreach, hworker, hreads⟩ := fetched_twoBytes
  have he : (1, readWorkload) ∈ s.base.worker.entries := by
    rw [hworker]
    exact List.mem_cons_self
  have halone : ∀ read ∈ s.reads, ∀ address, s.Alone read address := by
    intro read hread address other hother _
    rw [hreads] at hread hother
    rw [List.mem_singleton.mp hread, List.mem_singleton.mp hother]
    exact Or.inl rfl
  have hbyte : ∀ y < 2, s.memory (wrap (0 + y)) = UInt8.ofNat (0 + y + 1) := by
    intro y hy
    obtain ⟨read, hread, -, x, -, -, -, -, hbyte⟩ := @object_bytes countingObject s hreach
      (1, readWorkload) he 0 _ rfl ⟨0, .success⟩ List.mem_cons_self rfl _ rfl (by decide) y hy
    exact hbyte (halone read hread _)
  exact ⟨s, hreach, hbyte 0 (by decide), hbyte 1 (by decide)⟩

end ModelStreamer.ObjectStorage
