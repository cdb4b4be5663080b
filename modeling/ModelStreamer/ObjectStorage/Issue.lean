/-
  ModelStreamer.ObjectStorage.Issue
  ─────────────────────────────────
  **A WORKER, ITS S3 CLIENT, AND THE STOPS OF OTHERS** (`s3/client/client.cc`
  under `impl/object_storage_worker`).

  `async_read` counts the response, hands the read to the SDK, and THEN looks
  at the stop flag: a read that the SDK owns can come back as refused, and the
  worker credits its chunk at once.  `stop` raises the flag first and stops
  the responder after it, so the read's completion can still be delivered.

    • `joint` — every interleaving of the worker's thread, the callbacks of
      the SDK, and both halves of any number of stops,
    • `JointInv.step` — as long as no read is refused that the SDK owns or
      whose completion can still come, every step keeps the invariant,
    • `refused_never_completes` — then a refused handle is never delivered,
      no chunk is credited twice, the window covers what the SDK owns, and no
      reported workload is still written to; `abort_all` alone leaves reads
      behind,
    • `refused_completes` — one stop between the two, and all of it fails.
-/
import ModelStreamer.ObjectStorage.Client
import ModelStreamer.ObjectStorage.Retained
import ModelStreamer.ObjectStorage.Sound

namespace ModelStreamer.ObjectStorage

open ModelStreamer.Lib ModelStreamer.Planning ModelStreamer.Delivery

/-! ## §1. The worker's thread, as a function. -/

/-- The moves of the worker's thread that the client has no part in. -/
def State.own (s : State) : Action → Option State
  | .execute workload backend =>
      if s.pc = .ready then
        some (s.after (s.worker.receive workload backend) (fun result =>
          { s with
            worker := result.1
            pc := if result.2 then .filling else .ready
            executed := s.executed ++ [workload.batches] }))
      else none
  | .fill =>
      if s.pc = .filling then
        s.worker.queue.map (fun q => { s with pc := if q.empty then .closing else .pumping })
      else none
  | .pumped =>
      match s.worker.queue with
      | none => none
      | some q =>
          if q.tryTake = none ∧ (s.pc = .refilling ∨ (s.pc = .pumping ∧ q.empty = true)) then
            some { s with pc := if s.pc = .refilling then .ready else .filling }
          else none
  | .close =>
      match s.worker.queue with
      | none => none
      | some q =>
          if s.pc = .closing ∧ q.inflight < q.capacity then some { s with pc := .ready } else none
  | .submit _ => none
  | .drain _ _ => none

/-- `try_take` in `pump`: the chunk to submit, and the queue without it. -/
def State.taken (s : State) : Option (ObjectChunk × CapacityQueue ObjectChunk) :=
  if s.pc = .pumping ∨ s.pc = .refilling then s.worker.queue.bind CapacityQueue.tryTake else none

/-- `submit` of the chunk taken. -/
def State.submitted (s : State) (chunk : ObjectChunk) (q : CapacityQueue ObjectChunk)
    (outcome : ResponseCode) : State :=
  s.after ({ s.worker with queue := some q }.submit chunk outcome) (fun result =>
    { s with
      worker := result.1
      started := if result.2 then chunk.handle :: s.started else s.started })

/-- Where a `drain_batch` that can be called now returns to. -/
def State.draining (s : State) : Option Pc :=
  match s.worker.queue with
  | none => none
  | some q =>
      if s.pc = .pumping ∧ q.tryTake = none ∧ q.empty = false then some .filling
      else if s.pc = .closing ∧ q.capacity ≤ q.inflight then some .ready
      else if s.pc = .ready then some .refilling
      else none

/-- `drain_batch`. -/
def State.drained (s : State) (next : Pc) (stopped : Bool) (round : Round)
    (delivered : List Nat) : State :=
  s.after (s.worker.drainBatch stopped round) (fun worker =>
    { s with worker := worker, pc := next, delivered := delivered })

theorem own_step {s t : State} {a : Action} (h : s.own a = some t) : Step s a t := by
  cases a with
  | execute workload backend =>
      rw [State.own] at h
      split at h
      next hpc =>
        simp only [Option.some.injEq] at h
        exact h ▸ .execute workload backend hpc
      · simp at h
  | fill =>
      rw [State.own] at h
      split at h
      next hpc =>
        obtain ⟨q, hq, rfl⟩ := Option.map_eq_some_iff.mp h
        exact .fill q hq hpc
      · simp at h
  | pumped =>
      rw [State.own] at h
      split at h
      · simp at h
      next q hq =>
        split at h
        next hdone =>
          simp only [Option.some.injEq] at h
          exact h ▸ .pumped q hq hdone.1 hdone.2
        · simp at h
  | close =>
      rw [State.own] at h
      split at h
      · simp at h
      next q hq =>
        split at h
        next hroom =>
          simp only [Option.some.injEq] at h
          exact h ▸ .close q hq hroom.1 hroom.2
        · simp at h
  | submit outcome => simp [State.own] at h
  | drain stopped round => simp [State.own] at h

theorem taken_queue {s : State} {chunk : ObjectChunk} {q' : CapacityQueue ObjectChunk}
    (h : s.taken = some (chunk, q')) :
    ∃ q, s.worker.queue = some q ∧ q.tryTake = some (chunk, q') ∧
      (s.pc = .pumping ∨ s.pc = .refilling) := by
  unfold State.taken at h
  split at h
  next hpc =>
    obtain ⟨q, hq, htake⟩ := Option.bind_eq_some_iff.mp h
    exact ⟨q, hq, htake, hpc⟩
  · simp at h

theorem draining_of {s : State} {next : Pc} (h : s.draining = some next) : Draining s next := by
  unfold State.draining at h
  split at h
  · simp at h
  next q hq =>
    split at h
    next hloop =>
      simp only [Option.some.injEq] at h
      exact h ▸ .loop q hq hloop.1 hloop.2.1 hloop.2.2
    · split at h
      next hfull =>
        simp only [Option.some.injEq] at h
        exact h ▸ .full q hq hfull.1 hfull.2
      · split at h
        next hpc =>
          simp only [Option.some.injEq] at h
          exact h ▸ .tail q hq hpc
        · simp at h

/-! ## §2. The worker and its client. -/

/-- Where the worker's call of `async_read` is. -/
inductive Call where
  /-- There is none. -/
  | none
  /-- The response is counted. -/
  | begun
  /-- The SDK has the read. -/
  | issued
  deriving DecidableEq, Repr

/-- What comes of a read. -/
inductive Fetch where
  | read
  /-- Another length than asked for. -/
  | misread
  | failed
  deriving DecidableEq, Repr

/-- The code the callback pushes. -/
def Fetch.code : Fetch → ResponseCode
  | .read => .success
  | .misread => .fileTruncatedError
  | .failed => .fileAccessError

/-- A worker with its S3 client.  `sdk` are the reads the SDK owns: issued,
and their callback has not run; `stopping` counts the calls of `stop` between
their two halves.  History: `refused` are the handles `async_read` returned
another code than Success for, `abandoned` those the SDK owned when the worker
dropped everything. -/
structure Joint where
  base : State
  client : S3Client
  call : Call
  sdk : List Nat
  stopping : Nat
  refused : List Nat
  abandoned : List Nat

inductive JointAction where
  /-- A move of the worker's thread without the client. -/
  | own (a : Action)
  /-- `submit` of a chunk whose task has failed. -/
  | skip
  /-- `async_read`, up to `GetObjectAsync`. -/
  | begin
  /-- An exception there. -/
  | throw
  /-- `GetObjectAsync`. -/
  | issue
  /-- `async_read` returns, and `submit` with it. -/
  | ret
  /-- The SDK is done with a read, and runs its callback. -/
  | callback (handle : Nat) (fetch : Fetch)
  | drain (stopped : Bool)
  /-- The two halves of `stop`, by any streamer. -/
  | raiseStop
  | stopResponder

/-- `async_read_response`. -/
def S3Client.asyncReadResponse (c : S3Client) : SharedQueue.Pop Completion :=
  match c.responder with
  | none => .finished
  | some responder => responder.pop

/-- The chunks in flight, as the worker's window counts them: the chunk at
hand has been taken from the queue. -/
def Joint.inflight (s : Joint) : Nat :=
  ((s.base.worker.queue.map CapacityQueue.inflight).getD 0) + if s.call = .none then 0 else 1

def jointStep (s : Joint) : JointAction → Option Joint
  | .own a =>
      if s.call = .none then (s.base.own a).map (fun base => { s with base := base }) else none
  | .skip =>
      match s.base.taken with
      | none => none
      | some (chunk, q) =>
          if s.call = .none ∧ s.base.worker.doomed chunk = true then
            some { s with base := s.base.submitted chunk q .success }
          else none
  | .begin =>
      match s.base.taken with
      | none => none
      | some (chunk, _) =>
          if s.call = .none ∧ s.base.worker.doomed chunk = false then
            some { s with call := .begun, client := s.client.expect }
          else none
  | .throw =>
      match s.base.taken with
      | none => none
      | some (chunk, q) =>
          if s.call = .begun then
            some { s with
              base := s.base.submitted chunk q .unknownError
              call := .none
              refused := chunk.handle :: s.refused }
          else none
  | .issue =>
      match s.base.taken with
      | none => none
      | some (chunk, _) =>
          if s.call = .begun then
            some { s with call := .issued, sdk := chunk.handle :: s.sdk }
          else none
  | .ret =>
      match s.base.taken with
      | none => none
      | some (chunk, q) =>
          if s.call = .issued then
            some { s with
              base := s.base.submitted chunk q s.client.readCode
              call := .none
              refused :=
                if s.client.readCode = .success then s.refused else chunk.handle :: s.refused }
          else none
  | .callback handle fetch =>
      if handle ∈ s.sdk then
        some { s with
          sdk := s.sdk.erase handle
          client := { s.client with
            responder := s.client.responder.map (fun q => q.push ⟨handle, fetch.code⟩) } }
      else none
  | .drain stopped =>
      match s.base.draining with
      | none => none
      | some next =>
          if s.call ≠ .none then none
          else if stopped = true then
            some { s with
              base := s.base.drained next true ⟨.success, []⟩ s.base.delivered
              abandoned := s.sdk ++ s.abandoned }
          else
            match s.client.asyncReadResponse with
            | .waits => none
            | .finished =>
                -- one event, which is the sentinel
                some { s with
                  base := s.base.drained next false ⟨.success, [⟨0, .finishedError⟩]⟩
                    s.base.delivered
                  abandoned := s.sdk ++ s.abandoned }
            | .response r responder =>
                some { s with
                  base := s.base.drained next false ⟨.success, [r]⟩ (r.handle :: s.base.delivered)
                  client := { s.client with responder := some responder } }
  | .raiseStop => some { s with client := s.client.raiseStop, stopping := s.stopping + 1 }
  | .stopResponder =>
      if 0 < s.stopping then
        some { s with client := s.client.stopResponder, stopping := s.stopping - 1 }
      else none

/-- The responses a client can still hand out. -/
def S3Client.queued (c : S3Client) : List Completion :=
  match c.responder with
  | none => []
  | some responder => if responder.stopped = true then [] else responder.responses

/-- A worker that has not received anything, with a client that is new or
comes from the pool with nothing to hand out. -/
structure JointInit (s : Joint) : Prop where
  base : Init s.base
  queued : s.client.queued = []
  call_eq : s.call = .none
  sdk_eq : s.sdk = []
  refused_eq : s.refused = []
  abandoned_eq : s.abandoned = []

/-- The worker, its client, the SDK, and the stops. -/
def joint : System Joint JointAction where
  init := JointInit
  step s a t := jointStep s a = some t

/-- The responder is stopped. -/
def S3Client.closed (c : S3Client) : Bool := (c.responder.map SharedQueue.stopped).getD false

/-- **The condition**: `async_read` does not look at a raised flag while the
SDK owns the read it has issued, or can still have its completion delivered.
(And the workloads fit in the word arithmetic of `enqueue`.) -/
def Permitted (s : Joint) : JointAction → Prop
  | .own a => StepFits s.base a
  | .ret => s.client.stop = true →
      s.client.closed = true ∧ ∀ chunk q, s.base.taken = some (chunk, q) → chunk.handle ∉ s.sdk
  | _ => True

instance (s : Joint) : (a : JointAction) → Decidable (Permitted s a)
  | .own a => inferInstanceAs (Decidable (StepFits s.base a))
  | .ret =>
      match h : s.base.taken with
      | none =>
          decidable_of_iff (s.client.stop = true → s.client.closed = true)
            ⟨fun hc hs => ⟨hc hs, fun _ _ ht => by simp [h] at ht⟩, fun hc hs => (hc hs).1⟩
      | some (chunk, q) =>
          decidable_of_iff
            (s.client.stop = true → s.client.closed = true ∧ chunk.handle ∉ s.sdk)
            ⟨fun hc hs => ⟨(hc hs).1, fun _ _ ht => by
                obtain ⟨rfl, -⟩ := Prod.mk.inj (Option.some.inj (h.symm.trans ht))
                exact (hc hs).2⟩,
              fun hc hs => ⟨(hc hs).1, (hc hs).2 chunk q h⟩⟩
  | .skip | .begin | .throw | .issue | .callback _ _ | .drain _ | .raiseStop | .stopResponder =>
      isTrue trivial

/-- Nothing is dropped while the SDK owns reads. -/
def Settled (s : Joint) : JointAction → Prop
  | .drain stopped =>
      (stopped = true ∨ ∀ r responder, s.client.asyncReadResponse ≠ .response r responder) →
        s.sdk = []
  | _ => True

instance (s : Joint) : (a : JointAction) → Decidable (Settled s a)
  | .drain stopped =>
      match h : s.client.asyncReadResponse with
      | .response r responder =>
          decidable_of_iff (stopped = true → s.sdk = [])
            ⟨fun hc hor => hc (hor.resolve_right (fun hno => hno r responder h)),
              fun hc hs => hc (.inl hs)⟩
      | .finished | .waits =>
          decidable_of_iff (s.sdk = [])
            ⟨fun hc _ => hc, fun hc => hc (.inr (by simp [h]))⟩
  | .own _ | .skip | .begin | .throw | .issue | .ret | .callback _ _ | .raiseStop
  | .stopResponder => isTrue trivial

/-- The reads the SDK owns, other than those left behind by an abort. -/
def Joint.owned (s : Joint) : List Nat := s.sdk.filter (fun handle => decide (handle ∉ s.abandoned))

/-! ## §3. What is kept. -/

/-- The handle of the read just issued, while `async_read` has not returned. -/
def Joint.hand (s : Joint) : Option Nat :=
  if s.call = .issued then s.base.taken.map (fun t => t.1.handle) else none

/-- The SDK has been given the read. -/
def Joint.Issued (s : Joint) (handle : Nat) : Prop :=
  handle ∈ s.base.started ∨ s.hand = some handle

/-- What holds of a worker with its client, at any time.  A refused handle is
neither started nor pending, so nothing of it can be delivered. -/
structure JointInv (s : Joint) : Prop where
  good : Good s.base
  at_hand : s.call ≠ .none →
    ∃ chunk q, s.base.taken = some (chunk, q) ∧ s.base.worker.doomed chunk = false
  delivered : ∀ handle ∈ s.base.delivered, handle ∈ s.base.started
  sdk_nodup : s.sdk.Nodup
  sdk_issued : ∀ handle ∈ s.sdk, s.Issued handle
  sdk_undelivered : ∀ handle ∈ s.sdk, handle ∉ s.base.delivered
  sdk_open : ∀ handle ∈ s.sdk, handle ∉ s.abandoned → handle ∈ s.base.worker.openHandles
  queued : ∀ r ∈ s.client.queued, s.Issued r.handle ∧ r.handle ∉ s.sdk ∧
    r.handle ∉ s.base.delivered ∧ r.ret ≠ .finishedError
  queued_nodup : (s.client.queued.map Completion.handle).Nodup
  refused : ∀ handle ∈ s.refused, handle < s.base.worker.asyncHandleCounter ∧
    handle ∉ s.base.worker.pendingHandles ∧ handle ∉ s.base.started

theorem joint_init {s : Joint} (h : JointInit s) : JointInv s := by
  have hgood := good_init h.base
  have hdelivered : s.base.delivered = [] := h.base.delivered_eq
  refine ⟨hgood, fun hne => absurd h.call_eq hne, ?_, ?_, ?_, ?_, ?_, ?_, ?_, ?_⟩
  · rw [hdelivered]
    simp
  · rw [h.sdk_eq]
    exact .nil
  · rw [h.sdk_eq]
    simp
  · rw [h.sdk_eq]
    simp
  · rw [h.sdk_eq]
    simp
  · rw [h.queued]
    simp
  · rw [h.queued]
    exact .nil
  · rw [h.refused_eq]
    simp

theorem Joint.issued_started {s : Joint} (hcall : s.call ≠ .issued) {handle : Nat}
    (h : s.Issued handle) : handle ∈ s.base.started := by
  refine h.resolve_right ?_
  unfold Joint.hand
  rw [if_neg hcall]
  simp

/-! ## §4. The responder. -/

/-- One more response is expected: nothing is handed out differently. -/
theorem expect_queued (c : S3Client) : c.expect.queued = c.queued := by
  unfold S3Client.expect S3Client.queued
  cases hresponder : c.responder with
  | none => rfl
  | some responder => rfl

/-- A stopped client hands nothing out. -/
theorem stopResponder_queued (c : S3Client) : c.stopResponder.queued = [] := by
  unfold S3Client.stopResponder S3Client.queued
  cases c.responder with
  | none => rfl
  | some responder => rfl

theorem closed_queued {c : S3Client} (h : c.closed = true) : c.queued = [] := by
  unfold S3Client.closed at h
  unfold S3Client.queued
  cases hresponder : c.responder with
  | none => rfl
  | some responder =>
      rw [hresponder] at h
      exact if_pos h

/-- A callback adds its completion, or nothing. -/
theorem push_queued (c : S3Client) (r : Completion) :
    ({ c with responder := c.responder.map (fun q => q.push r) } : S3Client).queued = c.queued ∨
      ({ c with responder := c.responder.map (fun q => q.push r) } : S3Client).queued
        = c.queued ++ [r] := by
  unfold S3Client.queued
  cases hresponder : c.responder with
  | none => exact .inl rfl
  | some q =>
      rw [Option.map_some]
      unfold SharedQueue.push
      by_cases hstopped : q.stopped = true
      · simp [hstopped]
      · by_cases hrunning : 0 < q.running
        · simp [hstopped, hrunning]
        · simp [hstopped, hrunning]

/-- What is handed out is the first of what is queued. -/
theorem response_queued {c : S3Client} {r : Completion} {responder : SharedQueue Completion}
    (h : c.asyncReadResponse = .response r responder) :
    c.queued = r :: ({ c with responder := some responder } : S3Client).queued := by
  unfold S3Client.asyncReadResponse at h
  unfold S3Client.queued
  cases hresponder : c.responder with
  | none => simp [hresponder] at h
  | some q =>
      rw [hresponder] at h
      obtain ⟨hopen, hresponses, hrest⟩ := SharedQueue.pop_response h
      have hopen' : responder.stopped = false := by rw [hrest]; exact hopen
      simp only [hopen, hopen', Bool.false_eq_true, if_false]
      exact hresponses

/-! ## §5. The steps. -/

/-- **The end of a submission**: what becomes of the worker, of the chunk at
hand, and of the others. -/
theorem submitted_ok {s : State} (h : Good s) {chunk : ObjectChunk} {q : CapacityQueue ObjectChunk}
    (htaken : s.taken = some (chunk, q)) (outcome : ResponseCode) :
    ∃ w' issued, s.submitted chunk q outcome = { s with
        worker := w'
        started := if issued then chunk.handle :: s.started else s.started } ∧
      issued = (!s.worker.doomed chunk && decide (outcome = .success)) ∧
      Good (s.submitted chunk q outcome) ∧
      w'.asyncHandleCounter = s.worker.asyncHandleCounter ∧
      (∀ k ∈ w'.pendingHandles, k ∈ s.worker.pendingHandles ∧ k ≠ chunk.handle) ∧
      ∀ k ∈ s.worker.openHandles, issued = true ∨ k ≠ chunk.handle → k ∈ w'.openHandles := by
  obtain ⟨q₀, hq, htake, -⟩ := taken_queue htaken
  obtain ⟨hinv, hopen, hpending, hnot⟩ := take_ok h.inv hq htake
  obtain ⟨w', issued, hok, -, hkept, -, -⟩ := submit_ok hinv outcome hopen hnot
  have hissued := submit_issued hok
  refine ⟨w', issued, ?_, hissued, good_submit h outcome hq htake, hkept.counter_eq, fun k hk => ?_,
    fun k hk hne => submit_retains hinv hopen hok hk hne⟩
  · unfold State.submitted
    rw [hok]
    rfl
  · have hk' := hkept.pending.subset hk
    refine ⟨?_, fun heq => hnot (heq ▸ hk')⟩
    rw [hpending]
    exact List.mem_cons_of_mem _ hk'

/-- The chunk at hand is pending, open, and known. -/
theorem taken_chunk {s : State} (h : Good s) {chunk : ObjectChunk} {q : CapacityQueue ObjectChunk}
    (htaken : s.taken = some (chunk, q)) :
    chunk.handle ∈ s.worker.pendingHandles ∧ chunk.handle ∈ s.worker.openHandles ∧
      chunk.handle < s.worker.asyncHandleCounter := by
  obtain ⟨q₀, hq, htake, -⟩ := taken_queue htaken
  obtain ⟨-, hopen, hpending, -⟩ := take_ok h.inv hq htake
  refine ⟨by rw [hpending]; exact List.mem_cons_self, hopen, ?_⟩
  obtain ⟨⟨e, he, hin⟩, -⟩ := mem_openAll.mp hopen
  exact (h.inv.known he hin).2

/-- **A submission that comes to no read**: the chunk is credited, and was not
left with the SDK. -/
theorem JointInv.fail {s : Joint} (h : JointInv s) {chunk : ObjectChunk}
    {q : CapacityQueue ObjectChunk} (htaken : s.base.taken = some (chunk, q))
    {outcome : ResponseCode} {refused : List Nat}
    (hfails : s.base.worker.doomed chunk = true ∨ outcome ≠ .success)
    (hrefused : ∀ k ∈ refused, k = chunk.handle ∨ k ∈ s.refused)
    (hsdk : chunk.handle ∉ s.sdk)
    (hqueued : ∀ r ∈ s.client.queued, r.handle ∈ s.base.started) :
    JointInv { s with
      base := s.base.submitted chunk q outcome
      call := .none
      refused := refused } := by
  obtain ⟨w', issued, hbase, hissued, hgood, hcounter, hpending, hopens⟩ :=
    submitted_ok h.good htaken outcome
  obtain ⟨hpend, hopen, hlt⟩ := taken_chunk h.good htaken
  have hnot : issued = false := by
    rw [hissued]
    rcases hfails with hdoomed | houtcome
    · simp [hdoomed]
    · simp [houtcome]
  rw [hnot] at hbase
  have hfresh : chunk.handle ∉ s.base.started :=
    fun hs => h.good.env.started_pending _ hs hpend
  have hstarted : ∀ k ∈ s.sdk, k ∈ s.base.started := by
    intro k hk
    refine (h.sdk_issued k hk).resolve_right (fun hhand => ?_)
    -- only the chunk at hand could be issued and not started
    unfold Joint.hand at hhand
    split at hhand
    · rw [htaken] at hhand
      obtain rfl := Option.some.inj hhand
      exact hsdk hk
    · simp at hhand
  rw [hbase] at hgood ⊢
  refine ⟨hgood, fun hne => absurd rfl hne, h.delivered, h.sdk_nodup, fun k hk => .inl (hstarted k hk),
    h.sdk_undelivered, fun k hk hab => ?_, fun r hr => ?_, h.queued_nodup, fun k hk => ?_⟩
  · exact hopens k (h.sdk_open k hk hab) (.inr (fun heq => hsdk (heq ▸ hk)))
  · obtain ⟨-, hnew, hundelivered, hret⟩ := h.queued r hr
    exact ⟨.inl (hqueued r hr), hnew, hundelivered, hret⟩
  · show k < w'.asyncHandleCounter ∧ k ∉ w'.pendingHandles ∧ k ∉ s.base.started
    rw [hcounter]
    rcases hrefused k hk with rfl | hold
    · exact ⟨hlt, fun hp => (hpending _ hp).2 rfl, hfresh⟩
    · obtain ⟨hk₁, hk₂, hk₃⟩ := h.refused k hold
      exact ⟨hk₁, fun hp => hk₂ (hpending k hp).1, hk₃⟩

/-- **A read that is accepted**: it is started. -/
theorem JointInv.accept {s : Joint} (h : JointInv s) {chunk : ObjectChunk}
    {q : CapacityQueue ObjectChunk} (htaken : s.base.taken = some (chunk, q))
    (hdoomed : s.base.worker.doomed chunk = false) :
    JointInv { s with
      base := s.base.submitted chunk q .success
      call := .none } := by
  obtain ⟨w', issued, hbase, hissued, hgood, hcounter, hpending, hopens⟩ :=
    submitted_ok h.good htaken .success
  obtain ⟨hpend, hopen, hlt⟩ := taken_chunk h.good htaken
  have hyes : issued = true := by
    rw [hissued, hdoomed]
    rfl
  rw [hyes] at hbase
  have hstarted : ∀ k, s.Issued k → k ∈ chunk.handle :: s.base.started := by
    intro k hk
    rcases hk with hk | hhand
    · exact List.mem_cons_of_mem _ hk
    · unfold Joint.hand at hhand
      split at hhand
      · rw [htaken] at hhand
        obtain rfl := Option.some.inj hhand
        exact List.mem_cons_self
      · simp at hhand
  rw [hbase] at hgood ⊢
  refine ⟨hgood, fun hne => absurd rfl hne, fun k hk => List.mem_cons_of_mem _ (h.delivered k hk),
    h.sdk_nodup, fun k hk => .inl (hstarted k (h.sdk_issued k hk)), h.sdk_undelivered,
    fun k hk hab => hopens k (h.sdk_open k hk hab) (.inl hyes), fun r hr => ?_, h.queued_nodup,
    fun k hk => ?_⟩
  · obtain ⟨hissued, hnew, hundelivered, hret⟩ := h.queued r hr
    exact ⟨.inl (hstarted _ hissued), hnew, hundelivered, hret⟩
  · show k < w'.asyncHandleCounter ∧ k ∉ w'.pendingHandles ∧ k ∉ chunk.handle :: s.base.started
    obtain ⟨hk₁, hk₂, hk₃⟩ := h.refused k hk
    rw [hcounter, List.mem_cons, not_or]
    exact ⟨hk₁, fun hp => hk₂ (hpending k hp).1, fun heq => hk₂ (heq ▸ hpend), hk₃⟩

/-- A move of the worker's thread alone. -/
theorem own_keeps {s t : State} (h : Good s) {a : Action} (hfit : StepFits s a)
    (hown : s.own a = some t) :
    t.started = s.started ∧ t.delivered = s.delivered ∧
      s.worker.asyncHandleCounter ≤ t.worker.asyncHandleCounter ∧
      (∀ k ∈ t.worker.pendingHandles,
        k ∈ s.worker.pendingHandles ∨ s.worker.asyncHandleCounter ≤ k) ∧
      ∀ k ∈ s.worker.openHandles, k ∈ t.worker.openHandles := by
  cases own_step hown with
  | execute workload backend hpc =>
      obtain ⟨w', enqueued, hok, -, hrec, -, -⟩ := receive_ok h.inv backend hfit
      simp only [hok, State.after]
      exact ⟨trivial, trivial, hrec.counter_le, hrec.pending,
        fun k hk => receive_retains h.inv hok hrec.credits hk⟩
  | fill q hq hpc => exact ⟨rfl, rfl, Nat.le_refl _, fun _ hk => .inl hk, fun _ hk => hk⟩
  | submit outcome q q' chunk hq hpc htake => simp [State.own] at hown
  | drain stopped round delivered next hdraining hround => simp [State.own] at hown
  | pumped q hq hdone hpc => exact ⟨rfl, rfl, Nat.le_refl _, fun _ hk => .inl hk, fun _ hk => hk⟩
  | close q hq hpc hroom => exact ⟨rfl, rfl, Nat.le_refl _, fun _ hk => .inl hk, fun _ hk => hk⟩

theorem JointInv.own {s : Joint} (h : JointInv s) (hcall : s.call = .none) {a : Action}
    (hfit : StepFits s.base a) {base : State} (hown : s.base.own a = some base) :
    JointInv { s with base := base } := by
  obtain ⟨hstarted, hdelivered, hcounter, hpending, hopens⟩ := own_keeps h.good hfit hown
  have hcall' : s.call ≠ .issued := by simp [hcall]
  refine ⟨good_step h.good hfit (own_step hown), fun hne => absurd hcall hne, ?_, h.sdk_nodup,
    fun k hk => ?_, ?_, fun k hk hab => hopens k (h.sdk_open k hk hab), fun r hr => ?_,
    h.queued_nodup, fun k hk => ?_⟩
  · rw [hdelivered, hstarted]
    exact h.delivered
  · refine .inl ?_
    rw [hstarted]
    exact Joint.issued_started hcall' (h.sdk_issued k hk)
  · rw [hdelivered]
    exact h.sdk_undelivered
  · obtain ⟨hissued, hnew, hundelivered, hret⟩ := h.queued r hr
    refine ⟨.inl ?_, hnew, ?_, hret⟩
    · rw [hstarted]
      exact Joint.issued_started hcall' hissued
    · rw [hdelivered]
      exact hundelivered
  · obtain ⟨hk₁, hk₂, hk₃⟩ := h.refused k hk
    refine ⟨Nat.lt_of_lt_of_le hk₁ hcounter, fun hp => ?_, by rw [hstarted]; exact hk₃⟩
    rcases hpending k hp with hp | hp
    · exact hk₂ hp
    · omega

/-- **Draining**, when what is not abandoned stays open. -/
theorem JointInv.drained {s : Joint} (h : JointInv s) (hcall : s.call = .none) {next : Pc}
    (hdraining : s.base.draining = some next) {stopped : Bool} {round : Round}
    {delivered : List Nat} {client : S3Client} {abandoned : List Nat}
    (hround : if stopped = true ∨ round.ret ≠ .success then delivered = s.base.delivered
      else Delivers s.base.worker.asyncHandleCounter s.base.started s.base.delivered
        round.responses delivered)
    (hdelivered : ∀ k ∈ delivered, k ∈ s.base.delivered ∨
      k ∈ s.base.started ∧ k ∉ s.sdk ∧ k ∉ client.queued.map Completion.handle)
    (hclient : client.queued.Sublist s.client.queued)
    (hopens : ∀ w', s.base.worker.drainBatch stopped round = .ok w' →
      ∀ k ∈ s.sdk, k ∉ abandoned → k ∈ w'.openHandles) :
    JointInv { s with
      base := s.base.drained next stopped round delivered
      client := client
      abandoned := abandoned } := by
  obtain ⟨w', hok, -, hkept, -⟩ := drainBatch_ok h.good.inv h.good.env hround
  have hgood : Good (s.base.drained next stopped round delivered) :=
    good_step h.good (show StepFits s.base (.drain stopped round) from trivial)
      (.drain stopped round delivered next (draining_of hdraining) hround)
  have hbase : s.base.drained next stopped round delivered
      = { s.base with worker := w', pc := next, delivered := delivered } := by
    unfold State.drained
    rw [hok]
    rfl
  have hstarted : ∀ k, s.Issued k → k ∈ s.base.started :=
    fun k hk => Joint.issued_started (by simp [hcall]) hk
  rw [hbase] at hgood ⊢
  refine ⟨hgood, fun hne => absurd hcall hne, fun k hk => ?_, h.sdk_nodup,
    fun k hk => .inl (hstarted k (h.sdk_issued k hk)), fun k hk hd => ?_, hopens w' hok,
    fun r hr => ?_, h.queued_nodup.sublist (hclient.map _), fun k hk => ?_⟩
  · rcases hdelivered k hk with hk | hk
    · exact h.delivered k hk
    · exact hk.1
  · rcases hdelivered k hd with hd | hd
    · exact h.sdk_undelivered k hk hd
    · exact hd.2.1 hk
  · obtain ⟨hissued, hnew, hundelivered, hret⟩ := h.queued r (hclient.subset hr)
    refine ⟨.inl (hstarted _ hissued), hnew, fun hd => ?_, hret⟩
    rcases hdelivered _ hd with hd | hd
    · exact hundelivered hd
    · exact hd.2.2 (List.mem_map_of_mem hr)
  · obtain ⟨hk₁, hk₂, hk₃⟩ := h.refused k hk
    exact ⟨by rw [hkept.counter_eq]; exact hk₁, fun hp => hk₂ (hkept.pending.subset hp), hk₃⟩

/-- The SDK runs a callback. -/
theorem JointInv.callback {s : Joint} (h : JointInv s) {handle : Nat} {fetch : Fetch}
    (hsdk : handle ∈ s.sdk) :
    JointInv { s with
      sdk := s.sdk.erase handle
      client := { s.client with
        responder := s.client.responder.map (fun q => q.push ⟨handle, fetch.code⟩) } } := by
  have hret : fetch.code ≠ .finishedError := by cases fetch <;> simp [Fetch.code]
  have hold : ∀ r ∈ s.client.queued, s.Issued r.handle ∧ r.handle ∉ s.sdk.erase handle ∧
      r.handle ∉ s.base.delivered ∧ r.ret ≠ .finishedError := by
    intro r hr
    obtain ⟨hissued, hnew, hundelivered, hret⟩ := h.queued r hr
    exact ⟨hissued, fun hm => hnew (List.mem_of_mem_erase hm), hundelivered, hret⟩
  refine ⟨h.good, h.at_hand, h.delivered, h.sdk_nodup.erase _,
    fun k hk => h.sdk_issued k (List.mem_of_mem_erase hk),
    fun k hk => h.sdk_undelivered k (List.mem_of_mem_erase hk),
    fun k hk => h.sdk_open k (List.mem_of_mem_erase hk), ?_, ?_, h.refused⟩
  · show ∀ r ∈ S3Client.queued _, _
    rcases push_queued s.client ⟨handle, fetch.code⟩ with hsame | hmore
    · rw [hsame]
      exact hold
    · rw [hmore]
      intro r hr
      rcases List.mem_append.mp hr with hr | hr
      · exact hold r hr
      · obtain rfl := List.mem_singleton.mp hr
        exact ⟨h.sdk_issued handle hsdk, h.sdk_nodup.not_mem_erase,
          h.sdk_undelivered handle hsdk, hret⟩
  · show (S3Client.queued _ |>.map Completion.handle).Nodup
    rcases push_queued s.client ⟨handle, fetch.code⟩ with hsame | hmore
    · rw [hsame]
      exact h.queued_nodup
    · rw [hmore, List.map_append, List.nodup_append]
      refine ⟨h.queued_nodup, by simp, fun a ha b hb hab => ?_⟩
      obtain rfl : b = handle := by simpa using hb
      obtain ⟨r, hr, rfl⟩ := List.mem_map.mp ha
      exact (h.queued r hr).2.1 (hab ▸ hsdk)

/-- The client changes, and hands out no more than before. -/
theorem JointInv.reclient {s : Joint} (h : JointInv s) {client : S3Client} {stopping : Nat}
    (hclient : client.queued.Sublist s.client.queued) :
    JointInv { s with client := client, stopping := stopping } :=
  ⟨h.good, h.at_hand, h.delivered, h.sdk_nodup, h.sdk_issued, h.sdk_undelivered, h.sdk_open,
    fun r hr => h.queued r (hclient.subset hr), h.queued_nodup.sublist (hclient.map _), h.refused⟩

/-- The reads begin to be counted, or the SDK gets one. -/
theorem JointInv.begin {s : Joint} (h : JointInv s) {chunk : ObjectChunk}
    {q : CapacityQueue ObjectChunk} (htaken : s.base.taken = some (chunk, q))
    (hcall : s.call = .none) (hdoomed : s.base.worker.doomed chunk = false) :
    JointInv { s with call := .begun, client := s.client.expect } := by
  have hstarted : ∀ k, s.Issued k → k ∈ s.base.started :=
    fun k hk => Joint.issued_started (by simp [hcall]) hk
  refine ⟨h.good, fun _ => ⟨chunk, q, htaken, hdoomed⟩, h.delivered, h.sdk_nodup,
    fun k hk => .inl (hstarted k (h.sdk_issued k hk)), h.sdk_undelivered, h.sdk_open, ?_, ?_,
    h.refused⟩
  · show ∀ r ∈ s.client.expect.queued, _
    rw [expect_queued]
    intro r hr
    obtain ⟨hissued, hnew, hundelivered, hret⟩ := h.queued r hr
    exact ⟨.inl (hstarted _ hissued), hnew, hundelivered, hret⟩
  · show (s.client.expect.queued.map Completion.handle).Nodup
    rw [expect_queued]
    exact h.queued_nodup

theorem JointInv.issue {s : Joint} (h : JointInv s) {chunk : ObjectChunk}
    {q : CapacityQueue ObjectChunk} (htaken : s.base.taken = some (chunk, q))
    (hcall : s.call = .begun) :
    JointInv { s with call := .issued, sdk := chunk.handle :: s.sdk } := by
  obtain ⟨hpend, hopen, -⟩ := taken_chunk h.good htaken
  have hstarted : ∀ k, s.Issued k → k ∈ s.base.started :=
    fun k hk => Joint.issued_started (by simp [hcall]) hk
  -- the chunk was pending, so the SDK never had it
  have hfresh : chunk.handle ∉ s.base.started :=
    fun hs => h.good.env.started_pending _ hs hpend
  refine ⟨h.good, fun _ => h.at_hand (by simp [hcall]), h.delivered,
    List.nodup_cons.mpr ⟨fun hm => hfresh (hstarted _ (h.sdk_issued _ hm)), h.sdk_nodup⟩,
    fun k hk => ?_, fun k hk => ?_, fun k hk hab => ?_, fun r hr => ?_, h.queued_nodup, h.refused⟩
  · rcases List.mem_cons.mp hk with rfl | hk
    · refine .inr ?_
      unfold Joint.hand
      rw [if_pos rfl, htaken]
      rfl
    · exact .inl (hstarted k (h.sdk_issued k hk))
  · rcases List.mem_cons.mp hk with rfl | hk
    · exact fun hd => hfresh (h.delivered _ hd)
    · exact h.sdk_undelivered k hk
  · rcases List.mem_cons.mp hk with rfl | hk
    · exact hopen
    · exact h.sdk_open k hk hab
  · obtain ⟨hissued, hnew, hundelivered, hret⟩ := h.queued r hr
    refine ⟨.inl (hstarted _ hissued), ?_, hundelivered, hret⟩
    rw [List.mem_cons, not_or]
    exact ⟨fun heq => hfresh (heq ▸ hstarted _ hissued), hnew⟩

/-- A round of `drain_batch`, whatever the client hands out. -/
theorem JointInv.drain {s t : Joint} (h : JointInv s) {stopped : Bool}
    (hstep : jointStep s (.drain stopped) = some t) : JointInv t := by
  rw [jointStep] at hstep
  split at hstep
  · simp at hstep
  next next hdraining =>
    split at hstep
    · simp at hstep
    next hcall =>
      have hcall : s.call = .none := by simpa using hcall
      -- after an abort, everything the SDK owns is abandoned
      have hleft : ∀ k ∈ s.sdk, k ∉ s.sdk ++ s.abandoned → False :=
        fun k hk hab => hab (List.mem_append.mpr (.inl hk))
      split at hstep
      · simp only [Option.some.injEq] at hstep
        subst hstep
        exact h.drained hcall hdraining (by simp) (fun k hk => .inl hk) (List.Sublist.refl _)
          (fun w' _ k hk hab => (hleft k hk hab).elim)
      next hrunning =>
        split at hstep
        · simp at hstep
        · simp only [Option.some.injEq] at hstep
          subst hstep
          exact h.drained hcall hdraining (by simpa using .sentinel .nil) (fun k hk => .inl hk)
            (List.Sublist.refl _) (fun w' _ k hk hab => (hleft k hk hab).elim)
        next r responder hresponse =>
          simp only [Option.some.injEq] at hstep
          subst hstep
          have hqueued := response_queued hresponse
          have hmem : r ∈ s.client.queued := by
            rw [hqueued]
            exact List.mem_cons_self
          obtain ⟨hissued, hnew, hundelivered, hret⟩ := h.queued r hmem
          have hstarted : r.handle ∈ s.base.started :=
            Joint.issued_started (by simp [hcall]) hissued
          have hnodup := h.queued_nodup
          rw [hqueued, List.map_cons, List.nodup_cons] at hnodup
          refine h.drained hcall hdraining ?_ (fun k hk => ?_) ?_ (fun w' hok k hk hab => ?_)
          · simpa using .real hstarted hundelivered hret .nil
          · rcases List.mem_cons.mp hk with rfl | hk
            · exact .inr ⟨hstarted, hnew, hnodup.1⟩
            · exact .inl hk
          · rw [hqueued]
            exact List.sublist_cons_self _ _
          · exact drainOne_retains h.good.inv h.good.env hstarted hundelivered hret hok
              (h.sdk_open k hk hab) (fun heq => hnew (heq ▸ hk))

/-- **Every permitted step keeps what holds.** -/
theorem JointInv.step {s t : Joint} {a : JointAction} (h : JointInv s) (hok : Permitted s a)
    (hstep : jointStep s a = some t) : JointInv t := by
  cases a with
  | own a =>
      rw [jointStep] at hstep
      split at hstep
      next hcall =>
        obtain ⟨base, hown, rfl⟩ := Option.map_eq_some_iff.mp hstep
        exact h.own hcall hok hown
      · simp at hstep
  | skip =>
      rw [jointStep] at hstep
      split at hstep
      · simp at hstep
      next chunk q htaken =>
        split at hstep
        next hskip =>
          simp only [Option.some.injEq] at hstep
          subst hstep
          have hstarted : ∀ k, s.Issued k → k ∈ s.base.started :=
            fun k hk => Joint.issued_started (by simp [hskip.1]) hk
          have hkept := @JointInv.fail s h chunk q htaken .success s.refused (.inl hskip.2)
            (fun k hk => .inr hk)
            (fun hm => h.good.env.started_pending _ (hstarted _ (h.sdk_issued _ hm))
              (taken_chunk h.good htaken).1)
            (fun r hr => hstarted _ (h.queued r hr).1)
          rw [← hskip.1] at hkept
          exact hkept
        · simp at hstep
  | begin =>
      rw [jointStep] at hstep
      split at hstep
      · simp at hstep
      next chunk q htaken =>
        split at hstep
        next hbegin =>
          simp only [Option.some.injEq] at hstep
          subst hstep
          exact h.begin htaken hbegin.1 hbegin.2
        · simp at hstep
  | throw =>
      rw [jointStep] at hstep
      split at hstep
      · simp at hstep
      next chunk q htaken =>
        split at hstep
        next hcall =>
          simp only [Option.some.injEq] at hstep
          subst hstep
          have hstarted : ∀ k, s.Issued k → k ∈ s.base.started :=
            fun k hk => Joint.issued_started (by simp [hcall]) hk
          exact h.fail htaken (.inr (by simp)) (fun k hk => List.mem_cons.mp hk)
            (fun hm => h.good.env.started_pending _ (hstarted _ (h.sdk_issued _ hm))
              (taken_chunk h.good htaken).1)
            (fun r hr => hstarted _ (h.queued r hr).1)
        · simp at hstep
  | issue =>
      rw [jointStep] at hstep
      split at hstep
      · simp at hstep
      next chunk q htaken =>
        split at hstep
        next hcall =>
          simp only [Option.some.injEq] at hstep
          subst hstep
          exact h.issue htaken hcall
        · simp at hstep
  | ret =>
      rw [jointStep] at hstep
      split at hstep
      · simp at hstep
      next chunk q htaken =>
        split at hstep
        next hcall =>
          simp only [Option.some.injEq] at hstep
          subst hstep
          unfold S3Client.readCode
          cases hstop : s.client.stop with
          | true =>
              -- refused: permitted only when nothing can come of the read
              obtain ⟨hclosed, hgone⟩ := hok hstop
              refine h.fail htaken (.inr (by simp)) (fun k hk => List.mem_cons.mp hk)
                (hgone chunk q htaken) (fun r hr => ?_)
              rw [closed_queued hclosed] at hr
              simp at hr
          | false =>
              obtain ⟨chunk', q', htaken', hdoomed⟩ := h.at_hand (by simp [hcall])
              rw [htaken] at htaken'
              obtain ⟨rfl, rfl⟩ := Prod.mk.inj (Option.some.inj htaken')
              exact h.accept htaken hdoomed
        · simp at hstep
  | callback handle fetch =>
      rw [jointStep] at hstep
      split at hstep
      next hsdk =>
        simp only [Option.some.injEq] at hstep
        subst hstep
        exact h.callback hsdk
      · simp at hstep
  | drain stopped => exact h.drain hstep
  | raiseStop =>
      rw [jointStep] at hstep
      simp only [Option.some.injEq] at hstep
      subst hstep
      exact h.reclient (List.Sublist.refl _)
  | stopResponder =>
      rw [jointStep] at hstep
      split at hstep
      · simp only [Option.some.injEq] at hstep
        subst hstep
        refine h.reclient ?_
        rw [stopResponder_queued]
        exact List.nil_sublist _
      · simp at hstep

theorem reachable_joint {s : Joint} (h : (joint.restrict Permitted).Reachable s) : JointInv s := by
  induction h with
  | init hinit => exact joint_init hinit
  | step _ hstep ih => exact ih.step hstep.1 hstep.2

/-! ## §6. Whole runs. -/

/-- **The window counts what is open and not pending.** -/
theorem window_covers {w : Worker} (h : w.Inv) {handles : List Nat} (hnodup : handles.Nodup)
    (hopen : ∀ k ∈ handles, k ∈ w.openHandles) (hpend : ∀ k ∈ handles, k ∉ w.pendingHandles) :
    handles.length ≤ (w.queue.map CapacityQueue.inflight).getD 0 := by
  cases hq : w.queue with
  | none =>
      have hnone : w.openHandles = [] := by
        rw [Worker.openHandles, (h.unsized hq).2.1]
        rfl
      have hempty : handles = [] := by
        refine List.eq_nil_iff_forall_not_mem.mpr (fun k hk => ?_)
        have := hopen k hk
        rw [hnone] at this
        simp at this
      rw [hempty]
      exact Nat.zero_le _
  | some q =>
      have hw := h.window q hq
      rw [pendingHandles_eq hq] at hpend
      have hsub : (handles ++ q.pending.map (fun x => x.item.handle)).Subperm w.openHandles := by
        refine List.Nodup.subperm (List.nodup_append.mpr ⟨hnodup, hw.pending_nodup,
          fun a ha b hb hab => hpend a ha (hab ▸ hb)⟩) (fun k hk => ?_)
        rcases List.mem_append.mp hk with hk | hk
        · exact hopen k hk
        · obtain ⟨x, hx, rfl⟩ := List.mem_map.mp hk
          exact hw.pending_open x hx
      have hlength := hsub.length_le
      have hcount := hw.count
      rw [List.length_append, List.length_map] at hlength
      rw [Option.map_some, Option.getD_some]
      omega

theorem mem_owned {s : Joint} {k : Nat} : k ∈ s.owned ↔ k ∈ s.sdk ∧ k ∉ s.abandoned := by
  simp [Joint.owned]

/-- **The window covers what the SDK owns.** -/
theorem JointInv.covered {s : Joint} (h : JointInv s) : s.owned.length ≤ s.inflight := by
  have hnodup : s.owned.Nodup := h.sdk_nodup.filter _
  have hopen : ∀ k ∈ s.owned, k ∈ s.base.worker.openHandles :=
    fun k hk => h.sdk_open k (mem_owned.mp hk).1 (mem_owned.mp hk).2
  unfold Joint.inflight
  by_cases hcall : s.call = .issued
  · -- the chunk at hand may be the SDK's, and is still counted as pending
    obtain ⟨chunk, q, htaken, -⟩ := h.at_hand (by simp [hcall])
    have hrest := window_covers h.good.inv (hnodup.erase chunk.handle)
      (fun k hk => hopen k (List.mem_of_mem_erase hk)) (fun k hk => ?_)
    · rw [if_neg (by simp [hcall])]
      have := @List.le_length_erase Nat _ _ chunk.handle s.owned
      omega
    · obtain ⟨hne, hk⟩ := (hnodup.mem_erase_iff).mp hk
      refine h.good.env.started_pending k ((h.sdk_issued k (mem_owned.mp hk).1).resolve_right ?_)
      unfold Joint.hand
      rw [if_pos hcall, htaken]
      intro heq
      exact hne (Option.some.inj heq).symm
  · have hall := window_covers h.good.inv hnodup hopen (fun k hk =>
      h.good.env.started_pending k
        (Joint.issued_started hcall (h.sdk_issued k (mem_owned.mp hk).1)))
    omega

/-- **No reported workload is written to.** -/
theorem JointInv.unwritten {s : Joint} (h : JointInv s) {e : Nat × Inflight}
    (he : e ∈ s.base.worker.reported) {k : Nat} (hk : k ∈ s.owned) : ¬ InBlock blockSize e k := by
  intro hin
  obtain ⟨⟨e', he', hin'⟩, -⟩ := mem_openAll.mp (h.sdk_open k (mem_owned.mp hk).1 (mem_owned.mp hk).2)
  have hapart := (List.pairwise_append.mp h.good.inv.layout.apart).2.2 _ (List.mem_map_of_mem he') _
    (List.mem_map_of_mem he)
  have h₁ := hin.1
  have h₂ := hin.2
  have h₃ := hin'.1
  have h₄ := hin'.2
  have h₅ : e'.1 + blockSize e'.2 ≤ e.1 ∨ e.1 + blockSize e.2 ≤ e'.1 := hapart
  omega

/-- Where nothing is dropped with reads left, nothing is abandoned that the
SDK owns. -/
theorem settled_abandoned {s : Joint}
    (h : (joint.restrict (fun s a => Permitted s a ∧ Settled s a)).Reachable s) :
    s.abandoned = [] := by
  induction h with
  | init hinit => exact hinit.abandoned_eq
  | @step s t a _ hstep ih =>
      obtain ⟨⟨-, hsettled⟩, hstep⟩ := hstep
      have hstep : jointStep s a = some t := hstep
      cases a with
      | drain stopped =>
          rw [jointStep] at hstep
          split at hstep
          · simp at hstep
          · split at hstep
            · simp at hstep
            · split at hstep
              next hstop =>
                simp only [Option.some.injEq] at hstep
                subst hstep
                have hnone : s.sdk = [] := hsettled (.inl hstop)
                simp [hnone, ih]
              · split at hstep
                · simp at hstep
                next hfinished =>
                  simp only [Option.some.injEq] at hstep
                  subst hstep
                  have hnone : s.sdk = [] := hsettled (.inr (by simp [hfinished]))
                  simp [hnone, ih]
                · simp only [Option.some.injEq] at hstep
                  subst hstep
                  exact ih
      | own a =>
          rw [jointStep] at hstep
          split at hstep
          · obtain ⟨base, -, rfl⟩ := Option.map_eq_some_iff.mp hstep
            exact ih
          · simp at hstep
      | raiseStop =>
          rw [jointStep] at hstep
          simp only [Option.some.injEq] at hstep
          subst hstep
          exact ih
      | stopResponder =>
          rw [jointStep] at hstep
          split at hstep
          · simp only [Option.some.injEq] at hstep
            subst hstep
            exact ih
          · simp at hstep
      | callback handle fetch =>
          rw [jointStep] at hstep
          split at hstep
          · simp only [Option.some.injEq] at hstep
            subst hstep
            exact ih
          · simp at hstep
      | skip | begin | throw | issue | ret =>
          rw [jointStep] at hstep
          split at hstep
          · simp at hstep
          · split at hstep
            · simp only [Option.some.injEq] at hstep
              subst hstep
              exact ih
            · simp at hstep

/-- **A FAILED ISSUE NEVER COMPLETES, where `async_read` refuses no read that
can.**  In every state of every such run, refused handles are not delivered;
no chunk is credited twice, and no `ASSERT` fails; the window counts at least
the chunks the SDK owns; and no workload is reported that the SDK may still
write to.  The last two leave out the reads that an abort left behind, and
there are none where nothing is dropped while the SDK owns reads. -/
theorem refused_never_completes (s : Joint) :
    ((joint.restrict Permitted).Reachable s →
      (∀ handle ∈ s.refused, handle ∉ s.base.delivered) ∧
      (s.base.worker.credits.map Prod.fst).Nodup ∧ s.base.pc ≠ .crashed ∧
      s.owned.length ≤ s.inflight ∧
      ∀ e ∈ s.base.worker.reported, ∀ handle ∈ s.owned, ¬ InBlock blockSize e handle) ∧
    ((joint.restrict (fun s a => Permitted s a ∧ Settled s a)).Reachable s →
      s.owned = s.sdk) := by
  refine ⟨fun hreach => ?_, fun hreach => ?_⟩
  · have h := reachable_joint hreach
    exact ⟨fun k hk hd => (h.refused k hk).2.2 (h.delivered k hd), h.good.inv.credits_nodup,
      h.good.running, h.covered, fun e he k hk => h.unwritten he hk⟩
  · rw [Joint.owned, settled_abandoned hreach]
    simp

/-- A workload of one object of four bytes, read in chunks of two. -/
def fourBytes : Workload where
  config := ⟨1, 1, 2, 1⟩
  batches := [⟨1, 0, 0, "s3://bucket/object", some ⟨"s3", "bucket", "object"⟩,
    [⟨⟨0, 0, 0, 1, 4, 0⟩, ⟨0, 4, 4, 0⟩⟩], ⟨0, 4, by decide⟩⟩]
  owned := by simp

/-- A new worker with a new client. -/
def newlyJoined : Joint := ⟨fresh, .new ambient, .none, [], 0, [], []⟩

theorem newlyJoined_init : JointInit newlyJoined := ⟨fresh_init, rfl, rfl, rfl, rfl, rfl⟩

/-- One object is read and reported; of the next one the second read is
issued, and its callback has run and the client is stopped altogether before
`async_read` looks at the flag. -/
def stopAround : List JointAction :=
  [.own (.execute (twoBytes 2) ⟨none, some 4⟩), .own .fill, .begin, .issue, .ret, .own .pumped,
    .own .fill, .own .close, .callback 1 .read, .drain false, .own .pumped,
    .own (.execute fourBytes ⟨none, some 4⟩), .own .fill, .begin, .issue, .ret, .begin, .issue,
    .raiseStop, .callback 3 .read, .stopResponder, .ret]

/-- **A read is refused where it may be**: the first object has been read and
reported, the SDK owns a read of the second one, and the refused handle is
delivered in no case. -/
theorem refused_never_completes_around :
    ∃ s, (joint.restrict (fun s a => Permitted s a ∧ Settled s a)).Reachable s ∧
      s.refused = [3] ∧ s.base.delivered = [1] ∧ s.sdk = [2] ∧
      s.base.worker.reported.map Prod.fst = [1] ∧
      (∀ handle ∈ s.refused, handle ∉ s.base.delivered) ∧
      (s.base.worker.credits.map Prod.fst).Nodup ∧ s.base.pc ≠ .crashed ∧
      s.owned.length ≤ s.inflight ∧
      (∀ e ∈ s.base.worker.reported, ∀ handle ∈ s.owned, ¬ InBlock blockSize e handle) ∧
      s.owned = s.sdk := by
  set ends := System.follow jointStep (fun s a => Permitted s a ∧ Settled s a) newlyJoined
    stopAround with hends
  have hsome : ends.isSome = true := by decide +kernel
  obtain ⟨s, hs⟩ := Option.isSome_iff_exists.mp hsome
  have hhandles : ends.map (fun s => (s.refused, s.base.delivered, s.sdk,
      s.base.worker.reported.map Prod.fst)) = some ([3], [1], [2], [1]) := by decide +kernel
  rw [hs, Option.map_some, Option.some.injEq] at hhandles
  simp only [Prod.mk.injEq] at hhandles
  obtain ⟨hrefused, hdelivered, hsdk, hreported⟩ := hhandles
  have hreach : (joint.restrict (fun s a => Permitted s a ∧ Settled s a)).Reachable s :=
    .follow (fun _ _ _ h => h) (.init newlyJoined_init) (hends ▸ hs)
  obtain ⟨hruns, hsettled⟩ := refused_never_completes s
  obtain ⟨hnone, hcredits, hpc, hwindow, hunwritten⟩ :=
    hruns (hreach.restrict_mono (fun _ _ h => h.1))
  exact ⟨s, hreach, hrefused, hdelivered, hsdk, hreported, hnone, hcredits, hpc, hwindow,
    hunwritten, hsettled hreach⟩

/-- The second read is issued, another streamer's teardown raises the flag,
and `async_read` refuses the read; its completion comes before the responder
is stopped. -/
def stopBetween : List JointAction :=
  [.own (.execute fourBytes unbounded), .own .fill, .begin, .issue, .ret, .begin, .issue,
    .raiseStop, .ret, .own .pumped, .own .fill, .own .close, .callback 2 .read, .drain false]

/-- **A refused read completes**: its chunk is credited twice, the window
counts nothing while the SDK owns the first chunk, and the workload of both is
reported. -/
theorem refused_completes :
    ∃ s, joint.Reachable s ∧
      (∃ handle ∈ s.refused, handle ∈ s.base.delivered) ∧
      ¬ (s.base.worker.credits.map Prod.fst).Nodup ∧
      s.abandoned = [] ∧ s.inflight < s.sdk.length ∧
      ∃ e ∈ s.base.worker.reported, ∃ handle ∈ s.sdk, InBlock blockSize e handle := by
  set ends := System.follow jointStep (fun _ _ => True) newlyJoined stopBetween with hends
  have hsome : ends.isSome = true := by decide +kernel
  obtain ⟨s, hs⟩ := Option.isSome_iff_exists.mp hsome
  have hhandles : ends.map (fun s => (s.refused, s.base.delivered, s.sdk, s.abandoned))
      = some ([2], [2], [1], []) := by decide +kernel
  have hcredits : ends.map (fun s => (s.base.worker.credits.map Prod.fst, s.inflight))
      = some ([2, 2], 0) := by decide +kernel
  have hreported : ends.map (fun s => s.base.worker.reported.map (fun e => (e.1, blockSize e.2)))
      = some [(1, 2)] := by decide +kernel
  rw [hs, Option.map_some, Option.some.injEq] at hhandles hcredits hreported
  simp only [Prod.mk.injEq] at hhandles hcredits
  obtain ⟨hrefused, hdelivered, hsdk, habandoned⟩ := hhandles
  have hstart : (joint.restrict (fun _ _ => True)).Reachable newlyJoined := .init newlyJoined_init
  refine ⟨s, (System.Reachable.follow (fun _ _ _ h => h) hstart (hends ▸ hs)).of_restrict,
    ⟨2, by simp [hrefused], by simp [hdelivered]⟩, ?_, habandoned, ?_, ?_⟩
  · rw [hcredits.1]
    decide
  · rw [hcredits.2, hsdk]
    decide
  · have hmem : (1, 2) ∈ s.base.worker.reported.map (fun e => (e.1, blockSize e.2)) := by
      rw [hreported]
      exact List.mem_cons_self
    obtain ⟨e, he, heq⟩ := List.mem_map.mp hmem
    obtain ⟨hbase, hsize⟩ := Prod.mk.inj heq
    refine ⟨e, he, 1, by simp [hsdk], ?_⟩
    rw [InBlock, hbase, hsize]
    decide

end ModelStreamer.ObjectStorage
