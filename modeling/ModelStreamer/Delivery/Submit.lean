/-
  ModelStreamer.Delivery.Submit
  ─────────────────────────────
  **`Streamer::async_request`, WITH EVERY EXIT.**

  The call verifies the ranges, locks the object-storage backend, mints an
  id, plans the reads and sorts them into workloads; only then does it
  commit.  Any of these can fail, by a return code or by an exception of a
  lower layer, and leaves through the destructors of what was built so far:
  `Batch`, `Task`, `Request` and `Workload` have no destructor of their own,
  so these touch nothing that is shared.

    • `build_core` — up to the commit, the call does nothing to the
      streamer's accounting but mint an id,
    • `rejected_owes_nothing` — so a call that fails leaves registry,
      responder and queues alone, and no response ever names its id.
-/
import ModelStreamer.Delivery.Accounting

namespace ModelStreamer.Delivery

open ModelStreamer.Lib ModelStreamer.Planning

/-! ## §1. The streamer around the call. -/

/-- `BackendPools::Plugin`. -/
inductive Plugin where
  | gcs
  | azure
  | s3
  deriving DecidableEq, Repr

/-- What the process around the call decides: whether the thread pool, the
fd limit's setter and the clean-up of the clients can be made, and the
limits on file descriptors. -/
structure Host where
  threadPool : Option Failure
  fdLimitSetter : Option Failure
  cleanup : Option Failure
  fdLimit : Nat
  fdMax : Nat

/-- The streamer: its accounting, the plugin it is locked to (with the pool
made for it), and the two once-flags of `handle_s3`. -/
structure Service (n : Nat) where
  core : State n
  plugin : Option Plugin
  streamInit : Bool
  cleanupInit : Bool

/-- How a call ends. -/
inductive Exit where
  | returned (code : ResponseCode)
  | threw (e : Failure)
  deriving DecidableEq, Repr

variable {n : Nat}

/-! ## §2. Verification and the backend lock. -/

/-- `verify_requests`: no range with bytes goes to a null destination. -/
def verifyRequests (request : List FileRanges) : Bool :=
  request.all (fun file => file.ranges.all (fun range =>
    !(decide (0 < range.size) && decide (range.dst = 0))))

/-- The plugin of a URI. -/
def pluginOf (uri : StorageUri) : Plugin :=
  if uri.isGcs then .gcs else if uri.isAzure then .azure else .s3

/-- The loop of `lock_object_plugin`: the plugin of the submission and
whether it has filesystem paths; `none` where two plugins mix. -/
def classify : List FileRanges → Option Plugin → Bool → Option (Option Plugin × Bool)
  | [], plugin, filesystem => some (plugin, filesystem)
  | file :: files, plugin, filesystem =>
      -- a file without ranges reaches no storage
      if file.ranges.isEmpty then classify files plugin filesystem
      else
        match StorageUri.parse file.path with
        | none => classify files plugin true
        | some uri =>
            match plugin with
            | none => classify files (some (pluginOf uri)) filesystem
            | some p => if p ≠ pluginOf uri then none
                else classify files (some (pluginOf uri)) filesystem

/-- `BackendPools::lock_object_plugin`: the first plugin makes the pool. -/
def Service.lockPlugin (host : Host) (s : Service n) (plugin : Plugin) :
    Exit × Service n :=
  match s.plugin with
  | some locked =>
      (if locked ≠ plugin then .returned .unsupportedBackendMix else .returned .success, s)
  | none =>
      match host.threadPool with
      | some e => (.threw e, s)
      | none => (.returned .success, { s with plugin := some plugin })

/-- `Streamer::lock_object_plugin`. -/
def Service.lockObjectPlugin (host : Host) (s : Service n) (request : List FileRanges) :
    Exit × Service n :=
  match classify request none false with
  | none => (.returned .unsupportedBackendMix, s)
  | some (none, _) => (.returned .success, s)
  | some (some plugin, filesystem) =>
      if filesystem then (.returned .unsupportedBackendMix, s) else s.lockPlugin host plugin

/-! ## §3. Building the workloads. -/

/-- The streaming-only set-up of `handle_s3`, once. -/
def Service.initStream (host : Host) (config : Config) (s : Service n) : Exit × Service n :=
  if s.streamInit then (.returned .success, s)
  else if host.fdLimit < config.s3Concurrency * 64 then
    if config.s3Concurrency * 64 > host.fdMax then
      (.threw (.exception .insufficientFdLimit), s)
    else
      match host.fdLimitSetter with
      | some e => (.threw e, s)
      | none => (.returned .success, { s with streamInit := true })
  else (.returned .success, { s with streamInit := true })

/-- The clean-up of the clients, once. -/
def Service.initCleanup (host : Host) (s : Service n) : Exit × Service n :=
  if s.cleanupInit then (.returned .success, s)
  else
    match host.cleanup with
    | some e => (.threw e, s)
    | none => (.returned .success, { s with cleanupInit := true })

/-- `handle_s3`. -/
def Service.handleS3 (host : Host) (config : Config) (s : Service n) (path : String) :
    Exit × Service n :=
  match StorageUri.parse path with
  | none => (.returned .success, s)
  | some _ =>
      match s.initStream host config with
      | (.returned .success, s) => s.initCleanup host
      | failed => failed

/-- `Workload::add_batch`, over the batches of a transfer: the workloads by
index, each with its `_is_object_storage` once it has a batch.  `none` where
one would mix backends. -/
def addBatches : List Batch → (Nat → Option Bool) → Option (Nat → Option Bool)
  | [], workloads => some workloads
  | batch :: batches, workloads =>
      match workloads batch.workloadIndex with
      | none =>
          addBatches batches
            (Function.update workloads batch.workloadIndex (some batch.isObjectStorage))
      | some kind => if kind ≠ batch.isObjectStorage then none else addBatches batches workloads

/-- The loop of `async_request` over the transfers; `params` is the file the
object-storage parameters were made for. -/
def Service.buildTransfers (host : Host) (config : Config) (id : Nat)
    (request : List FileRanges) :
    List ContiguousTransfer → Option Nat → (Nat → Option Bool) → Service n → Exit × Service n
  | [], _, _, s => (.returned .success, s)
  | t :: ts, params, workloads, s =>
      let path := (request[t.fileIndex]?.map FileRanges.path).getD ""
      let handled := if params = some t.fileIndex then (.returned .success, s)
        else s.handleS3 host config path
      match handled with
      | (.returned .success, s) =>
          match Batches.new id path t with
          | .error e => (.threw e, s)
          | .ok batches =>
              match addBatches batches.batches workloads with
              | none => (.returned .invalidParameterError, s)
              | some workloads =>
                  Service.buildTransfers host config id request ts (some t.fileIndex) workloads s
      | failed => failed

/-! ## §4. The call. -/

/-- `generate`, by a call of `async_request`. -/
def Service.mint (s : Service n) : Service n :=
  { s with
    core := { s.core with
      mgr := s.core.mgr.generate.2
      minted := s.core.mgr.generate.1 :: s.core.minted } }

/-- The streamer's configuration: there is a worker for either backend. -/
structure StreamerConfig where
  config : Config
  workers : ∀ request, 1 ≤ numWorkers config request

/-- A finished call: its end, `out_submission_id` (`none` is the 0 of a call
that got no id), and the streamer it leaves. -/
structure Call (n : Nat) where
  exit : Exit
  outId : Option Nat
  service : Service n

/-- The commit: register, raise the responder's count, dispatch. -/
def Service.commit (s : Service n) (sub : Submission) : Exit × Service n :=
  match s.core.mgr.add sub.id (totalRanges sub.request) sub.totalBytes with
  | .error e => (.threw e, s)
  | .ok mgr => (.returned .success, { s with core := s.core.commit sub mgr })

/-- `async_request` from the minting of its id on. -/
def Service.submit (host : Host) (config : StreamerConfig) (request : List FileRanges)
    (hlt : totalRanges request < 2 ^ 32) (s : Service n) (id : Nat) : Exit × Service n :=
  -- no ranges, no responses: not registered
  if hpos : totalRanges request = 0 then (.returned .success, s)
  else
    match Assigner.new config.config request with
    | .error e => (.threw e, s)
    | .ok assigner =>
        match s.buildTransfers host config.config id request assigner.transfers none
            (fun _ => none) with
        | (.returned .success, s) =>
            match hplan : plan config.config id request with
            | .error e => (.threw e, s)
            | .ok plan =>
                s.commit ⟨id, config.config, request, plan, config.workers request,
                  Nat.pos_of_ne_zero hpos, hlt, hplan⟩
        | failed => failed

/-- `Streamer::async_request`, where dispatching succeeds. -/
def Service.asyncRequest (host : Host) (config : StreamerConfig) (s : Service n)
    (request : List FileRanges) : Call n :=
  if verifyRequests request then
    match s.lockObjectPlugin host request with
    | (.returned .success, s) =>
        if hlt : totalRanges request < 2 ^ 32 then
          let id := s.core.mgr.generate.1
          let built := s.mint.submit host config request hlt id
          ⟨built.1, some id, built.2⟩
        else ⟨.returned .invalidParameterError, none, s⟩
    | (failed, s) => ⟨failed, none, s⟩
  else ⟨.threw (.exception .invalidParameterError), none, s⟩

/-! ## §5. Only the commit touches the accounting. -/

theorem lockPlugin_core (host : Host) (s : Service n) (plugin : Plugin) :
    (s.lockPlugin host plugin).2.core = s.core := by
  unfold Service.lockPlugin
  split
  · rfl
  · split <;> rfl

theorem lockObjectPlugin_core (host : Host) (s : Service n) (request : List FileRanges) :
    (s.lockObjectPlugin host request).2.core = s.core := by
  unfold Service.lockObjectPlugin
  split
  · rfl
  · rfl
  · split
    · rfl
    · exact lockPlugin_core host s _

theorem initStream_core (host : Host) (config : Config) (s : Service n) :
    (s.initStream host config).2.core = s.core := by
  unfold Service.initStream
  split
  · rfl
  · split
    · split
      · rfl
      · split <;> rfl
    · rfl

theorem initCleanup_core (host : Host) (s : Service n) :
    (s.initCleanup host).2.core = s.core := by
  unfold Service.initCleanup
  split
  · rfl
  · split <;> rfl

theorem handleS3_core (host : Host) (config : Config) (s : Service n) (path : String) :
    (s.handleS3 host config path).2.core = s.core := by
  have hstream := initStream_core host config s
  unfold Service.handleS3
  split
  · rfl
  · split
    next s' heq =>
      rw [heq] at hstream
      rw [initCleanup_core]
      exact hstream
    next => exact hstream

theorem buildTransfers_core (host : Host) (config : Config) (id : Nat)
    (request : List FileRanges) (ts : List ContiguousTransfer) (params : Option Nat)
    (workloads : Nat → Option Bool) (s : Service n) :
    (s.buildTransfers host config id request ts params workloads).2.core = s.core := by
  induction ts generalizing params workloads s with
  | nil => rfl
  | cons t ts ih =>
      unfold Service.buildTransfers
      set path := (request[t.fileIndex]?.map FileRanges.path).getD "" with hpath
      have hhandled : (if params = some t.fileIndex then (Exit.returned .success, s)
          else s.handleS3 host config path).2.core = s.core := by
        split
        · rfl
        · exact handleS3_core host config s path
      simp only
      split
      next s' heq =>
        rw [heq] at hhandled
        split
        · exact hhandled
        · split
          · exact hhandled
          · rw [ih]
            exact hhandled
      next => exact hhandled

/-- A call that fails after minting has only minted. -/
theorem submit_core {host : Host} {config : StreamerConfig} {request : List FileRanges}
    {hlt : totalRanges request < 2 ^ 32} {s : Service n} {id : Nat}
    (hfail : (s.submit host config request hlt id).1 ≠ .returned .success) :
    (s.submit host config request hlt id).2.core = s.core := by
  revert hfail
  unfold Service.submit
  split
  · intro _
    rfl
  · split
    · intro _
      rfl
    · next assigner hassigner =>
        have hbuild := buildTransfers_core host config.config id request assigner.transfers none
          (fun _ => none) s
        split
        next s' heq =>
          rw [heq] at hbuild
          split
          · intro _
            exact hbuild
          · unfold Service.commit
            split
            · intro _
              exact hbuild
            · -- the commit itself succeeds
              intro hfail
              exact absurd rfl hfail
        next =>
          intro _
          exact hbuild

/-- **Up to the commit, a call only mints.** -/
theorem build_core {host : Host} {config : StreamerConfig} {s : Service n}
    {request : List FileRanges}
    (hfail : (s.asyncRequest host config request).exit ≠ .returned .success) :
    ((s.asyncRequest host config request).outId = none ∧
      (s.asyncRequest host config request).service.core = s.core) ∨
    ((s.asyncRequest host config request).outId = some s.core.mgr.nextId ∧
      (s.asyncRequest host config request).service.core = s.mint.core) := by
  revert hfail
  have hlock := lockObjectPlugin_core host s request
  unfold Service.asyncRequest
  split
  · split
    next s' heq =>
      rw [heq] at hlock
      have hlock : s'.core = s.core := hlock
      split
      next hlt =>
        intro hfail
        right
        constructor
        · show some s'.core.mgr.nextId = some s.core.mgr.nextId
          rw [hlock]
        · rw [show s.mint.core = s'.mint.core by unfold Service.mint; rw [hlock]]
          exact submit_core hfail
      next =>
        intro _
        exact Or.inl ⟨rfl, hlock⟩
    next failed s' hne heq =>
      intro _
      rw [heq] at hlock
      exact Or.inl ⟨rfl, hlock⟩
  · intro _
    exact Or.inl ⟨rfl, rfl⟩

/-! ## §6. Rejected submissions owe nothing. -/

/-- The parts of the streamer that answer for submissions. -/
structure SameAccounting (s t : State n) : Prop where
  registry : t.mgr.submissions = s.mgr.submissions
  responder : t.responder = s.responder
  queue : t.queue = s.queue
  threads : t.threads = s.threads
  requests : t.requests = s.requests
  committed : t.committed = s.committed

/-- `id` is not, and never was, a committed submission's. -/
structure Unused (id : Nat) (s : State n) : Prop where
  inv : Inv s
  flow : Flow s
  old : id < s.mgr.nextId
  fresh : ∀ sub ∈ s.committed, sub.id ≠ id

theorem unused_step {id : Nat} {s t : State n} {a : Action n} (h : Unused id s)
    (hother : ∀ sub, a = .submit sub → sub.id ≠ id) (hstep : Step s a t) : Unused id t := by
  refine ⟨inv_step h.inv hstep, flow_step h.flow hstep, ?_, ?_⟩
  · cases hstep with
    | mint =>
        show id < s.mgr.nextId + 1
        have := h.old
        omega
    | submit sub mgr hid hadd =>
        show id < mgr.nextId
        rw [add_nextId hadd]
        exact h.old
    | pop r q done mgr hpop haccount =>
        show id < mgr.nextId
        rw [accountResponse_nextId haccount]
        exact h.old
    | bare code done mgr hcode haccount =>
        show id < mgr.nextId
        rw [accountResponse_nextId haccount]
        exact h.old
    | _ => exact h.old
  · cases hstep with
    | submit sub mgr hid hadd =>
        intro sub' hsub'
        rcases List.mem_append.mp hsub' with hsub' | hsub'
        · exact h.fresh sub' hsub'
        · rw [List.mem_singleton.mp hsub']
          exact hother sub rfl
    | _ => exact h.fresh

/-- No response of a run that does not submit `id` names it. -/
theorem Unused.silent {id k : Nat} {s t : State n} (h : Unused id s)
    (hrun : (streamer n).Steps (fun a => ∀ sub, a = .submit sub → sub.id ≠ id) k s t) :
    ∀ r ∈ t.popped.map Popped.response ++ t.responder.responses, r.submissionId ≠ id := by
  induction hrun with
  | nil s =>
      intro r hr hid
      obtain ⟨sub, hsub, hsame⟩ := flow_known h.inv h.flow hr
      exact h.fresh sub hsub (by rw [← hsame, hid])
  | cons hother hstep _ ih => exact ih (unused_step h hother hstep)

/-- **Rejected submissions owe nothing**: wherever the call fails, the
accounting of every other submission is as it was, and in no run from there
is a response delivered for the rejected one, whose id nobody else has. -/
theorem rejected_owes_nothing (host : Host) (config : StreamerConfig) (s : Service n)
    (request : List FileRanges) (hreach : (streamer n).Reachable s.core)
    (hfail : (s.asyncRequest host config request).exit ≠ .returned .success) :
    SameAccounting s.core (s.asyncRequest host config request).service.core ∧
    ∀ id, (s.asyncRequest host config request).outId = some id →
      ∀ k t, (streamer n).Steps (fun a => ∀ sub, a = .submit sub → sub.id ≠ id) k
          (s.asyncRequest host config request).service.core t →
        ∀ r ∈ t.popped.map Popped.response ++ t.responder.responses, r.submissionId ≠ id := by
  have hsame : SameAccounting s.core s.mint.core := ⟨rfl, rfl, rfl, rfl, rfl, rfl⟩
  rcases build_core hfail with ⟨hid, hcore⟩ | ⟨hid, hcore⟩
  · rw [hcore, hid]
    exact ⟨⟨rfl, rfl, rfl, rfl, rfl, rfl⟩, by simp⟩
  · rw [hcore, hid]
    refine ⟨hsame, ?_⟩
    rintro id ⟨⟩ k t hrun
    obtain ⟨hinv, hflow, -⟩ := reachable_registry s.core hreach
    have hstep : Step s.core .mint s.mint.core := Step.mint
    have hunused : Unused s.core.mgr.nextId s.mint.core := by
      refine ⟨inv_step hinv hstep, flow_step hflow hstep, ?_, ?_⟩
      · show s.core.mgr.nextId < s.core.mgr.nextId + 1
        omega
      · intro sub hsub hsame
        have := hinv.ids.old sub hsub
        omega
    exact hunused.silent hrun

/-- One worker of either kind, blocks of a byte. -/
def oneWorker : StreamerConfig where
  config := ⟨1, 1, 1, 1⟩
  workers request := by
    unfold numWorkers
    split <;> exact Nat.le_refl 1

/-- A process without file descriptors to spare. -/
def noDescriptors : Host := ⟨none, none, none, 0, 0⟩

/-- The call fails in `handle_s3`, after its id was minted. -/
theorem rejected_owes_nothing_fds :
    ((⟨idle, none, false, false⟩ : Service 1).asyncRequest noDescriptors oneWorker
        oneRange).outId = some 1 ∧
    SameAccounting idle
      ((⟨idle, none, false, false⟩ : Service 1).asyncRequest noDescriptors oneWorker
        oneRange).service.core :=
  ⟨by decide +kernel, (rejected_owes_nothing noDescriptors oneWorker ⟨idle, none, false, false⟩
    oneRange (.init idle_init) (by decide +kernel)).1⟩

end ModelStreamer.Delivery
