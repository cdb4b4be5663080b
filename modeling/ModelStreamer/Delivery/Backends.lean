/-
  ModelStreamer.Delivery.Backends
  ───────────────────────────────
  **ALL LAYERS AGREE ON THE BACKEND** of a submission.

  The same paths are classified four times: `lock_object_plugin` reads every
  file with ranges, `check_object_storage` the first of them, a batch the
  path of its own file, a workload the first batch it gets.  Once the lock
  is had these are one answer, so `add_batch` finds no mix, and a workload
  is pushed to a pool that exists.  The order of the files decides nothing.

    • `agree` — behind the lock,
    • `judge_perm` — however the files are ordered,
    • `backends_agree` — both, for `async_request`.
-/
import ModelStreamer.Delivery.Outcome

namespace ModelStreamer.Delivery

open ModelStreamer.Lib ModelStreamer.Planning

variable {n : Nat}

/-! ## §1. Behind the lock. -/

/-- `BackendPools::push`: the filesystem's pool is made on its first use, that
of object storage with the lock. -/
def Service.pushPool (s : Service n) (isObjectStorage : Bool) : Except Failure Unit :=
  if isObjectStorage then
    if s.plugin.isNone then .error .assertion else .ok ()
  else .ok ()

/-- A batch made for the request, of whichever transfer. -/
def MadeFor (config : Config) (id : Nat) (request : List FileRanges) (batch : Batch) : Prop :=
  ∃ assigner, Assigner.new config request = .ok assigner ∧ ∃ t ∈ assigner.transfers,
    ∃ bs, Batches.new id (pathOf request t) t = .ok bs ∧ batch ∈ bs.batches

/-- **The layers agree** with the Assigner: the files, the batches, and the
workloads, which have a pool to go to. -/
structure Agree (config : Config) (request : List FileRanges) (s : Service n) : Prop where
  file : ∀ file ∈ request, file.ranges ≠ [] →
    (StorageUri.parse file.path).isSome = checkObjectStorage request
  batch : ∀ id batch, MadeFor config id request batch →
    batch.isObjectStorage = checkObjectStorage request
  workload : ∀ id batches, (∀ batch ∈ batches, MadeFor config id request batch) →
    ∃ workloads, addBatches batches (fun _ => none) = some workloads ∧
      ∀ i kind, workloads i = some kind → kind = checkObjectStorage request
  pool : s.pushPool (checkObjectStorage request) = .ok ()

/-- The lock is had: the backends do not mix, and a plugin has its pool. -/
theorem locked {host : Host} {s : Service n} {request : List FileRanges}
    (h : (s.lockObjectPlugin host request).1 = .returned .success) :
    backendOf request ≠ .mixed ∧
      (s.lockObjectPlugin host request).2.pushPool (backendOf request).isObjectStorage
        = .ok () := by
  rw [lockObjectPlugin_eq] at h ⊢
  cases hb : backendOf request with
  | mixed => simp [hb] at h
  | filesystem => exact ⟨by simp, rfl⟩
  | plugin p =>
      simp only [hb] at h ⊢
      refine ⟨by simp, ?_⟩
      rcases lock_cases host s.marks p with ⟨hlock, -⟩ | ⟨e, hlock, -⟩ | ⟨hlock, -⟩
      · simp [hlock] at h
      · simp [hlock] at h
      · rw [hlock]
        rfl

/-- **Behind the lock all layers agree.** -/
theorem agree {host : Host} {config : StreamerConfig} {s : Service n}
    {request : List FileRanges}
    (h : (s.lockObjectPlugin host request).1 = .returned .success) :
    Agree config.config request (s.lockObjectPlugin host request).2 := by
  obtain ⟨hmix, hpool⟩ := locked h
  have hcheck := backendOf_check hmix
  have hbatch : ∀ id batch, MadeFor config.config id request batch →
      batch.isObjectStorage = checkObjectStorage request := by
    rintro id batch ⟨assigner, hnew, t, ht, bs, hbs, hmem⟩
    obtain ⟨file, hfile, hranges, hpath⟩ := transfer_file (config.workers request) hnew t ht
    rw [batchesNew_kind hbs batch hmem, hpath, hcheck]
    exact backendOf_paths hmix hfile hranges
  refine ⟨fun file hfile hranges => ?_, hbatch, fun id batches hmade => ?_, ?_⟩
  · rw [hcheck]
    exact backendOf_paths hmix hfile hranges
  · have hnone : AllOf (checkObjectStorage request) (fun _ => none) := fun i k hk => by simp at hk
    obtain ⟨workloads, hadd, hall⟩ := addBatches_allOf batches hnone
      (fun batch hmem => hbatch id batch (hmade batch hmem))
    exact ⟨workloads, hadd, fun i kind hkind => hall i kind hkind⟩
  · rw [hcheck]
    exact hpool

/-! ## §2. However the files are ordered. -/

theorem totalRanges_perm {request request' : List FileRanges} (h : request.Perm request') :
    totalRanges request = totalRanges request' := (h.map _).sum_eq

theorem requestBytes_perm {request request' : List FileRanges} (h : request.Perm request') :
    requestBytes request = requestBytes request' := (h.map _).sum_eq

theorem noWrap_perm {request request' : List FileRanges} (h : request.Perm request') :
    NoWrap request ↔ NoWrap request' :=
  ⟨fun hno file hfile => hno file (h.mem_iff.mpr hfile),
    fun hno file hfile => hno file (h.mem_iff.mp hfile)⟩

theorem verifyRequests_perm {request request' : List FileRanges} (h : request.Perm request') :
    verifyRequests request = verifyRequests request' := h.all_eq

/-- **The order of the files decides nothing.** -/
theorem judge_perm (host : Host) (config : Config) (m : Marks) {request request' : List FileRanges}
    (h : request.Perm request') : judge host config m request = judge host config m request' := by
  have hexit : requestExit request = requestExit request' := by
    unfold requestExit
    rw [totalRanges_perm h, requestBytes_perm h]
    simp only [noWrap_perm h]
  have hsize : oversized request = oversized request' := by
    unfold oversized
    rw [totalRanges_perm h, requestBytes_perm h]
  unfold judge
  rw [verifyRequests_perm h, backendOf_perm h, hexit, hsize]

/-! ## §3. As `async_request` sees it. -/

/-- A call that succeeds leaves the pool its workloads go to. -/
theorem judge_pool {host : Host} {config : Config} {m : Marks} {request : List FileRanges}
    (hexit : (judge host config m request).1 = .returned .success)
    (hobject : (backendOf request).isObjectStorage = true) :
    (judge host config m request).2.plugin.isSome = true := by
  unfold judge at hexit ⊢
  split at hexit
  next hverify =>
    rw [if_pos hverify]
    cases hb : backendOf request with
    | mixed => simp [hb, Backend.isObjectStorage] at hobject
    | filesystem => simp [hb, Backend.isObjectStorage] at hobject
    | plugin p =>
        simp only [hb] at hexit ⊢
        rcases lock_cases host m p with ⟨hlock, -⟩ | ⟨e, hlock, -⟩ | ⟨hlock, -⟩
        · simp [hlock] at hexit
        · simp [hlock] at hexit
        · simp only [hlock] at hexit ⊢
          split
          · rfl
          · show ((Marks.setUp host config { m with plugin := some p }).2.plugin).isSome = true
            rw [setUp_plugin]
            rfl
  next => simp at hexit

/-- `InvalidParameterError` is returned, not thrown, for too many ranges only. -/
theorem judge_returned {host : Host} {config : Config} {m : Marks} {request : List FileRanges}
    (hexit : (judge host config m request).1 = .returned .invalidParameterError) :
    2 ^ 32 ≤ totalRanges request := by
  have hrequest : requestExit request = .returned .invalidParameterError →
      2 ^ 32 ≤ totalRanges request := by
    intro h
    unfold requestExit at h
    split at h
    next hlarge => exact hlarge
    next => split at h <;> simp at h
  unfold judge at hexit
  split at hexit
  · cases hb : backendOf request with
    | mixed => simp [hb] at hexit
    | filesystem =>
        simp only [hb] at hexit
        exact hrequest hexit
    | plugin p =>
        simp only [hb] at hexit
        rcases lock_cases host m p with ⟨hlock, -⟩ | ⟨e, hlock, -⟩ | ⟨hlock, -⟩
        · simp [hlock] at hexit
        · simp [hlock] at hexit
        · simp only [hlock] at hexit
          split at hexit
          · exact hrequest hexit
          · simp only at hexit
            cases hset : (Marks.setUp host config { m with plugin := some p }).1 with
            | some e => simp [hset] at hexit
            | none =>
                rw [hset] at hexit
                exact hrequest hexit
  · simp at hexit

/-- **All layers agree on the backend of a submission**: where the lock is
had, on every file with ranges, batch and workload, with a pool to push to,
so that `add_batch` is never what refuses the submission; and the order of
the files decides neither the lock nor how the call ends. -/
theorem backends_agree (host : Host) (config : StreamerConfig) (s : Service n)
    (hreach : (streamer n).Reachable s.core) (request : List FileRanges) :
    ((s.lockObjectPlugin host request).1 = .returned .success →
      Agree config.config request (s.lockObjectPlugin host request).2 ∧
      ((s.asyncRequest host config request).exit = .returned .invalidParameterError →
        2 ^ 32 ≤ totalRanges request) ∧
      ((s.asyncRequest host config request).exit = .returned .success →
        (s.asyncRequest host config request).service.pushPool (checkObjectStorage request)
          = .ok ())) ∧
    ∀ request', request.Perm request' →
      s.lockObjectPlugin host request' = s.lockObjectPlugin host request ∧
      (s.asyncRequest host config request').exit = (s.asyncRequest host config request).exit ∧
      (s.asyncRequest host config request').service.marks
        = (s.asyncRequest host config request).service.marks := by
  have hexit := asyncRequest_exit host config hreach request
  have hmarks := asyncRequest_marks host config hreach request
  refine ⟨fun hlock => ⟨agree hlock, fun hinvalid => ?_, fun hsuccess => ?_⟩, fun request' hperm => ?_⟩
  · rw [hexit] at hinvalid
    exact judge_returned hinvalid
  · rw [hexit] at hsuccess
    rw [backendOf_check (locked hlock).1]
    unfold Service.pushPool
    cases hobject : (backendOf request).isObjectStorage with
    | false => rfl
    | true =>
        have hpool := judge_pool hsuccess hobject
        rw [← hmarks] at hpool
        have hpool : (s.asyncRequest host config request).service.plugin.isSome = true := hpool
        rw [if_pos rfl, if_neg (by simp [Option.isSome_iff_ne_none.mp hpool])]
  · have hjudge := judge_perm host config.config s.marks hperm
    refine ⟨?_, ?_, ?_⟩
    · rw [lockObjectPlugin_eq, lockObjectPlugin_eq, backendOf_perm hperm]
    · rw [hexit, hjudge]
      exact asyncRequest_exit host config hreach request'
    · rw [hmarks, hjudge]
      exact asyncRequest_marks host config hreach request'

/-- A local file beside an object that is not read. -/
def fileAndNoObject : List FileRanges :=
  [⟨"/a", [⟨0, 1, 1, zero_lt_word, one_lt_word, one_lt_word⟩]⟩, ⟨"gs://b/k", []⟩]

theorem backends_agree_fileAndNoObject :
    Agree oneWorker.config fileAndNoObject
        ((⟨idle, none, false, false⟩ : Service 1).lockObjectPlugin noDescriptors
          fileAndNoObject).2 ∧
      (⟨idle, none, false, false⟩ : Service 1).lockObjectPlugin noDescriptors
          fileAndNoObject.reverse
        = (⟨idle, none, false, false⟩ : Service 1).lockObjectPlugin noDescriptors
          fileAndNoObject := by
  have h := backends_agree noDescriptors oneWorker (⟨idle, none, false, false⟩ : Service 1)
    (.init idle_init) fileAndNoObject
  have hlock : ((⟨idle, none, false, false⟩ : Service 1).lockObjectPlugin noDescriptors
      fileAndNoObject).1 = .returned .success := by decide +kernel
  exact ⟨(h.1 hlock).1, (h.2 _ (List.reverse_perm _).symm).1⟩

end ModelStreamer.Delivery
