/-
  ModelStreamer.Delivery.Outcome
  ──────────────────────────────
  **HOW A CALL OF `async_request` ENDS.**

  Of the streamer, the end of a call depends on three marks that earlier
  calls have left: the plugin the streamer is locked to, and the two
  once-flags of `handle_s3`.  `judge` reads the end, and the marks the call
  leaves in turn, off the request: which backend it asks for, whether it is
  too large, whether what has not been set up yet can be, whether a range
  wraps.

    • `classify_eq` — the backend, as a set of plugins; the order of the
      files has no part in it,
    • `backendOf_kind` — once the backends do not mix, a file with ranges is
      what `check_object_storage` takes the request for,
    • `buildTransfers_eq` — building fails by the set-up or by the plan, and
      never by `add_batch`,
    • `asyncRequest_judged` — the call is judged right.
-/
import ModelStreamer.Delivery.Submit
import ModelStreamer.Planning.Refused

namespace ModelStreamer.Delivery

open ModelStreamer.Lib ModelStreamer.Planning

variable {n : Nat}

/-! ## §1. The backend of a request. -/

/-- The backend `file` asks for, if it has ranges: `none` is a file system. -/
def askedBy (file : FileRanges) : Option (Option Plugin) :=
  if file.ranges.isEmpty then none else some ((StorageUri.parse file.path).map pluginOf)

/-- The plugins a request asks for. -/
def asked (request : List FileRanges) : List Plugin :=
  request.filterMap (fun file => (askedBy file).join)

/-- A request that reads from a file system. -/
def readsFiles (request : List FileRanges) : Bool :=
  request.any (fun file => decide (askedBy file = some none))

theorem asked_cons (file : FileRanges) (files : List FileRanges) :
    asked (file :: files) = (askedBy file).join.toList ++ asked files := by
  unfold asked
  rw [List.filterMap_cons]
  cases (askedBy file).join <;> rfl

theorem readsFiles_cons (file : FileRanges) (files : List FileRanges) :
    readsFiles (file :: files) = (decide (askedBy file = some none) || readsFiles files) := rfl

/-- One round of the loop, by what the file asks for. -/
theorem classify_cons (file : FileRanges) (files : List FileRanges) (plugin : Option Plugin)
    (filesystem : Bool) :
    classify (file :: files) plugin filesystem
      = match askedBy file with
        | none => classify files plugin filesystem
        | some none => classify files plugin true
        | some (some q) =>
            if ∀ p ∈ plugin, p = q then classify files (some q) filesystem else none := by
  rw [classify, askedBy]
  split
  · rfl
  · cases StorageUri.parse file.path with
    | none => rfl
    | some uri =>
        cases plugin with
        | none => simp
        | some p => by_cases hp : p = pluginOf uri <;> simp [hp]

theorem classify_some (files : List FileRanges) (p : Plugin) (filesystem : Bool) :
    classify files (some p) filesystem
      = if ∀ q ∈ asked files, q = p then some (some p, filesystem || readsFiles files)
        else none := by
  induction files generalizing filesystem with
  | nil => simp [classify, asked, readsFiles]
  | cons file files ih =>
      rw [classify_cons, asked_cons, readsFiles_cons]
      cases hfile : askedBy file with
      | none => simp [ih]
      | some backend =>
          cases backend with
          | none => simp [ih]
          | some q =>
              by_cases hq : p = q
              · subst hq
                simp [ih]
              · -- the second plugin is already enough
                have hq' : ¬ q = p := fun h => hq h.symm
                simp [hq, hq']

/-- **The backend**, as a set of plugins. -/
theorem classify_eq (files : List FileRanges) (filesystem : Bool) :
    classify files none filesystem
      = match asked files with
        | [] => some (none, filesystem || readsFiles files)
        | p :: rest =>
            if ∀ q ∈ rest, q = p then some (some p, filesystem || readsFiles files)
            else none := by
  induction files generalizing filesystem with
  | nil => simp [classify, asked, readsFiles]
  | cons file files ih =>
      rw [classify_cons, asked_cons, readsFiles_cons]
      cases hfile : askedBy file with
      | none => simp [ih]
      | some backend =>
          cases backend with
          | none => simp [ih]
          | some q => simp [classify_some]

/-- What `lock_object_plugin` makes of a request. -/
inductive Backend where
  | filesystem
  | plugin (p : Plugin)
  | mixed
  deriving DecidableEq, Repr

/-- The backend of a request. -/
def backendOf (request : List FileRanges) : Backend :=
  match classify request none false with
  | none => .mixed
  | some (none, _) => .filesystem
  | some (some p, false) => .plugin p
  | some (some _, true) => .mixed

theorem backendOf_filesystem {request : List FileRanges} :
    backendOf request = .filesystem ↔ asked request = [] := by
  rw [backendOf, classify_eq]
  cases hasked : asked request with
  | nil => simp
  | cons p rest =>
      by_cases hall : ∀ q ∈ rest, q = p
      · simp only [if_pos hall, Bool.false_or]
        cases readsFiles request <;> simp
      · simp [if_neg hall]

theorem backendOf_plugin {request : List FileRanges} {p : Plugin} :
    backendOf request = .plugin p ↔
      p ∈ asked request ∧ (∀ q ∈ asked request, q = p) ∧ readsFiles request = false := by
  rw [backendOf, classify_eq]
  cases hasked : asked request with
  | nil => simp
  | cons q rest =>
      by_cases hall : ∀ r ∈ rest, r = q
      · simp only [if_pos hall, Bool.false_or]
        cases hfiles : readsFiles request with
        | true => simp
        | false =>
            simp only [Backend.plugin.injEq, List.mem_cons, forall_eq_or_imp, and_true]
            refine ⟨?_, fun h => h.2.1⟩
            rintro rfl
            exact ⟨Or.inl rfl, rfl, hall⟩
      · simp only [if_neg hall, List.mem_cons, forall_eq_or_imp, reduceCtorEq, false_iff, not_and]
        rintro - ⟨rfl, hrest⟩
        exact absurd hrest hall

theorem mem_asked {request : List FileRanges} {file : FileRanges} {p : Plugin}
    (hfile : file ∈ request) (hasks : askedBy file = some (some p)) : p ∈ asked request :=
  List.mem_filterMap.mpr ⟨file, hfile, by rw [hasks]; rfl⟩

/-- In a request for the filesystem no file asks for a plugin. -/
theorem askedBy_filesystem {request : List FileRanges} (h : backendOf request = .filesystem)
    {file : FileRanges} (hfile : file ∈ request) {backend : Option Plugin}
    (hasks : askedBy file = some backend) : backend = none := by
  cases backend with
  | none => rfl
  | some p =>
      have hmem := mem_asked hfile hasks
      rw [backendOf_filesystem.mp h] at hmem
      simp at hmem

/-- In a request for a plugin every file asks for it. -/
theorem askedBy_plugin {request : List FileRanges} {p : Plugin} (h : backendOf request = .plugin p)
    {file : FileRanges} (hfile : file ∈ request) {backend : Option Plugin}
    (hasks : askedBy file = some backend) : backend = some p := by
  obtain ⟨-, honly, hnone⟩ := backendOf_plugin.mp h
  cases backend with
  | none =>
      rw [readsFiles, List.any_eq_false] at hnone
      exact absurd (decide_eq_true hasks) (hnone file hfile)
  | some q => rw [honly q (mem_asked hfile hasks)]

/-- One file asks for the plugin, and the others for nothing else. -/
theorem backendOf_alone {request : List FileRanges} {file : FileRanges} {p : Plugin}
    (hfile : file ∈ request) (hasks : askedBy file = some (some p))
    (hothers : ∀ other ∈ request, ∀ backend, askedBy other = some backend → backend = some p) :
    backendOf request = .plugin p := by
  refine backendOf_plugin.mpr ⟨mem_asked hfile hasks, fun q hq => ?_, ?_⟩
  · obtain ⟨other, hother, hq⟩ := List.mem_filterMap.mp hq
    exact Option.some.inj (hothers other hother _ (Option.join_eq_some_iff.mp hq))
  · rw [readsFiles, List.any_eq_false]
    intro other hother hread
    have hboth := hothers other hother none (of_decide_eq_true hread)
    simp at hboth

/-- **A request mixes backends** when two of its files ask for different ones. -/
theorem backendOf_mixed {request : List FileRanges} :
    backendOf request = .mixed ↔
      ∃ f ∈ request, ∃ g ∈ request, ∃ a b, askedBy f = some a ∧ askedBy g = some b ∧ a ≠ b := by
  constructor
  · intro hmixed
    by_contra hsame
    push Not at hsame
    cases hasked : asked request with
    | nil =>
        rw [backendOf_filesystem.mpr hasked] at hmixed
        simp at hmixed
    | cons p rest =>
        -- the file that asks for `p` leaves the others no choice
        have hmem : p ∈ asked request := by
          rw [hasked]
          exact List.mem_cons_self
        obtain ⟨f, hf, hp⟩ := List.mem_filterMap.mp hmem
        have hasks := Option.join_eq_some_iff.mp hp
        rw [backendOf_alone hf hasks fun g hg b hb => (hsame f hf g hg _ b hasks hb).symm] at hmixed
        simp at hmixed
  · rintro ⟨f, hf, g, hg, a, b, ha, hb, hne⟩
    cases hbackend : backendOf request with
    | mixed => rfl
    | filesystem =>
        rw [askedBy_filesystem hbackend hf ha, askedBy_filesystem hbackend hg hb] at hne
        exact absurd rfl hne
    | plugin p =>
        rw [askedBy_plugin hbackend hf ha, askedBy_plugin hbackend hg hb] at hne
        exact absurd rfl hne

/-- **The order of the files has no part in the backend.** -/
theorem backendOf_perm {request request' : List FileRanges} (h : request.Perm request') :
    backendOf request = backendOf request' := by
  have hasked : (asked request).Perm (asked request') := h.filterMap _
  have hfiles : readsFiles request = readsFiles request' := h.any_eq
  cases hb : backendOf request with
  | filesystem =>
      rw [backendOf_filesystem] at hb
      rw [hb] at hasked
      exact (backendOf_filesystem.mpr hasked.nil_eq.symm).symm
  | plugin p =>
      obtain ⟨hmem, hall, hnone⟩ := backendOf_plugin.mp hb
      refine (backendOf_plugin.mpr ⟨hasked.mem_iff.mp hmem, fun q hq => ?_, ?_⟩).symm
      · exact hall q (hasked.mem_iff.mpr hq)
      · rw [← hfiles]
        exact hnone
  | mixed =>
      cases hb' : backendOf request' with
      | filesystem =>
          rw [backendOf_filesystem] at hb'
          rw [hb'] at hasked
          rw [backendOf_filesystem.mpr hasked.eq_nil] at hb
          exact hb.symm
      | plugin p =>
          obtain ⟨hmem, hall, hnone⟩ := backendOf_plugin.mp hb'
          rw [backendOf_plugin.mpr ⟨hasked.mem_iff.mpr hmem,
            fun q hq => hall q (hasked.mem_iff.mp hq), by rw [hfiles]; exact hnone⟩] at hb
          exact hb.symm
      | mixed => rfl

/-- The backend is object storage. -/
def Backend.isObjectStorage : Backend → Bool
  | .plugin _ => true
  | _ => false

/-- The paths of the files with ranges, once the backends do not mix. -/
theorem backendOf_paths {request : List FileRanges} (hmix : backendOf request ≠ .mixed)
    {file : FileRanges} (hfile : file ∈ request) (hranges : file.ranges ≠ []) :
    (StorageUri.parse file.path).isSome = (backendOf request).isObjectStorage := by
  have hasks : askedBy file = some ((StorageUri.parse file.path).map pluginOf) :=
    if_neg (by simpa using hranges)
  cases hb : backendOf request with
  | filesystem =>
      rw [Option.map_eq_none_iff.mp (askedBy_filesystem hb hfile hasks)]
      rfl
  | plugin p =>
      obtain ⟨uri, huri, -⟩ := Option.map_eq_some_iff.mp (askedBy_plugin hb hfile hasks)
      rw [huri]
      rfl
  | mixed => exact absurd hb hmix

theorem checkObjectStorage_first {request : List FileRanges} {kind : Bool}
    (hkind : ∀ file ∈ request, file.ranges ≠ [] → (StorageUri.parse file.path).isSome = kind)
    (hsome : ∃ file ∈ request, file.ranges ≠ []) : checkObjectStorage request = kind := by
  induction request with
  | nil =>
      obtain ⟨file, hfile, -⟩ := hsome
      simp at hfile
  | cons file files ih =>
      rw [checkObjectStorage]
      by_cases hempty : file.ranges.isEmpty = true
      · rw [if_pos hempty]
        refine ih (fun f hf => hkind f (List.mem_cons_of_mem _ hf)) ?_
        obtain ⟨f, hf, hranges⟩ := hsome
        rcases List.mem_cons.mp hf with rfl | hf
        · exact absurd (by simpa using hempty) hranges
        · exact ⟨f, hf, hranges⟩
      · rw [if_neg hempty]
        exact hkind file (by simp) (by simpa using hempty)

/-- **`check_object_storage` agrees** with the lock. -/
theorem backendOf_check {request : List FileRanges} (hmix : backendOf request ≠ .mixed) :
    checkObjectStorage request = (backendOf request).isObjectStorage := by
  by_cases hsome : ∃ file ∈ request, file.ranges ≠ []
  · exact checkObjectStorage_first (fun file hfile hranges => backendOf_paths hmix hfile hranges)
      hsome
  · -- nothing to read: no plugin is asked for, and no file decides
    have hall : ∀ file ∈ request, file.ranges = [] := by
      intro file hfile
      by_contra hranges
      exact hsome ⟨file, hfile, hranges⟩
    have hasked : asked request = [] := by
      rw [asked, List.filterMap_eq_nil_iff]
      intro file hfile
      simp [askedBy, hall file hfile]
    rw [backendOf_filesystem.mpr hasked]
    clear hsome hasked hmix
    induction request with
    | nil => rfl
    | cons file files ih =>
        rw [checkObjectStorage, if_pos (by simp [hall file])]
        exact ih (fun f hf => hall f (List.mem_cons_of_mem _ hf))

/-! ## §2. Set-up. -/

/-- What earlier calls have left of themselves, besides the accounting. -/
structure Marks where
  plugin : Option Plugin
  streamInit : Bool
  cleanupInit : Bool
  deriving DecidableEq, Repr

/-- The marks of a streamer. -/
def Service.marks (s : Service n) : Marks := ⟨s.plugin, s.streamInit, s.cleanupInit⟩

/-- The streamer with other marks. -/
def Service.mark (s : Service n) (m : Marks) : Service n :=
  ⟨s.core, m.plugin, m.streamInit, m.cleanupInit⟩

@[simp] theorem mark_marks (s : Service n) : s.mark s.marks = s := rfl

@[simp] theorem marks_mark (s : Service n) (m : Marks) : (s.mark m).marks = m := rfl

@[simp] theorem core_mark (s : Service n) (m : Marks) : (s.mark m).core = s.core := rfl

@[simp] theorem mark_mark (s : Service n) (m m' : Marks) : (s.mark m).mark m' = s.mark m' := rfl

/-- The end of a step that may fail. -/
def Exit.of : Option Failure → Exit
  | none => .returned .success
  | some e => .threw e

/-- What raising the limit on file descriptors fails with. -/
def raiseLimit (host : Host) (config : Config) : Option Failure :=
  if host.fdLimit < config.s3Concurrency * 64 then
    if config.s3Concurrency * 64 > host.fdMax then some (.exception .insufficientFdLimit)
    else host.fdLimitSetter
  else none

/-- The two set-ups of `handle_s3`, where they are still to be made. -/
def Marks.setUp (host : Host) (config : Config) (m : Marks) : Option Failure × Marks :=
  match if m.streamInit then none else raiseLimit host config with
  | some e => (some e, m)
  | none =>
      match if m.cleanupInit then none else host.cleanup with
      | some e => (some e, { m with streamInit := true })
      | none => (none, { m with streamInit := true, cleanupInit := true })

theorem initStream_eq (host : Host) (config : Config) (s : Service n) :
    s.initStream host config
      = match if s.streamInit then none else raiseLimit host config with
        | some e => (.threw e, s)
        | none => (.returned .success, { s with streamInit := true }) := by
  obtain ⟨core, plugin, streamInit, cleanupInit⟩ := s
  unfold Service.initStream
  cases streamInit with
  | true => rfl
  | false =>
      unfold raiseLimit
      simp only [Bool.false_eq_true, if_false]
      by_cases hlow : host.fdLimit < config.s3Concurrency * 64
      · rw [if_pos hlow, if_pos hlow]
        by_cases hmax : config.s3Concurrency * 64 > host.fdMax
        · rw [if_pos hmax, if_pos hmax]
        · cases host.fdLimitSetter <;> simp only [if_neg hmax]
      · rw [if_neg hlow, if_neg hlow]

theorem initCleanup_eq (host : Host) (s : Service n) :
    s.initCleanup host
      = match if s.cleanupInit then none else host.cleanup with
        | some e => (.threw e, s)
        | none => (.returned .success, { s with cleanupInit := true }) := by
  obtain ⟨core, plugin, streamInit, cleanupInit⟩ := s
  unfold Service.initCleanup
  cases cleanupInit with
  | true => rfl
  | false => cases host.cleanup <;> rfl

theorem handleS3_eq (host : Host) (config : Config) (s : Service n) (path : String) :
    s.handleS3 host config path
      = if (StorageUri.parse path).isSome then
          (Exit.of (s.marks.setUp host config).1, s.mark (s.marks.setUp host config).2)
        else (.returned .success, s) := by
  unfold Service.handleS3
  cases StorageUri.parse path with
  | none => rfl
  | some uri =>
      simp only [Option.isSome_some, if_true, initStream_eq, initCleanup_eq]
      unfold Marks.setUp Service.marks
      cases if s.streamInit = true then none else raiseLimit host config with
      | some e => rfl
      | none =>
          simp only
          cases if s.cleanupInit = true then none else host.cleanup <;> rfl

/-- What has been set up is not set up again. -/
theorem setUp_setUp {host : Host} {config : Config} {m : Marks}
    (h : (m.setUp host config).1 = none) :
    (m.setUp host config).2.setUp host config = (none, (m.setUp host config).2) := by
  unfold Marks.setUp at h ⊢
  cases hstream : if m.streamInit = true then none else raiseLimit host config with
  | some e => simp [hstream] at h
  | none =>
      cases hcleanup : if m.cleanupInit = true then none else host.cleanup with
      | some e => simp [hstream, hcleanup] at h
      | none => simp

/-! ## §3. Building the workloads. -/

/-- Every workload with a batch is of the kind `kind`. -/
def AllOf (kind : Bool) (workloads : Nat → Option Bool) : Prop :=
  ∀ i, ∀ k ∈ workloads i, k = kind

/-- **`add_batch` never reports a mix** of batches of one kind. -/
theorem addBatches_allOf {kind : Bool} (batches : List Batch) :
    ∀ {workloads : Nat → Option Bool}, AllOf kind workloads →
      (∀ batch ∈ batches, batch.isObjectStorage = kind) →
      ∃ workloads', addBatches batches workloads = some workloads' ∧ AllOf kind workloads' := by
  induction batches with
  | nil =>
      intro workloads hall _
      exact ⟨workloads, rfl, hall⟩
  | cons batch batches ih =>
      intro workloads hall hkind
      have hbatch := hkind batch (by simp)
      have hrest : ∀ b ∈ batches, b.isObjectStorage = kind :=
        fun b hb => hkind b (List.mem_cons_of_mem _ hb)
      rw [addBatches]
      cases hw : workloads batch.workloadIndex with
      | none =>
          refine ih (fun i k hk => ?_) hrest
          by_cases hi : i = batch.workloadIndex
          · subst hi
            rw [Function.update_self, Option.mem_some_iff] at hk
            rw [← hk]
            exact hbatch
          · rw [Function.update_of_ne hi] at hk
            exact hall i k hk
      | some k =>
          have hk : k = kind := hall batch.workloadIndex k hw
          simp only [hk, hbatch, ne_eq, not_true_eq_false, if_false]
          exact ih hall hrest

/-- The batches of a transfer are of the kind of its path. -/
theorem makeBatches_uri {submissionId fileIndex : Nat} {path : String}
    {uri : Option StorageUri} (slices : List FileReadTask) :
    ∀ {vTasks : List (List Task)} {batches : List Batch},
      makeBatches submissionId fileIndex path uri slices vTasks = .ok batches →
      ∀ batch ∈ batches, batch.uri = uri := by
  induction slices with
  | nil =>
      intro vTasks batches h
      simp only [makeBatches, Except.ok.injEq] at h
      simp [← h]
  | cons slice slices ih =>
      intro vTasks batches h
      cases vTasks with
      | nil =>
          simp only [makeBatches, Except.ok.injEq] at h
          simp [← h]
      | cons tasks vTasks =>
          rw [makeBatches] at h
          split at h
          next => exact ih h
          next =>
            split at h
            next => simp at h
            next range hrange =>
              split at h
              next => simp at h
              next rest hmake =>
                simp only [Except.ok.injEq] at h
                subst h
                intro batch hbatch
                rcases List.mem_cons.mp hbatch with rfl | hbatch
                · rfl
                · exact ih hmake batch hbatch

theorem batchesNew_kind {submissionId : Nat} {path : String} {t : ContiguousTransfer}
    {bs : Batches} (h : Batches.new submissionId path t = .ok bs) :
    ∀ batch ∈ bs.batches, batch.isObjectStorage = (StorageUri.parse path).isSome := by
  rw [Batches.new] at h
  split at h
  next => simp at h
  next =>
    split at h
    next => simp at h
    next batches hmake =>
      simp only [Except.ok.injEq] at h
      subst h
      intro batch hbatch
      rw [Batch.isObjectStorage, makeBatches_uri t.tasks hmake batch hbatch]

/-- The path of a transfer's file. -/
def pathOf (request : List FileRanges) (t : ContiguousTransfer) : String :=
  (request[t.fileIndex]?.map FileRanges.path).getD ""

/-- The end of a plan. -/
def planExit : Except Failure Batches → Exit
  | .ok _ => .returned .success
  | .error e => .threw e

/-- Where all is set up that the transfers need, only the plan can fail. -/
theorem buildTransfers_ready {host : Host} {config : Config} {id : Nat}
    {request : List FileRanges} {kind : Bool} (ts : List ContiguousTransfer) :
    ∀ {params : Option Nat} {workloads : Nat → Option Bool} {s : Service n},
      (∀ t ∈ ts, (StorageUri.parse (pathOf request t)).isSome = kind) → AllOf kind workloads →
      (kind = true → s.marks.setUp host config = (none, s.marks)) →
      s.buildTransfers host config id request ts params workloads
        = (planExit (planTransfers id request ts), s) := by
  induction ts with
  | nil =>
      intro params workloads s _ _ _
      rfl
  | cons t ts ih =>
      intro params workloads s hpaths hall hready
      have hpath : (StorageUri.parse (pathOf request t)).isSome = kind := hpaths t (by simp)
      -- the plugin is set up once for the submission, and stays so
      have hhandled : (if params = some t.fileIndex then (Exit.returned .success, s)
          else s.handleS3 host config (pathOf request t)) = (.returned .success, s) := by
        split
        · rfl
        · rw [handleS3_eq, hpath]
          cases kind with
          | false => rfl
          | true =>
              rw [hready rfl]
              rfl
      unfold Service.buildTransfers
      simp only
      rw [show (if params = some t.fileIndex then (Exit.returned .success, s)
        else s.handleS3 host config ((request[t.fileIndex]?.map FileRanges.path).getD ""))
          = (.returned .success, s) from hhandled]
      simp only [planTransfers]
      cases hnew : Batches.new id ((request[t.fileIndex]?.map FileRanges.path).getD "") t with
      | error e => rfl
      | ok bs =>
          obtain ⟨workloads', hadd, hall'⟩ := addBatches_allOf bs.batches hall
            (fun batch hbatch => (batchesNew_kind hnew batch hbatch).trans hpath)
          simp only [hadd]
          rw [ih (fun u hu => hpaths u (List.mem_cons_of_mem _ hu)) hall' hready]
          cases planTransfers id request ts <;> rfl

/-- **Building the workloads** fails by the set-up or by the plan. -/
theorem buildTransfers_eq {host : Host} {config : Config} {id : Nat}
    {request : List FileRanges} {kind : Bool} {ts : List ContiguousTransfer} {s : Service n}
    (hne : ts ≠ []) (hpaths : ∀ t ∈ ts, (StorageUri.parse (pathOf request t)).isSome = kind) :
    s.buildTransfers host config id request ts none (fun _ => none)
      = match if kind then s.marks.setUp host config else (none, s.marks) with
        | (some e, m) => (.threw e, s.mark m)
        | (none, m) => (planExit (planTransfers id request ts), s.mark m) := by
  have hnone : AllOf kind (fun _ => none) := fun i k hk => by simp at hk
  cases kind with
  | false => exact buildTransfers_ready ts hpaths hnone (by simp)
  | true =>
      simp only [if_true]
      obtain ⟨t, ts, rfl⟩ := List.exists_cons_of_ne_nil hne
      have hpath : (StorageUri.parse (pathOf request t)).isSome = true := hpaths t (by simp)
      have hfirst := handleS3_eq host config s (pathOf request t)
      rw [hpath, if_pos rfl] at hfirst
      rcases hsetup : s.marks.setUp host config with ⟨failure, m⟩
      rw [hsetup] at hfirst
      cases failure with
      | some e =>
          unfold Service.buildTransfers
          simp only [reduceCtorEq, if_false]
          rw [show s.handleS3 host config ((request[t.fileIndex]?.map FileRanges.path).getD "")
            = (.threw e, s.mark m) from hfirst]
      | none =>
          -- from here on as if all had been set up before the call
          have hagain : m.setUp host config = (none, m) := by
            have := @setUp_setUp host config s.marks (by rw [hsetup])
            rw [hsetup] at this
            exact this
          have hready := @buildTransfers_ready n host config id request true (t :: ts) none
            (fun _ => none) (s.mark m) hpaths hnone (fun _ => hagain)
          have hsecond := handleS3_eq host config (s.mark m) (pathOf request t)
          rw [hpath, if_pos rfl, marks_mark, hagain] at hsecond
          refine Eq.trans ?_ hready
          unfold Service.buildTransfers
          simp only [reduceCtorEq, if_false]
          rw [show s.handleS3 host config ((request[t.fileIndex]?.map FileRanges.path).getD "")
              = (.returned .success, s.mark m) from hfirst,
            show (s.mark m).handleS3 host config
                ((request[t.fileIndex]?.map FileRanges.path).getD "")
              = (.returned .success, s.mark m) from hsecond]

/-! ## §4. The call. -/

/-- A request with more ranges than an `unsigned` counts, or with 2^64 bytes. -/
def oversized (request : List FileRanges) : Bool :=
  decide (2 ^ 32 ≤ totalRanges request) || decide (2 ^ 64 ≤ requestBytes request)

/-- The end of a call for which all is set up. -/
def requestExit (request : List FileRanges) : Exit :=
  if 2 ^ 32 ≤ totalRanges request then .returned .invalidParameterError
  else if 2 ^ 64 ≤ requestBytes request ∨ ¬ NoWrap request then
    .threw (.exception .invalidParameterError)
  else .returned .success

/-- `BackendPools::lock_object_plugin`, on the marks. -/
def Marks.lock (host : Host) (m : Marks) (plugin : Plugin) : Exit × Marks :=
  match m.plugin with
  | some locked =>
      (if locked ≠ plugin then .returned .unsupportedBackendMix else .returned .success, m)
  | none =>
      match host.threadPool with
      | some e => (.threw e, m)
      | none => (.returned .success, { m with plugin := some plugin })

/-- **How a call ends**, and the marks it leaves. -/
def judge (host : Host) (config : Config) (m : Marks) (request : List FileRanges) :
    Exit × Marks :=
  if verifyRequests request then
    match backendOf request with
    | .mixed => (.returned .unsupportedBackendMix, m)
    | .filesystem => (requestExit request, m)
    | .plugin p =>
        match m.lock host p with
        | (.returned .success, m) =>
            if oversized request then (requestExit request, m)
            else ((m.setUp host config).1.elim (requestExit request) .threw,
              (m.setUp host config).2)
        | failed => failed
  else (.threw (.exception .invalidParameterError), m)

/-- What becomes of the lock: refused, not had for want of the pool, or had. -/
theorem lock_cases (host : Host) (m : Marks) (p : Plugin) :
    (m.lock host p = (.returned .unsupportedBackendMix, m) ∧ ∃ q, m.plugin = some q ∧ q ≠ p) ∨
    (∃ e, m.lock host p = (.threw e, m) ∧ m.plugin = none ∧ host.threadPool = some e) ∨
    (m.lock host p = (.returned .success, { m with plugin := some p }) ∧
      (m.plugin = some p ∨ m.plugin = none ∧ host.threadPool = none)) := by
  obtain ⟨plugin, streamInit, cleanupInit⟩ := m
  unfold Marks.lock
  cases plugin with
  | some q =>
      by_cases hq : q = p
      · subst hq
        exact Or.inr (Or.inr ⟨by simp, Or.inl rfl⟩)
      · exact Or.inl ⟨by simp [hq], q, rfl, hq⟩
  | none =>
      cases hpool : host.threadPool with
      | some e => exact Or.inr (Or.inl ⟨e, rfl, rfl, rfl⟩)
      | none => exact Or.inr (Or.inr ⟨rfl, Or.inr ⟨rfl, rfl⟩⟩)

@[simp] theorem setUp_plugin (host : Host) (config : Config) (m : Marks) :
    (m.setUp host config).2.plugin = m.plugin := by
  unfold Marks.setUp
  split
  · rfl
  · split <;> rfl

theorem lockPlugin_eq (host : Host) (s : Service n) (p : Plugin) :
    s.lockPlugin host p = ((s.marks.lock host p).1, s.mark (s.marks.lock host p).2) := by
  obtain ⟨core, plugin, streamInit, cleanupInit⟩ := s
  unfold Service.lockPlugin Marks.lock Service.marks
  cases plugin with
  | some locked => rfl
  | none => cases host.threadPool <;> rfl

/-- `lock_object_plugin`, by the backend. -/
theorem lockObjectPlugin_eq (host : Host) (s : Service n) (request : List FileRanges) :
    s.lockObjectPlugin host request
      = match backendOf request with
        | .mixed => (.returned .unsupportedBackendMix, s)
        | .filesystem => (.returned .success, s)
        | .plugin p => ((s.marks.lock host p).1, s.mark (s.marks.lock host p).2) := by
  unfold Service.lockObjectPlugin backendOf
  cases classify request none false with
  | none => rfl
  | some result =>
      obtain ⟨plugin, filesystem⟩ := result
      cases plugin with
      | none => rfl
      | some p =>
          cases filesystem with
          | true => rfl
          | false => exact lockPlugin_eq host s p

/-- A transfer belongs to a file with ranges. -/
theorem transfer_file {config : Config} {request : List FileRanges} {assigner : Assigner}
    (hworkers : 1 ≤ numWorkers config request)
    (hnew : Assigner.new config request = .ok assigner) :
    ∀ t ∈ assigner.transfers, ∃ file ∈ request, file.ranges ≠ [] ∧ pathOf request t = file.path := by
  obtain ⟨groups, hserves, hindex, -⟩ := assigner_ok hworkers hnew
  intro t ht
  obtain ⟨i, hi, rfl⟩ := List.mem_iff_getElem.mp ht
  have hi' : i < groups.length := by
    rw [← hserves.length_eq]
    exact hi
  have hserve : Serves assigner.transfers[i] groups[i] := hserves.get hi hi'
  obtain ⟨range, ranges, hranges⟩ := List.exists_cons_of_ne_nil hserve.nonempty
  have hmem : (⟨groups[i].fileIndex, groups[i].first, range⟩ : Indexed) ∈ indexFiles 0 request := by
    rw [← hindex]
    refine List.mem_flatMap.mpr ⟨groups[i], List.getElem_mem hi', ?_⟩
    rw [hranges]
    exact List.mem_cons_self
  have hat := (mem_indexFiles.mp hmem).2
  rw [rangeAt, Option.bind_eq_some_iff] at hat
  obtain ⟨file, hfile, hget⟩ := hat
  refine ⟨file, List.mem_of_getElem? hfile, ?_, ?_⟩
  · rintro hnil
    rw [hnil] at hget
    simp at hget
  · rw [pathOf, hserve.fileIndex_eq]
    have hfile : request[groups[i].fileIndex]? = some file := hfile
    rw [hfile]
    rfl

/-- A request with ranges has transfers. -/
theorem transfers_ne_nil {config : Config} {request : List FileRanges} {assigner : Assigner}
    (hworkers : 1 ≤ numWorkers config request)
    (hnew : Assigner.new config request = .ok assigner) (hpos : 0 < totalRanges request) :
    assigner.transfers ≠ [] := by
  obtain ⟨groups, hserves, hindex, -⟩ := assigner_ok hworkers hnew
  intro hnil
  rw [hnil] at hserves
  cases hserves
  have hlen : (indexFiles 0 request).length = totalRanges request := indexFiles_length 0 request
  rw [← hindex] at hlen
  simp [indexGroups] at hlen
  omega

/-- A request without ranges reads nothing. -/
theorem requestExit_empty {request : List FileRanges} (h : totalRanges request = 0) :
    requestExit request = .returned .success := by
  have hall : ∀ file ∈ request, file.ranges = [] := by
    intro file hfile
    have hle : file.ranges.length ≤ totalRanges request :=
      List.single_le_sum (fun _ _ => Nat.zero_le _) _ (List.mem_map_of_mem hfile)
    exact List.length_eq_zero_iff.mp (by omega)
  have hbytes : requestBytes request = 0 := by
    rw [requestBytes, List.sum_eq_zero_iff]
    intro bytes hmem
    obtain ⟨file, hfile, rfl⟩ := List.mem_map.mp hmem
    rw [hall file hfile]
    rfl
  have hno : NoWrap request := by
    intro file hfile range hrange
    rw [hall file hfile] at hrange
    simp at hrange
  unfold requestExit
  rw [if_neg (by omega), if_neg]
  rintro (hlarge | hwraps)
  · omega
  · exact hwraps hno

/-- What is built and planned is committed, under an id that is free. -/
theorem submit_built {host : Host} {config : StreamerConfig} {request : List FileRanges}
    {hlt : totalRanges request < 2 ^ 32} {s t : Service n} {id : Nat} {assigner : Assigner}
    {p : Plan} (hpos : totalRanges request ≠ 0)
    (hnew : Assigner.new config.config request = .ok assigner)
    (hbuild : s.buildTransfers host config.config id request assigner.transfers none
      (fun _ => none) = (.returned .success, t))
    (hplan : plan config.config id request = .ok p)
    (hfree : t.core.mgr.submissions id = none) :
    (s.submit host config request hlt id).1 = .returned .success ∧
      (s.submit host config request hlt id).2.marks = t.marks := by
  unfold Service.submit
  rw [dif_neg hpos]
  simp only [hnew, hbuild]
  split
  next e herror =>
    rw [hplan] at herror
    simp at herror
  next p' hplan' =>
    unfold Service.commit SubmissionsMgr.add
    rw [hfree]
    exact ⟨rfl, rfl⟩

/-- Every plugin asked for has a range to read. -/
theorem asked_length (request : List FileRanges) :
    (asked request).length ≤ totalRanges request := by
  induction request with
  | nil => exact Nat.le_refl _
  | cons file files ih =>
      rw [asked_cons, List.length_append]
      have hone : ((askedBy file).join.toList).length ≤ file.ranges.length := by
        unfold askedBy
        split
        · exact Nat.zero_le _
        next hempty =>
          have hpos : 0 < file.ranges.length := by
            apply List.length_pos_of_ne_nil
            simpa using hempty
          cases StorageUri.parse file.path with
          | none => exact Nat.zero_le _
          | some uri => exact hpos
      have htotal : totalRanges (file :: files) = file.ranges.length + totalRanges files := rfl
      omega

/-- `async_request` from its id on, under an id that is free. -/
theorem submit_judged {host : Host} {config : StreamerConfig} {request : List FileRanges}
    {hlt : totalRanges request < 2 ^ 32} {s : Service n} {id : Nat} {kind : Bool}
    (hfree : s.core.mgr.submissions id = none)
    (hkind : ∀ file ∈ request, file.ranges ≠ [] → (StorageUri.parse file.path).isSome = kind)
    (hsome : kind = true → totalRanges request ≠ 0) :
    ((s.submit host config request hlt id).1, (s.submit host config request hlt id).2.marks)
      = if kind = false ∨ oversized request = true then (requestExit request, s.marks)
        else ((s.marks.setUp host config.config).1.elim (requestExit request) .threw,
          (s.marks.setUp host config.config).2) := by
  by_cases hpos : totalRanges request = 0
  · have hfalse : kind = false := by
      cases kind with
      | false => rfl
      | true => exact absurd hpos (hsome rfl)
    rw [if_pos (Or.inl hfalse), requestExit_empty hpos]
    unfold Service.submit
    rw [dif_pos hpos]
  · have hworkers := config.workers request
    cases hnew : Assigner.new config.config request with
    | error e =>
        obtain ⟨rfl, hbytes⟩ := assigner_refuses hworkers hnew
        have hsize : oversized request = true := by
          unfold oversized
          simp only [Bool.or_eq_true, decide_eq_true_eq]
          exact Or.inr hbytes
        rw [if_pos (Or.inr hsize)]
        unfold Service.submit requestExit
        rw [dif_neg hpos, if_neg (by omega), if_pos (Or.inl hbytes)]
        simp only [hnew]
    | ok assigner =>
        have hbytes := assigner_bytes hnew
        have hsize : ¬ oversized request = true := by
          unfold oversized
          simp only [Bool.or_eq_true, decide_eq_true_eq]
          omega
        have hpaths : ∀ t ∈ assigner.transfers,
            (StorageUri.parse (pathOf request t)).isSome = kind := by
          intro t ht
          obtain ⟨file, hfile, hranges, hpath⟩ := transfer_file hworkers hnew t ht
          rw [hpath]
          exact hkind file hfile hranges
        have hbuild := @buildTransfers_eq n host config.config id request kind assigner.transfers
          s (transfers_ne_nil hworkers hnew (Nat.pos_of_ne_zero hpos)) hpaths
        obtain ⟨hok, hwraps⟩ := @plan_refuses config.config id request assigner hworkers hnew
        -- once all is set up, the call ends as its ranges decide
        have hplanned : ∀ m : Marks,
            s.buildTransfers host config.config id request assigner.transfers none (fun _ => none)
              = (planExit (planTransfers id request assigner.transfers), s.mark m) →
            ((s.submit host config request hlt id).1,
              (s.submit host config request hlt id).2.marks) = (requestExit request, m) := by
          intro m hbuild
          unfold requestExit
          rw [if_neg (by omega)]
          by_cases hno : NoWrap request
          · obtain ⟨batches, hbatches⟩ := hok hno
            rw [hbatches] at hbuild
            have hplan : plan config.config id request
                = .ok ⟨assigner.numWorkloads, batches.batches, batches.requests⟩ := by
              rw [plan, hnew]
              simp only [hbatches]
            obtain ⟨hexit, hmarks⟩ := @submit_built n host config request hlt s (s.mark m) id
              assigner _ hpos hnew hbuild hplan hfree
            rw [hexit, hmarks, if_neg]
            · rfl
            · rintro (hlarge | hwrap)
              · omega
              · exact hwrap hno
          · rw [hwraps hno] at hbuild
            rw [if_pos (Or.inr hno)]
            unfold Service.submit
            rw [dif_neg hpos]
            simp only [hnew, hbuild]
            rfl
        cases kind with
        | false =>
            rw [if_pos (Or.inl rfl)]
            exact hplanned s.marks hbuild
        | true =>
            rw [if_neg (by simp [hsize])]
            rcases hsetup : s.marks.setUp host config.config with ⟨failure, m⟩
            simp only [if_true, hsetup] at hbuild
            cases failure with
            | some e =>
                unfold Service.submit
                rw [dif_neg hpos]
                simp only [hnew, hbuild]
                rfl
            | none => exact hplanned m hbuild

/-- **The call is judged right.** -/
theorem asyncRequest_judged (host : Host) (config : StreamerConfig) {s : Service n}
    (hreach : (streamer n).Reachable s.core) (request : List FileRanges) :
    ((s.asyncRequest host config request).exit, (s.asyncRequest host config request).service.marks)
      = judge host config.config s.marks request := by
  obtain ⟨hinv, -, hregistry⟩ := reachable_registry s.core hreach
  have hfree : s.core.mgr.submissions s.core.mgr.nextId = none := by
    refine hregistry.unknown _ (fun sub hsub hsame => ?_)
    have := hinv.ids.old sub hsub
    omega
  -- from the count of the ranges on
  have hcounted : ∀ (m : Marks) (kind : Bool),
      (∀ file ∈ request, file.ranges ≠ [] → (StorageUri.parse file.path).isSome = kind) →
      (kind = true → totalRanges request ≠ 0) →
      ∀ call : Call n, call = (if hlt : totalRanges request < 2 ^ 32 then
          let id := (s.mark m).core.mgr.generate.1
          let built := (s.mark m).mint.submit host config request hlt id
          ⟨built.1, some id, built.2⟩
        else ⟨.returned .invalidParameterError, none, s.mark m⟩) →
      (call.exit, call.service.marks)
        = if kind = false ∨ oversized request = true then (requestExit request, m)
          else ((m.setUp host config.config).1.elim (requestExit request) .threw,
            (m.setUp host config.config).2) := by
    rintro m kind hkind hsome call rfl
    by_cases hlt : totalRanges request < 2 ^ 32
    · rw [dif_pos hlt]
      exact @submit_judged n host config request hlt (s.mark m).mint
        (s.mark m).core.mgr.generate.1 kind hfree hkind hsome
    · have hsize : oversized request = true := by
        unfold oversized
        simp only [Bool.or_eq_true, decide_eq_true_eq]
        omega
      rw [dif_neg hlt, if_pos (Or.inr hsize)]
      unfold requestExit
      rw [if_pos (by omega)]
      rfl
  unfold Service.asyncRequest judge
  cases hverify : verifyRequests request with
  | false => rfl
  | true =>
      simp only [if_true]
      rw [lockObjectPlugin_eq]
      cases hb : backendOf request with
      | mixed => rfl
      | filesystem =>
          refine hcounted s.marks false ?_ (by simp) _ rfl
          intro file hfile hranges
          rw [backendOf_paths (by rw [hb]; simp) hfile hranges, hb]
          rfl
      | plugin p =>
          have hkind : ∀ file ∈ request, file.ranges ≠ [] →
              (StorageUri.parse file.path).isSome = true := by
            intro file hfile hranges
            rw [backendOf_paths (by rw [hb]; simp) hfile hranges, hb]
            rfl
          have hsome : totalRanges request ≠ 0 := by
            intro hzero
            have hlen : (asked request).length ≤ totalRanges request := asked_length request
            have := List.length_pos_of_mem (backendOf_plugin.mp hb).1
            omega
          simp only
          rcases s.marks.lock host p with ⟨exit, m⟩
          by_cases hexit : exit = .returned .success
          · subst hexit
            simp only
            have h := hcounted m true hkind (fun _ => hsome) _ rfl
            simp only [Bool.true_eq_false, false_or] at h
            exact h
          · split
            next heq => exact absurd (congrArg Prod.fst heq) hexit
            next failed t _ heq =>
              obtain ⟨rfl, rfl⟩ : exit = failed ∧ s.mark m = t := by
                simpa [Prod.ext_iff] using heq
              split
              next heq => exact absurd (congrArg Prod.fst heq) hexit
              next => rfl

theorem asyncRequest_exit (host : Host) (config : StreamerConfig) {s : Service n}
    (hreach : (streamer n).Reachable s.core) (request : List FileRanges) :
    (s.asyncRequest host config request).exit
      = (judge host config.config s.marks request).1 :=
  congrArg Prod.fst (asyncRequest_judged host config hreach request)

theorem asyncRequest_marks (host : Host) (config : StreamerConfig) {s : Service n}
    (hreach : (streamer n).Reachable s.core) (request : List FileRanges) :
    (s.asyncRequest host config request).service.marks
      = (judge host config.config s.marks request).2 :=
  congrArg Prod.snd (asyncRequest_judged host config hreach request)

/-- The core of `async_request` commits an id it has minted. -/
theorem submit_reachable {host : Host} {config : StreamerConfig} {request : List FileRanges}
    {hlt : totalRanges request < 2 ^ 32} {s : Service n} {id : Nat}
    (hreach : (streamer n).Reachable s.core) (hid : id ∈ s.core.minted) :
    (streamer n).Reachable (s.submit host config request hlt id).2.core := by
  unfold Service.submit
  split
  · exact hreach
  · split
    · exact hreach
    next assigner hnew =>
      have hbuild := buildTransfers_core host config.config id request assigner.transfers none
        (fun _ => none) s
      split
      next t heq =>
        rw [heq] at hbuild
        have hcore : t.core = s.core := hbuild
        split
        · show (streamer n).Reachable t.core
          rw [hcore]
          exact hreach
        · unfold Service.commit
          split
          · show (streamer n).Reachable t.core
            rw [hcore]
            exact hreach
          next mgr hadd =>
            refine .step (s := t.core) ?_ (Step.submit _ mgr ?_ hadd)
            · rw [hcore]
              exact hreach
            · rw [hcore]
              exact hid
      next =>
        rw [hbuild]
        exact hreach

/-- **Calls lead from reachable states to reachable states.** -/
theorem asyncRequest_reachable (host : Host) (config : StreamerConfig) {s : Service n}
    (hreach : (streamer n).Reachable s.core) (request : List FileRanges) :
    (streamer n).Reachable (s.asyncRequest host config request).service.core := by
  have hlock := lockObjectPlugin_core host s request
  unfold Service.asyncRequest
  split
  · split
    next t heq =>
      rw [heq] at hlock
      have hcore : t.core = s.core := hlock
      have hreach : (streamer n).Reachable t.core := by
        rw [hcore]
        exact hreach
      split
      next hlt =>
        refine submit_reachable (s := t.mint) (.step hreach Step.mint) ?_
        exact List.mem_cons_self
      next => exact hreach
    next failed t _ heq =>
      rw [heq] at hlock
      have hcore : t.core = s.core := hlock
      show (streamer n).Reachable t.core
      rw [hcore]
      exact hreach
  · exact hreach

end ModelStreamer.Delivery
