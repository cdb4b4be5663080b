/-
  ModelStreamer.Delivery.Dispatch
  ───────────────────────────────
  **DISPATCHING ONE WORKLOAD AFTER ANOTHER, WHERE EVERY STEP MAY THROW.**

  `Delivery.System` commits a submission and queues its jobs in one step.
  Here the rest of `async_request` takes its own steps, among the steps of
  the workers and of other calls: the guard is built, the filesystem pool is
  created on its first use, the workloads are pushed one by one, and each of
  these may throw.  The guard's closure runs `drain_undispatched` when the
  call is left, so it answers for the workloads from `next` on.

  Two of these points are not covered.  The closure holds four references and
  lives on the heap, so building the guard may throw before it is armed; and
  a pool that throws with a thread started waits for that thread in its
  destructor, which nobody has told to end, so the call is never left.

    • `simulated` — every run is one of `Delivery.System`: the dispatch is
      invisible but for the commit and the drain,
    • `work_decreases` — threads and calls come to rest,
    • `failure_answered_iff` — at rest, a call that threw after its commit
      has answered everything exactly if the guard was armed and the call was
      left.
-/
import ModelStreamer.Delivery.ExactlyOnce
import ModelStreamer.Lib.Dealing
import ModelStreamer.Pools.PluginLock

namespace ModelStreamer.Delivery

open ModelStreamer.Lib ModelStreamer.Planning

/-! ## §1. Workloads. -/

/-- `workloads[k]`, before it is pushed. -/
def Submission.workload (sub : Submission) (k : Nat) : List Job :=
  sub.jobs.filter (fun job => decide (job.batch.workloadIndex = k))

/-- `workloads[from .. end]`. -/
def Submission.undispatched (sub : Submission) (start : Nat) : List Job :=
  (List.range' start (sub.plan.numWorkloads - start)).flatMap sub.workload

/-- `BackendPools::push` wants the filesystem pool: the workload has batches,
and the first of them is not in object storage. -/
def wantsPool : List Job → Bool
  | [] => false
  | job :: _ => !job.batch.isObjectStorage

/-- What `Workload::fail(UnknownError)` reports, workload after workload. -/
def failEvents (jobs : List Job) : List Event :=
  jobs.flatMap (fun job => job.events (Execution.fail job.batch .unknownError (by simp)))

/-- Before the first push every job is undispatched. -/
theorem undispatched_zero (sub : Submission) : (sub.undispatched 0).Perm sub.jobs := by
  have hgroups := flatMap_filter_perm (fun job : Job => job.batch.workloadIndex) sub.jobs
    sub.plan.numWorkloads
  have hall : sub.jobs.filter (fun job => decide (job.batch.workloadIndex < sub.plan.numWorkloads))
      = sub.jobs := by
    refine List.filter_eq_self.mpr (fun job hjob => ?_)
    exact decide_eq_true (planned_batch sub (mem_jobs hjob)).workload_lt
  rw [hall] at hgroups
  rw [Submission.undispatched, Nat.sub_zero, ← List.range_eq_range']
  exact hgroups

/-- A push takes the first of the undispatched workloads. -/
theorem undispatched_succ (sub : Submission) {k : Nat} (h : k < sub.plan.numWorkloads) :
    sub.undispatched k = sub.workload k ++ sub.undispatched (k + 1) := by
  have hcount : sub.plan.numWorkloads - k = sub.plan.numWorkloads - (k + 1) + 1 := by omega
  rw [Submission.undispatched, hcount, List.range'_succ, List.flatMap_cons]
  rfl

theorem undispatched_end (sub : Submission) {k : Nat} (h : sub.plan.numWorkloads ≤ k) :
    sub.undispatched k = [] := by
  rw [Submission.undispatched, Nat.sub_eq_zero_of_le h]
  rfl

theorem mem_jobs_of_undispatched {sub : Submission} {k : Nat} {job : Job}
    (h : job ∈ sub.undispatched k) : job ∈ sub.jobs := by
  obtain ⟨i, -, hmem⟩ := List.mem_flatMap.mp h
  exact (List.mem_filter.mp hmem).1

/-! ## §2. The calls. -/

namespace Dispatch

/-- Where `async_request` threw, after the commit: building the guard;
creating the filesystem pool for workload `next`, with so many threads
started; pushing workload `next`. -/
inductive Fault where
  | guard
  | spawn (next started : Nat)
  | push (next : Nat)
  deriving DecidableEq, Repr

/-- `next`, when it threw. -/
def Fault.next : Fault → Nat
  | .guard => 0
  | .spawn next _ => next
  | .push next => next

/-- The guard is armed, and the call is left. -/
def Fault.Caught : Fault → Prop
  | .guard => False
  | .spawn _ started => started = 0
  | .push _ => True

/-- Where a call is, from its commit on. -/
inductive Phase where
  | registered
  /-- In the loop, the guard armed. -/
  | dispatching (next : Nat)
  /-- The pool's constructor has thrown; its threads are joined. -/
  | joining (next started : Nat) (pool : Pools.ThreadPool)
  /-- In `drain_undispatched`. -/
  | draining (fault : Fault)
  | ended (fault : Option Fault)
  deriving DecidableEq, Repr

/-- A call that has committed `sub`, on one of the user's threads. -/
structure Call (n : Nat) where
  sub : Submission
  thread : Fin n
  phase : Phase

/-- The call has not been left. -/
def Call.Active {n : Nat} (c : Call n) : Prop := ∀ fault, c.phase ≠ .ended fault

/-- What the call threw, if it did. -/
def Call.fault {n : Nat} (c : Call n) : Option Fault :=
  match c.phase with
  | .registered | .dispatching _ => none
  | .joining next started _ => some (.spawn next started)
  | .draining fault => some fault
  | .ended fault => fault

/-- What the call returned: the catch block, or for the guard the C layer's,
makes UnknownError of whatever was thrown. -/
def Call.code {n : Nat} (c : Call n) : Option ResponseCode :=
  match c.phase with
  | .ended none => some .success
  | .ended (some _) => some .unknownError
  | _ => none

/-- The jobs that are neither pushed nor failed. -/
def Call.pending {n : Nat} (c : Call n) : List Job :=
  match c.phase with
  | .registered => c.sub.undispatched 0
  | .dispatching next => c.sub.undispatched next
  | .joining next _ _ => c.sub.undispatched next
  | .draining _ => []
  | .ended (some .guard) => c.sub.undispatched 0
  | .ended _ => []

/-- `_filesystem_pool`, behind its `once_flag`. -/
inductive Pool where
  | absent
  /-- A call is in the constructor, and other calls wait for it. -/
  | building
  | made
  deriving DecidableEq, Repr

/-- Which of the `n` threads are the pools', and the size of the filesystem
pool. -/
structure Host (n : Nat) where
  worker : Fin n → Bool
  concurrency : Nat
  staffed : ∃ i, worker i = true

/-- The streamer, the calls that have committed, the filesystem pool, and
which worker took which job. -/
structure State (n : Nat) where
  base : Delivery.State n
  calls : List (Call n)
  pool : Pool
  taken : List (Fin n × Job)

/-! ## §3. Steps. -/

/-- Who moves; the calls are named by their threads. -/
inductive Action (n : Nat) where
  /-- A step of `Delivery.System`, but for `submit`. -/
  | core (a : Delivery.Action n)
  | commit (i : Fin n)
  | arm (i : Fin n)
  | armThrows (i : Fin n)
  | push (i : Fin n)
  | pushThrows (i : Fin n)
  | spawnPool (i : Fin n)
  | spawnThrows (i : Fin n)
  | threadEnds (i : Fin n)
  | joined (i : Fin n)
  | finish (i : Fin n)
  | drained (i : Fin n)

/-- What goes on beside the calls: they commit themselves, and their threads
take no jobs. -/
def Beside {n : Nat} (host : Host n) : Delivery.Action n → Prop
  | .submit _ => False
  | .take i _ => host.worker i = true
  | _ => True

/-- What a step adds to `taken`. -/
def takes {n : Nat} : Delivery.Action n → List (Fin n × Job)
  | .take i job => [(i, job)]
  | _ => []

/-- The pool workload `k` goes to is there, or nothing is to be pushed. -/
def State.Ready {n : Nat} (d : State n) (sub : Submission) (k : Nat) : Prop :=
  wantsPool (sub.workload k) = true → d.pool = .made

/-- Thread `i` has these calls of `Request::finished` before it. -/
def report {n : Nat} (s : Delivery.State n) (i : Fin n) (todo : List Event) : Delivery.State n :=
  { s with threads := Function.update s.threads i ⟨todo, .store⟩ }

/-- The steps. -/
inductive Step {n : Nat} (host : Host n) : State n → Action n → State n → Prop
  | core {d : State n} (a : Delivery.Action n) (t : Delivery.State n) (hbeside : Beside host a)
      (hstep : Delivery.Step d.base a t) :
      Step host d (.core a) ⟨t, d.calls, d.pool, d.taken ++ takes a⟩
  /-- `_submissions.add` and `_responder->increment`, by a thread of the user
  that is in no other call.  Nothing is pushed yet. -/
  | commit {d : State n} (i : Fin n) (sub : Submission) (mgr : SubmissionsMgr)
      (hworker : host.worker i = false) (hfree : ∀ c ∈ d.calls, c.thread = i → ¬ c.Active)
      (hid : sub.id ∈ d.base.minted)
      (hadd : d.base.mgr.add sub.id (totalRanges sub.request) sub.totalBytes = .ok mgr) :
      Step host d (.commit i)
        ⟨{ d.base.commit sub mgr with queue := d.base.queue },
          d.calls ++ [⟨sub, i, .registered⟩], d.pool, d.taken⟩
  /-- The guard is built. -/
  | arm {d : State n} (before after : List (Call n)) (sub : Submission) (i : Fin n)
      (hcalls : d.calls = before ++ ⟨sub, i, .registered⟩ :: after) :
      Step host d (.arm i)
        ⟨d.base, before ++ ⟨sub, i, .dispatching 0⟩ :: after, d.pool, d.taken⟩
  /-- Its closure cannot be allocated.  This is outside the `try`, and there
  is no guard yet. -/
  | armThrows {d : State n} (before after : List (Call n)) (sub : Submission) (i : Fin n)
      (hcalls : d.calls = before ++ ⟨sub, i, .registered⟩ :: after) :
      Step host d (.armThrows i)
        ⟨d.base, before ++ ⟨sub, i, .ended (some .guard)⟩ :: after, d.pool, d.taken⟩
  /-- Workload `next` is pushed, or passed over if it has no batches. -/
  | push {d : State n} (before after : List (Call n)) (sub : Submission) (i : Fin n) (next : Nat)
      (hcalls : d.calls = before ++ ⟨sub, i, .dispatching next⟩ :: after)
      (hlt : next < sub.plan.numWorkloads) (hready : d.Ready sub next) :
      Step host d (.push i)
        ⟨{ d.base with queue := d.base.queue ++ sub.workload next },
          before ++ ⟨sub, i, .dispatching (next + 1)⟩ :: after, d.pool, d.taken⟩
  /-- The push of workload `next` throws, and leaves it where it was.  The
  guard fails it and those after it. -/
  | pushThrows {d : State n} (before after : List (Call n)) (sub : Submission) (i : Fin n)
      (next : Nat) (hcalls : d.calls = before ++ ⟨sub, i, .dispatching next⟩ :: after)
      (hlt : next < sub.plan.numWorkloads) (hsome : sub.workload next ≠ [])
      (hready : d.Ready sub next) (hidle : d.base.threads i = ⟨[], .store⟩) :
      Step host d (.pushThrows i)
        ⟨report d.base i (failEvents (sub.undispatched next)),
          before ++ ⟨sub, i, .draining (.push next)⟩ :: after, d.pool, d.taken⟩
  /-- The first workload for the filesystem creates its pool. -/
  | spawnPool {d : State n} (before after : List (Call n)) (sub : Submission) (i : Fin n)
      (next : Nat) (hcalls : d.calls = before ++ ⟨sub, i, .dispatching next⟩ :: after)
      (hlt : next < sub.plan.numWorkloads) (hwants : wantsPool (sub.workload next) = true)
      (hpool : d.pool = .absent) :
      Step host d (.spawnPool i) ⟨d.base, d.calls, .made, d.taken⟩
  /-- Its constructor throws, with `started` threads started. -/
  | spawnThrows {d : State n} (before after : List (Call n)) (sub : Submission) (i : Fin n)
      (next started : Nat) (hcalls : d.calls = before ++ ⟨sub, i, .dispatching next⟩ :: after)
      (hlt : next < sub.plan.numWorkloads) (hwants : wantsPool (sub.workload next) = true)
      (hpool : d.pool = .absent) (hmore : started = 0 ∨ started < host.concurrency) :
      Step host d (.spawnThrows i)
        ⟨d.base, before ++ ⟨sub, i, .joining next started ⟨started, 0, false⟩⟩ :: after,
          .building, d.taken⟩
  | threadEnds {d : State n} (before after : List (Call n)) (sub : Submission) (i : Fin n)
      (next started : Nat) (pool rest : Pools.ThreadPool)
      (hcalls : d.calls = before ++ ⟨sub, i, .joining next started pool⟩ :: after)
      (hends : pool.threadEnds = some rest) :
      Step host d (.threadEnds i)
        ⟨d.base, before ++ ⟨sub, i, .joining next started rest⟩ :: after, d.pool, d.taken⟩
  /-- The threads are joined, `call_once` may be tried again, and the guard
  fails what is left. -/
  | joined {d : State n} (before after : List (Call n)) (sub : Submission) (i : Fin n)
      (next started : Nat) (pool : Pools.ThreadPool)
      (hcalls : d.calls = before ++ ⟨sub, i, .joining next started pool⟩ :: after)
      (hnone : pool.threads = 0) (hidle : d.base.threads i = ⟨[], .store⟩) :
      Step host d (.joined i)
        ⟨report d.base i (failEvents (sub.undispatched next)),
          before ++ ⟨sub, i, .draining (.spawn next started)⟩ :: after, .absent, d.taken⟩
  /-- `drain_guard.cancel()`, and Success. -/
  | finish {d : State n} (before after : List (Call n)) (sub : Submission) (i : Fin n) (next : Nat)
      (hcalls : d.calls = before ++ ⟨sub, i, .dispatching next⟩ :: after)
      (hend : sub.plan.numWorkloads ≤ next) :
      Step host d (.finish i) ⟨d.base, before ++ ⟨sub, i, .ended none⟩ :: after, d.pool, d.taken⟩
  /-- The drain has failed its last workload. -/
  | drained {d : State n} (before after : List (Call n)) (sub : Submission) (i : Fin n)
      (fault : Fault) (hcalls : d.calls = before ++ ⟨sub, i, .draining fault⟩ :: after)
      (hidle : d.base.threads i = ⟨[], .store⟩) :
      Step host d (.drained i)
        ⟨d.base, before ++ ⟨sub, i, .ended (some fault)⟩ :: after, d.pool, d.taken⟩

/-- A streamer nothing has been submitted to. -/
structure Init {n : Nat} (d : State n) : Prop where
  base : Delivery.Init d.base
  calls_eq : d.calls = []
  pool_eq : d.pool = .absent
  taken_eq : d.taken = []

/-- The streamer, and the calls of `async_request`. -/
def dispatcher {n : Nat} (host : Host n) : System (State n) (Action n) := ⟨Init, Step host⟩

/-! ## §4. What a call knows. -/

/-- Call `e` of `Request::finished` is counted, or a thread has it before
it. -/
def Reporting {n : Nat} (s : Delivery.State n) (e : Event) : Prop :=
  e ∈ s.finished ∨ ∃ i, e ∈ (s.threads i).rest

/-- A thread moves, and drops no call it has not counted. -/
theorem reporting_update {n : Nat} {s t : Delivery.State n} {i : Fin n} {th : Thread} {e : Event}
    (h : Reporting s e) (hthreads : t.threads = Function.update s.threads i th)
    (hfinished : e ∈ s.finished → e ∈ t.finished)
    (hrest : e ∈ (s.threads i).rest → e ∈ t.finished ∨ e ∈ th.rest) : Reporting t e := by
  rcases h with h | ⟨j, h⟩
  · exact .inl (hfinished h)
  · by_cases hj : j = i
    · subst hj
      refine (hrest h).imp_right (fun h => ⟨j, ?_⟩)
      rwa [hthreads, Function.update_self]
    · refine .inr ⟨j, ?_⟩
      rwa [hthreads, Function.update_of_ne hj]

/-- **What is to be reported stays so, until it is counted.** -/
theorem reporting_step {n : Nat} {s t : Delivery.State n} {a : Delivery.Action n} {e : Event}
    (h : Reporting s e) (hstep : Delivery.Step s a t) : Reporting t e := by
  cases hstep with
  | take i job x todo hjob hpc htodo =>
      refine reporting_update h (i := i) rfl id (fun hrest => .inr ?_)
      rw [Thread.rest, hpc] at hrest
      exact htodo.mem_iff.mpr (List.mem_append.mpr (.inl hrest))
  | store i e' todo hthread =>
      refine reporting_update h (i := i) rfl id (fun hrest => .inr ?_)
      rwa [hthread] at hrest
  | sub i e' todo hthread =>
      refine reporting_update h (i := i) rfl (fun h => List.mem_append.mpr (.inl h))
        (fun hrest => ?_)
      rw [hthread] at hrest
      rcases List.mem_cons.mp hrest with rfl | hrest
      · exact .inl (List.mem_append.mpr (.inr (List.mem_singleton.mpr rfl)))
      · right
        split
        · exact hrest
        · exact hrest
  | answer i e' todo hthread =>
      refine reporting_update h (i := i) rfl id (fun hrest => .inr ?_)
      rwa [hthread] at hrest
  | push i e' todo r hthread =>
      refine reporting_update h (i := i) rfl id (fun hrest => .inr ?_)
      rwa [hthread] at hrest
  | _ => exact h

theorem reporting_report {n : Nat} {s : Delivery.State n} {i : Fin n}
    (hidle : s.threads i = ⟨[], .store⟩) (todo : List Event) {e : Event} :
    (Reporting s e → Reporting (report s i todo) e) ∧ (e ∈ todo → Reporting (report s i todo) e) := by
  refine ⟨fun h => reporting_update h (i := i) rfl id (fun hrest => ?_), fun he => .inr ⟨i, ?_⟩⟩
  · rw [hidle] at hrest
    simp [Thread.rest] at hrest
  · have hthread : (report s i todo).threads i = ⟨todo, .store⟩ := Function.update_self ..
    rw [hthread]
    exact he

/-- A caught fault, whose drain has begun. -/
def Drained {n : Nat} (s : Delivery.State n) (sub : Submission) (fault : Fault) : Prop :=
  fault.Caught ∧ ∀ e ∈ failEvents (sub.undispatched fault.next), Reporting s e

/-- What holds of a call, by where it is. -/
def Call.Fits {n : Nat} (s : Delivery.State n) (c : Call n) : Prop :=
  match c.phase with
  | .joining _ started pool => pool.Waiting ∧ pool.threads = started
  | .draining fault => Drained s c.sub fault
  | .ended (some fault) => fault = .guard ∨ Drained s c.sub fault
  | _ => True

theorem Call.Fits.mono {n : Nat} {s t : Delivery.State n} {c : Call n} (h : c.Fits s)
    (hkeep : ∀ e, Reporting s e → Reporting t e) : c.Fits t := by
  have hdrained : ∀ fault, Drained s c.sub fault → Drained t c.sub fault :=
    fun fault h => ⟨h.1, fun e he => hkeep e (h.2 e he)⟩
  unfold Call.Fits at h ⊢
  split at h
  · exact h
  · exact hdrained _ h
  · exact h.imp_right (hdrained _)
  · trivial

/-- The first workload a call has not pushed. -/
def Call.next {n : Nat} (c : Call n) : Nat :=
  match c.phase with
  | .registered => 0
  | .dispatching next => next
  | .joining next _ _ => next
  | .draining fault => fault.next
  | .ended (some fault) => fault.next
  | .ended none => c.sub.plan.numWorkloads

/-- A job was pushed: it is queued, or a worker has taken it. -/
def Pushed {n : Nat} (host : Host n) (d : State n) (job : Job) : Prop :=
  job ∈ d.base.queue ∨ ∃ i, host.worker i = true ∧ (i, job) ∈ d.taken

/-- What holds of the calls in every state. -/
structure Inv {n : Nat} (host : Host n) (d : State n) : Prop where
  committed : d.calls.map Call.sub = d.base.committed
  fits : ∀ c ∈ d.calls, c.Fits d.base
  pushed : ∀ c ∈ d.calls, ∀ job ∈ c.sub.jobs, job.batch.workloadIndex < c.next →
    Pushed host d job

theorem inv_init {n : Nat} {host : Host n} {d : State n} (h : Init d) : Inv host d := by
  refine ⟨?_, ?_, ?_⟩
  · rw [h.calls_eq, h.base.committed_eq]
    rfl
  · simp [h.calls_eq]
  · simp [h.calls_eq]

/-- A call moves, and the streamer with it. -/
theorem Inv.move {n : Nat} {host : Host n} {d : State n} (h : Inv host d)
    {before after : List (Call n)} {sub : Submission} {i : Fin n} {phase : Phase}
    (hcalls : d.calls = before ++ ⟨sub, i, phase⟩ :: after)
    (base : Delivery.State n) (phase' : Phase) (pool : Pool)
    (hcommitted : base.committed = d.base.committed)
    (hkeep : ∀ e, Reporting d.base e → Reporting base e)
    (hqueue : ∀ job ∈ d.base.queue, job ∈ base.queue)
    (hfits : (⟨sub, i, phase'⟩ : Call n).Fits base)
    (hpushed : ∀ job ∈ sub.jobs,
      job.batch.workloadIndex < (⟨sub, i, phase'⟩ : Call n).next →
      job.batch.workloadIndex < (⟨sub, i, phase⟩ : Call n).next ∨ job ∈ base.queue) :
    Inv host ⟨base, before ++ ⟨sub, i, phase'⟩ :: after, pool, d.taken⟩ := by
  have hold : ∀ c ∈ before ++ ⟨sub, i, phase'⟩ :: after, c = ⟨sub, i, phase'⟩ ∨ c ∈ d.calls := by
    intro c hc
    rw [hcalls]
    rcases List.mem_append.mp hc with hc | hc
    · exact .inr (List.mem_append.mpr (.inl hc))
    · rcases List.mem_cons.mp hc with hc | hc
      · exact .inl hc
      · exact .inr (List.mem_append.mpr (.inr (List.mem_cons_of_mem _ hc)))
  have hkept : ∀ job, Pushed host d job →
      Pushed host ⟨base, before ++ ⟨sub, i, phase'⟩ :: after, pool, d.taken⟩ job :=
    fun job hjob => hjob.imp_left (hqueue job)
  refine ⟨?_, fun c hc => ?_, fun c hc job hjob hlt => ?_⟩
  · show (before ++ ⟨sub, i, phase'⟩ :: after).map Call.sub = base.committed
    rw [hcommitted, ← h.committed, hcalls]
    simp only [List.map_append, List.map_cons]
  · rcases hold c hc with rfl | hc
    · exact hfits
    · exact (h.fits c hc).mono hkeep
  · rcases hold c hc with rfl | hc
    · rcases hpushed job hjob hlt with hlt | hmem
      · refine hkept job (h.pushed ⟨sub, i, phase⟩ ?_ job hjob hlt)
        rw [hcalls]
        exact List.mem_append.mpr (.inr List.mem_cons_self)
      · exact .inl hmem
    · exact hkept job (h.pushed c hc job hjob hlt)

/-- A call moves alone. -/
theorem Inv.goto {n : Nat} {host : Host n} {d : State n} (h : Inv host d)
    {before after : List (Call n)} {sub : Submission} {i : Fin n} {phase : Phase}
    (hcalls : d.calls = before ++ ⟨sub, i, phase⟩ :: after) (phase' : Phase) (pool : Pool)
    (hfits : (⟨sub, i, phase'⟩ : Call n).Fits d.base)
    (hnext : (⟨sub, i, phase'⟩ : Call n).next ≤ (⟨sub, i, phase⟩ : Call n).next) :
    Inv host ⟨d.base, before ++ ⟨sub, i, phase'⟩ :: after, pool, d.taken⟩ :=
  h.move hcalls d.base phase' pool rfl (fun _ h => h) (fun _ h => h) hfits
    (fun _ _ hlt => .inl (Nat.lt_of_lt_of_le hlt hnext))

/-- A drain begins. -/
theorem Inv.drain {n : Nat} {host : Host n} {d : State n} (h : Inv host d)
    {before after : List (Call n)} {sub : Submission} {i : Fin n} {phase : Phase}
    (hcalls : d.calls = before ++ ⟨sub, i, phase⟩ :: after) (fault : Fault) (pool : Pool)
    (hcaught : fault.Caught) (hnext : (⟨sub, i, phase⟩ : Call n).next = fault.next)
    (hidle : d.base.threads i = ⟨[], .store⟩) :
    Inv host ⟨report d.base i (failEvents (sub.undispatched fault.next)),
      before ++ ⟨sub, i, .draining fault⟩ :: after, pool, d.taken⟩ := by
  refine h.move hcalls _ (.draining fault) pool rfl
    (fun e => (reporting_report hidle _).1) (fun _ hjob => hjob)
    ⟨hcaught, fun e => (reporting_report hidle _).2⟩ (fun job _ hlt => .inl ?_)
  rw [hnext]
  exact hlt

/-- What a call knows, by its place in the list. -/
theorem Inv.fits_at {n : Nat} {host : Host n} {d : State n} (h : Inv host d)
    {before after : List (Call n)} {c : Call n} (hcalls : d.calls = before ++ c :: after) :
    c.Fits d.base := by
  refine h.fits c ?_
  rw [hcalls]
  exact List.mem_append.mpr (.inr List.mem_cons_self)

theorem inv_step {n : Nat} {host : Host n} {d e : State n} {a : Action n} (h : Inv host d)
    (hstep : Step host d a e) : Inv host e := by
  cases hstep with
  | core a t hbeside hstep =>
      refine ⟨?_, fun c hc => (h.fits c hc).mono (fun e he => reporting_step he hstep), ?_⟩
      · show d.calls.map Call.sub = t.committed
        rw [h.committed]
        cases hstep with
        | submit => exact hbeside.elim
        | _ => rfl
      · intro c hc job hjob hlt
        rcases h.pushed c hc job hjob hlt with hqueue | ⟨i, hworker, htaken⟩
        · cases hstep with
          | submit => exact hbeside.elim
          | take i job' x todo hjob' hpc htodo =>
              by_cases heq : job = job'
              · subst heq
                exact .inr ⟨i, hbeside, List.mem_append.mpr (.inr (List.mem_singleton.mpr rfl))⟩
              · exact .inl ((List.mem_erase_of_ne heq).mpr hqueue)
          | _ => exact .inl hqueue
        · exact .inr ⟨i, hworker, List.mem_append.mpr (.inl htaken)⟩
  | commit i sub mgr hworker hfree hid hadd =>
      let call : Call n := ⟨sub, i, .registered⟩
      refine ⟨?_, fun c hc => ?_, fun c hc job hjob hlt => ?_⟩
      · show (d.calls ++ [call]).map Call.sub = d.base.committed ++ [sub]
        rw [List.map_append, h.committed]
        rfl
      · rcases List.mem_append.mp hc with hc | hc
        · exact (h.fits c hc).mono (fun _ he => he)
        · obtain rfl := List.mem_singleton.mp hc
          trivial
      · rcases List.mem_append.mp hc with hc | hc
        · exact h.pushed c hc job hjob hlt
        · obtain rfl := List.mem_singleton.mp hc
          exact absurd hlt (Nat.not_lt_zero _)
  | arm before after sub i hcalls =>
      exact h.goto hcalls (.dispatching 0) d.pool trivial (Nat.le_refl _)
  | armThrows before after sub i hcalls =>
      exact h.goto hcalls (.ended (some .guard)) d.pool (.inl rfl) (Nat.le_refl _)
  | push before after sub i next hcalls hlt hready =>
      refine h.move hcalls _ (.dispatching (next + 1)) d.pool rfl (fun _ he => he)
        (fun _ hjob => List.mem_append.mpr (.inl hjob)) trivial (fun job hjob hbelow => ?_)
      have hbelow : job.batch.workloadIndex < next + 1 := hbelow
      rcases Nat.lt_succ_iff_lt_or_eq.mp hbelow with hold | hnew
      · exact .inl hold
      · refine .inr (List.mem_append.mpr (.inr ?_))
        exact List.mem_filter.mpr ⟨hjob, decide_eq_true hnew⟩
  | pushThrows before after sub i next hcalls hlt hsome hready hidle =>
      exact h.drain hcalls (.push next) d.pool trivial rfl hidle
  | spawnPool before after sub i next hcalls hlt hwants hpool =>
      exact ⟨h.committed, h.fits, h.pushed⟩
  | spawnThrows before after sub i next started hcalls hlt hwants hpool hmore =>
      exact h.goto hcalls (.joining next started ⟨started, 0, false⟩) .building
        ⟨⟨rfl, rfl⟩, rfl⟩ (Nat.le_refl _)
  | threadEnds before after sub i next started pool rest hcalls hends =>
      -- nobody has told the threads to end
      have hwaiting : pool.Waiting := (h.fits_at hcalls).1
      rw [hwaiting.threadEnds] at hends
      simp at hends
  | joined before after sub i next started pool hcalls hnone hidle =>
      have hstarted : pool.threads = started := (h.fits_at hcalls).2
      exact h.drain hcalls (.spawn next started) .absent (hstarted.symm.trans hnone) rfl hidle
  | finish before after sub i next hcalls hend =>
      exact h.goto hcalls (.ended none) d.pool trivial hend
  | drained before after sub i fault hcalls hidle =>
      exact h.goto hcalls (.ended (some fault)) d.pool (.inr (h.fits_at hcalls)) (Nat.le_refl _)

theorem reachable_inv {n : Nat} {host : Host n} :
    ∀ d, (dispatcher host).Reachable d → Inv host d :=
  System.Reachable.invariant (fun _ => inv_init) (fun _ _ _ _ => inv_step)

/-! ## §5. A call has its thread to itself. -/

/-- The threads of the user take no jobs, so they report only what a drain
fails; and a thread is in one call at a time. -/
structure Apart {n : Nat} (host : Host n) (d : State n) : Prop where
  users : ∀ c ∈ d.calls, host.worker c.thread = false
  apart : d.calls.Pairwise (fun a b => a.Active → b.Active → a.thread ≠ b.thread)
  idle : ∀ i, host.worker i = false →
    (∀ c ∈ d.calls, c.thread = i → ∀ fault, c.phase ≠ .draining fault) →
    d.base.threads i = ⟨[], .store⟩

/-- An idle thread that takes no job stays idle. -/
theorem idle_step {n : Nat} {host : Host n} {s t : Delivery.State n} {a : Delivery.Action n}
    (hbeside : Beside host a) (hstep : Delivery.Step s a t) {i : Fin n}
    (hworker : host.worker i = false) (hidle : s.threads i = ⟨[], .store⟩) :
    t.threads i = ⟨[], .store⟩ := by
  have hother : ∀ {j : Fin n} {th : Thread}, j ≠ i →
      Function.update s.threads j th i = ⟨[], .store⟩ :=
    fun hne => (Function.update_of_ne hne.symm ..).trans hidle
  cases hstep with
  | take j job x todo hjob hpc htodo =>
      refine hother ?_
      rintro rfl
      have htaker : host.worker j = true := hbeside
      rw [hworker] at htaker
      simp at htaker
  | store j e todo hthread | sub j e todo hthread | answer j e todo hthread
  | push j e todo r hthread =>
      refine hother ?_
      rintro rfl
      rw [hidle] at hthread
      simp at hthread
  | _ => exact hidle

/-- A call moves. -/
theorem Apart.move {n : Nat} {host : Host n} {d : State n} (h : Apart host d)
    {before after : List (Call n)} {sub : Submission} {i : Fin n} {phase : Phase}
    (hcalls : d.calls = before ++ ⟨sub, i, phase⟩ :: after) (hactive : ∀ f, phase ≠ .ended f)
    (base : Delivery.State n) (phase' : Phase) (pool : Pool)
    (hthreads : ∀ j, j ≠ i → base.threads j = d.base.threads j)
    (hidle : (∀ f, phase' ≠ .draining f) →
      base.threads i = ⟨[], .store⟩ ∨ base = d.base ∧ ∀ f, phase ≠ .draining f) :
    Apart host ⟨base, before ++ ⟨sub, i, phase'⟩ :: after, pool, d.taken⟩ := by
  -- the other calls are the same before and after
  have hmem : ∀ c : Call n, c ∈ before ++ after → c ∈ d.calls := by
    intro c hc
    rw [hcalls]
    rcases List.mem_append.mp hc with hc | hc
    · exact List.mem_append.mpr (.inl hc)
    · exact List.mem_append.mpr (.inr (List.mem_cons_of_mem _ hc))
  have hself : (⟨sub, i, phase⟩ : Call n) ∈ d.calls := by
    rw [hcalls]
    exact List.mem_append.mpr (.inr List.mem_cons_self)
  have hperm : (before ++ ⟨sub, i, phase'⟩ :: after).Perm (⟨sub, i, phase'⟩ :: (before ++ after)) :=
    List.perm_middle
  refine ⟨fun c hc => ?_, ?_, fun j hworker hnone => ?_⟩
  · rcases List.mem_cons.mp (hperm.mem_iff.mp hc) with rfl | hc
    · exact h.users ⟨sub, i, phase⟩ hself
    · exact h.users c (hmem c hc)
  · have hapart := h.apart
    rw [hcalls, List.pairwise_append, List.pairwise_cons] at hapart
    obtain ⟨hbefore, ⟨hself, hafter⟩, hacross⟩ := hapart
    refine List.pairwise_append.mpr ⟨hbefore, List.pairwise_cons.mpr ⟨?_, hafter⟩, ?_⟩
    · exact fun c hc _ => hself c hc hactive
    · intro a ha b hb ha' hb'
      rcases List.mem_cons.mp hb with rfl | hb
      · exact hacross a ha ⟨sub, i, phase⟩ List.mem_cons_self ha' hactive
      · exact hacross a ha b (List.mem_cons_of_mem _ hb) ha' hb'
  · have hothers : ∀ c ∈ before ++ after, c.thread = j → ∀ f, c.phase ≠ .draining f :=
      fun c hc => hnone c (hperm.mem_iff.mpr (List.mem_cons_of_mem _ hc))
    -- a thread in no drain was idle before as well
    have hold : (∀ f, j = i → phase ≠ .draining f) → d.base.threads j = ⟨[], .store⟩ := by
      intro hphase
      refine h.idle j hworker (fun c hc hthread f => ?_)
      rw [hcalls] at hc
      rcases List.mem_cons.mp (List.perm_middle.mem_iff.mp hc) with rfl | hc
      · exact hphase f hthread.symm
      · exact hothers c hc hthread f
    by_cases hj : j = i
    · subst hj
      have hnew : ∀ f, phase' ≠ .draining f :=
        hnone ⟨sub, j, phase'⟩ (hperm.mem_iff.mpr List.mem_cons_self) rfl
      rcases hidle hnew with hthread | ⟨hbase, hphase⟩
      · exact hthread
      · show base.threads j = _
        rw [hbase]
        exact hold (fun f _ => hphase f)
    · show base.threads j = _
      rw [hthreads j hj]
      exact hold (fun _ heq => absurd heq hj)

theorem apart_step {n : Nat} {host : Host n} {d e : State n} {a : Action n} (h : Apart host d)
    (hstep : Step host d a e) : Apart host e := by
  have hreport : ∀ (i : Fin n) (todo : List Event) (j : Fin n), j ≠ i →
      (report d.base i todo).threads j = d.base.threads j :=
    fun _ _ _ hne => Function.update_of_ne hne ..
  cases hstep with
  | core a t hbeside hstep =>
      -- a step of the base machine leaves the calls alone
      exact ⟨h.users, h.apart,
        fun i hworker hnone => idle_step hbeside hstep hworker (h.idle i hworker hnone)⟩
  | commit i sub mgr hworker hfree hid hadd =>
      refine ⟨fun c hc => ?_, ?_, fun j hj hnone => ?_⟩
      · rcases List.mem_append.mp hc with hc | hc
        · exact h.users c hc
        · rw [List.mem_singleton.mp hc]
          exact hworker
      · -- the thread is in no other call, so the new one is its only one
        refine List.pairwise_append.mpr ⟨h.apart, List.pairwise_singleton _ _, ?_⟩
        intro a ha b hb hactive _ hthread
        rw [List.mem_singleton.mp hb] at hthread
        exact hfree a ha hthread hactive
      · exact h.idle j hj (fun c hc => hnone c (List.mem_append.mpr (.inl hc)))
  | arm before after sub i hcalls =>
      exact h.move hcalls (by simp) _ (.dispatching 0) _ (fun _ _ => rfl)
        (fun _ => .inr ⟨rfl, by simp⟩)
  | armThrows before after sub i hcalls =>
      exact h.move hcalls (by simp) _ (.ended (some .guard)) _ (fun _ _ => rfl)
        (fun _ => .inr ⟨rfl, by simp⟩)
  | push before after sub i next hcalls hlt hready =>
      have hmoved := h.move hcalls (by simp) d.base (.dispatching (next + 1)) d.pool
        (fun _ _ => rfl) (fun _ => .inr ⟨rfl, by simp⟩)
      exact ⟨hmoved.users, hmoved.apart, hmoved.idle⟩
  | pushThrows before after sub i next hcalls hlt hsome hready hidle =>
      exact h.move hcalls (by simp) _ (.draining (.push next)) _ (hreport i _)
        (fun hnone => absurd rfl (hnone _))
  | spawnPool before after sub i next hcalls hlt hwants hpool =>
      exact ⟨h.users, h.apart, h.idle⟩
  | spawnThrows before after sub i next started hcalls hlt hwants hpool hmore =>
      exact h.move hcalls (by simp) _ (.joining next started ⟨started, 0, false⟩) _
        (fun _ _ => rfl) (fun _ => .inr ⟨rfl, by simp⟩)
  | threadEnds before after sub i next started pool rest hcalls hends =>
      exact h.move hcalls (by simp) _ (.joining next started rest) _ (fun _ _ => rfl)
        (fun _ => .inr ⟨rfl, by simp⟩)
  | joined before after sub i next started pool hcalls hnone hidle =>
      exact h.move hcalls (by simp) _ (.draining (.spawn next started)) _ (hreport i _)
        (fun hnone => absurd rfl (hnone _))
  | finish before after sub i next hcalls hend =>
      exact h.move hcalls (by simp) _ (.ended none) _ (fun _ _ => rfl)
        (fun _ => .inr ⟨rfl, by simp⟩)
  | drained before after sub i fault hcalls hidle =>
      exact h.move hcalls (by simp) _ (.ended (some fault)) _ (fun _ _ => rfl)
        (fun _ => .inl hidle)

theorem reachable_apart {n : Nat} {host : Host n} :
    ∀ d, (dispatcher host).Reachable d → Apart host d := by
  apply System.Reachable.invariant
  · intro d hinit
    refine ⟨?_, ?_, fun i _ _ => hinit.base.threads_eq i⟩
    · simp [hinit.calls_eq]
    · simp [hinit.calls_eq]
  · exact fun d a e _ => apart_step

/-- **A push may throw whenever it is made**: the caller's thread has nothing
else to report. -/
theorem push_may_throw {n : Nat} {host : Host n} {d : State n}
    (h : (dispatcher host).Reachable d) {c : Call n} (hc : c ∈ d.calls) {next : Nat}
    (hphase : c.phase = .dispatching next) (hlt : next < c.sub.plan.numWorkloads)
    (hsome : c.sub.workload next ≠ []) (hready : d.Ready c.sub next) :
    ∃ e, Step host d (.pushThrows c.thread) e := by
  have hapart := reachable_apart d h
  have hidle : d.base.threads c.thread = ⟨[], .store⟩ := by
    refine hapart.idle _ (hapart.users c hc) (fun c' hc' hthread fault hdraining => ?_)
    -- a draining call on the same thread would be this one
    have hsymm : Std.Symm (fun a b : Call n => a.Active → b.Active → a.thread ≠ b.thread) :=
      ⟨fun a b hab hb ha heq => hab ha hb heq.symm⟩
    have hne : c' ≠ c := by
      rintro rfl
      rw [hphase] at hdraining
      simp at hdraining
    refine hapart.apart.forall hc' hc hne ?_ ?_ hthread
    · simp [Call.Active, hdraining]
    · simp [Call.Active, hphase]
  obtain ⟨before, after, hcalls⟩ := List.append_of_mem hc
  obtain ⟨sub, i, phase⟩ := c
  obtain rfl : phase = .dispatching next := hphase
  exact ⟨_, .pushThrows before after sub i next hcalls hlt hsome hready hidle⟩

/-! ## §6. Every run is one of the streamer's. -/

/-- The streamer whose queue is `queue`, and the rest as in `d`. -/
structure Simulated {n : Nat} (d : State n) (queue : List Job) : Prop where
  queue_perm : queue.Perm (d.base.queue ++ d.calls.flatMap Call.pending)
  reachable : (streamer n).Reachable { d.base with queue := queue }

/-- One call moves, and its jobs `jobs` are no longer pending. -/
theorem pending_perm {n : Nat} {calls before after : List (Call n)} {c : Call n} (c' : Call n)
    {queue queued : List Job} (jobs : List Job)
    (hqueue : queue.Perm (queued ++ calls.flatMap Call.pending))
    (hcalls : calls = before ++ c :: after) (hjobs : c.pending.Perm (jobs ++ c'.pending)) :
    queue.Perm (queued ++ jobs ++ (before ++ c' :: after).flatMap Call.pending) := by
  have hfront : ∀ x : Call n, ((before ++ x :: after).flatMap Call.pending).Perm
      (x.pending ++ (before ++ after).flatMap Call.pending) := by
    intro x
    exact (List.perm_middle.flatMap_right Call.pending)
  rw [hcalls] at hqueue
  refine hqueue.trans ?_
  rw [List.append_assoc]
  refine List.Perm.append_left queued ?_
  refine (hfront c).trans ?_
  refine List.Perm.trans ?_ ((hfront c').symm.append_left jobs)
  rw [← List.append_assoc]
  exact hjobs.append_right _

/-- A call moves, and its jobs stay where they are. -/
theorem Simulated.move {n : Nat} {d : State n} {queue : List Job} (h : Simulated d queue)
    {before after : List (Call n)} {c c' : Call n} (hcalls : d.calls = before ++ c :: after)
    (hpending : c.pending = c'.pending) (pool : Pool) :
    Simulated ⟨d.base, before ++ c' :: after, pool, d.taken⟩ queue := by
  refine ⟨?_, h.reachable⟩
  have hperm := pending_perm c' [] h.queue_perm hcalls (.of_eq hpending)
  rwa [List.append_nil] at hperm

/-- A step beside the calls reads of the queue only the job it takes. -/
theorem core_simulated {n : Nat} {host : Host n} {s t : Delivery.State n} {a : Delivery.Action n}
    (hbeside : Beside host a) (hstep : Delivery.Step s a t) {queue pending : List Job}
    (hqueue : queue.Perm (s.queue ++ pending)) :
    ∃ queue', Delivery.Step { s with queue := queue } a { t with queue := queue' } ∧
      queue'.Perm (t.queue ++ pending) := by
  cases hstep with
  | submit => exact hbeside.elim
  | take i job x todo hjob hpc htodo =>
      have hmem : job ∈ queue := hqueue.mem_iff.mpr (List.mem_append.mpr (.inl hjob))
      refine ⟨queue.erase job, .take i job x todo hmem hpc htodo, ?_⟩
      refine (hqueue.erase job).trans (.of_eq ?_)
      exact List.erase_append_left pending hjob
  | mint => exact ⟨queue, .mint, hqueue⟩
  | store i e todo hthread => exact ⟨queue, .store i e todo hthread, hqueue⟩
  | sub i e todo hthread => exact ⟨queue, .sub i e todo hthread, hqueue⟩
  | answer i e todo hthread => exact ⟨queue, .answer i e todo hthread, hqueue⟩
  | push i e todo r hthread => exact ⟨queue, .push i e todo r hthread, hqueue⟩
  | pop r q done mgr hpop haccount => exact ⟨queue, .pop r q done mgr hpop haccount, hqueue⟩
  | popFailed r q e hpop haccount => exact ⟨queue, .popFailed r q e hpop haccount, hqueue⟩
  | bare code done mgr hcode haccount => exact ⟨queue, .bare code done mgr hcode haccount, hqueue⟩
  | stop => exact ⟨queue, .stop, hqueue⟩

/-- **The drain takes the jobs it fails**, one after another, as a worker
would. -/
theorem drain_simulated {n : Nat} {i : Fin n} {rest : List Job} (jobs : List Job) :
    ∀ {s : Delivery.State n} {queue : List Job} {todo : List Event},
      (streamer n).Reachable { s with queue := queue } → queue.Perm (jobs ++ rest) →
      s.threads i = ⟨todo, .store⟩ →
      ∃ queue', queue'.Perm rest ∧
        (streamer n).Reachable
          { report s i (todo ++ failEvents jobs) with queue := queue' } := by
  induction jobs with
  | nil =>
      intro s queue todo hreach hqueue hthread
      refine ⟨queue, hqueue, ?_⟩
      have hsame : Function.update s.threads i ⟨todo ++ failEvents [], .store⟩ = s.threads := by
        rw [show todo ++ failEvents [] = todo from List.append_nil todo, ← hthread,
          Function.update_eq_self]
      rw [report, hsame]
      exact hreach
  | cons job jobs ih =>
      intro s queue todo hreach hqueue hthread
      have hmem : job ∈ queue := hqueue.mem_iff.mpr List.mem_cons_self
      let x := Execution.fail job.batch .unknownError (by simp)
      have htake := hreach.step (Delivery.Step.take i job x (todo ++ job.events x) hmem
        (by rw [hthread]) (by rw [hthread]))
      have herase : (queue.erase job).Perm (jobs ++ rest) := by
        have hperm := hqueue.erase job
        rwa [List.cons_append, List.erase_cons_head] at hperm
      obtain ⟨queue', hperm, hreach'⟩ :=
        ih (s := report s i (todo ++ job.events x)) htake herase (Function.update_self ..)
      refine ⟨queue', hperm, ?_⟩
      rw [report, report, Function.update_idem, List.append_assoc] at hreach'
      exact hreach'

/-- The drain of a call starts, and its jobs are taken. -/
theorem Simulated.drain {n : Nat} {d : State n} {queue : List Job} (h : Simulated d queue)
    {before after : List (Call n)} {c c' : Call n} (hcalls : d.calls = before ++ c :: after)
    (hpending : c'.pending = []) {i : Fin n} (hidle : d.base.threads i = ⟨[], .store⟩)
    (pool : Pool) :
    ∃ queue', Simulated
      ⟨report d.base i (failEvents c.pending), before ++ c' :: after, pool, d.taken⟩ queue' := by
  have hperm := pending_perm c' c.pending h.queue_perm hcalls
    (.of_eq (by rw [hpending, List.append_nil]))
  have hfront : queue.Perm
      (c.pending ++ (d.base.queue ++ (before ++ c' :: after).flatMap Call.pending)) := by
    refine hperm.trans ?_
    rw [← List.append_assoc]
    exact List.perm_append_comm.append_right _
  obtain ⟨queue', hqueue', hreach⟩ := drain_simulated c.pending h.reachable hfront hidle
  exact ⟨queue', hqueue', hreach⟩

/-- **EVERY RUN IS ONE OF `Delivery.System`**: to it, a job is queued from the
commit on, and the drain is a thread that takes jobs and fails them. -/
theorem simulated {n : Nat} {host : Host n} :
    ∀ d, (dispatcher host).Reachable d → ∃ queue, Simulated d queue := by
  apply System.Reachable.invariant
  · intro d hinit
    refine ⟨[], ?_, .init ?_⟩
    · rw [hinit.base.queue_eq, hinit.calls_eq]
      rfl
    · have hbase := hinit.base
      exact ⟨hbase.mgr_eq, hbase.minted_eq, hbase.committed_eq, rfl, hbase.threads_eq,
        hbase.responder_eq, hbase.finished_eq, hbase.pushed_eq, hbase.popped_eq⟩
  · intro d a e hreach ⟨queue, h⟩ hstep
    cases hstep with
    | core a t hbeside hstep =>
        obtain ⟨queue', hstep', hperm⟩ := core_simulated hbeside hstep h.queue_perm
        exact ⟨queue', hperm, h.reachable.step hstep'⟩
    | commit i sub mgr hworker hfree hid hadd =>
        refine ⟨queue ++ sub.jobs, ?_, h.reachable.step (Delivery.Step.submit sub mgr hid hadd)⟩
        -- the abstract queue gets all jobs at once, the concrete one none yet
        let c : Call n := ⟨sub, i, .registered⟩
        show (queue ++ sub.jobs).Perm (d.base.queue ++ (d.calls ++ [c]).flatMap Call.pending)
        rw [List.flatMap_append, List.flatMap_singleton, ← List.append_assoc]
        exact h.queue_perm.append (undispatched_zero sub).symm
    | arm before after sub i hcalls => exact ⟨queue, h.move hcalls (by rfl) _⟩
    | armThrows before after sub i hcalls => exact ⟨queue, h.move hcalls (by rfl) _⟩
    | push before after sub i next hcalls hlt hready =>
        -- one workload moves from the call to the queue
        refine ⟨queue, ?_, h.reachable⟩
        exact pending_perm ⟨sub, i, .dispatching (next + 1)⟩ (sub.workload next) h.queue_perm hcalls
          (.of_eq (undispatched_succ sub hlt))
    | pushThrows before after sub i next hcalls hlt hsome hready hidle =>
        exact h.drain hcalls rfl hidle _
    | spawnPool before after sub i next hcalls hlt hwants hpool =>
        exact ⟨queue, h.queue_perm, h.reachable⟩
    | spawnThrows before after sub i next started hcalls hlt hwants hpool hmore =>
        exact ⟨queue, h.move hcalls (by rfl) _⟩
    | threadEnds before after sub i next started pool rest hcalls hends =>
        exact ⟨queue, h.move hcalls (by rfl) _⟩
    | joined before after sub i next started pool hcalls hnone hidle =>
        exact h.drain hcalls rfl hidle _
    | finish before after sub i next hcalls hend =>
        exact ⟨queue, h.move hcalls (by exact undispatched_end sub hend) _⟩
    | drained before after sub i fault hcalls hidle =>
        refine ⟨queue, h.move hcalls ?_ _⟩
        -- only a call past its guard drains, and then nothing is pending
        have hcaught : fault.Caught := ((reachable_inv d hreach).fits_at hcalls).1
        cases fault with
        | guard => exact hcaught.elim
        | spawn next started => rfl
        | push next => rfl

/-! ## §7. Threads and calls come to rest. -/

/-- The steps of the threads, and those that bring a call forward.  No call
has to be made, and nothing has to throw. -/
def Action.Work {n : Nat} : Action n → Prop
  | .core a => a.Work
  | .arm _ | .push _ | .spawnPool _ | .threadEnds _ | .joined _ | .finish _ | .drained _ => True
  | .commit _ | .armThrows _ | .pushThrows _ | .spawnThrows _ => False

/-- The steps of the threads for these jobs. -/
def jobsWork (jobs : List Job) : Nat := (jobs.map (fun job => 1 + 4 * job.tickets.length)).sum

/-- The steps a call and its jobs still have to make. -/
def Call.work {n : Nat} (c : Call n) : Nat :=
  match c.phase with
  | .registered => 3 + c.sub.plan.numWorkloads + jobsWork (c.sub.undispatched 0)
  | .dispatching next =>
      2 + (c.sub.plan.numWorkloads - next) + jobsWork (c.sub.undispatched next)
  | .joining next _ pool => 3 + pool.threads + jobsWork (c.sub.undispatched next)
  | .draining _ => 1
  | .ended _ => 0

/-- The pool may still have to be created. -/
def Pool.work : Pool → Nat
  | .made => 0
  | _ => 1

/-- The steps still to be made. -/
def State.work {n : Nat} (d : State n) : Nat :=
  workLeft d.base + (d.calls.map Call.work).sum + d.pool.work

theorem calls_work {n : Nat} (before after : List (Call n)) (c : Call n) :
    ((before ++ c :: after).map Call.work).sum
      = ((before ++ after).map Call.work).sum + c.work := by
  simp only [List.map_append, List.map_cons, List.sum_append, List.sum_cons]
  omega

theorem jobsWork_append (a b : List Job) : jobsWork (a ++ b) = jobsWork a + jobsWork b := by
  rw [jobsWork, List.map_append, List.sum_append]
  rfl

/-- Failing a job is less than running it. -/
theorem failEvents_work (jobs : List Job) : 4 * (failEvents jobs).length ≤ jobsWork jobs := by
  induction jobs with
  | nil => exact Nat.le_refl _
  | cons job jobs ih =>
      have hlen := (events_perm job (Execution.fail job.batch .unknownError (by simp))).length_eq
      rw [List.length_map] at hlen
      rw [failEvents, List.flatMap_cons, List.length_append, hlen]
      have hrest : 4 * (failEvents jobs).length ≤ jobsWork jobs := ih
      have hwork : jobsWork (job :: jobs) = 1 + 4 * job.tickets.length + jobsWork jobs := rfl
      rw [failEvents] at hrest
      omega

theorem report_work {n : Nat} {s : Delivery.State n} {i : Fin n}
    (hidle : s.threads i = ⟨[], .store⟩) (todo : List Event) :
    workLeft (report s i todo) = workLeft s + 4 * todo.length := by
  have hsum := sum_update_add s.threads Thread.work i ⟨todo, .store⟩
  have hnone : (⟨[], .store⟩ : Thread).work = 0 := rfl
  have hsome : (⟨todo, .store⟩ : Thread).work = 4 * todo.length := rfl
  rw [hidle, hnone, hsome] at hsum
  rw [workLeft, workLeft, report]
  simp only
  omega

/-- **Every step of the threads and calls leaves fewer.** -/
theorem work_decreases {n : Nat} {host : Host n} {d e : State n} {a : Action n} (ha : a.Work)
    (hstep : Step host d a e) : e.work < d.work := by
  cases hstep with
  | core a t hbeside hstep =>
      have hless := Delivery.work_decreases ha hstep
      simp only [State.work]
      omega
  | arm before after sub i hcalls =>
      rw [State.work, State.work, hcalls]
      simp only [calls_work, Call.work]
      omega
  | push before after sub i next hcalls hlt hready =>
      have hqueue : workLeft { d.base with queue := d.base.queue ++ sub.workload next }
          = workLeft d.base + jobsWork (sub.workload next) := by
        have happend := jobsWork_append d.base.queue (sub.workload next)
        simp only [jobsWork] at happend
        simp only [workLeft, jobsWork]
        omega
      rw [State.work, State.work, hcalls, hqueue]
      simp only [calls_work, Call.work, undispatched_succ sub hlt, jobsWork_append]
      omega
  | spawnPool before after sub i next hcalls hlt hwants hpool =>
      simp only [State.work, hpool, Pool.work]
      omega
  | threadEnds before after sub i next started pool rest hcalls hends =>
      -- a thread that ends is counted off
      have hless : rest.threads < pool.threads := by
        unfold Pools.ThreadPool.threadEnds at hends
        split at hends
        next hsome =>
          obtain rfl := Option.some.inj hends
          show pool.threads - 1 < pool.threads
          omega
        · simp at hends
      rw [State.work, State.work, hcalls]
      simp only [calls_work, Call.work]
      omega
  | joined before after sub i next started pool hcalls hnone hidle =>
      have hfail := failEvents_work (sub.undispatched next)
      rw [State.work, State.work, hcalls, report_work hidle]
      simp only [calls_work, Call.work, Pool.work]
      omega
  | finish before after sub i next hcalls hend =>
      rw [State.work, State.work, hcalls]
      simp only [calls_work, Call.work]
      omega
  | drained before after sub i fault hcalls hidle =>
      rw [State.work, State.work, hcalls]
      simp only [calls_work, Call.work]
      omega
  -- none of these is work
  | commit | armThrows | pushThrows | spawnThrows => exact ha.elim

/-! ## §8. Rest. -/

/-- No thread can move, and no call, unless another one is made or something
throws. -/
def State.Rest {n : Nat} (host : Host n) (d : State n) : Prop :=
  ∀ a e, a.Work → ¬ Step host d a e

/-- The steps of the threads that take no job go on beside the calls. -/
theorem beside_of_work {n : Nat} (host : Host n) {a : Delivery.Action n} (hwork : a.Work)
    (hnot : ∀ i job, a ≠ .take i job) : Beside host a := by
  cases a with
  | submit sub => exact hwork.elim
  | take i job => exact absurd rfl (hnot i job)
  | _ => trivial

/-- The threads of the pools have emptied the queue, and all threads are
done. -/
theorem Rest.base {n : Nat} {host : Host n} {d : State n} (h : d.Rest host) (hbusy : Busy d.base) :
    AtRest d.base := by
  have htodo : ∀ i, (d.base.threads i).todo = [] := by
    intro i
    by_contra hsome
    obtain ⟨a, t, hwork, hnot, hstep⟩ := thread_moves hsome
    exact h (.core a) _ hwork (.core a t (beside_of_work host hwork hnot) hstep)
  have hthreads := threads_idle hbusy htodo
  refine ⟨List.eq_nil_iff_forall_not_mem.mpr (fun job hjob => ?_), hthreads⟩
  -- a worker would take the job
  obtain ⟨i, hworker⟩ := host.staffed
  let x := Execution.fail job.batch .unknownError (by simp)
  exact h (.core (.take i job)) _ trivial
    (.core _ _ hworker (.take i job x _ hjob (by rw [hthreads i]) (.refl _)))

/-- A call that has thrown has ended, or waits for the threads of its pool. -/
theorem Rest.call {n : Nat} {host : Host n} {d : State n} (h : d.Rest host)
    (hbase : AtRest d.base) {c : Call n} (hc : c ∈ d.calls) {fault : Fault}
    (hfault : c.fault = some fault) :
    c.phase = .ended (some fault) ∨
      ∃ next started pool, fault = .spawn next started ∧
        c.phase = .joining next started pool ∧ 0 < pool.threads := by
  obtain ⟨before, after, hcalls⟩ := List.append_of_mem hc
  obtain ⟨sub, i, phase⟩ := c
  cases phase with
  | registered | dispatching => simp [Call.fault] at hfault
  | joining next started pool =>
      refine .inr ⟨next, started, pool, (Option.some.inj hfault).symm, rfl, ?_⟩
      by_contra hnone
      exact h (.joined i) _ trivial
        (.joined before after sub i next started pool hcalls (by omega) (hbase.threads_eq i))
  | draining fault' =>
      exact (h (.drained i) _ trivial
        (.drained before after sub i fault' hcalls (hbase.threads_eq i))).elim
  | ended fault' =>
      have hfault : fault' = some fault := hfault
      rw [hfault]
      exact .inl rfl

/-- Nothing is to do where the threads are at rest and the calls have
ended. -/
theorem rest_of_ended {n : Nat} {host : Host n} {d : State n} (hbase : AtRest d.base)
    (hended : ∀ c ∈ d.calls, ¬ c.Active) : d.Rest host := by
  have hgone : ∀ {before after : List (Call n)} {c : Call n},
      d.calls = before ++ c :: after → ¬ c.Active := by
    intro before after c hcalls
    refine hended c ?_
    rw [hcalls]
    exact List.mem_append.mpr (.inr List.mem_cons_self)
  intro a e ha hstep
  cases hstep with
  | core a t hbeside hstep =>
      cases hstep with
      | take i job x todo hjob =>
          rw [hbase.queue_eq] at hjob
          simp at hjob
      | store i e todo hthread | sub i e todo hthread | answer i e todo hthread
      | push i e todo r hthread =>
          rw [hbase.threads_eq i] at hthread
          simp at hthread
      | _ => exact ha.elim
  | commit | armThrows | pushThrows | spawnThrows => exact ha
  | _ => exact hgone ‹_› (by simp [Call.Active])

/-! ## §9. After a failure. -/

theorem mem_jobs_of_pending {n : Nat} {c : Call n} {job : Job} (h : job ∈ c.pending) :
    job ∈ c.sub.jobs := by
  unfold Call.pending at h
  split at h
  any_goals exact mem_jobs_of_undispatched h
  all_goals simp at h

/-- The tickets that wait are those of the jobs no call has pushed. -/
theorem Simulated.outstanding_eq {n : Nat} {d : State n} {queue : List Job}
    (h : Simulated d queue) (hrest : AtRest d.base) :
    outstanding { d.base with queue := queue }
      = ((d.calls.flatMap Call.pending).flatMap Job.tickets : List Ticket) := by
  have hthreads : ∑ i, (d.base.threads i).tickets = 0 := by
    refine Finset.sum_eq_zero (fun i _ => ?_)
    rw [hrest.threads_eq i]
    rfl
  have hqueue := h.queue_perm
  rw [hrest.queue_eq, List.nil_append] at hqueue
  rw [outstanding]
  simp only [hthreads, add_zero, Multiset.coe_eq_coe]
  exact hqueue.flatMap_right _

/-- Only a range's own call can still hold tickets for it. -/
theorem ticketsOf_pending {n : Nat} {calls : List (Call n)}
    (hdistinct : ((calls.map Call.sub).map Submission.id).Nodup) {c : Call n} (hc : c ∈ calls)
    {k : RangeId} (hk : k ∈ c.sub.ranges) :
    ticketsOf k ((calls.flatMap Call.pending).flatMap Job.tickets : List Ticket)
      = (c.pending.flatMap Job.tickets).countP (fun t => decide (t.range = k)) := by
  obtain ⟨before, after, rfl⟩ := List.append_of_mem hc
  have hothers : ∀ c' ∈ before ++ after, c'.sub.id ≠ c.sub.id := by
    rw [List.map_map, List.map_append, List.map_cons, List.nodup_middle, List.nodup_cons,
      ← List.map_append] at hdistinct
    intro c' hc' heq
    exact hdistinct.1 (List.mem_map.mpr ⟨c', hc', heq⟩)
  have hfront : ((before ++ c :: after).flatMap Call.pending).flatMap Job.tickets |>.Perm
      ((c.pending ++ (before ++ after).flatMap Call.pending).flatMap Job.tickets) :=
    (List.perm_middle.flatMap_right Call.pending).flatMap_right _
  have hnone : (((before ++ after).flatMap Call.pending).flatMap Job.tickets).countP
      (fun t => decide (t.range = k)) = 0 := by
    refine List.countP_eq_zero.mpr (fun t ht => ?_)
    obtain ⟨job, hjob, ht⟩ := List.mem_flatMap.mp ht
    obtain ⟨c', hc', hjob⟩ := List.mem_flatMap.mp hjob
    have hticket : t ∈ c'.sub.tickets :=
      List.mem_flatMap.mpr ⟨job, mem_jobs_of_pending hjob, ht⟩
    rw [decide_eq_true_eq]
    rintro rfl
    exact hothers c' hc' ((ticket_submission hticket).2.symm.trans (range_submission hk))
  rw [ticketsOf, Multiset.coe_countP, hfront.countP_eq, List.flatMap_append, List.countP_append,
    hnone, Nat.add_zero]

/-- **At rest a range has its response, unless its call still holds tickets
for it.** -/
theorem Simulated.answered {n : Nat} {host : Host n} {d : State n} {queue : List Job}
    (h : Simulated d queue) (hinv : Inv host d) (hrest : AtRest d.base) {c : Call n}
    (hc : c ∈ d.calls) {k : RangeId} (hk : k ∈ c.sub.ranges) :
    d.base.pushed.countP (fun r => decide (r.range = k))
      = if (c.pending.flatMap Job.tickets).countP (fun t => decide (t.range = k)) = 0 then 1
        else 0 := by
  have hbase := Delivery.reachable_inv _ h.reachable
  have hknown : Known { d.base with queue := queue } k := by
    refine ⟨c.sub, ?_, hk⟩
    show c.sub ∈ d.base.committed
    rw [← hinv.committed]
    exact List.mem_map_of_mem hc
  have hdistinct : ((d.calls.map Call.sub).map Submission.id).Nodup := by
    rw [hinv.committed]
    exact hbase.ids.distinct
  have hsum : ∑ i, (d.base.threads i).answering k = 0 := by
    refine Finset.sum_eq_zero (fun i _ => ?_)
    rw [hrest.threads_eq i]
    rfl
  have hone := (hbase.answered k).2 hknown
  rw [hbase.left k hknown, h.outstanding_eq hrest, ticketsOf_pending hdistinct hc hk, responses]
    at hone
  simp only [hsum, Nat.add_zero] at hone
  exact hone

/-- A failure that left nothing behind: the call has reported UnknownError,
the workers have run the workloads before `next`, the drain has failed the
others, and every range of the submission has its one response. -/
structure CleanFailure {n : Nat} (host : Host n) (d : State n) (c : Call n) (fault : Fault) :
    Prop where
  reported : c.code = some .unknownError
  dispatched : ∀ job ∈ c.sub.jobs, job.batch.workloadIndex < fault.next →
    ∃ i, host.worker i = true ∧ (i, job) ∈ d.taken
  drained : ∀ e ∈ failEvents (c.sub.undispatched fault.next), e ∈ d.base.finished
  answered : ∀ k ∈ c.sub.ranges,
    d.base.pushed.countP (fun r => decide (r.range = k)) = 1

theorem caught_of_clean {n : Nat} {host : Host n} {d : State n} {queue : List Job}
    (h : Simulated d queue) (hinv : Inv host d) (hrest : d.Rest host) (hbase : AtRest d.base)
    {c : Call n} (hc : c ∈ d.calls) {fault : Fault} (hfault : c.fault = some fault)
    (hclean : CleanFailure host d c fault) : fault.Caught := by
  rcases Rest.call hrest hbase hc hfault with hended | ⟨next, started, pool, -, hjoining, -⟩
  · have hfits := hinv.fits c hc
    rw [Call.Fits, hended] at hfits
    rcases hfits with rfl | hdrained
    · -- no workload has left the call, and the submission has a range
      obtain ⟨k, hk⟩ : ∃ k, k ∈ c.sub.ranges := by
        refine List.exists_mem_of_length_pos ?_
        rw [ranges_length]
        exact c.sub.ranges_pos
      have hpending : (c.pending.flatMap Job.tickets).countP (fun t => decide (t.range = k))
          = c.sub.tickets.countP (fun t => decide (t.range = k)) := by
        rw [Call.pending, hended]
        exact ((undispatched_zero c.sub).flatMap_right Job.tickets).countP_eq _
      have hpos := (requests_of_range c.sub d.base.requests hk).2
      have hone := h.answered hinv hbase hc hk
      rw [hclean.answered k hk, hpending, if_neg (by omega)] at hone
      simp at hone
    · exact hdrained.1
  · have hreported := hclean.reported
    rw [Call.code, hjoining] at hreported
    simp at hreported

theorem clean_of_caught {n : Nat} {host : Host n} {d : State n} {queue : List Job}
    (h : Simulated d queue) (hinv : Inv host d) (hrest : d.Rest host) (hbase : AtRest d.base)
    {c : Call n} (hc : c ∈ d.calls) {fault : Fault} (hfault : c.fault = some fault)
    (hcaught : fault.Caught) : CleanFailure host d c fault := by
  have hfits := hinv.fits c hc
  -- the call is not still joining: a started thread would be
  have hended : c.phase = .ended (some fault) := by
    refine (Rest.call hrest hbase hc hfault).resolve_right ?_
    rintro ⟨next, started, pool, rfl, hjoining, hsome⟩
    rw [Call.Fits, hjoining] at hfits
    have hstarted : pool.threads = started := hfits.2
    have hnone : started = 0 := hcaught
    omega
  have hguard : fault ≠ .guard := by
    rintro rfl
    exact hcaught
  rw [Call.Fits, hended] at hfits
  have hdrained := hfits.resolve_left hguard
  refine ⟨?_, fun job hjob hlt => ?_, fun e he => ?_, fun k hk => ?_⟩
  · rw [Call.code, hended]
  · have hnext : job.batch.workloadIndex < c.next := by
      rw [Call.next, hended]
      exact hlt
    refine (hinv.pushed c hc job hjob hnext).resolve_left (fun hqueue => ?_)
    rw [hbase.queue_eq] at hqueue
    simp at hqueue
  · refine (hdrained.2 e he).resolve_right ?_
    rintro ⟨i, hi⟩
    rw [hbase.threads_eq i] at hi
    simp [Thread.rest] at hi
  · -- so the call owes nothing
    have hpending : c.pending = [] := by
      rw [Call.pending, hended]
      cases fault with
      | guard => exact absurd rfl hguard
      | spawn next started => rfl
      | push next => rfl
    rw [h.answered hinv hbase hc hk, hpending]
    rfl

/-- What holds of the calls of `async_request` and their responses: every push
may throw, nothing is reported or answered twice, and the run comes to rest. -/
structure Dispatched {n : Nat} (host : Host n) (d : State n) : Prop where
  at_most_once : ∀ c ∈ d.calls, ∀ k ∈ c.sub.ranges,
    d.base.pushed.countP (fun r => decide (r.range = k)) ≤ 1
  finished_once : (d.base.finished.map Event.ref).Nodup
  exposed : ∀ c ∈ d.calls, ∀ next, c.phase = .dispatching next →
    next < c.sub.plan.numWorkloads → c.sub.workload next ≠ [] → d.Ready c.sub next →
    ∃ e, Step host d (.pushThrows c.thread) e
  terminates : ∀ m e, (dispatcher host).Steps Action.Work m d e → m ≤ d.work
  clean_iff : d.Rest host → ∀ c ∈ d.calls, ∀ fault, c.fault = some fault →
    (CleanFailure host d c fault ↔ fault.Caught)

/-- **WHAT A FAILURE AFTER THE COMMIT LEAVES BEHIND**, in every reachable
state of every run, with any number of calls and workers. -/
theorem failure_answered_iff {n : Nat} {host : Host n} {d : State n}
    (h : (dispatcher host).Reachable d) : Dispatched host d := by
  obtain ⟨queue, hsim⟩ := simulated d h
  have hinv := reachable_inv d h
  have hbase := Delivery.reachable_inv _ hsim.reachable
  have honce := finished_once hbase
  refine ⟨fun c hc k hk => ?_, honce, fun c hc next => push_may_throw h hc,
    fun m e hsteps => ?_, fun hrest c hc fault hfault => ?_⟩
  · have hknown : Known { d.base with queue := queue } k := by
      refine ⟨c.sub, ?_, hk⟩
      show c.sub ∈ d.base.committed
      rw [← hinv.committed]
      exact List.mem_map_of_mem hc
    have hone := (hbase.answered k).2 hknown
    rw [responses] at hone
    simp only at hone
    split at hone <;> omega
  · have hle := System.Steps.length_le (S := dispatcher host) (p := Action.Work)
      (fun _ _ _ _ _ => trivial) (fun _ _ _ (_ : True) ha hst => work_decreases ha hst)
      m d e trivial hsteps
    omega
  · have hidle := Rest.base hrest hbase.busy
    exact ⟨caught_of_clean hsim hinv hrest hidle hc hfault,
      clean_of_caught hsim hinv hrest hidle hc hfault⟩

/-! ## §10. Two failed calls. -/

/-- A worker, and a thread of the user. -/
def twoThreads : Host 2 := ⟨fun i => decide (i = 0), 1, ⟨0, rfl⟩⟩

/-- Nothing is submitted. -/
def start : State 2 :=
  ⟨⟨.new, [], [], [], fun _ => ⟨[], .store⟩, fun _ => ⟨0, .success⟩, .new .persistent 0, [], [],
    []⟩, [], .absent, []⟩

theorem start_reachable : (dispatcher twoThreads).Reachable start :=
  .init ⟨⟨rfl, rfl, rfl, rfl, fun _ => rfl, rfl, rfl, rfl, rfl⟩, rfl, rfl, rfl⟩

/-- **The guard cannot be built**: the call reports UnknownError, everything
is at rest, and the range has no response. -/
theorem unarmed_unanswered : ∃ d : State 2, (dispatcher twoThreads).Reachable d ∧
    d.Rest twoThreads ∧ ∃ c ∈ d.calls, c.fault = some .guard ∧ c.code = some .unknownError ∧
      (⟨1, 0, 0⟩ : RangeId) ∈ c.sub.ranges ∧
      d.base.pushed.countP (fun r => decide (r.range = ⟨1, 0, 0⟩)) = 0 := by
  have h₁ := start_reachable.step (Step.core .mint _ trivial .mint)
  have h₂ := h₁.step (Step.commit 1 oneSubmission _ rfl (fun _ hc => absurd hc List.not_mem_nil)
    (List.mem_singleton.mpr rfl) rfl)
  have h₃ := h₂.step (Step.armThrows [] [] oneSubmission 1 rfl)
  refine ⟨_, h₃, rest_of_ended ⟨rfl, fun _ => rfl⟩ ?_, _, List.mem_singleton.mpr rfl, rfl, rfl,
    by decide, rfl⟩
  intro c hc
  obtain rfl := List.mem_singleton.mp hc
  exact fun hactive => hactive _ rfl

/-- The first push throws, and the drain fails the object. -/
theorem failure_answered_push : ∃ d : State 2, (dispatcher twoThreads).Reachable d ∧
    d.Rest twoThreads ∧ (∃ c ∈ d.calls, c.fault = some (.push 0)) ∧ Dispatched twoThreads d := by
  let e : Event := ⟨⟨1, 0, 0⟩, ⟨1, 0, 0⟩, .unknownError⟩
  have h₁ := start_reachable.step (Step.core .mint _ trivial .mint)
  have h₂ := h₁.step (Step.commit 1 oneSubmission _ rfl (fun _ hc => absurd hc List.not_mem_nil)
    (List.mem_singleton.mpr rfl) rfl)
  have h₃ := h₂.step (Step.arm [] [] oneSubmission 1 rfl)
  have h₄ := h₃.step (Step.pushThrows [] [] oneSubmission 1 0 rfl (by decide) (by decide)
    (fun hwants => absurd hwants (by decide)) rfl)
  have h₅ := h₄.step (Step.core (.store 1) _ trivial (.store 1 e [] rfl))
  have h₆ := h₅.step (Step.core (.sub 1) _ trivial (.sub 1 e [] rfl))
  have h₇ := h₆.step (Step.core (.answer 1) _ trivial (.answer 1 e [] rfl))
  have h₈ := h₇.step (Step.core (.push 1) _ trivial (.push 1 e [] _ rfl))
  have h₉ := h₈.step (Step.drained [] [] oneSubmission 1 (.push 0) rfl rfl)
  refine ⟨_, h₉, rest_of_ended ⟨rfl, ?_⟩ ?_, ⟨_, List.mem_singleton.mpr rfl, rfl⟩,
    failure_answered_iff h₉⟩
  · intro i
    match i with
    | 0 => rfl
    | 1 => rfl
  · intro c hc
    obtain rfl := List.mem_singleton.mp hc
    exact fun hactive => hactive _ rfl

end Dispatch

end ModelStreamer.Delivery
