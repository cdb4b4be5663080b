/-
  ModelStreamer.Delivery.ExactlyOnce
  ──────────────────────────────────
  **EXACTLY ONE RESPONSE PER RANGE**, for any number of submissions, threads
  and outcomes, in every interleaving.

    • `exactly_once` — a range never gets a second response, gets none before
      its last task is finished, and the response says Success exactly when
      every task was; no task is finished twice,
    • `workLeft` — every step of a thread brings the run closer to rest
      (`work_decreases`), a thread can always move until then
      (`work_goes_on`), and at rest every range has its response.
-/
import ModelStreamer.Delivery.Invariant

namespace ModelStreamer.Delivery

open ModelStreamer.Lib ModelStreamer.Planning

/-! ## §1. Rest. -/

/-- Nothing is queued, and no thread has anything to report. -/
structure AtRest {n : Nat} (s : State n) : Prop where
  queue_eq : s.queue = []
  threads_eq : ∀ i, s.threads i = ⟨[], .store⟩

theorem AtRest.outstanding_eq {n : Nat} {s : State n} (h : AtRest s) : outstanding s = 0 := by
  have hthreads : ∑ i, (s.threads i).tickets = 0 := by
    refine Finset.sum_eq_zero (fun i _ => ?_)
    rw [h.threads_eq i]
    rfl
  rw [outstanding, hthreads, h.queue_eq]
  rfl

/-- At rest every range has its response. -/
theorem AtRest.answered {n : Nat} {s : State n} (hinv : Inv s) (h : AtRest s) {k : RangeId}
    (hk : Known s k) : s.pushed.countP (fun r => decide (r.range = k)) = 1 := by
  have htasks : (s.requests k).tasks = 0 := by
    rw [hinv.left k hk, h.outstanding_eq]
    rfl
  have hone := (hinv.answered k).2 hk
  have hsum : ∑ i, (s.threads i).answering k = 0 := by
    refine Finset.sum_eq_zero (fun i _ => ?_)
    rw [h.threads_eq i]
    rfl
  rw [responses, hsum, htasks] at hone
  simpa using hone

/-! ## §2. No task is finished twice. -/

theorem issued_nodup {n : Nat} {s : State n} (hids : Ids s) :
    ((issued s).map Ticket.ref).Nodup := by
  rw [issued, Multiset.map_coe, Multiset.coe_nodup, List.map_flatMap, List.nodup_flatMap]
  refine ⟨fun sub _ => tickets_nodup sub, ?_⟩
  refine (List.pairwise_map.mp hids.distinct).imp (fun {a b} hne => ?_)
  intro ref ha hb
  obtain ⟨t, ht, rfl⟩ := List.mem_map.mp ha
  obtain ⟨u, hu, heq⟩ := List.mem_map.mp hb
  refine hne ?_
  rw [← (ticket_submission ht).1, ← (ticket_submission hu).1, heq]

theorem finished_once {n : Nat} {s : State n} (hinv : Inv s) :
    (s.finished.map Event.ref).Nodup := by
  have hle : counted s ≤ issued s := by
    rw [← hinv.conserved]
    exact Multiset.le_add_left _ _
  have hnodup := Multiset.nodup_of_le (Multiset.map_le_map hle) (issued_nodup hinv.ids)
  rw [counted, Multiset.map_coe, Multiset.coe_nodup, List.map_map] at hnodup
  exact hnodup

/-- When a range is counted down, all its tasks are finished. -/
theorem all_finished {n : Nat} {s : State n} (hinv : Inv s) {k : RangeId} (hk : Known s k)
    (hzero : (s.requests k).tasks = 0) :
    ∀ t ∈ issued s, t.range = k → ∃ e ∈ s.finished, e.ticket = t := by
  intro t ht hrange
  rw [← hinv.conserved, Multiset.mem_add] at ht
  rcases ht with ht | ht
  · have hpos : 1 ≤ ticketsOf k (outstanding s) := Multiset.countP_pos_of_mem ht hrange
    rw [← hinv.left k hk] at hpos
    omega
  · exact List.mem_map.mp ht

/-! ## §3. Threads do not stop before the end. -/

/-- The steps of the threads. -/
def Action.Work {n : Nat} : Action n → Prop
  | .take _ _ => True
  | .store _ => True
  | .sub _ => True
  | .answer _ => True
  | .push _ => True
  | _ => False

/-- The steps a thread still has to make for its calls. -/
def Thread.work (th : Thread) : Nat :=
  match th.pc with
  | .store => 4 * th.todo.length
  | .sub => 4 * th.todo.length - 1
  | .answer => 4 * th.todo.length - 2
  | .push _ => 4 * th.todo.length - 3

/-- The steps the threads still have to make. -/
def workLeft {n : Nat} (s : State n) : Nat :=
  (s.queue.map (fun job => 1 + 4 * job.tickets.length)).sum + ∑ i, (s.threads i).work

/-- A thread moves, and the queue stays. -/
theorem work_update {n : Nat} {s t : State n} {i : Fin n} {th : Thread}
    (hqueue : t.queue = s.queue) (hthreads : t.threads = Function.update s.threads i th)
    (hless : th.work < (s.threads i).work) : workLeft t < workLeft s := by
  have hsum := sum_update_add s.threads Thread.work i th
  rw [workLeft, workLeft, hqueue, hthreads]
  omega

theorem work_decreases {n : Nat} {s t : State n} {a : Action n} (ha : a.Work)
    (hstep : Step s a t) : workLeft t < workLeft s := by
  cases hstep with
  | take i job x todo hjob hpc htodo =>
      have hsum := sum_update_add s.threads Thread.work i ⟨todo, .store⟩
      have hold : (s.threads i).work = 4 * (s.threads i).todo.length := by
        rw [Thread.work, hpc]
      -- what the queue loses in tickets the thread gains in events
      have hlen : todo.length = (s.threads i).todo.length + job.tickets.length := by
        have hev := (events_perm job x).length_eq
        rw [List.length_map] at hev
        rw [htodo.length_eq, List.length_append, hev]
      have hnew : (⟨todo, .store⟩ : Thread).work = 4 * todo.length := rfl
      have hqueue := ((List.perm_cons_erase hjob).map
        (fun job : Job => 1 + 4 * job.tickets.length)).sum_eq
      rw [List.map_cons, List.sum_cons] at hqueue
      simp only [workLeft]
      omega
  | store i e todo hthread =>
      refine work_update (i := i) rfl rfl ?_
      rw [hthread]
      simp only [Thread.work, List.length_cons]
      omega
  | sub i e todo hthread =>
      refine work_update (i := i) rfl rfl ?_
      rw [hthread]
      -- it may have to answer as well, which was paid for by the store
      split
      · simp only [Thread.work, List.length_cons]
        omega
      · simp only [Thread.work, List.length_cons]
        omega
  | answer i e todo hthread =>
      refine work_update (i := i) rfl rfl ?_
      rw [hthread]
      simp only [Thread.work, List.length_cons]
      omega
  | push i e todo r hthread =>
      refine work_update (i := i) rfl rfl ?_
      rw [hthread]
      simp only [Thread.work, List.length_cons]
      omega
  | _ => exact ha.elim

/-- A thread in the middle of its calls can move, and takes no job. -/
theorem thread_moves {n : Nat} {s : State n} {i : Fin n} (h : (s.threads i).todo ≠ []) :
    ∃ a t, a.Work ∧ (∀ j job, a ≠ .take j job) ∧ Step s a t := by
  obtain ⟨e, todo, htodo⟩ := List.exists_cons_of_ne_nil h
  have hthread : s.threads i = ⟨e :: todo, (s.threads i).pc⟩ := by rw [← htodo]
  cases hpc : (s.threads i).pc with
  | store => exact ⟨.store i, _, trivial, by simp, .store i e todo (by rw [hthread, hpc])⟩
  | sub => exact ⟨.sub i, _, trivial, by simp, .sub i e todo (by rw [hthread, hpc])⟩
  | answer => exact ⟨.answer i, _, trivial, by simp, .answer i e todo (by rw [hthread, hpc])⟩
  | push r => exact ⟨.push i, _, trivial, by simp, .push i e todo r (by rw [hthread, hpc])⟩

/-- Threads without calls before them are at rest. -/
theorem threads_idle {n : Nat} {s : State n} (hbusy : Busy s)
    (htodo : ∀ i, (s.threads i).todo = []) (i : Fin n) : s.threads i = ⟨[], .store⟩ := by
  have hpc : (s.threads i).pc = .store := by
    by_contra hpc
    exact hbusy i hpc (htodo i)
  rw [← htodo i, ← hpc]

/-- **Until everything is reported, some thread can move.** -/
theorem work_goes_on {n : Nat} {s : State (n + 1)} (hbusy : Busy s) (hrest : ¬ AtRest s) :
    ∃ a t, a.Work ∧ Step s a t := by
  by_cases hidle : ∀ i, (s.threads i).todo = []
  · -- only the queue is left: thread 0 takes its first job
    have hthreads := threads_idle hbusy hidle
    obtain ⟨job, hjob⟩ : ∃ job, job ∈ s.queue := by
      by_contra hnone
      refine hrest ⟨List.eq_nil_iff_forall_not_mem.mpr (fun job hjob => hnone ⟨job, hjob⟩),
        hthreads⟩
    let x := Execution.fail job.batch .unknownError (by simp)
    exact ⟨.take 0 job, _, trivial, .take 0 job x _ hjob (by rw [hthreads 0]) (.refl _)⟩
  · obtain ⟨i, hi⟩ := not_forall.mp hidle
    obtain ⟨a, t, hwork, -, hstep⟩ := thread_moves hi
    exact ⟨a, t, hwork, hstep⟩

/-! ## §4. A run whose worker aborts. -/

/-- One object of one byte. -/
def oneRange : List FileRanges :=
  [⟨"s3://bucket/object", [⟨0, 1, 4096, zero_lt_word, one_lt_word, by omega⟩]⟩]

/-- Its one batch. -/
def oneBatch : Batch :=
  ⟨1, 0, 0, "s3://bucket/object", some ⟨"s3", "bucket", "object"⟩,
    [⟨⟨0, 0, 0, 1, 1, 4096⟩, ⟨0, 1, 1, 0⟩⟩], ⟨0, 1, by decide⟩⟩

theorem oneRange_planned :
    Planning.plan ⟨1, 1, 1, 1⟩ 1 oneRange = .ok ⟨1, [oneBatch], [⟨0, 0, 0, 1, 1, 4096⟩]⟩ := by
  have hassigned : Assigner.new ⟨1, 1, 1, 1⟩ oneRange
      = .ok ⟨[⟨0, 0, 1, 4096, 0, [1], [⟨0, 0, 0, 1, 4096⟩]⟩], 1⟩ := by decide
  have hloop : handleLoop ⟨[⟨0, 0, 0, 1, 4096⟩], 0, 1⟩ [] 0 1 0
      = .ok ([(0, Info.new 0 1 0)], ⟨[⟨0, 0, 0, 1, 4096⟩], 0, 0⟩) := by
    rw [handleLoop]
    rfl
  rw [Planning.plan, hassigned]
  simp only [planTransfers, Batches.new, buildTasks, buildLoop, handleRequest, hloop]
  rfl

/-- The submission of that object. -/
def oneSubmission : Submission where
  id := 1
  config := ⟨1, 1, 1, 1⟩
  request := oneRange
  plan := ⟨1, [oneBatch], [⟨0, 0, 0, 1, 1, 4096⟩]⟩
  workers_pos := by decide
  ranges_pos := by decide
  ranges_lt := by decide
  planned := oneRange_planned

/-- One thread, and nothing submitted. -/
def idle : State 1 :=
  ⟨.new, [], [], [], fun _ => ⟨[], .store⟩, fun _ => ⟨0, .success⟩, .new .persistent 0, [], [], []⟩

theorem idle_init : Init idle := ⟨rfl, rfl, rfl, rfl, fun _ => rfl, rfl, rfl, rfl, rfl⟩

/-- The call an aborting worker makes for the task of `oneBatch`. -/
def abortCall : Event := ⟨⟨1, 0, 0⟩, ⟨1, 0, 0⟩, .finishedError⟩

/-- The object is submitted, the worker aborts, and the response is popped. -/
theorem aborted_run : ∃ s : State 1, (streamer 1).Reachable s ∧ s.committed = [oneSubmission] ∧
    AtRest s ∧ s.popped = [⟨⟨1, 0, 0, .finishedError⟩, false⟩] := by
  let job : Job := ⟨0, oneBatch⟩
  let x := Execution.fail oneBatch .finishedError (by decide)
  have h₀ : (streamer 1).Reachable idle := .init idle_init
  have h₁ := h₀.step (Step.mint)
  have h₂ := h₁.step (Step.submit oneSubmission _ (by decide) rfl)
  have h₃ := h₂.step (t := _) (a := _)
    (Step.take 0 job x [abortCall] (List.mem_singleton.mpr rfl) rfl (List.Perm.of_eq rfl))
  have h₄ := h₃.step (Step.store 0 abortCall [] rfl)
  have h₅ := h₄.step (Step.sub 0 abortCall [] rfl)
  have h₆ := h₅.step (Step.answer 0 abortCall [] rfl)
  have h₇ := h₆.step (Step.push 0 abortCall [] _ rfl)
  have h₈ := h₇.step (Step.pop _ _ _ _ rfl rfl)
  refine ⟨_, h₈, rfl, ⟨rfl, ?_⟩, rfl⟩
  intro i
  obtain rfl : i = 0 := Subsingleton.elim i 0
  rfl

/-! ## §5. Exactly once. -/

/-- What the responses to range `k` are, so far and in the end. -/
structure AnsweredOnce {n : Nat} (s : State n) (k : RangeId) : Prop where
  at_most_once : s.pushed.countP (fun r => decide (r.range = k)) ≤ 1
  after_all : ∀ r ∈ s.pushed, r.range = k →
    ∀ t ∈ issued s, t.range = k → ∃ e ∈ s.finished, e.ticket = t
  success_iff : ∀ r ∈ s.pushed, r.range = k →
    (r.ret = .success ↔ ∀ e ∈ s.finished, e.range = k → e.ret = .success)
  at_rest : AtRest s → s.pushed.countP (fun r => decide (r.range = k)) = 1

/-- What holds of the responses in a state. -/
structure ExactlyOnce {n : Nat} (s : State n) : Prop where
  range : ∀ sub ∈ s.committed, ∀ k ∈ sub.ranges, AnsweredOnce s k
  no_stray : ∀ r ∈ s.pushed, ∃ sub ∈ s.committed, r.range ∈ sub.ranges
  finished_once : (s.finished.map Event.ref).Nodup
  executes : ∀ job ∈ s.queue, ∃ sub ∈ s.committed, ∀ o,
    ∃ x : Execution job.batch, x.run = execute sub.config o job.batch
  terminates : ∀ m t, (streamer n).Steps Action.Work m s t → m ≤ workLeft s
  progress : 0 < n → ¬ AtRest s → ∃ a t, a.Work ∧ Step s a t

/-- **EXACTLY ONE RESPONSE PER RANGE**, in every reachable state of every
run, with any number of threads. -/
theorem exactly_once {n : Nat} {s : State n} (h : (streamer n).Reachable s) :
    ExactlyOnce s := by
  have hinv := reachable_inv s h
  refine ⟨fun sub hsub k hk => ?_, fun r hr => (hinv.final.pushed r hr).known,
    finished_once hinv, fun job hjob => ?_, fun m t hsteps => ?_, fun hn hrest => ?_⟩
  · have hknown : Known s k := ⟨sub, hsub, hk⟩
    refine ⟨?_, ?_, ?_, fun hrest => hrest.answered hinv hknown⟩
    · have hone := (hinv.answered k).2 hknown
      rw [responses] at hone
      split at hone <;> omega
    · rintro r hr rfl
      exact all_finished hinv hknown (hinv.final.pushed r hr).counted_down
    · rintro r hr rfl
      exact (hinv.final.pushed r hr).ret_eq
  · obtain ⟨sub, hsub, hmem⟩ := hinv.queued job hjob
    exact ⟨sub, hsub, fun o => ⟨sub.execution hmem o, rfl⟩⟩
  · have hle := System.Steps.length_le (S := streamer n) (p := Action.Work)
      (fun _ _ _ _ _ => trivial) (fun _ _ _ (_ : True) ha hst => work_decreases ha hst)
      m s t trivial hsteps
    omega
  · obtain ⟨m, rfl⟩ : ∃ m, n = m + 1 := ⟨n - 1, by omega⟩
    exact work_goes_on hinv.busy hrest

/-- The aborted range has its one response. -/
theorem exactly_once_aborted : ∃ s : State 1, (streamer 1).Reachable s ∧
    s.committed = [oneSubmission] ∧ AtRest s ∧ ExactlyOnce s := by
  obtain ⟨s, hreach, hcom, hrest, -⟩ := aborted_run
  exact ⟨s, hreach, hcom, hrest, exactly_once hreach⟩

end ModelStreamer.Delivery
