/-
  ModelStreamer.ObjectStorage.Past
  ────────────────────────────────
  **THE PAST OF A WORKER DECIDES NOTHING.**

  `enqueued` and `reported` are records: no hook reads them.  Two workers
  that differ in them alone therefore do the same, and drop the same
  workloads.

    • `…_after` — every hook carries a past along,
    • `follow` — whatever a worker does, another one in the same present
      does as well.
-/
import ModelStreamer.ObjectStorage.Throws

namespace ModelStreamer.ObjectStorage

open ModelStreamer.Lib ModelStreamer.Planning ModelStreamer.Delivery

/-! ## §1. Hooks. -/

/-- The worker after more of a past: chunks enqueued and workloads dropped
before its own. -/
def Worker.after (w : Worker) (enqueued : List ObjectChunk) (reported : List (Nat × Inflight)) :
    Worker :=
  { w with enqueued := enqueued ++ w.enqueued, reported := reported ++ w.reported }

/-- The worker without its past. -/
def Worker.present (w : Worker) : Worker := { w with enqueued := [], reported := [] }

theorem present_after (w : Worker) : w.present.after w.enqueued w.reported = w := by
  simp only [Worker.after, Worker.present, List.append_nil]

section Past

variable (w : Worker) (enqueued : List ObjectChunk) (reported : List (Nat × Inflight))

theorem abortAll_after (code : ResponseCode) :
    (w.after enqueued reported).abortAll code = (w.abortAll code).after enqueued reported := by
  simp only [Worker.abortAll, Worker.after, List.append_assoc]

theorem finalize_after (base : Nat) (wl : Inflight) (code : ResponseCode) :
    (w.after enqueued reported).finalize base wl code
      = (w.finalize base wl code).after enqueued reported := by
  simp only [Worker.finalize, Worker.after, List.append_assoc]

theorem completeChunk_after (handle base taskIdx : Nat) (ret : ResponseCode) :
    (w.after enqueued reported).completeChunk handle base taskIdx ret
      = (w.completeChunk handle base taskIdx ret).map (·.after enqueued reported) := by
  have hinflight : (w.after enqueued reported).inflight = w.inflight := rfl
  unfold Worker.completeChunk
  rw [hinflight]
  cases find w.inflight base with
  | none => rfl
  | some wl =>
      dsimp only
      cases wl.completeChunk taskIdx ret with
      | error e => rfl
      | ok result =>
          obtain ⟨wl', last⟩ := result
          cases last with
          | false => rfl
          | true =>
              exact congrArg Except.ok
                (finalize_after (w.credited handle base ret wl') enqueued reported base wl' .success)

theorem submit_after (chunk : ObjectChunk) (outcome : ResponseCode) :
    (w.after enqueued reported).submit chunk outcome
      = (w.submit chunk outcome).map (fun r => (r.1.after enqueued reported, r.2)) := by
  have hmap : ∀ result : Except Crash Worker,
      (result.map (·.after enqueued reported)).map (·, false)
        = (result.map (·, false)).map (fun r => (r.1.after enqueued reported, r.2)) := by
    intro result
    cases result <;> rfl
  have hinflight : (w.after enqueued reported).inflight = w.inflight := rfl
  unfold Worker.submit
  rw [hinflight]
  cases locate w.inflight chunk.handle with
  | none => rfl
  | some found =>
      obtain ⟨base, taskIdx⟩ := found
      dsimp only
      cases (find w.inflight base).bind (fun wl => wl.tasks[taskIdx]?) with
      | none => rfl
      | some ts =>
          simp only [completeChunk_after, hmap]
          split
          · rfl
          · split
            · rfl
            · rfl

theorem drainLoop_after (responses : List Completion) :
    ∀ (w : Worker) (progressed drained : Bool),
      drainLoop responses ⟨w.after enqueued reported, progressed, drained⟩
        = (drainLoop responses ⟨w, progressed, drained⟩).map
            (fun d => { d with worker := d.worker.after enqueued reported }) := by
  induction responses with
  | nil =>
      intro w progressed drained
      rfl
  | cons response responses ih =>
      intro w progressed drained
      unfold drainLoop
      by_cases hret : response.ret = .finishedError
      · simp only [if_pos hret]
        rfl
      · have hinflight : (w.after enqueued reported).inflight = w.inflight := rfl
        simp only [if_neg hret, hinflight]
        cases locate w.inflight response.handle with
        | none => exact ih w progressed drained
        | some found =>
            obtain ⟨base, taskIdx⟩ := found
            simp only [completeChunk_after]
            cases w.completeChunk response.handle base taskIdx response.ret with
            | error e => rfl
            | ok w' => exact ih w' true drained

theorem drainBatch_after (stopped : Bool) (round : Round) :
    (w.after enqueued reported).drainBatch stopped round
      = (w.drainBatch stopped round).map (·.after enqueued reported) := by
  have hreader : (w.after enqueued reported).reader = w.reader := rfl
  have hidle : ∀ w : Worker, (w.after enqueued reported).idle = w.idle := fun _ => rfl
  unfold Worker.drainBatch
  simp only [abortAll_after, drainLoop_after, hreader]
  split
  · rfl
  · split
    · rfl
    · split
      · rfl
      · cases drainLoop round.responses ⟨w, false, round.responses.isEmpty⟩ with
        | error e => rfl
        | ok d =>
            simp only [Except.map, hidle]
            split
            · exact congrArg Except.ok (abortAll_after d.worker enqueued reported .finishedError)
            · rfl

theorem reportInline_after (wl : Inflight) (code : ResponseCode) :
    (w.after enqueued reported).reportInline wl code
      = (w.reportInline wl code).after enqueued reported := by
  simp only [Worker.reportInline, Worker.after, List.append_assoc]

theorem discard_after (workload : Workload) :
    (w.after enqueued reported).discard workload
      = (w.discard workload).after enqueued reported :=
  congrArg (fun w : Worker => { w with readerError := .success })
    (reportInline_after w enqueued reported (Inflight.ofWorkload workload)
      (w.discardCode workload))

theorem enqueue_after (workload : Workload) :
    (w.after enqueued reported).enqueue workload
      = (w.enqueue workload).map (·.after enqueued reported) := by
  have hchunk : (w.after enqueued reported).chunkBytesize = w.chunkBytesize := rfl
  have hinflight : (w.after enqueued reported).inflight = w.inflight := rfl
  have hcounter : (w.after enqueued reported).asyncHandleCounter = w.asyncHandleCounter := rfl
  unfold Worker.enqueue
  simp only [reportInline_after, hchunk, hinflight, hcounter]
  split
  · cases respondAll (placedTasks 0 workload.batches) (Inflight.ofWorkload workload).workload with
    | error e => rfl
    | ok running => rfl
  · cases find w.inflight w.asyncHandleCounter with
    | some _ => rfl
    | none =>
        dsimp only
        cases enqueueLoop w.chunkBytesize w.chunk_pos w.asyncHandleCounter
          (placedTasks 0 workload.batches) _ with
        | error e => rfl
        | ok b => simp only [Except.map, Worker.after, List.append_assoc]

theorem buildReader_after (first : Workload) (backend : Backend) :
    (w.after enqueued reported).buildReader first backend
      = ((w.buildReader first backend).1.after enqueued reported,
          (w.buildReader first backend).2) := by
  have hreader : (w.after enqueued reported).reader = w.reader := rfl
  unfold Worker.buildReader
  rw [hreader]
  by_cases hbuilt : w.reader = true
  · simp only [if_pos hbuilt]
  · simp only [if_neg hbuilt]
    cases backend.build with
    | none => rfl
    | some failure =>
        cases failure with
        | none => rfl
        | some code => rfl

theorem capacity_after (first : Workload) (backend : Backend) :
    (w.after enqueued reported).capacity first backend
      = ((w.capacity first backend).1.after enqueued reported,
          (w.capacity first backend).2) := by
  unfold Worker.capacity
  rw [buildReader_after]
  by_cases hempty : first.batches.isEmpty = true
  · simp only [if_pos hempty]
  · simp only [if_neg hempty]
    obtain ⟨w', through⟩ := w.buildReader first backend
    cases through with
    | false => rfl
    | true => rfl

theorem windowUp_after (workload : Workload) (backend : Backend) :
    (w.after enqueued reported).windowUp workload backend
      = (w.windowUp workload backend).map (·.after enqueued reported) := by
  have hqueue : (w.after enqueued reported).queue = w.queue := rfl
  unfold Worker.windowUp
  rw [capacity_after, hqueue]
  cases w.queue with
  | some q => rfl
  | none =>
      obtain ⟨w', window⟩ := w.capacity workload backend
      cases window with
      | none => rfl
      | some window => rfl

theorem receive_after (workload : Workload) (backend : Backend) :
    (w.after enqueued reported).receive workload backend
      = (w.receive workload backend).map (fun r => (r.1.after enqueued reported, r.2)) := by
  have hmap : ∀ result : Except Crash Worker,
      (result.map (·.after enqueued reported)).map (·, true)
        = (result.map (·, true)).map (fun r => (r.1.after enqueued reported, r.2)) := by
    intro result
    cases result <;> rfl
  have hqueue : (w.after enqueued reported).queue = w.queue := rfl
  unfold Worker.receive
  rw [capacity_after, hqueue]
  cases w.queue with
  | some q => simp only [enqueue_after, hmap]
  | none =>
      obtain ⟨w', window⟩ := w.capacity workload backend
      cases window with
      | none =>
          exact congrArg (fun w => Except.ok (w, false)) (discard_after w' enqueued reported workload)
      | some window =>
          exact (congrArg (Except.map (·, true)) (enqueue_after
            { w' with queue := some (.new window) } enqueued reported workload)).trans (hmap _)

end Past

/-! ## §2. Two workers. -/

/-- Two workers in the same present, and what each has dropped since. -/
structure Abreast (w w' u u' : Worker) : Prop where
  present : u.present = u'.present
  dropped : ∃ more, u.reported = w.reported ++ more ∧ u'.reported = w'.reported ++ more

/-- **What carries a past along keeps two workers in the same present.** -/
theorem abreast {α : Type} {hook : Worker → Except Crash α} {worker : α → Worker}
    {next : α → Worker → α} (hworker : ∀ a w, worker (next a w) = w)
    (hnext : ∀ a w w', next (next a w) w' = next a w')
    (hafter : ∀ w enqueued reported, hook (w.after enqueued reported)
      = (hook w).map (fun a => next a ((worker a).after enqueued reported)))
    {w w' : Worker} (hpresent : w.present = w'.present) {a' : α} (hok : hook w' = .ok a') :
    ∃ u, hook w = .ok (next a' u) ∧ Abreast w w' u (worker a') := by
  have hown := hafter w.present w.enqueued w.reported
  have hother := hafter w.present w'.enqueued w'.reported
  rw [present_after] at hown
  rw [hpresent, present_after, ← hpresent, hok] at hother
  cases hhook : hook w.present with
  | error e =>
      rw [hhook] at hother
      simp [Except.map] at hother
  | ok a =>
      rw [hhook] at hown hother
      simp only [Except.map, Except.ok.injEq] at hother
      subst hother
      refine ⟨(worker a).after w.enqueued w.reported, ?_, ?_, (worker a).reported, rfl, ?_⟩
      · rw [hnext]
        exact hown
      · rw [hworker]
        rfl
      · rw [hworker]
        rfl

section Follow

variable {w w' : Worker}

theorem receive_abreast (h : w.present = w'.present) {workload : Workload} {backend : Backend}
    {result : Worker × Bool} (hok : w'.receive workload backend = .ok result) :
    ∃ u, w.receive workload backend = .ok (u, result.2) ∧ Abreast w w' u result.1 :=
  @abreast (Worker × Bool) (fun w => w.receive workload backend) Prod.fst (fun r w => (w, r.2))
    (fun _ _ => rfl) (fun _ _ _ => rfl)
    (fun w enqueued reported => receive_after w enqueued reported workload backend) w w' h result hok

theorem submit_abreast (h : w.present = w'.present) {chunk : ObjectChunk} {outcome : ResponseCode}
    {result : Worker × Bool} (hok : w'.submit chunk outcome = .ok result) :
    ∃ u, w.submit chunk outcome = .ok (u, result.2) ∧ Abreast w w' u result.1 :=
  @abreast (Worker × Bool) (fun w => w.submit chunk outcome) Prod.fst (fun r w => (w, r.2))
    (fun _ _ => rfl) (fun _ _ _ => rfl)
    (fun w enqueued reported => submit_after w enqueued reported chunk outcome) w w' h result hok

theorem drainBatch_abreast (h : w.present = w'.present) {stopped : Bool} {round : Round}
    {u' : Worker} (hok : w'.drainBatch stopped round = .ok u') :
    ∃ u, w.drainBatch stopped round = .ok u ∧ Abreast w w' u u' :=
  @abreast Worker (fun w => w.drainBatch stopped round) id (fun _ w => w)
    (fun _ _ => rfl) (fun _ _ _ => rfl)
    (fun w enqueued reported => drainBatch_after w enqueued reported stopped round) w w' h u' hok

theorem Abreast.refl (h : w.present = w'.present) : Abreast w w' w w' :=
  ⟨h, [], (List.append_nil _).symm, (List.append_nil _).symm⟩

/-- What two workers in the same present share. -/
theorem shared_of_present (h : w.present = w'.present) :
    w.chunkBytesize = w'.chunkBytesize ∧ w.asyncHandleCounter = w'.asyncHandleCounter ∧
      w.queue = w'.queue ∧ w.inflight = w'.inflight ∧ w.credits = w'.credits := by
  obtain ⟨hchunk, -, -, hqueue, hinflight, hcounter, -, hcredits, -⟩ := Worker.mk.inj h
  exact ⟨hchunk, hcounter, hqueue, hinflight, hcredits⟩

theorem queue_of_present (h : w.present = w'.present) {q : CapacityQueue ObjectChunk}
    (hq : w.queue = some q) : w'.queue = some q := by
  obtain ⟨-, -, hqueue, -, -⟩ := shared_of_present h
  rw [← hqueue]
  exact hq

end Follow

theorem stepFits_of_present {s : State} {w : Worker} (h : s.worker.present = w.present) {a : Action}
    (hfit : StepFits s a) : StepFits { s with worker := w } a := by
  cases a with
  | execute workload backend =>
      exact (congrArg (fun w : Worker =>
        Fits (w.chunkFor workload) w.asyncHandleCounter workload) h).mp hfit
  | fill => trivial
  | submit outcome => trivial
  | drain stopped round => trivial
  | pumped => trivial
  | close => trivial

/-- **A step is followed** by another worker in the same present, and drops
the same. -/
theorem follow {s t : State} {w : Worker} {a : Action} (h : s.worker.present = w.present)
    (hsteady : Steady { s with worker := w }) (hfit : StepFits s a) (hstep : Step s a t) :
    ∃ w', Step { s with worker := w } a { t with worker := w' } ∧
      Abreast s.worker w t.worker w' := by
  have hfits := stepFits_of_present h hfit
  cases hstep with
  | execute workload backend hpc =>
      have hown := Step.execute (s := { s with worker := w }) workload backend hpc
      have hkept := steady_step hsteady hfits hown
      cases hok : w.receive workload backend with
      | error e =>
          simp only [hok, State.after] at hkept
          exact absurd rfl hkept.running
      | ok result =>
          obtain ⟨u, hu, habreast⟩ := receive_abreast h hok
          simp only [hok, State.after] at hown
          simp only [hu, State.after]
          exact ⟨result.1, hown, habreast⟩
  | fill q hq hpc =>
      exact ⟨w, .fill q (queue_of_present h hq) hpc, .refl h⟩
  | submit outcome q q' chunk hq hpc htake =>
      have hown := Step.submit (s := { s with worker := w }) outcome q q' chunk
        (queue_of_present h hq) hpc htake
      have hkept := steady_step hsteady hfits hown
      have htaken : Worker.present { s.worker with queue := some q' }
          = Worker.present { w with queue := some q' } :=
        congrArg (fun w : Worker => { w with queue := some q' }) h
      cases hok : Worker.submit { w with queue := some q' } chunk outcome with
      | error e =>
          simp only [hok, State.after] at hkept
          exact absurd rfl hkept.running
      | ok result =>
          obtain ⟨u, hu, habreast⟩ := submit_abreast htaken hok
          simp only [hok, State.after] at hown
          simp only [hu, State.after]
          exact ⟨result.1, hown, habreast.present, habreast.dropped⟩
  | drain stopped round delivered next hdraining hround =>
      have hdraining' : Draining { s with worker := w } next := by
        cases hdraining with
        | loop q hq hpc hfull hmore => exact .loop q (queue_of_present h hq) hpc hfull hmore
        | full q hq hpc hfull => exact .full q (queue_of_present h hq) hpc hfull
        | tail q hq hpc => exact .tail q (queue_of_present h hq) hpc
      obtain ⟨-, hcounter, -, -, -⟩ := shared_of_present h
      rw [hcounter] at hround
      have hown := Step.drain (s := { s with worker := w }) stopped round delivered next
        hdraining' hround
      have hkept := steady_step hsteady hfits hown
      cases hok : w.drainBatch stopped round with
      | error e =>
          simp only [hok, State.after] at hkept
          exact absurd rfl hkept.running
      | ok w' =>
          obtain ⟨u, hu, habreast⟩ := drainBatch_abreast h hok
          simp only [hok, State.after] at hown
          simp only [hu, State.after]
          exact ⟨w', hown, habreast⟩
  | pumped q hq hdone hpc =>
      exact ⟨w, .pumped q (queue_of_present h hq) hdone hpc, .refl h⟩
  | close q hq hpc hroom =>
      exact ⟨w, .close q (queue_of_present h hq) hpc hroom, .refl h⟩

end ModelStreamer.ObjectStorage
