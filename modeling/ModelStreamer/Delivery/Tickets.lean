/-
  ModelStreamer.Delivery.Tickets
  ──────────────────────────────
  **WHAT A SUBMISSION BRINGS INTO THE SYSTEM.**

  Every task of a plan holds one ticket, which names the range it reports
  to.  The facts of the plan the delivery rests on, in these terms:

    • `tickets_nodup` — no task holds two tickets,
    • `mem_ranges_of_ticket` — every ticket is for a range of the submission,
    • `requests_of_range` — the `Request` of a range starts with the number
      of the range's tickets, which is at least 1,
    • `events_perm` — an execution of a job reports exactly the job's tickets.
-/
import ModelStreamer.Delivery.System

namespace ModelStreamer.Delivery

open ModelStreamer.Planning

/-! ## §1. Jobs. -/

theorem map_mapIdx_const {α β γ : Type} {f : Nat → α → β} {g : β → γ} {h : α → γ}
    (hfg : ∀ i a, g (f i a) = h a) (l : List α) : (l.mapIdx f).map g = l.map h := by
  have hcomp : (g ∘ fun x : α × Nat => f x.2 x.1) = h ∘ Prod.fst := funext (fun x => hfg x.2 x.1)
  rw [List.mapIdx_eq_zipIdx_map, List.map_map, hcomp, ← List.map_map, List.zipIdx_map_fst]

/-- Looking every index up gives the list back. -/
theorem range_filterMap_getElem {α β : Type} (f : Nat → α → β) (l : List α) :
    (List.range l.length).filterMap (fun i => l[i]?.map (f i)) = l.mapIdx f := by
  induction l using List.reverseRecOn with
  | nil => rfl
  | append_singleton l a ih =>
      rw [List.length_append, List.length_singleton, List.range_succ, List.filterMap_append,
        List.mapIdx_append]
      have hleft : (List.range l.length).filterMap (fun i => (l ++ [a])[i]?.map (f i))
          = (List.range l.length).filterMap (fun i => l[i]?.map (f i)) := by
        refine List.filterMap_congr (fun i hi => ?_)
        rw [List.getElem?_append_left (List.mem_range.mp hi)]
      rw [hleft, ih]
      simp

/-- **An execution reports exactly its job's tickets.** -/
theorem events_perm (job : Job) (x : Execution job.batch) :
    ((job.events x).map Event.ticket).Perm job.tickets := by
  have hevents : (job.events x).map Event.ticket
      = (x.run.log.map Finish.task).filterMap
          (fun i => job.batch.tasks[i]?.map (job.ticket i)) := by
    rw [Job.events, List.map_filterMap, List.filterMap_map]
    refine List.filterMap_congr (fun f _ => ?_)
    simp only [Function.comp_apply, Option.map_map]
    rfl
  rw [hevents, Job.tickets, ← range_filterMap_getElem]
  exact (x.complete.log_perm x.ran).filterMap _

theorem job_tickets_range (job : Job) :
    job.tickets.map Ticket.range
      = job.batch.tasks.map (fun task =>
          (⟨job.batch.submissionId, job.batch.fileIndex, task.request.index⟩ : RangeId)) :=
  map_mapIdx_const (f := job.ticket) (fun _ _ => rfl) _

theorem job_tickets_ref (job : Job) :
    job.tickets.map Ticket.ref
      = (List.range job.batch.tasks.length).map
          (fun i => (⟨job.batch.submissionId, job.position, i⟩ : TaskRef)) := by
  rw [Job.tickets, List.mapIdx_eq_zipIdx_map, List.map_map, List.range_eq_range',
    ← List.zipIdx_map_snd 0 job.batch.tasks, List.map_map]
  rfl

/-- The tickets of one job name different tasks. -/
theorem job_tickets_nodup (job : Job) : (job.tickets.map Ticket.ref).Nodup := by
  rw [job_tickets_ref]
  refine List.Nodup.map ?_ List.nodup_range
  intro i k hik
  simpa using hik

/-! ## §2. The tickets of a submission. -/

theorem mem_jobs {sub : Submission} {job : Job} (h : job ∈ sub.jobs) :
    job.batch ∈ sub.plan.batches := by
  rw [Submission.jobs, List.mem_mapIdx] at h
  obtain ⟨i, hi, rfl⟩ := h
  exact List.getElem_mem hi

/-- `Batch::execute` on a job of a submission. -/
def Submission.execution (sub : Submission) {job : Job} (h : job ∈ sub.jobs) (o : Reads) :
    Execution job.batch where
  run := execute sub.config o job.batch
  ran := (execute_complete (fun task htask =>
    (planned_stops sub.workers_pos sub.planned _ (mem_jobs h) task htask).2)).1
  complete := (execute_complete (fun task htask =>
    (planned_stops sub.workers_pos sub.planned _ (mem_jobs h) task htask).2)).2

theorem jobs_positions (sub : Submission) : (sub.jobs.map Job.position).Nodup := by
  have hmap : sub.jobs.map Job.position = List.range sub.plan.batches.length := by
    rw [Submission.jobs, List.mapIdx_eq_zipIdx_map, List.map_map, List.range_eq_range',
      ← List.zipIdx_map_snd 0 sub.plan.batches]
    rfl
  rw [hmap]
  exact List.nodup_range

/-- **No task holds two tickets.** -/
theorem tickets_nodup (sub : Submission) : (sub.tickets.map Ticket.ref).Nodup := by
  rw [Submission.tickets, List.map_flatMap, List.nodup_flatMap]
  refine ⟨fun job _ => job_tickets_nodup job, ?_⟩
  refine (List.pairwise_map.mp (jobs_positions sub)).imp (fun {a b} hne => ?_)
  intro ref ha hb
  simp only [job_tickets_ref] at ha hb
  obtain ⟨i, -, rfl⟩ := List.mem_map.mp ha
  obtain ⟨k, -, hk⟩ := List.mem_map.mp hb
  simp only [TaskRef.mk.injEq] at hk
  exact hne hk.2.1.symm

/-- What a plan's batches are. -/
theorem planned_batch (sub : Submission) {batch : Batch} (h : batch ∈ sub.plan.batches) :
    PlannedBatch sub.id sub.plan.numWorkloads batch :=
  (plan_ok sub.workers_pos sub.planned).batch batch h

/-- The ranges of the tickets are the positions of the plan's tasks. -/
theorem tickets_range (sub : Submission) :
    sub.tickets.map Ticket.range
      = sub.plan.tasks.map (fun task =>
          (⟨sub.id, task.request.fileIndex, task.request.index⟩ : RangeId)) := by
  have hjobs : sub.jobs.map Job.batch = sub.plan.batches := by
    rw [Submission.jobs, map_mapIdx_const (f := Job.mk) (h := id) (fun _ _ => rfl), List.map_id]
  rw [Submission.tickets, List.map_flatMap, Plan.tasks, ← hjobs, List.map_flatMap,
    List.flatMap_map]
  rw [List.flatMap_congr]
  intro job hjob
  have hb := planned_batch sub (mem_jobs hjob)
  rw [job_tickets_range, hb.submissionId_eq]
  refine List.map_congr_left (fun task htask => ?_)
  rw [hb.file_eq task htask]

/-- Every ticket is for a range of its submission. -/
theorem mem_ranges_of_ticket {sub : Submission} {t : Ticket} (h : t ∈ sub.tickets) :
    t.range ∈ sub.ranges := by
  have hmem : t.range ∈ sub.tickets.map Ticket.range := List.mem_map_of_mem h
  rw [tickets_range] at hmem
  obtain ⟨task, htask, heq⟩ := List.mem_map.mp hmem
  obtain ⟨r, hr, hkey⟩ := List.mem_map.mp
    (plan_tasks_known sub.workers_pos sub.planned task htask)
  simp only [Indexed.key, Request.key, Prod.mk.injEq] at hkey
  rw [← heq, Submission.ranges, List.mem_map]
  exact ⟨r, hr, by rw [hkey.1, hkey.2]⟩

/-- Tickets name the submission they come from. -/
theorem ticket_submission {sub : Submission} {t : Ticket} (h : t ∈ sub.tickets) :
    t.ref.submission = sub.id ∧ t.range.submission = sub.id := by
  rw [Submission.tickets, List.mem_flatMap] at h
  obtain ⟨job, hjob, ht⟩ := h
  rw [Job.tickets, List.mem_mapIdx] at ht
  obtain ⟨i, hi, rfl⟩ := ht
  have hb := planned_batch sub (mem_jobs hjob)
  exact ⟨hb.submissionId_eq, hb.submissionId_eq⟩

/-! ## §3. The ranges of a submission. -/

theorem range_submission {sub : Submission} {k : RangeId} (h : k ∈ sub.ranges) :
    k.submission = sub.id := by
  obtain ⟨r, -, rfl⟩ := List.mem_map.mp h
  rfl

theorem ranges_nodup (sub : Submission) : sub.ranges.Nodup := by
  have hmap : sub.ranges
      = ((indexFiles 0 sub.request).map Indexed.key).map
          (fun key => (⟨sub.id, key.1, key.2⟩ : RangeId)) := by
    rw [Submission.ranges, List.map_map]
    rfl
  rw [hmap]
  refine List.Nodup.map ?_ (indexFiles_keys 0 sub.request)
  rintro ⟨f, j⟩ ⟨f', j'⟩ h
  simpa using h

theorem indexFiles_length (n : Nat) (request : List FileRanges) :
    (indexFiles n request).length = totalRanges request := by
  have hranges : ∀ (f i : Nat) (ranges : List ReadRange),
      (indexRanges f i ranges).length = ranges.length := by
    intro f i ranges
    induction ranges generalizing i with
    | nil => rfl
    | cons range ranges ih => simp [indexRanges, ih]
  induction request generalizing n with
  | nil => rfl
  | cons file files ih => simp [indexFiles, hranges, ih, totalRanges]

theorem ranges_length (sub : Submission) : sub.ranges.length = totalRanges sub.request := by
  rw [Submission.ranges, List.length_map, indexFiles_length]

/-- **The `Request` of a range counts its tickets.** -/
theorem requests_of_range (sub : Submission) (requests : RangeId → Latch) {k : RangeId}
    (h : k ∈ sub.ranges) :
    sub.requests requests k
        = ⟨sub.tickets.countP (fun t => decide (t.range = k)), .success⟩ ∧
      1 ≤ sub.tickets.countP (fun t => decide (t.range = k)) := by
  obtain ⟨r, hr, rfl⟩ := List.mem_map.mp h
  obtain ⟨q, hone, hcount, hpos⟩ := plan_counts sub.workers_pos sub.planned r hr
  have htickets : sub.tickets.countP
      (fun t => decide (t.range = ⟨sub.id, r.fileIndex, r.index⟩)) = q.tasks := by
    have hmap : sub.tickets.countP (fun t => decide (t.range = ⟨sub.id, r.fileIndex, r.index⟩))
        = (sub.tickets.map Ticket.range).countP
            (fun k => decide (k = ⟨sub.id, r.fileIndex, r.index⟩)) := by
      rw [List.countP_map]
      rfl
    rw [hmap, tickets_range, List.countP_map, hcount, Plan.tasksOf, ← List.countP_eq_length_filter]
    refine List.countP_congr (fun task _ => ?_)
    simp [Request.key]
  rw [htickets]
  refine ⟨?_, hpos⟩
  simp only [Submission.requests, if_true, hone]

/-- The requests of the other submissions stay. -/
theorem requests_other (sub : Submission) (requests : RangeId → Latch) {k : RangeId}
    (h : k.submission ≠ sub.id) : sub.requests requests k = requests k := by
  rw [Submission.requests, if_neg h]

end ModelStreamer.Delivery
