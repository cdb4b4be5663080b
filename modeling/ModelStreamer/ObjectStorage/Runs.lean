/-
  ModelStreamer.ObjectStorage.Runs
  ────────────────────────────────
  **WHAT THE REPORTS OF A WORKER DO TO A WORKLOAD.**

  The worker reports one task at a time with Success (`respond`), and at the
  end whatever is left, batch by batch (`report_workload`).

    • `RunsAt` — the tasks finished so far are exactly those of a predicate,
      each with Success,
    • `respond_ok` — one more task is finished; no `ASSERT` fails.
-/
import ModelStreamer.ObjectStorage.Worker

namespace ModelStreamer.ObjectStorage

open ModelStreamer.Lib ModelStreamer.Planning ModelStreamer.Delivery

/-! ## §1. One batch. -/

/-- Of this batch, exactly the tasks in `finished` are finished, with
Success. -/
structure RunAt (r : Running) (finished : Nat → Prop) : Prop where
  owned : ∀ task ∈ r.batch.tasks, task.request.fileIndex = r.batch.fileIndex
  ran : Ran r.batch r.run
  finished_iff : ∀ i, i < r.batch.tasks.length → (r.run.finished[i]? = some true ↔ finished i)
  log_success : ∀ f ∈ r.run.log, f.ret = .success

theorem RunAt.length_eq {r : Running} {finished : Nat → Prop} (h : RunAt r finished) :
    r.run.finished.length = r.batch.tasks.length := h.ran.consistent.length_eq

theorem RunAt.congr {r : Running} {finished finished' : Nat → Prop} (h : RunAt r finished)
    (heq : ∀ i, i < r.batch.tasks.length → (finished i ↔ finished' i)) : RunAt r finished' :=
  ⟨h.owned, h.ran, fun i hi => (h.finished_iff i hi).trans (heq i hi), h.log_success⟩

theorem runAt_start {batch : Batch}
    (howned : ∀ task ∈ batch.tasks, task.request.fileIndex = batch.fileIndex) :
    RunAt (Running.start batch) (fun _ => False) := by
  refine ⟨howned, .start, fun i hi => ?_, by simp [Running.start, startRun]⟩
  show (startRun batch).finished[i]? = some true ↔ False
  simp [startRun, List.getElem?_replicate]

/-- **Reporting a task of the batch succeeds**, and finishes that task. -/
theorem RunAt.respond {r : Running} {finished : Nat → Prop} (h : RunAt r finished) {i : Nat}
    (hi : i < r.batch.tasks.length) :
    ∃ run, handleResponse r.batch i .success r.run = .ok run ∧
      RunAt { r with run := run } (fun k => finished k ∨ k = i) := by
  have hget : r.batch.tasks[i]? = some r.batch.tasks[i] := List.getElem?_eq_getElem hi
  have hfile : r.batch.tasks[i].request.fileIndex = r.batch.fileIndex :=
    h.owned _ (List.getElem_mem hi)
  have hok : handleResponse r.batch i .success r.run
      = .ok (r.run.finishedRequest i .success) := by
    simp [handleResponse, hget, hfile]
  refine ⟨_, hok, h.owned, .handleResponse h.ran hok, fun k hk => ?_, fun f hf => ?_⟩
  · by_cases hki : k = i
    · subst hki
      simp only [or_true, iff_true]
      exact finishedRequest_self (by rw [h.length_eq]; exact hi)
    · rw [finishedRequest_other hki, h.finished_iff k hk]
      simp [hki]
  · rcases finishedRequest_log hf with hf | rfl
    · exact h.log_success f hf
    · rfl

/-! ## §2. The batches of a workload. -/

/-- Of batch `b`, exactly the tasks `i` with `finished b i` are finished. -/
def RunsAt (workload : List Running) (finished : Nat → Nat → Prop) : Prop :=
  ∀ b r, workload[b]? = some r → RunAt r (finished b)

/-- Task `i` of batch `b` is there. -/
def HasTask (workload : List Running) (b i : Nat) : Prop :=
  ∃ r, workload[b]? = some r ∧ i < r.batch.tasks.length

theorem runsAt_start (workload : Workload) :
    RunsAt (workload.batches.map Running.start) (fun _ _ => False) := by
  intro b r hr
  rw [List.getElem?_map, Option.map_eq_some_iff] at hr
  obtain ⟨batch, hbatch, rfl⟩ := hr
  exact runAt_start (workload.owned batch (List.mem_of_getElem? hbatch))

/-- **Reporting a task succeeds**, and finishes that task alone. -/
theorem respond_ok {workload : List Running} {finished : Nat → Nat → Prop}
    (h : RunsAt workload finished) {b i : Nat} (htask : HasTask workload b i) :
    ∃ workload', respond workload b i = .ok workload' ∧
      workload'.map Running.batch = workload.map Running.batch ∧
      RunsAt workload' (fun b' i' => finished b' i' ∨ (b' = b ∧ i' = i)) := by
  obtain ⟨r, hr, hi⟩ := htask
  obtain ⟨run, hok, hrun⟩ := (h b r hr).respond hi
  refine ⟨workload.set b { r with run := run }, by simp only [respond, hr, hok], ?_, ?_⟩
  · refine List.ext_getElem? (fun k => ?_)
    rw [List.getElem?_map, List.getElem?_map, List.getElem?_set]
    split
    next hbk =>
      subst hbk
      rw [if_pos (List.getElem?_eq_some_iff.mp hr).1, hr]
      rfl
    next => rfl
  · intro b' r' hr'
    rw [List.getElem?_set] at hr'
    split at hr'
    next hbb =>
      subst hbb
      rw [if_pos (List.getElem?_eq_some_iff.mp hr).1, Option.some.injEq] at hr'
      subst hr'
      exact hrun.congr (fun k _ => by simp)
    next hbb => exact (h b' r' hr').congr (fun k _ => by simp [Ne.symm hbb])

theorem RunsAt.congr {workload : List Running} {finished finished' : Nat → Nat → Prop}
    (h : RunsAt workload finished)
    (heq : ∀ b i, HasTask workload b i → (finished b i ↔ finished' b i)) :
    RunsAt workload finished' :=
  fun b r hr => (h b r hr).congr (fun i hi => heq b i ⟨r, hr, hi⟩)

theorem HasTask.of_batches {workload workload' : List Running} {b i : Nat}
    (h : HasTask workload b i)
    (heq : workload'.map Running.batch = workload.map Running.batch) :
    HasTask workload' b i := by
  obtain ⟨r, hr, hi⟩ := h
  have hbatch : (workload'.map Running.batch)[b]? = some r.batch := by
    rw [heq, List.getElem?_map, hr]
    rfl
  rw [List.getElem?_map, Option.map_eq_some_iff] at hbatch
  obtain ⟨r', hr', hb⟩ := hbatch
  exact ⟨r', hr', by rw [hb]; exact hi⟩

end ModelStreamer.ObjectStorage
