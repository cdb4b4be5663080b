/-
  ModelStreamer.Planning.Assigned
  ───────────────────────────────
  **THE WORKERS' SLICES COVER EVERY TRANSFER.**

  `assign` walks the transfers once, cutting them at the workers' targets.
  Two facts carry the proof:

    • one worker (`assignWorker_spec`) either reaches the end of the
      transfers or fills its target exactly, and what is left plus what it
      got is what was left before;
    • the targets add up to the total (`bytesPerWorker_total`), so no
      transfer is left after the last workload (`assignWorkers_spec`).

  A transfer of size zero gets one slice of size zero; every other slice is
  nonempty.
-/
import ModelStreamer.Planning.Coalesced
import Mathlib.Tactic.Ring

namespace ModelStreamer.Planning

/-! ## §1. The slices of one transfer. -/

/-- Slices of the given `(workload, size)` cuts, from `pos` bytes into the
transfer on. -/
def ContiguousTransfer.slicesAt (t : ContiguousTransfer) :
    Nat → List (Nat × Nat) → List FileReadTask
  | _, [] => []
  | pos, (w, s) :: cuts => t.slice w pos s :: t.slicesAt (pos + s) cuts

/-- Total size of the cuts. -/
def cutBytes (cuts : List (Nat × Nat)) : Nat := (cuts.map Prod.snd).sum

@[simp] theorem cutBytes_cons (c : Nat × Nat) (cuts : List (Nat × Nat)) :
    cutBytes (c :: cuts) = c.2 + cutBytes cuts := by
  simp [cutBytes]

@[simp] theorem cutBytes_append (xs ys : List (Nat × Nat)) :
    cutBytes (xs ++ ys) = cutBytes xs + cutBytes ys := by
  simp [cutBytes]

theorem slicesAt_append (t : ContiguousTransfer) (pos : Nat) (xs ys : List (Nat × Nat)) :
    t.slicesAt pos (xs ++ ys) = t.slicesAt pos xs ++ t.slicesAt (pos + cutBytes xs) ys := by
  induction xs generalizing pos with
  | nil => simp [ContiguousTransfer.slicesAt, cutBytes]
  | cons c xs ih =>
      simp only [List.cons_append, ContiguousTransfer.slicesAt, ih, cutBytes_cons]
      rw [Nat.add_assoc]

/-- Adding a slice does not move the transfer. -/
theorem slicesAt_addTask (t : ContiguousTransfer) (task : FileReadTask) (pos : Nat)
    (cuts : List (Nat × Nat)) : (t.addTask task).slicesAt pos cuts = t.slicesAt pos cuts := by
  induction cuts generalizing pos with
  | nil => rfl
  | cons c cuts ih =>
      simp only [ContiguousTransfer.slicesAt, ih]
      rfl

theorem map_size_slicesAt (t : ContiguousTransfer) (pos : Nat) (cuts : List (Nat × Nat)) :
    (t.slicesAt pos cuts).map FileReadTask.size = cuts.map Prod.snd := by
  induction cuts generalizing pos with
  | nil => rfl
  | cons c cuts ih =>
      simp [ContiguousTransfer.slicesAt, ih, ContiguousTransfer.slice]

/-- The first `consumed` bytes of the transfer are cut into nonempty slices
for workloads below `n`. -/
def ContiguousTransfer.CutUpTo (t : ContiguousTransfer) (n consumed : Nat) : Prop :=
  ∃ cuts, t.tasks = t.slicesAt 0 cuts ∧ cutBytes cuts = consumed ∧
    ∀ c ∈ cuts, c.1 < n ∧ 0 < c.2

/-- The whole transfer is cut: into nonempty slices, or into one empty slice
if the transfer is empty. -/
def ContiguousTransfer.Sliced (t : ContiguousTransfer) (n : Nat) : Prop :=
  ∃ cuts, t.tasks = t.slicesAt 0 cuts ∧ cutBytes cuts = t.size ∧ cuts ≠ [] ∧
    (∀ c ∈ cuts, c.1 < n) ∧ ((∀ c ∈ cuts, 0 < c.2) ∨ (t.size = 0 ∧ cuts.length = 1))

theorem ContiguousTransfer.Sliced.taskBytes {t : ContiguousTransfer} {n : Nat}
    (h : t.Sliced n) : t.taskBytes = t.size := by
  obtain ⟨cuts, htasks, hsum, -⟩ := h
  rw [ContiguousTransfer.taskBytes, htasks, map_size_slicesAt]
  exact hsum

/-- One more slice after the first `consumed` bytes. -/
theorem addTask_cut {t : ContiguousTransfer} {cuts : List (Nat × Nat)} {w s consumed : Nat}
    (htasks : t.tasks = t.slicesAt 0 cuts) (hsum : cutBytes cuts = consumed) :
    (t.addTask (t.slice w consumed s)).tasks
      = (t.addTask (t.slice w consumed s)).slicesAt 0 (cuts ++ [(w, s)]) := by
  rw [slicesAt_addTask, slicesAt_append, ← htasks, hsum, Nat.zero_add]
  rfl

/-! ## §2. One worker. -/

/-- The transfer without its slices. -/
def ContiguousTransfer.strip (t : ContiguousTransfer) : ContiguousTransfer :=
  { t with tasks := [] }

@[simp] theorem size_addTask (t : ContiguousTransfer) (task : FileReadTask) :
    (t.addTask task).size = t.size := rfl

@[simp] theorem strip_addTask (t : ContiguousTransfer) (task : FileReadTask) :
    (t.addTask task).strip = t.strip := rfl

/-- The transfer goes on being cut. -/
theorem ContiguousTransfer.CutUpTo.add {n w s consumed : Nat} {t : ContiguousTransfer}
    (h : t.CutUpTo n consumed) (hw : w < n) (hpos : 0 < s) :
    (t.addTask (t.slice w consumed s)).CutUpTo n (consumed + s) := by
  obtain ⟨cuts, htasks, hsum, hcuts⟩ := h
  refine ⟨cuts ++ [(w, s)], addTask_cut htasks hsum, by simp [cutBytes, ← hsum], fun c hc => ?_⟩
  rcases List.mem_append.mp hc with hc | hc
  · exact hcuts c hc
  · rw [List.mem_singleton.mp hc]
    exact ⟨hw, hpos⟩

/-- The last slice finishes the transfer; only an empty one gets an empty
slice. -/
theorem ContiguousTransfer.CutUpTo.finish {n w s consumed : Nat} {t : ContiguousTransfer}
    (h : t.CutUpTo n consumed) (hw : w < n) (hconsumed : consumed = 0 ∨ consumed < t.size)
    (hend : consumed + s = t.size) : (t.addTask (t.slice w consumed s)).Sliced n := by
  obtain ⟨cuts, htasks, hsum, hcuts⟩ := h
  refine ⟨cuts ++ [(w, s)], addTask_cut htasks hsum, ?_, by simp, ?_, ?_⟩
  · rw [cutBytes_append, hsum]
    simpa [cutBytes] using hend
  · intro c hc
    rcases List.mem_append.mp hc with hc | hc
    · exact (hcuts c hc).1
    · rw [List.mem_singleton.mp hc]
      exact hw
  · by_cases hzero : t.size = 0
    · -- an empty transfer has no earlier cut
      have hnil : cuts = [] := by
        cases cuts with
        | nil => rfl
        | cons c cuts =>
            have hpos := (hcuts c (by simp)).2
            rw [cutBytes_cons] at hsum
            omega
      exact .inr ⟨hzero, by simp [hnil]⟩
    · refine .inl (fun c hc => ?_)
      rcases List.mem_append.mp hc with hc | hc
      · exact (hcuts c hc).2
      · rw [List.mem_singleton.mp hc]
        show 0 < s
        omega

/-- Bytes not assigned yet. -/
def remaining (todo : List ContiguousTransfer) (consumed : Nat) : Nat :=
  (todo.map ContiguousTransfer.size).sum - consumed

/-- What is left of the first transfer, and all of those after it. -/
theorem remaining_cons {t : ContiguousTransfer} {todo : List ContiguousTransfer} {consumed : Nat}
    (h : consumed ≤ t.size) :
    remaining (t :: todo) consumed
      = t.size - consumed + (todo.map ContiguousTransfer.size).sum := by
  unfold remaining
  rw [List.map_cons, List.sum_cons]
  omega

/-- `consumed` bytes of the first transfer are assigned, and nothing of the
others. -/
def Pending (n : Nat) (consumed : Nat) : List ContiguousTransfer → Prop
  | [] => consumed = 0
  | t :: todo =>
      t.CutUpTo n consumed ∧ (consumed = 0 ∨ consumed < t.size) ∧
        ∀ u ∈ todo, u.tasks = []

/-- Nothing assigned yet. -/
theorem pending_fresh (n : Nat) {todo : List ContiguousTransfer}
    (h : ∀ t ∈ todo, t.tasks = []) : Pending n 0 todo := by
  cases todo with
  | nil => rfl
  | cons t todo =>
      have hnone : t.tasks = [] := h t (by simp)
      refine ⟨⟨[], ?_, rfl, by simp⟩, .inl rfl, fun u hu => h u (by simp [hu])⟩
      simpa [ContiguousTransfer.slicesAt] using hnone

/-- What one worker leaves behind. -/
structure WorkerSpec (n target assigned consumed : Nat)
    (done todo : List ContiguousTransfer) (cursor : Cursor) (assigned' : Nat) : Prop where
  prefix_kept : ∃ new, cursor.done = done ++ new ∧ (∀ t ∈ new, t.Sliced n) ∧
    (new ++ cursor.todo).map ContiguousTransfer.strip = todo.map ContiguousTransfer.strip
  pending : Pending n cursor.consumed cursor.todo
  bytes : remaining cursor.todo cursor.consumed + assigned' = remaining todo consumed + assigned
  stop : cursor.todo = [] ∨ (assigned' = target ∧ 0 < remaining cursor.todo cursor.consumed)

theorem assignWorker_spec {n w : Nat} (target : Nat) (hw : w < n)
    (todo : List ContiguousTransfer) :
    ∀ (assigned consumed : Nat) (done : List ContiguousTransfer),
      Pending n consumed todo → assigned ≤ target →
      WorkerSpec n target assigned consumed done todo
        (assignWorker w target assigned consumed done todo).1
        (assignWorker w target assigned consumed done todo).2 := by
  induction todo with
  | nil =>
      intro assigned consumed done hpend _
      exact ⟨⟨[], by simp [assignWorker]⟩, hpend, rfl, .inl rfl⟩
  | cons t todo ih =>
      intro assigned consumed done hpend hle
      obtain ⟨hcut, hconsumed, hfresh⟩ := hpend
      have hrem := @remaining_cons t todo consumed (by omega)
      rw [assignWorker]
      by_cases hbreak : t.size > 0 ∧ assigned ≥ target
      · -- the target is reached before `t`
        rw [if_pos hbreak]
        refine ⟨⟨[], by simp⟩, ⟨hcut, hconsumed, hfresh⟩, rfl,
          .inr ⟨by show assigned = target; omega, ?_⟩⟩
        show 0 < remaining (t :: todo) consumed
        omega
      · rw [if_neg hbreak]
        simp only
        generalize hassign : min (t.size - consumed) (target - assigned) = toAssign
        by_cases hend : consumed + toAssign = t.size
        · -- `t` is finished: the worker goes on with the next transfer
          rw [size_addTask, if_pos hend]
          have hnext := ih (assigned + toAssign) 0
            (done ++ [t.addTask (t.slice w consumed toAssign)]) (pending_fresh n hfresh)
            (by omega)
          obtain ⟨⟨new, hdone, hnew, hstrip⟩, hpend', hbytes, hstop⟩ := hnext
          refine ⟨⟨t.addTask (t.slice w consumed toAssign) :: new, ?_, ?_, ?_⟩,
            hpend', ?_, hstop⟩
          · rw [hdone, List.append_assoc]
            rfl
          · exact List.forall_mem_cons.mpr ⟨hcut.finish hw hconsumed hend, hnew⟩
          · simpa using hstrip
          · rw [hbytes, hrem]
            simp only [remaining]
            omega
        · -- `t` is cut at the target, which lies inside of it
          rw [size_addTask, if_neg hend]
          have hcutAt : toAssign = target - assigned ∧ consumed + toAssign < t.size
              ∧ 0 < toAssign := by omega
          have hrem' := @remaining_cons (t.addTask (t.slice w consumed toAssign)) todo
            (consumed + toAssign) (Nat.le_of_lt hcutAt.2.1)
          rw [size_addTask] at hrem'
          refine ⟨⟨[], by simp⟩, ⟨hcut.add hw hcutAt.2.2, .inr hcutAt.2.1, hfresh⟩, ?_,
            .inr ⟨?_, ?_⟩⟩
          · show remaining (_ :: todo) (consumed + toAssign) + (assigned + toAssign) = _
            rw [hrem', hrem]
            omega
          · show assigned + toAssign = target
            omega
          · show 0 < remaining (_ :: todo) (consumed + toAssign)
            rw [hrem']
            omega

/-! ## §3. All workers. -/

/-- The workers from index `w ≥ 1` on finish what `k` targets can hold. -/
theorem assignWorkers_spec {n : Nat} (base rem workers : Nat) :
    ∀ (w k : Nat) (cursor : Cursor) (totals : List Nat),
      Pending n cursor.consumed cursor.todo → (∀ t ∈ cursor.done, t.Sliced n) → 0 < w →
      (cursor.todo = [] ∨
        (0 < remaining cursor.todo cursor.consumed ∧
          remaining cursor.todo cursor.consumed ≤ k * base ∧ k ≤ workers ∧ w + k ≤ n)) →
      let result := assignWorkers base rem workers w cursor totals
      result.1.todo = [] ∧ (∀ t ∈ result.1.done, t.Sliced n) ∧
        result.1.done.map ContiguousTransfer.strip
          = (cursor.done ++ cursor.todo).map ContiguousTransfer.strip ∧
        result.2.sum = totals.sum + remaining cursor.todo cursor.consumed := by
  induction workers with
  | zero =>
      intro w k cursor totals hpend hdone _ htodo
      -- no workers left: the last target took what there was
      have hnil : cursor.todo = [] := by
        rcases htodo with h | ⟨hpos, hle, hk, -⟩
        · exact h
        · have : k = 0 := by omega
          subst this
          omega
      simp [assignWorkers, hnil, remaining]
      exact hdone
  | succ workers ih =>
      intro w k cursor totals hpend hdone hw htodo
      by_cases hnil : cursor.todo = []
      · simp [assignWorkers, hnil, remaining]
        exact hdone
      · obtain ⟨hpos, hle, hk, hn⟩ := htodo.resolve_left hnil
        -- there are bytes left, so a worker was planned for them
        have hk1 : k ≠ 0 := by
          rintro rfl
          omega
        obtain ⟨k, rfl⟩ := Nat.exists_eq_succ_of_ne_zero hk1
        obtain ⟨⟨new, hnew, hsliced, hstrip⟩, hpend', hbytes, hstop⟩ :=
          assignWorker_spec base (show w < n by omega) cursor.todo 0 _ cursor.done hpend (by omega)
        rw [assignWorkers, if_neg (by simpa using hnil), if_neg (by omega)]
        have hdone' : ∀ t ∈ (assignWorker w base 0 cursor.consumed cursor.done
            cursor.todo).1.done, t.Sliced n := by
          intro t ht
          rw [hnew] at ht
          rcases List.mem_append.mp ht with h | h
          · exact hdone t h
          · exact hsliced t h
        have hrest := ih (w + 1) k _
          (totals ++ [(assignWorker w base 0 cursor.consumed cursor.done cursor.todo).2])
          hpend' hdone' (by omega) (by
            refine hstop.imp id (fun ⟨htarget, hpos'⟩ => ⟨hpos', ?_, by omega, by omega⟩)
            rw [Nat.succ_mul] at hle
            omega)
        refine ⟨hrest.1, hrest.2.1, ?_, ?_⟩
        · rw [hrest.2.2.1, hnew, List.append_assoc, List.map_append, hstrip,
            List.map_append]
        · rw [hrest.2.2.2, List.sum_append]
          simp only [List.sum_singleton]
          omega

/-- The targets of the workloads add up to the total. -/
theorem bytesPerWorker_total (block workers total : Nat) :
    let shares := bytesPerWorker block workers total
    shares.base + shares.remainder + (shares.numWorkloads - 1) * shares.base = total
      ∧ 1 ≤ shares.numWorkloads ∧ shares.numWorkloads ≤ max workers 1 := by
  simp only [bytesPerWorker]
  generalize hn : max (min (total / block) workers) 1 = n
  have hn1 : 1 ≤ n := by omega
  have hle : n * (total / block / n * block) ≤ total := by
    calc n * (total / block / n * block)
        = n * (total / block / n) * block := by ring
      _ ≤ total / block * block := Nat.mul_le_mul_right _ (Nat.mul_div_le _ _)
      _ ≤ total := Nat.div_mul_le_self _ _
  refine ⟨?_, hn1, by omega⟩
  obtain ⟨m, rfl⟩ : ∃ m, n = m + 1 := ⟨n - 1, by omega⟩
  rw [Nat.succ_mul] at hle ⊢
  simp only [Nat.add_sub_cancel]
  omega

/-- **Every transfer is cut completely**, into slices for existing
workloads, and both verification `ASSERT`s hold. -/
theorem assign_spec (block : Nat) {workers total : Nat} {ts : List ContiguousTransfer}
    (hworkers : 1 ≤ workers) (hfresh : ∀ t ∈ ts, t.tasks = [])
    (htotal : (ts.map ContiguousTransfer.size).sum = total) :
    ∃ ts', assign workers (bytesPerWorker block workers total) total ts = .ok ts' ∧
      (∀ t ∈ ts', t.Sliced (bytesPerWorker block workers total).numWorkloads) ∧
      ts'.map ContiguousTransfer.strip = ts.map ContiguousTransfer.strip := by
  obtain ⟨hshares, hn1, hnw⟩ := bytesPerWorker_total block workers total
  generalize bytesPerWorker block workers total = shares at hshares hn1 hnw ⊢
  obtain ⟨workers, rfl⟩ : ∃ m, workers = m + 1 := ⟨workers - 1, by omega⟩
  have hrem0 : remaining ts 0 = total := by simpa [remaining] using htotal
  -- the run of all workers leaves nothing to do
  have hrun : let result :=
        assignWorkers shares.base shares.remainder (workers + 1) 0 ⟨[], ts, 0⟩ []
      result.1.todo = [] ∧ (∀ t ∈ result.1.done, t.Sliced shares.numWorkloads) ∧
        result.1.done.map ContiguousTransfer.strip = ts.map ContiguousTransfer.strip ∧
        result.2.sum = total := by
    by_cases hnil : ts = []
    · subst hnil
      simpa [assignWorkers] using htotal
    · rw [assignWorkers, if_neg (by simpa using hnil), if_pos rfl]
      obtain ⟨⟨new, hnew, hsliced, hstrip⟩, hpend, hbytes, hstop⟩ :=
        assignWorker_spec (shares.base + shares.remainder)
          (show 0 < shares.numWorkloads by omega) ts 0 0 [] (pending_fresh _ hfresh) (by omega)
      rw [List.nil_append] at hnew
      obtain ⟨htodo, hdone, hstrip', hsum⟩ :=
        assignWorkers_spec shares.base shares.remainder workers 1 (shares.numWorkloads - 1) _
          ([] ++ [(assignWorker 0 (shares.base + shares.remainder) 0 0 [] ts).2])
          hpend (by rw [hnew]; exact hsliced) (by omega)
          (hstop.imp id (fun ⟨htarget, hpos⟩ => ⟨hpos, by omega, by omega, by omega⟩))
      refine ⟨htodo, hdone, ?_, ?_⟩
      · rw [hstrip', hnew, hstrip]
      · rw [hsum]
        simp only [List.nil_append, List.sum_singleton]
        omega
  obtain ⟨htodo, hdone, hstrip, hsum⟩ := hrun
  refine ⟨_, ?_, hdone, hstrip⟩
  have hall : (assignWorkers shares.base shares.remainder (workers + 1) 0
      ⟨[], ts, 0⟩ []).1.done.all (fun t => t.taskBytes == t.size) = true := by
    rw [List.all_eq_true]
    intro t ht
    simpa using (hdone t ht).taskBytes
  rw [assign]
  simp only [htodo, hsum, List.append_nil, hall, ne_eq, not_true_eq_false, if_false, if_true]

end ModelStreamer.Planning
