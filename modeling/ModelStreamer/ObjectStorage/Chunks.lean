/-
  ModelStreamer.ObjectStorage.Chunks
  ──────────────────────────────────
  **THE CHUNKS OF A WORKLOAD.**

  `enqueue` counts the chunks of a workload first, in 64-bit words, and cuts
  them afterwards.  The two agree as long as no ceiling division wraps.

    • `ceilChunks_eq_iff` — a task's count is right exactly when
      `bytesize + chunk - 1` is a word,
    • `Tiles` — chunks that follow each other through the bytes of a task,
    • `enqueueLoop_ok` — where the counts are right, cutting stays within the
      block reserved, every task is tiled, and no `ASSERT` fails.
-/
import ModelStreamer.ObjectStorage.Runs

namespace ModelStreamer.ObjectStorage

open ModelStreamer.Lib ModelStreamer.Planning ModelStreamer.Delivery

/-! ## §1. Counting. -/

/-- The chunks of `bytesize` bytes. -/
def chunkCount (bytesize chunk : Nat) : Nat := (bytesize + chunk - 1) / chunk

theorem chunkCount_pos {bytesize chunk : Nat} (hchunk : 0 < chunk) (h : 0 < bytesize) :
    0 < chunkCount bytesize chunk := Nat.div_pos (by omega) hchunk

@[simp] theorem chunkCount_zero {chunk : Nat} (hchunk : 0 < chunk) : chunkCount 0 chunk = 0 :=
  Nat.div_eq_of_lt (by omega)

/-- One chunk, and the rest. -/
theorem chunkCount_step {remaining chunk : Nat} (hchunk : 0 < chunk) (h : 0 < remaining) :
    chunkCount remaining chunk = chunkCount (remaining - min remaining chunk) chunk + 1 := by
  rw [chunkCount, chunkCount]
  rcases Nat.le_total remaining chunk with hle | hle
  · have hrest : (0 + chunk - 1) / chunk = 0 := Nat.div_eq_of_lt (by omega)
    have hfirst : (remaining - 1) / chunk = 0 := Nat.div_eq_of_lt (by omega)
    rw [Nat.min_eq_left hle, Nat.sub_self, hrest,
      show remaining + chunk - 1 = remaining - 1 + chunk by omega, Nat.add_div_right _ hchunk,
      hfirst]
  · rw [Nat.min_eq_right hle,
      show remaining + chunk - 1 = remaining - chunk + chunk - 1 + chunk by omega,
      Nat.add_div_right _ hchunk]

theorem ceilChunks_eq {bytesize chunk : Nat} (h : bytesize + chunk - 1 < 2 ^ 64) :
    ceilChunks bytesize chunk = chunkCount bytesize chunk := by
  rw [ceilChunks, wrap_of_lt h, chunkCount]

/-- **The count is right exactly when the sum does not wrap.** -/
theorem ceilChunks_eq_iff {bytesize chunk : Nat} (hpos : 0 < bytesize) (hchunk : 0 < chunk)
    (hsize : bytesize < 2 ^ 64) (hword : chunk < 2 ^ 64) :
    ceilChunks bytesize chunk = chunkCount bytesize chunk ↔ bytesize + chunk - 1 < 2 ^ 64 := by
  refine ⟨fun heq => ?_, ceilChunks_eq⟩
  by_contra hwrap
  -- the wrapped sum is less than one chunk
  have hzero : ceilChunks bytesize chunk = 0 := by
    rw [ceilChunks, wrap]
    exact Nat.div_eq_of_lt (by omega)
  have := chunkCount_pos hchunk hpos
  omega

/-- The chunks of several tasks. -/
def chunksTotal (chunk : Nat) (tasks : List Task) : Nat :=
  (tasks.map (fun task => chunkCount task.info.bytesize chunk)).sum

/-- No ceiling division of these tasks wraps. -/
def CountsFit (chunk : Nat) (tasks : List Task) : Prop :=
  ∀ task ∈ tasks, 0 < task.info.bytesize → task.info.bytesize + chunk - 1 < 2 ^ 64

instance (chunk : Nat) (tasks : List Task) : Decidable (CountsFit chunk tasks) :=
  inferInstanceAs (Decidable (∀ task ∈ tasks, _))

theorem totalChunks_loop {chunk : Nat} (hchunk : 0 < chunk) (tasks : List Task) :
    ∀ total, CountsFit chunk tasks → total + chunksTotal chunk tasks < 2 ^ 64 →
      tasks.foldl (fun total task =>
        if task.info.bytesize ≠ 0 then wrap (total + ceilChunks task.info.bytesize chunk)
        else total) total = total + chunksTotal chunk tasks := by
  induction tasks with
  | nil =>
      intro total _ _
      rfl
  | cons task tasks ih =>
      intro total hfit hlt
      have hcons : chunksTotal chunk (task :: tasks)
          = chunkCount task.info.bytesize chunk + chunksTotal chunk tasks := by
        simp [chunksTotal]
      have hrest : CountsFit chunk tasks := fun u hu => hfit u (by simp [hu])
      rw [List.foldl_cons]
      by_cases hzero : task.info.bytesize = 0
      · rw [if_neg (by simpa using hzero), ih total hrest (by omega), hcons, hzero,
          chunkCount_zero hchunk]
        omega
      · rw [if_pos hzero, ceilChunks_eq (hfit task (by simp) (by omega)),
          wrap_of_lt (by omega), ih _ hrest (by omega), hcons]
        omega

/-- `total_chunks` is the number of chunks. -/
theorem totalChunks_eq {chunk : Nat} (hchunk : 0 < chunk) {batches : List Batch}
    (hfit : CountsFit chunk (batches.flatMap Batch.tasks))
    (hlt : chunksTotal chunk (batches.flatMap Batch.tasks) < 2 ^ 64) :
    totalChunks chunk batches = chunksTotal chunk (batches.flatMap Batch.tasks) := by
  rw [totalChunks, totalChunks_loop hchunk _ 0 hfit (by omega), Nat.zero_add]

/-! ## §2. Tiling. -/

/-- The chunks follow each other through `bytesize` bytes, in the file from
`offset` and in memory from `buffer` on; none is empty or longer than
`chunk`. -/
def Tiles (chunk : Nat) : Nat → Nat → Nat → List ObjectChunk → Prop
  | _, bytesize, _, [] => bytesize = 0
  | offset, bytesize, buffer, c :: cs =>
      c.offset = offset ∧ c.buffer = buffer ∧ 0 < c.bytesize ∧ c.bytesize ≤ chunk ∧
        c.bytesize ≤ bytesize ∧
        Tiles chunk (wrap (offset + c.bytesize)) (bytesize - c.bytesize)
          (wrap (buffer + c.bytesize)) cs

/-- Chunks that tile have as many bytes as what they tile. -/
theorem Tiles.sum_eq {chunk : Nat} (cs : List ObjectChunk) :
    ∀ {offset bytesize buffer : Nat}, Tiles chunk offset bytesize buffer cs →
      (cs.map ObjectChunk.bytesize).sum = bytesize := by
  induction cs with
  | nil =>
      intro offset bytesize buffer h
      exact h.symm
  | cons c cs ih =>
      intro offset bytesize buffer h
      obtain ⟨-, -, -, -, hle, hrest⟩ := h
      rw [List.map_cons, List.sum_cons, ih hrest]
      omega

/-- The chunks of a task. -/
def TilesTask (chunk : Nat) (task : Task) (cs : List ObjectChunk) : Prop :=
  Tiles chunk task.info.offset task.info.bytesize task.destination cs

/-! ## §3. Cutting one task. -/

/-- The chunks cut so far, each with its task's index, and how `Building`
keeps them.  The block reserved has `total` handles, from `handleBase`. -/
structure Cut (handleBase total : Nat) (cut : List (ObjectChunk × Nat)) (b : Building) :
    Prop where
  next_eq : b.nextChunk = cut.length
  fits : cut.length ≤ total
  idx_eq : b.wl.chunkTaskIdx = cut.map Prod.snd ++ List.replicate (total - cut.length) 0
  chunks_eq : b.chunks = cut.map Prod.fst
  handles : ∀ k c, cut[k]? = some c → c.1.handle = handleBase + k

/-- `remaining_chunks += n`. -/
def TaskState.addChunks (ts : TaskState) (n : Nat) : TaskState :=
  { ts with remainingChunks := ts.remainingChunks + n }

theorem Cut.snoc {handleBase total : Nat} {cut : List (ObjectChunk × Nat)} {b : Building}
    (h : Cut handleBase total cut b) (hword : handleBase + total < 2 ^ 64)
    (hroom : cut.length < total) (taskIdx offset bs buffer : Nat) (tasks : List TaskState) :
    Cut handleBase total
      (cut ++ [(⟨wrap (handleBase + b.nextChunk), offset, bs, buffer⟩, taskIdx)])
      ⟨{ b.wl with chunkTaskIdx := b.wl.chunkTaskIdx.set b.nextChunk taskIdx, tasks := tasks },
        b.chunks ++ [⟨wrap (handleBase + b.nextChunk), offset, bs, buffer⟩],
        b.nextChunk + 1⟩ := by
  refine ⟨by simp [h.next_eq], by simp; omega, ?_, by simp [h.chunks_eq], ?_⟩
  · show b.wl.chunkTaskIdx.set b.nextChunk taskIdx = _
    rw [h.idx_eq, h.next_eq, List.set_append_right _ _ (by simp)]
    obtain ⟨m, hm⟩ : ∃ m, total - cut.length = m + 1 := ⟨total - cut.length - 1, by omega⟩
    simp only [List.length_map, Nat.sub_self, hm, List.replicate_succ, List.set_cons_zero,
      List.map_append, List.map_cons, List.map_nil, List.append_assoc, List.cons_append,
      List.nil_append, List.length_append, List.length_singleton]
    rw [show total - (cut.length + 1) = m by omega]
  · intro k c hk
    rw [List.getElem?_append] at hk
    split at hk
    · exact h.handles k c hk
    next hle =>
      rw [List.getElem?_singleton] at hk
      split at hk
      · simp only [Option.some.injEq] at hk
        subst hk
        show wrap (handleBase + b.nextChunk) = handleBase + k
        rw [h.next_eq, wrap_of_lt (by omega)]
        omega
      · simp at hk

theorem modify_modify (tasks : List TaskState) (taskIdx m n : Nat) :
    (tasks.modify taskIdx (·.addChunks m)).modify taskIdx (·.addChunks n)
      = tasks.modify taskIdx (·.addChunks (m + n)) := by
  refine List.ext_getElem? (fun k => ?_)
  simp only [List.getElem?_modify, Option.map_eq_map]
  cases tasks[k]? with
  | none => simp
  | some ts =>
      by_cases hk : taskIdx = k <;> simp [hk, TaskState.addChunks, Nat.add_assoc]

/-- **A task is cut into tiles**, within the block. -/
theorem chunkLoop_ok {chunk : Nat} (hchunk : 0 < chunk) {handleBase total : Nat} (taskIdx : Nat)
    (hword : handleBase + total < 2 ^ 64) (count : Nat) :
    ∀ (offset remaining buffer : Nat) {b : Building} {cut : List (ObjectChunk × Nat)},
      count = chunkCount remaining chunk → Cut handleBase total cut b →
      cut.length + count ≤ total →
      ∃ b' more, chunkLoop chunk hchunk handleBase taskIdx offset remaining buffer b = .ok b' ∧
        Cut handleBase total (cut ++ more) b' ∧ more.length = count ∧
        (∀ c ∈ more, c.2 = taskIdx) ∧
        Tiles chunk offset remaining buffer (more.map Prod.fst) ∧
        b'.wl.workload = b.wl.workload ∧ b'.wl.errorByFileIndex = b.wl.errorByFileIndex ∧
        b'.wl.tasks = b.wl.tasks.modify taskIdx (·.addChunks count) := by
  induction count with
  | zero =>
      intro offset remaining buffer b cut hcount hcut hroom
      have hzero : remaining = 0 := by
        by_contra hne
        have := chunkCount_pos hchunk (Nat.pos_of_ne_zero hne)
        omega
      subst hzero
      refine ⟨b, [], ?_, by simpa using hcut, rfl, by simp, rfl, rfl, rfl, ?_⟩
      · rw [chunkLoop, dif_neg (by omega)]
      · rw [show (fun ts : TaskState => ts.addChunks 0) = id from rfl, List.modify_id]
  | succ count ih =>
      intro offset remaining buffer b cut hcount hcut hroom
      have hpos : 0 < remaining := by
        by_contra hle
        rw [show remaining = 0 by omega, chunkCount_zero hchunk] at hcount
        omega
      have hcount' : count = chunkCount (remaining - min remaining chunk) chunk := by
        have := chunkCount_step hchunk hpos
        omega
      have hlen : b.wl.chunkTaskIdx.length = total := by
        have := hcut.fits
        rw [hcut.idx_eq]
        simp
        omega
      obtain ⟨b', more, hok, hcut', hmore, hidx, htiles, hwork, herrors, htasks⟩ :=
        ih _ _ _ hcount' (hcut.snoc hword (by omega) taskIdx offset (min remaining chunk) buffer
          (b.wl.tasks.modify taskIdx (·.addChunks 1))) (by simp; omega)
      refine ⟨b', (⟨wrap (handleBase + b.nextChunk), offset, min remaining chunk, buffer⟩, taskIdx)
        :: more, ?_, by simpa using hcut', by simp [hmore], ?_, ?_, hwork, herrors, ?_⟩
      · rw [chunkLoop, dif_pos hpos, if_pos (by rw [hlen, hcut.next_eq]; omega)]
        exact hok
      · intro c hc
        rcases List.mem_cons.mp hc with rfl | hc
        · rfl
        · exact hidx c hc
      · exact ⟨rfl, rfl, show 0 < min remaining chunk by omega, Nat.min_le_right _ _,
          Nat.min_le_left _ _, htiles⟩
      · rw [htasks]
        show (b.wl.tasks.modify taskIdx (·.addChunks 1)).modify taskIdx (·.addChunks count) = _
        rw [modify_modify, Nat.add_comm]

/-- Cutting a task touches no batch, and the handle table keeps its size. -/
theorem chunkLoop_keeps {chunk : Nat} (hchunk : 0 < chunk) {handleBase taskIdx : Nat}
    (offset remaining buffer : Nat) (b : Building) :
    ∀ {b' : Building},
      chunkLoop chunk hchunk handleBase taskIdx offset remaining buffer b = .ok b' →
        b'.wl.workload = b.wl.workload ∧
          b'.wl.chunkTaskIdx.length = b.wl.chunkTaskIdx.length := by
  induction remaining using Nat.strong_induction_on generalizing offset buffer b with
  | _ remaining ih =>
      intro b' hok
      rw [chunkLoop] at hok
      split at hok
      next hpos =>
        simp only at hok
        split at hok
        · obtain ⟨hworkload, hlength⟩ :=
            ih (remaining - min remaining chunk) (by omega) _ _ _ hok
          exact ⟨hworkload, hlength.trans (List.length_set ..)⟩
        · simp at hok
      next =>
        rw [← Except.ok.inj hok]
        exact ⟨rfl, rfl⟩

/-! ## §4. The tasks of a workload. -/

/-- The place of a task. -/
def Placed.ref (p : Placed) : Nat × Nat := (p.batch, p.task)

/-- The place of the task of a `TaskState`. -/
def TaskState.ref (ts : TaskState) : Nat × Nat := (ts.batch, ts.task)

theorem mem_placedTasks {b : Nat} {batches : List Batch} {p : Placed} :
    p ∈ placedTasks b batches ↔
      ∃ k batch, p.batch = b + k ∧ batches[k]? = some batch ∧
        batch.tasks[p.task]? = some p.value := by
  induction batches generalizing b with
  | nil => simp [placedTasks]
  | cons batch batches ih =>
      rw [placedTasks, List.mem_append, ih]
      constructor
      · rintro (h | ⟨k, batch', hb, hbatch, htask⟩)
        · obtain ⟨i, hi, rfl⟩ := List.mem_mapIdx.mp h
          exact ⟨0, batch, rfl, rfl, List.getElem?_eq_getElem hi⟩
        · exact ⟨k + 1, batch', by omega, by simpa using hbatch, htask⟩
      · rintro ⟨k, batch', hb, hbatch, htask⟩
        cases k with
        | zero =>
            simp only [List.getElem?_cons_zero, Option.some.injEq] at hbatch
            subst hbatch
            obtain ⟨hlt, hget⟩ := List.getElem?_eq_some_iff.mp htask
            refine .inl (List.mem_mapIdx.mpr ⟨p.task, hlt, ?_⟩)
            rw [hget, ← show p.batch = b from hb]
        | succ k => exact .inr ⟨k, batch', by omega, by simpa using hbatch, htask⟩

theorem placedTasks_nodup (b : Nat) (batches : List Batch) :
    ((placedTasks b batches).map Placed.ref).Nodup := by
  induction batches generalizing b with
  | nil => exact List.nodup_nil
  | cons batch batches ih =>
      rw [placedTasks, List.map_append, List.nodup_append]
      refine ⟨?_, ih (b + 1), ?_⟩
      · have hrefs : (batch.tasks.mapIdx (fun i task => Placed.mk b i task)).map Placed.ref
            = (List.range batch.tasks.length).map (fun i => (b, i)) := by
          rw [List.mapIdx_eq_zipIdx_map, List.map_map, List.range_eq_range',
            ← List.zipIdx_map_snd 0 batch.tasks, List.map_map]
          rfl
        rw [hrefs]
        exact List.Nodup.map (fun i k hik => by simpa using hik) List.nodup_range
      · intro x hx y hy hxy
        obtain ⟨p, hp, rfl⟩ := List.mem_map.mp hx
        obtain ⟨q, hq, rfl⟩ := List.mem_map.mp hy
        obtain ⟨i, hi, rfl⟩ := List.mem_mapIdx.mp hp
        obtain ⟨k, -, hb, -⟩ := mem_placedTasks.mp hq
        simp only [Placed.ref, Prod.mk.injEq] at hxy
        omega

theorem placedTasks_values (b : Nat) (batches : List Batch) :
    (placedTasks b batches).map Placed.value = batches.flatMap Batch.tasks := by
  induction batches generalizing b with
  | nil => rfl
  | cons batch batches ih =>
      have hvalues : (batch.tasks.mapIdx (fun i task => Placed.mk b i task)).map Placed.value
          = batch.tasks := by
        rw [List.mapIdx_eq_zipIdx_map, List.map_map]
        exact List.zipIdx_map_fst 0 batch.tasks
      rw [placedTasks, List.map_append, hvalues, ih, List.flatMap_cons]

/-- The tasks with something to read. -/
def readTasks (placed : List Placed) : List Placed :=
  placed.filter (fun p => decide (p.value.info.bytesize ≠ 0))

theorem readTasks_snoc (placed : List Placed) (p : Placed) :
    readTasks (placed ++ [p])
      = readTasks placed ++ if p.value.info.bytesize = 0 then [] else [p] := by
  rw [readTasks, readTasks, List.filter_append]
  by_cases hzero : p.value.info.bytesize = 0 <;> simp [hzero]

/-! ## §5. Cutting a workload. -/

/-- What `enqueue` has built when the tasks `done` are dealt with. -/
structure Built (chunk handleBase total : Nat) (batches : List Batch) (done : List Placed)
    (cut : List (ObjectChunk × Nat)) (b : Building) : Prop where
  kept : Cut handleBase total cut b
  count : cut.length = chunksTotal chunk (done.map Placed.value)
  refs : b.wl.tasks.map TaskState.ref = (readTasks done).map Placed.ref
  idx : ∀ c ∈ cut, c.2 < b.wl.tasks.length
  state : ∀ t ts, b.wl.tasks[t]? = some ts → ts.error = .success ∧
    ts.remainingChunks = cut.countP (fun c => decide (c.2 = t)) ∧ 0 < ts.remainingChunks
  tiled : ∀ t p, (readTasks done)[t]? = some p →
    TilesTask chunk p.value ((cut.filter (fun c => decide (c.2 = t))).map Prod.fst)
  batches_eq : b.wl.workload.map Running.batch = batches
  runs : RunsAt b.wl.workload
    (fun b' i => ∃ p ∈ done, p.ref = (b', i) ∧ p.value.info.bytesize = 0)
  errors : b.wl.errorByFileIndex = []

theorem Built.tasks_length {chunk handleBase total : Nat} {batches : List Batch}
    {done : List Placed} {cut : List (ObjectChunk × Nat)} {b : Building}
    (h : Built chunk handleBase total batches done cut b) :
    b.wl.tasks.length = (readTasks done).length := by
  simpa using congrArg List.length h.refs

theorem chunksTotal_snoc (chunk : Nat) (done : List Placed) (p : Placed) :
    chunksTotal chunk ((done ++ [p]).map Placed.value)
      = chunksTotal chunk (done.map Placed.value) + chunkCount p.value.info.bytesize chunk := by
  simp [chunksTotal]

/-- An empty task is reported at once. -/
theorem Built.empty {chunk : Nat} (hchunk : 0 < chunk) {handleBase total : Nat}
    {batches : List Batch} {done : List Placed} {cut : List (ObjectChunk × Nat)} {b : Building}
    (h : Built chunk handleBase total batches done cut b) {p : Placed}
    (htask : HasTask b.wl.workload p.batch p.task) (hzero : p.value.info.bytesize = 0) :
    ∃ b', enqueueTask chunk hchunk handleBase p.batch p.task p.value b = .ok b' ∧
      Built chunk handleBase total batches (done ++ [p]) cut b' := by
  obtain ⟨workload, hok, hbatches, hruns⟩ := respond_ok h.runs htask
  refine ⟨{ b with wl := { b.wl with workload := workload } },
    by simp only [enqueueTask, if_pos hzero, hok], ⟨h.kept.next_eq, h.kept.fits,
    h.kept.idx_eq, h.kept.chunks_eq, h.kept.handles⟩, ?_, ?_, h.idx, h.state, ?_, ?_, ?_, h.errors⟩
  · rw [chunksTotal_snoc, hzero, chunkCount_zero hchunk]
    exact h.count
  · rw [readTasks_snoc, if_pos hzero, List.append_nil]
    exact h.refs
  · rw [readTasks_snoc, if_pos hzero, List.append_nil]
    exact h.tiled
  · exact hbatches.trans h.batches_eq
  · refine hruns.congr (fun b' i _ => ?_)
    simp only [List.mem_append, List.mem_singleton, or_and_right, exists_or, exists_eq_left,
      Placed.ref, Prod.mk.injEq, hzero, and_true]
    refine or_congr Iff.rfl ?_
    constructor
    · rintro ⟨rfl, rfl⟩
      exact ⟨rfl, rfl⟩
    · rintro ⟨rfl, rfl⟩
      exact ⟨rfl, rfl⟩

theorem modify_last (tasks : List TaskState) (ts : TaskState) (f : TaskState → TaskState) :
    (tasks ++ [ts]).modify tasks.length f = tasks ++ [f ts] := by
  induction tasks with
  | nil => rfl
  | cons t tasks ih => simpa using ih

/-- None of the chunks of other tasks is the task's own. -/
theorem filter_others {cut : List (ObjectChunk × Nat)} {t : Nat} (h : ∀ c ∈ cut, c.2 ≠ t) :
    cut.filter (fun c => decide (c.2 = t)) = [] := by
  rw [List.filter_eq_nil_iff]
  intro c hc
  simpa using h c hc

/-- Each of the chunks a task is cut into is its own. -/
theorem filter_own {cut : List (ObjectChunk × Nat)} {t : Nat} (h : ∀ c ∈ cut, c.2 = t) :
    cut.filter (fun c => decide (c.2 = t)) = cut := by
  rw [List.filter_eq_self]
  intro c hc
  simpa using h c hc

/-- A task with something to read is cut. -/
theorem Built.read {chunk : Nat} (hchunk : 0 < chunk) {handleBase total : Nat}
    (hword : handleBase + total < 2 ^ 64) {batches : List Batch} {done : List Placed}
    {cut : List (ObjectChunk × Nat)} {b : Building}
    (h : Built chunk handleBase total batches done cut b) {p : Placed}
    (hread : p.value.info.bytesize ≠ 0)
    (hroom : cut.length + chunkCount p.value.info.bytesize chunk ≤ total) :
    ∃ b' more, enqueueTask chunk hchunk handleBase p.batch p.task p.value b = .ok b' ∧
      Built chunk handleBase total batches (done ++ [p]) (cut ++ more) b' := by
  have hcut : Cut handleBase total cut
      { b with wl := { b.wl with tasks := b.wl.tasks ++ [⟨p.batch, p.task, 0, .success⟩] } } :=
    ⟨h.kept.next_eq, h.kept.fits, h.kept.idx_eq, h.kept.chunks_eq, h.kept.handles⟩
  obtain ⟨b', more, hok, hcut', hmore, hidx, htiles, hwork, herrors, htasks⟩ :=
    chunkLoop_ok hchunk b.wl.tasks.length hword _ p.value.info.offset p.value.info.bytesize
      p.value.destination rfl hcut hroom
  have hlast : b'.wl.tasks
      = b.wl.tasks ++ [⟨p.batch, p.task, chunkCount p.value.info.bytesize chunk, .success⟩] := by
    rw [htasks]
    show (b.wl.tasks ++ [(⟨p.batch, p.task, 0, .success⟩ : TaskState)]).modify b.wl.tasks.length
      _ = _
    rw [modify_last]
    simp [TaskState.addChunks]
  have hdone : readTasks (done ++ [p]) = readTasks done ++ [p] := by
    rw [readTasks_snoc, if_neg hread]
  have hpos := chunkCount_pos hchunk (Nat.pos_of_ne_zero hread)
  -- the new chunks change nothing for the earlier tasks, and are all there is for the new one
  have hold : ∀ t < b.wl.tasks.length, (cut ++ more).filter (fun c => decide (c.2 = t))
      = cut.filter (fun c => decide (c.2 = t)) := by
    intro t ht
    have hmore : ∀ c ∈ more, c.2 ≠ t := fun c hc => by rw [hidx c hc]; exact (Nat.ne_of_lt ht).symm
    rw [List.filter_append, filter_others hmore, List.append_nil]
  have hnew : (cut ++ more).filter (fun c => decide (c.2 = b.wl.tasks.length)) = more := by
    have hcut : ∀ c ∈ cut, c.2 ≠ b.wl.tasks.length := fun c hc => Nat.ne_of_lt (h.idx c hc)
    rw [List.filter_append, filter_others hcut, filter_own hidx, List.nil_append]
  refine ⟨b', more, by simp only [enqueueTask, if_neg hread, hok], hcut', ?_, ?_, ?_, ?_, ?_, ?_,
    ?_, ?_⟩
  · rw [List.length_append, hmore, h.count, chunksTotal_snoc]
  · rw [hlast, hdone, List.map_append, List.map_append, h.refs]
    rfl
  · intro c hc
    rw [hlast, List.length_append, List.length_singleton]
    rcases List.mem_append.mp hc with hc | hc
    · exact Nat.lt_succ_of_lt (h.idx c hc)
    · rw [hidx c hc]
      exact Nat.lt_succ_self _
  · intro t ts hts
    rw [hlast, List.getElem?_append] at hts
    split at hts
    next hlt =>
      obtain ⟨herr, hrem, hpending⟩ := h.state t ts hts
      rw [List.countP_eq_length_filter] at hrem ⊢
      exact ⟨herr, by rw [hold t hlt, hrem], hpending⟩
    next hge =>
      rw [List.getElem?_singleton] at hts
      split at hts
      next heq =>
        simp only [Option.some.injEq] at hts
        subst hts
        have ht : t = b.wl.tasks.length := by omega
        rw [List.countP_eq_length_filter, ht, hnew]
        exact ⟨rfl, hmore.symm, hpos⟩
      next => simp at hts
  · intro t q hq
    rw [hdone, List.getElem?_append, ← h.tasks_length] at hq
    split at hq
    next hlt =>
      rw [hold t hlt]
      exact h.tiled t q hq
    next hge =>
      rw [List.getElem?_singleton] at hq
      split at hq
      next heq =>
        simp only [Option.some.injEq] at hq
        subst hq
        have ht : t = b.wl.tasks.length := by omega
        rw [ht, hnew]
        exact htiles
      next => simp at hq
  · rw [hwork]
    exact h.batches_eq
  · rw [hwork]
    refine h.runs.congr (fun b'' i _ => ?_)
    constructor
    · rintro ⟨q, hq, hrest⟩
      exact ⟨q, List.mem_append.mpr (.inl hq), hrest⟩
    · rintro ⟨q, hq, href, hzero⟩
      rcases List.mem_append.mp hq with hq | hq
      · exact ⟨q, hq, href, hzero⟩
      · exact absurd (List.mem_singleton.mp hq ▸ hzero) hread
  · rw [herrors]
    exact h.errors

/-- **A workload is cut as counted**: no write leaves the block, and no
`ASSERT` fails. -/
theorem enqueueLoop_ok {chunk : Nat} (hchunk : 0 < chunk) {handleBase total : Nat}
    (hword : handleBase + total < 2 ^ 64) {batches : List Batch} (placed : List Placed) :
    ∀ {done : List Placed} {cut : List (ObjectChunk × Nat)} {b : Building},
      Built chunk handleBase total batches done cut b →
      (∀ p ∈ placed, HasTask b.wl.workload p.batch p.task) →
      chunksTotal chunk ((done ++ placed).map Placed.value) ≤ total →
      ∃ b' cut', enqueueLoop chunk hchunk handleBase placed b = .ok b' ∧
        Built chunk handleBase total batches (done ++ placed) cut' b' := by
  induction placed with
  | nil =>
      intro done cut b h _ _
      exact ⟨b, cut, rfl, by simpa using h⟩
  | cons p placed ih =>
      intro done cut b h htask htotal
      have hroom : cut.length + chunkCount p.value.info.bytesize chunk ≤ total := by
        rw [h.count]
        simp only [chunksTotal, List.map_append, List.map_cons, List.sum_append,
          List.sum_cons] at htotal ⊢
        omega
      obtain ⟨b', cut', hok, hbuilt⟩ : ∃ b' cut',
          enqueueTask chunk hchunk handleBase p.batch p.task p.value b = .ok b' ∧
            Built chunk handleBase total batches (done ++ [p]) cut' b' := by
        by_cases hzero : p.value.info.bytesize = 0
        · obtain ⟨b', hok, hbuilt⟩ := h.empty hchunk (htask p (by simp)) hzero
          exact ⟨b', cut, hok, hbuilt⟩
        · obtain ⟨b', more, hok, hbuilt⟩ := h.read hchunk hword hzero hroom
          exact ⟨b', cut ++ more, hok, hbuilt⟩
      obtain ⟨b'', cut'', hok', hbuilt'⟩ := ih hbuilt
        (fun q hq => (htask q (by simp [hq])).of_batches
          (hbuilt.batches_eq.trans h.batches_eq.symm)) (by simpa using htotal)
      exact ⟨b'', cut'', by simp only [enqueueLoop, hok, hok'], by simpa using hbuilt'⟩

end ModelStreamer.ObjectStorage
