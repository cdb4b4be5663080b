/-
  ModelStreamer.ObjectStorage.Tracking
  ────────────────────────────────────
  **WHAT A WORKLOAD IN FLIGHT KEEPS TRACK OF.**

  Everything in an `Inflight` follows from the chunk completions credited so
  far: `Tracked credits e` says how, for the entry `e` of `_inflight`.

    • `Tracked.completeChunk` — crediting a chunk of the entry keeps it, and
      no `ASSERT` fails,
    • `Tracked.other` — so does crediting a chunk of another block,
    • `Tracked.report` — once no chunk is left, or with an error code,
      reporting the workload finishes every task, and Success stays with the
      tasks whose chunks all succeeded.
-/
import ModelStreamer.ObjectStorage.Chunks

namespace ModelStreamer.ObjectStorage

open ModelStreamer.Lib ModelStreamer.Planning ModelStreamer.Delivery

/-! ## §1. Open handles. -/

/-- The size of a workload's handle block. -/
def blockSize (wl : Inflight) : Nat := wl.chunkTaskIdx.length

/-- `handle` is in the block at `base`, and its chunk belongs to task `t`. -/
def Owns (base : Nat) (chunkTaskIdx : List Nat) (t handle : Nat) : Prop :=
  base ≤ handle ∧ chunkTaskIdx[handle - base]? = some t

/-- The handles of a block no completion has been credited to. -/
def openHandles (credits : List (Nat × ResponseCode)) (base size : Nat) : List Nat :=
  (List.range' base size).filter (fun h => decide (h ∉ credits.map Prod.fst))

/-- How many of them belong to task `t`. -/
def openChunks (credits : List (Nat × ResponseCode)) (base : Nat) (chunkTaskIdx : List Nat)
    (t : Nat) : Nat :=
  (openHandles credits base chunkTaskIdx.length).countP
    (fun h => decide (chunkTaskIdx[h - base]? = some t))

theorem mem_openHandles {credits : List (Nat × ResponseCode)} {base size handle : Nat} :
    handle ∈ openHandles credits base size ↔
      base ≤ handle ∧ handle < base + size ∧ handle ∉ credits.map Prod.fst := by
  simp [openHandles, List.mem_range'_1, and_assoc]

theorem openHandles_nodup (credits : List (Nat × ResponseCode)) (base size : Nat) :
    (openHandles credits base size).Nodup :=
  List.Nodup.filter _ (List.nodup_range' 1)

/-- A credit takes one handle off. -/
theorem openHandles_credit (credits : List (Nat × ResponseCode)) (base size handle : Nat)
    (ret : ResponseCode) :
    openHandles (credits ++ [(handle, ret)]) base size
      = (openHandles credits base size).erase handle := by
  rw [(openHandles_nodup credits base size).erase_eq_filter, openHandles, openHandles,
    List.filter_filter]
  refine List.filter_congr (fun h _ => ?_)
  rw [Bool.eq_iff_iff]
  simp [and_comm]

/-- The handles of a block credited outside of it. -/
theorem openHandles_other {credits : List (Nat × ResponseCode)} {base size handle : Nat}
    (ret : ResponseCode) (h : handle < base ∨ base + size ≤ handle) :
    openHandles (credits ++ [(handle, ret)]) base size = openHandles credits base size := by
  rw [openHandles_credit]
  refine List.erase_of_not_mem (fun hmem => ?_)
  have := mem_openHandles.mp hmem
  omega

theorem Owns.lt {base : Nat} {chunkTaskIdx : List Nat} {t handle : Nat}
    (h : Owns base chunkTaskIdx t handle) :
    base ≤ handle ∧ handle < base + chunkTaskIdx.length := by
  have := (List.getElem?_eq_some_iff.mp h.2).1
  have := h.1
  omega

/-! ## §2. The counters. -/

/-- The tasks' counters and errors are what the credits make them. -/
structure Counted (credits : List (Nat × ResponseCode)) (base : Nat) (chunkTaskIdx : List Nat)
    (tasks : List TaskState) : Prop where
  idx : ∀ t ∈ chunkTaskIdx, t < tasks.length
  covered : ∀ t, t < tasks.length → t ∈ chunkTaskIdx
  remaining : ∀ t ts, tasks[t]? = some ts →
    ts.remainingChunks = openChunks credits base chunkTaskIdx t
  error : ∀ t ts, tasks[t]? = some ts →
    (ts.error = .success ↔ ∀ c ∈ credits, Owns base chunkTaskIdx t c.1 → c.2 = .success)

theorem Counted.other {credits : List (Nat × ResponseCode)} {base : Nat}
    {chunkTaskIdx : List Nat} {tasks : List TaskState} (h : Counted credits base chunkTaskIdx tasks)
    {handle : Nat} (ret : ResponseCode)
    (hout : handle < base ∨ base + chunkTaskIdx.length ≤ handle) :
    Counted (credits ++ [(handle, ret)]) base chunkTaskIdx tasks := by
  refine ⟨h.idx, h.covered, fun t ts hts => ?_, fun t ts hts => ?_⟩
  · rw [openChunks, openHandles_other ret hout]
    exact h.remaining t ts hts
  · rw [h.error t ts hts]
    simp only [List.mem_append, List.mem_singleton, or_imp, forall_and, forall_eq]
    refine ⟨fun hall => ⟨hall, fun hown => ?_⟩, And.left⟩
    have := hown.lt
    omega

theorem Counted.task {credits : List (Nat × ResponseCode)} {base : Nat}
    {chunkTaskIdx : List Nat} {tasks : List TaskState} (h : Counted credits base chunkTaskIdx tasks)
    {t handle : Nat} (hown : Owns base chunkTaskIdx t handle) : ∃ ts, tasks[t]? = some ts :=
  ⟨_, List.getElem?_eq_getElem (h.idx t (List.mem_of_getElem? hown.2))⟩

/-- An open chunk keeps its task waiting. -/
theorem Counted.remaining_pos {credits : List (Nat × ResponseCode)} {base : Nat}
    {chunkTaskIdx : List Nat} {tasks : List TaskState} (h : Counted credits base chunkTaskIdx tasks)
    {t handle : Nat} {ts : TaskState} (hown : Owns base chunkTaskIdx t handle)
    (hnew : handle ∉ credits.map Prod.fst) (hts : tasks[t]? = some ts) :
    0 < ts.remainingChunks := by
  rw [h.remaining t ts hts, openChunks, List.countP_pos_iff]
  exact ⟨handle, mem_openHandles.mpr ⟨hown.lt.1, hown.lt.2, hnew⟩, by simpa using hown.2⟩

/-- **A credit counts for its own task.** -/
theorem Counted.credit {credits : List (Nat × ResponseCode)} {base : Nat}
    {chunkTaskIdx : List Nat} {tasks : List TaskState} (h : Counted credits base chunkTaskIdx tasks)
    {t handle : Nat} {ts : TaskState} (ret : ResponseCode) (hown : Owns base chunkTaskIdx t handle)
    (hnew : handle ∉ credits.map Prod.fst) (hts : tasks[t]? = some ts) :
    Counted (credits ++ [(handle, ret)]) base chunkTaskIdx (tasks.set t (ts.completeChunk ret)) := by
  have hlt := (List.getElem?_eq_some_iff.mp hts).1
  have hopen : handle ∈ openHandles credits base chunkTaskIdx.length :=
    mem_openHandles.mpr ⟨hown.lt.1, hown.lt.2, hnew⟩
  refine ⟨by simpa using h.idx, by simpa using h.covered, fun t' ts' hts' => ?_,
    fun t' ts' hts' => ?_⟩
  · -- one open chunk fewer for the task of the handle, none for the others
    have hcount : openChunks credits base chunkTaskIdx t'
        = openChunks (credits ++ [(handle, ret)]) base chunkTaskIdx t'
          + if t = t' then 1 else 0 := by
      rw [openChunks, openChunks, openHandles_credit, (List.perm_cons_erase hopen).countP_eq,
        List.countP_cons, hown.2]
      simp
    rw [List.getElem?_set] at hts'
    split at hts'
    next heq =>
      subst heq
      rw [Option.some.injEq] at hts'
      subst hts'
      have hts' := h.remaining t ts hts
      rw [if_pos rfl] at hcount
      show ts.remainingChunks - 1 = _
      omega
    next hne =>
      rw [h.remaining t' ts' hts', hcount, if_neg hne, Nat.add_zero]
  · simp only [List.mem_append, List.mem_singleton, or_imp, forall_and, forall_eq]
    rw [List.getElem?_set] at hts'
    split at hts'
    next heq =>
      subst heq
      rw [Option.some.injEq] at hts'
      subst hts'
      rw [← h.error t ts hts]
      simp only [TaskState.completeChunk]
      by_cases hret : ret = .success <;> by_cases herr : ts.error = .success <;>
        simp [hret, herr, hown]
    next hne =>
      rw [h.error t' ts' hts']
      refine ⟨fun hall => ⟨hall, fun hown' => ?_⟩, And.left⟩
      have := hown'.2
      rw [hown.2, Option.some.injEq] at this
      exact absurd this hne

/-! ## §3. Errors by file. -/

theorem tryEmplace_keys {α : Type} (entries : List (Nat × α)) (key : Nat) (value : α) (k : Nat) :
    k ∈ (tryEmplace entries key value).map Prod.fst ↔ k = key ∨ k ∈ entries.map Prod.fst := by
  induction entries with
  | nil => simp [tryEmplace]
  | cons e entries ih =>
      rw [tryEmplace]
      split
      · simp
      · split
        next heq => simp [heq]
        next =>
          rw [List.map_cons, List.mem_cons, ih, List.map_cons, List.mem_cons]
          exact or_left_comm

theorem mem_tryEmplace {α : Type} {entries : List (Nat × α)} {key : Nat} {value : α}
    {e : Nat × α} (h : e ∈ tryEmplace entries key value) : e = (key, value) ∨ e ∈ entries := by
  induction entries with
  | nil => exact .inl (by simpa [tryEmplace] using h)
  | cons e' entries ih =>
      rw [tryEmplace] at h
      split at h
      · simpa using h
      · split at h
        · exact .inr h
        · rcases List.mem_cons.mp h with rfl | h
          · exact .inr List.mem_cons_self
          · exact (ih h).imp_right (List.mem_cons_of_mem _)

/-- The errors kept are errors. -/
def ErrorCodes (errors : List (Nat × ResponseCode)) : Prop := ∀ e ∈ errors, e.2 ≠ .success

theorem ErrorCodes.find {errors : List (Nat × ResponseCode)} (h : ErrorCodes errors)
    {fileIndex : Nat} (hkey : fileIndex ∈ errors.map Prod.fst) :
    (find errors fileIndex).getD .success ≠ .success := by
  obtain ⟨e, he, rfl⟩ := List.mem_map.mp hkey
  rw [Lib.find]
  cases hfind : errors.find? (fun e' => decide (e'.1 = e.1)) with
  | none =>
      have := List.find?_eq_none.mp hfind e he
      simp at this
  | some e' => exact h e' (List.mem_of_find?_eq_some hfind)

/-! ## §4. Tracked workloads. -/

/-- The batches of a workload in flight. -/
def Inflight.batches (wl : Inflight) : List Batch := wl.workload.map Running.batch

/-- Its tasks with something to read, in the order of their indices. -/
def Inflight.reads (wl : Inflight) : List Placed := readTasks (placedTasks 0 wl.batches)

/-- Every chunk of the task is credited, with Success. -/
def TaskState.Done (ts : TaskState) : Prop := ts.remainingChunks = 0 ∧ ts.error = .success

/-- Task `i` of batch `b` has nothing to read. -/
def Inflight.NothingToRead (wl : Inflight) (b i : Nat) : Prop :=
  ∃ p ∈ placedTasks 0 wl.batches, p.ref = (b, i) ∧ p.value.info.bytesize = 0

theorem nothingToRead_congr {wl wl' : Inflight}
    (h : wl'.workload.map Running.batch = wl.workload.map Running.batch) {b i : Nat} :
    wl'.NothingToRead b i ↔ wl.NothingToRead b i := by
  rw [Inflight.NothingToRead, Inflight.NothingToRead, Inflight.batches, Inflight.batches, h]

/-- The entry `(base, wl)` is what the credits make it. -/
structure Tracked (credits : List (Nat × ResponseCode)) (base : Nat) (wl : Inflight) : Prop where
  size_pos : 0 < blockSize wl
  refs : wl.tasks.map TaskState.ref = wl.reads.map Placed.ref
  counted : Counted credits base wl.chunkTaskIdx wl.tasks
  remainingTasks :
    wl.remainingTasks = wl.tasks.countP (fun ts => decide (ts.remainingChunks ≠ 0))
  runs : RunsAt wl.workload
    (fun b i => wl.NothingToRead b i ∨ ∃ ts ∈ wl.tasks, ts.ref = (b, i) ∧ ts.Done)
  codes : ErrorCodes wl.errorByFileIndex
  errors : ∀ ts ∈ wl.tasks, ts.remainingChunks = 0 → ts.error ≠ .success →
    ∀ batch, wl.batches[ts.batch]? = some batch →
      batch.fileIndex ∈ wl.errorByFileIndex.map Prod.fst

theorem Tracked.other {credits : List (Nat × ResponseCode)} {base : Nat} {wl : Inflight}
    (h : Tracked credits base wl) {handle : Nat} (ret : ResponseCode)
    (hout : handle < base ∨ base + blockSize wl ≤ handle) :
    Tracked (credits ++ [(handle, ret)]) base wl :=
  ⟨h.size_pos, h.refs, h.counted.other ret hout, h.remainingTasks, h.runs, h.codes, h.errors⟩

/-- A task of a `TaskState` is there. -/
theorem hasTask_of_ref {wl : Inflight} (hrefs : wl.tasks.map TaskState.ref = wl.reads.map Placed.ref)
    {ts : TaskState} (hts : ts ∈ wl.tasks) : HasTask wl.workload ts.batch ts.task := by
  have hmem : ts.ref ∈ wl.reads.map Placed.ref := hrefs ▸ List.mem_map_of_mem hts
  obtain ⟨p, hp, href⟩ := List.mem_map.mp hmem
  obtain ⟨k, batch, hb, hbatch, htask⟩ := mem_placedTasks.mp (List.mem_of_mem_filter hp)
  simp only [Placed.ref, TaskState.ref, Prod.mk.injEq] at href
  rw [Inflight.batches, List.getElem?_map, Option.map_eq_some_iff] at hbatch
  obtain ⟨r, hr, rfl⟩ := hbatch
  refine ⟨r, ?_, ?_⟩
  · rw [← href.1, hb, Nat.zero_add]
    exact hr
  · rw [← href.2]
    exact (List.getElem?_eq_some_iff.mp htask).1

theorem set_ref {tasks : List TaskState} {t : Nat} {ts : TaskState} (hts : tasks[t]? = some ts)
    (ret : ResponseCode) :
    (tasks.set t (ts.completeChunk ret)).map TaskState.ref = tasks.map TaskState.ref := by
  refine List.ext_getElem? (fun k => ?_)
  rw [List.getElem?_map, List.getElem?_map, List.getElem?_set]
  split
  next heq =>
    subst heq
    rw [if_pos (List.getElem?_eq_some_iff.mp hts).1, hts]
    rfl
  next => rfl

/-- Members after one task changed. -/
theorem mem_set_iff {tasks : List TaskState} {t : Nat} {ts new : TaskState}
    (hts : tasks[t]? = some ts) (u : TaskState) (hne : u ≠ ts) :
    u ∈ tasks.set t new ↔ u = new ∨ u ∈ tasks := by
  constructor
  · intro hu
    exact (List.mem_or_eq_of_mem_set hu).symm
  · rintro (rfl | hu)
    · exact List.mem_set (List.getElem?_eq_some_iff.mp hts).1 _
    · obtain ⟨k, hk⟩ := List.mem_iff_getElem?.mp hu
      refine List.mem_of_getElem? (i := k) ?_
      rw [List.getElem?_set_ne, hk]
      rintro rfl
      rw [hts, Option.some.injEq] at hk
      exact hne hk.symm

/-- `remaining_tasks` when one task changes. -/
theorem waiting_set {tasks : List TaskState} {t : Nat} {ts : TaskState} (new : TaskState)
    (hts : tasks[t]? = some ts) (hpos : 0 < ts.remainingChunks) :
    tasks.countP (fun ts => decide (ts.remainingChunks ≠ 0))
      = (tasks.set t new).countP (fun ts => decide (ts.remainingChunks ≠ 0))
        + if new.remainingChunks = 0 then 1 else 0 := by
  obtain ⟨hlt, hget⟩ := List.getElem?_eq_some_iff.mp hts
  have hmem : 0 < tasks.countP (fun ts => decide (ts.remainingChunks ≠ 0)) := by
    rw [List.countP_pos_iff]
    exact ⟨ts, List.mem_of_getElem? hts, by simp; omega⟩
  rw [List.countP_set hlt, hget, if_pos (by simp; omega)]
  by_cases hnew : new.remainingChunks = 0
  · rw [if_pos hnew, if_neg (by simp [hnew])]
    omega
  · rw [if_neg hnew, if_pos (by simp [hnew])]
    omega

/-- The tasks done after one more chunk of `ts`. -/
theorem done_set {tasks : List TaskState} {t : Nat} {ts : TaskState} (ret : ResponseCode)
    (hts : tasks[t]? = some ts) (hpos : 0 < ts.remainingChunks) (ref : Nat × Nat) :
    (∃ u ∈ tasks.set t (ts.completeChunk ret), u.ref = ref ∧ u.Done) ↔
      (∃ u ∈ tasks, u.ref = ref ∧ u.Done) ∨ (ts.ref = ref ∧ (ts.completeChunk ret).Done) := by
  have hne : ∀ u : TaskState, u.Done → u ≠ ts := by
    rintro u hdone rfl
    have := hdone.1
    omega
  constructor
  · rintro ⟨u, hu, href, hdone⟩
    rcases (mem_set_iff hts u (hne u hdone)).mp hu with rfl | hu
    · exact .inr ⟨href, hdone⟩
    · exact .inl ⟨u, hu, href, hdone⟩
  · rintro (⟨u, hu, href, hdone⟩ | ⟨href, hdone⟩)
    · exact ⟨u, (mem_set_iff hts u (hne u hdone)).mpr (.inr hu), href, hdone⟩
    · exact ⟨_, List.mem_set (List.getElem?_eq_some_iff.mp hts).1 _, href, hdone⟩

/-- What the changed task and the others need of the errors by file. -/
theorem errors_set {wl : Inflight} {t : Nat} {new : TaskState} {errors : List (Nat × ResponseCode)}
    (h : ∀ ts ∈ wl.tasks, ts.remainingChunks = 0 → ts.error ≠ .success →
      ∀ batch, wl.batches[ts.batch]? = some batch →
        batch.fileIndex ∈ wl.errorByFileIndex.map Prod.fst)
    (hmono : ∀ k ∈ wl.errorByFileIndex.map Prod.fst, k ∈ errors.map Prod.fst)
    (hnew : new.remainingChunks = 0 → new.error ≠ .success →
      ∀ batch, wl.batches[new.batch]? = some batch → batch.fileIndex ∈ errors.map Prod.fst) :
    ∀ ts ∈ wl.tasks.set t new, ts.remainingChunks = 0 → ts.error ≠ .success →
      ∀ batch, wl.batches[ts.batch]? = some batch → batch.fileIndex ∈ errors.map Prod.fst := by
  intro ts hts hzero herr batch hbatch
  rcases List.mem_or_eq_of_mem_set hts with hts | rfl
  · exact hmono _ (h ts hts hzero herr batch hbatch)
  · exact hnew hzero herr batch hbatch

/-- **Crediting a chunk of the workload**: no `ASSERT` fails, and the
workload is told to be the last exactly when no task remains. -/
theorem Tracked.completeChunk {credits : List (Nat × ResponseCode)} {base : Nat} {wl : Inflight}
    (h : Tracked credits base wl) {t handle : Nat} (ret : ResponseCode)
    (hown : Owns base wl.chunkTaskIdx t handle) (hnew : handle ∉ credits.map Prod.fst) :
    ∃ wl' last, wl.completeChunk t ret = .ok (wl', last) ∧
      Tracked (credits ++ [(handle, ret)]) base wl' ∧ wl'.chunkTaskIdx = wl.chunkTaskIdx ∧
      wl'.batches = wl.batches ∧ (last = true ↔ wl'.remainingTasks = 0) := by
  obtain ⟨ts, hts⟩ := h.counted.task hown
  have hpos := h.counted.remaining_pos hown hnew hts
  have hcounted := h.counted.credit ret hown hnew hts
  have hrefs := (set_ref hts ret).trans h.refs
  have htask := hasTask_of_ref h.refs (List.mem_of_getElem? hts)
  have hmem : ts.completeChunk ret ∈ wl.tasks.set t (ts.completeChunk ret) :=
    List.mem_set (List.getElem?_eq_some_iff.mp hts).1 _
  have hwaiting := waiting_set (ts.completeChunk ret) hts hpos
  rw [← h.remainingTasks] at hwaiting
  generalize hts' : ts.completeChunk ret = ts' at *
  have hbatch : ts'.batch = ts.batch := by rw [← hts']; rfl
  have htask' : ts'.task = ts.task := by rw [← hts']; rfl
  -- the settled tasks are those there were, and the one at hand if this was its last chunk
  have hdone : ∀ ref, (∃ u ∈ wl.tasks.set t ts', u.ref = ref ∧ u.Done) ↔
      (∃ u ∈ wl.tasks, u.ref = ref ∧ u.Done) ∨ (ts.ref = ref ∧ ts'.Done) := by
    intro ref
    rw [← hts']
    exact done_set ret hts hpos ref
  by_cases hleft : ts'.remainingChunks = 0
  · rw [if_pos hleft] at hwaiting
    by_cases herr : ts'.error = .success
    · -- the task is read: report it
      obtain ⟨workload, hok, hbatches, hruns⟩ := respond_ok h.runs htask
      refine ⟨{ wl with
          tasks := wl.tasks.set t ts'
          workload := workload
          remainingTasks := wl.remainingTasks - 1 }, decide (wl.remainingTasks = 1),
        ?_, ?_, rfl, hbatches, ?_⟩
      · simp only [Inflight.completeChunk, hts, if_neg (Nat.pos_iff_ne_zero.mp hpos), hts', hleft,
          ne_eq, not_true, if_false, herr, if_true, hbatch, htask', hok]
      · refine ⟨h.size_pos, ?_, hcounted, ?_, ?_, h.codes, ?_⟩
        · rw [Inflight.reads, Inflight.batches, hbatches]
          exact hrefs
        · show wl.remainingTasks - 1 = (wl.tasks.set t ts').countP _
          omega
        · refine hruns.congr (fun b i _ => ?_)
          rw [hdone, or_assoc]
          refine or_congr (nothingToRead_congr hbatches).symm (or_congr Iff.rfl ?_)
          simp only [TaskState.ref, Prod.mk.injEq, TaskState.Done, hleft, herr, and_self, and_true]
          exact and_congr eq_comm eq_comm
        · rw [Inflight.batches, hbatches]
          exact errors_set h.errors (fun _ hk => hk) (fun _ hne => absurd herr hne)
      · rw [decide_eq_true_eq]
        show wl.remainingTasks = 1 ↔ wl.remainingTasks - 1 = 0
        omega
    · -- the task failed: its file is marked
      obtain ⟨r, hr, -⟩ := htask
      refine ⟨{ wl with
          tasks := wl.tasks.set t ts'
          errorByFileIndex := tryEmplace wl.errorByFileIndex r.batch.fileIndex ts'.error
          remainingTasks := wl.remainingTasks - 1 }, decide (wl.remainingTasks = 1),
        ?_, ?_, rfl, rfl, ?_⟩
      · simp only [Inflight.completeChunk, hts, if_neg (Nat.pos_iff_ne_zero.mp hpos), hts', hleft,
          ne_eq, not_true, if_false, herr, hbatch, hr]
      · refine ⟨h.size_pos, hrefs, hcounted, ?_, ?_, ?_, ?_⟩
        · show wl.remainingTasks - 1 = (wl.tasks.set t ts').countP _
          omega
        · refine h.runs.congr (fun b i _ => or_congr Iff.rfl ?_)
          rw [hdone]
          exact ⟨.inl, fun hor => hor.elim id (fun hand => absurd hand.2.2 herr)⟩
        · intro e he
          rcases mem_tryEmplace he with rfl | he
          · exact herr
          · exact h.codes e he
        · refine errors_set h.errors (fun k hk => (tryEmplace_keys _ _ _ k).mpr (.inr hk)) ?_
          intro _ _ batch hget
          rw [Inflight.batches, hbatch, List.getElem?_map, hr] at hget
          simp only [Option.map_some, Option.some.injEq] at hget
          exact (tryEmplace_keys _ _ _ _).mpr (.inl (by rw [← hget]))
      · rw [decide_eq_true_eq]
        show wl.remainingTasks = 1 ↔ wl.remainingTasks - 1 = 0
        omega
  · rw [if_neg hleft] at hwaiting
    refine ⟨{ wl with tasks := wl.tasks.set t ts' }, false, ?_, ?_, rfl, rfl, ?_⟩
    · simp only [Inflight.completeChunk, hts, if_neg (Nat.pos_iff_ne_zero.mp hpos), hts', hleft,
        ne_eq, not_false_iff, if_true]
    · refine ⟨h.size_pos, hrefs, hcounted, hwaiting, ?_, h.codes,
        errors_set h.errors (fun _ hk => hk) (fun hzero => absurd hzero hleft)⟩
      refine h.runs.congr (fun b i _ => or_congr Iff.rfl ?_)
      rw [hdone]
      exact ⟨.inl, fun hor => hor.elim id (fun hand => absurd hand.2.1 hleft)⟩
    · -- a chunk is left, so the task is not the last either
      have hwait : 0 < (wl.tasks.set t ts').countP
          (fun ts => decide (ts.remainingChunks ≠ 0)) := by
        rw [List.countP_pos_iff]
        exact ⟨ts', hmem, by simpa using hleft⟩
      show false = true ↔ wl.remainingTasks = 0
      simp only [Bool.false_eq_true, false_iff]
      omega

/-- With a task remaining, a chunk of the block is open. -/
theorem Tracked.exists_open {credits : List (Nat × ResponseCode)} {base : Nat} {wl : Inflight}
    (h : Tracked credits base wl) (hleft : wl.remainingTasks ≠ 0) :
    ∃ handle, handle ∈ openHandles credits base (blockSize wl) := by
  rw [h.remainingTasks, ← Nat.pos_iff_ne_zero, List.countP_pos_iff] at hleft
  obtain ⟨ts, hts, hwait⟩ := hleft
  obtain ⟨t, ht⟩ := List.mem_iff_getElem?.mp hts
  have hpos : 0 < ts.remainingChunks := by
    have := of_decide_eq_true hwait
    omega
  rw [h.counted.remaining t ts ht, openChunks, List.countP_pos_iff] at hpos
  obtain ⟨handle, hopen, -⟩ := hpos
  exact ⟨handle, hopen⟩

/-! ## §5. Workloads the worker has dropped. -/

/-- Nothing to read, or the task has chunks, all of them credited with
Success. -/
def Backed (credits : List (Nat × ResponseCode)) (base : Nat) (wl : Inflight) (b i : Nat) : Prop :=
  wl.NothingToRead b i ∨ ∃ t p, wl.reads[t]? = some p ∧ p.ref = (b, i) ∧ t ∈ wl.chunkTaskIdx ∧
    ∀ handle, Owns base wl.chunkTaskIdx t handle → (handle, ResponseCode.success) ∈ credits

/-- Only tasks whose chunks all succeeded are finished with Success. -/
def SuccessBacked (credits : List (Nat × ResponseCode)) (base : Nat) (wl : Inflight) : Prop :=
  ∀ b r, wl.workload[b]? = some r → ∀ f ∈ r.run.log, f.ret = .success →
    Backed credits base wl b f.task

/-- A dropped workload: every task is finished, and no Success is unbacked. -/
structure Concluded (credits : List (Nat × ResponseCode)) (base : Nat) (wl : Inflight) :
    Prop where
  complete : ∀ r ∈ wl.workload, Ran r.batch r.run ∧ Complete r.batch.tasks.length r.run
  success : SuccessBacked credits base wl

theorem Backed.credit {credits : List (Nat × ResponseCode)} {base : Nat} {wl : Inflight}
    {b i : Nat} (h : Backed credits base wl b i) (c : Nat × ResponseCode) :
    Backed (credits ++ [c]) base wl b i :=
  h.imp_right (fun ⟨t, p, hp, href, hmem, hall⟩ =>
    ⟨t, p, hp, href, hmem, fun handle hown => List.mem_append.mpr (.inl (hall handle hown))⟩)

theorem Concluded.credit {credits : List (Nat × ResponseCode)} {base : Nat} {wl : Inflight}
    (h : Concluded credits base wl) (c : Nat × ResponseCode) :
    Concluded (credits ++ [c]) base wl :=
  ⟨h.complete, fun b r hr f hf hret => (h.success b r hr f hf hret).credit c⟩

theorem backed_congr {credits : List (Nat × ResponseCode)} {base : Nat} (wl wl' : Inflight)
    (hidx : wl'.chunkTaskIdx = wl.chunkTaskIdx)
    (hbatches : wl'.workload.map Running.batch = wl.workload.map Running.batch) {b i : Nat} :
    Backed credits base wl' b i ↔ Backed credits base wl b i := by
  rw [Backed, Backed, nothingToRead_congr hbatches, Inflight.reads, Inflight.reads,
    Inflight.batches, Inflight.batches, hbatches, hidx]

theorem report_batches (wl : Inflight) (code : ResponseCode) :
    (wl.reportWorkload code).workload.map Running.batch = wl.workload.map Running.batch := by
  rw [Inflight.reportWorkload, List.map_map]
  rfl

/-- **Reporting a workload finishes it**, where each batch is either failed
or finished already. -/
theorem concluded_report {credits : List (Nat × ResponseCode)} {base : Nat} {wl : Inflight}
    {finished : Nat → Nat → Prop} {code : ResponseCode} (hruns : RunsAt wl.workload finished)
    (hbacked : ∀ b i, finished b i → Backed credits base wl b i)
    (hcode : ∀ b r, wl.workload[b]? = some r → wl.errorCode code r.batch = .success →
      ∀ i, i < r.batch.tasks.length → finished b i) :
    Concluded credits base (wl.reportWorkload code) := by
  refine ⟨fun r hr => ?_, fun b r hr f hf hret => ?_⟩
  · obtain ⟨r', hr', rfl⟩ := List.mem_map.mp hr
    obtain ⟨b, hb⟩ := List.mem_iff_getElem?.mp hr'
    have hrun := hruns b r' hb
    refine ⟨.handleError _ hrun.ran, ?_⟩
    show Complete r'.batch.tasks.length (r'.run.handleError (wl.errorCode code r'.batch))
    by_cases hsuccess : wl.errorCode code r'.batch = .success
    · rw [BatchRun.handleError, if_pos hsuccess]
      exact fun i hi => (hrun.finished_iff i hi).mpr (hcode b r' hb hsuccess i hi)
    · exact handleError_complete hrun.length_eq hsuccess
  · rw [Inflight.reportWorkload, List.getElem?_map, Option.map_eq_some_iff] at hr
    obtain ⟨r', hr', rfl⟩ := hr
    have hrun := hruns b r' hr'
    have hf' : f ∈ r'.run.log := handleError_success hf hret
    -- it was finished before, with Success
    have hget : r'.run.finished[f.task]? = some true :=
      (hrun.ran.consistent.logged f.task).mp (List.mem_map_of_mem hf')
    have hlt : f.task < r'.batch.tasks.length := by
      rw [← hrun.length_eq]
      exact (List.getElem?_eq_some_iff.mp hget).1
    exact (backed_congr wl (wl.reportWorkload code) rfl (report_batches wl code)).mpr
      (hbacked b f.task ((hrun.finished_iff f.task hlt).mp hget))

/-- The tasks done are backed. -/
theorem Tracked.backed {credits : List (Nat × ResponseCode)} {base : Nat} {wl : Inflight}
    (h : Tracked credits base wl) {b i : Nat}
    (hfinished : wl.NothingToRead b i ∨ ∃ ts ∈ wl.tasks, ts.ref = (b, i) ∧ ts.Done) :
    Backed credits base wl b i := by
  refine hfinished.imp_right ?_
  rintro ⟨ts, hts, href, hzero, hsuccess⟩
  obtain ⟨t, ht⟩ := List.mem_iff_getElem?.mp hts
  have hp : (wl.reads.map Placed.ref)[t]? = some ts.ref := by
    rw [← h.refs, List.getElem?_map, ht]
    rfl
  rw [List.getElem?_map, Option.map_eq_some_iff] at hp
  obtain ⟨p, hp, hpref⟩ := hp
  refine ⟨t, p, hp, hpref.trans href,
    h.counted.covered t (List.getElem?_eq_some_iff.mp ht).1, fun handle hown => ?_⟩
  have hnone := h.counted.remaining t ts ht
  rw [hzero, openChunks] at hnone
  have hcredited : handle ∈ credits.map Prod.fst := by
    by_contra hopen
    refine List.countP_eq_zero.mp hnone.symm handle
      (mem_openHandles.mpr ⟨hown.lt.1, hown.lt.2, hopen⟩) ?_
    simpa using hown.2
  obtain ⟨c, hc, rfl⟩ := List.mem_map.mp hcredited
  have hret := (h.counted.error t ts ht).mp hsuccess c hc hown
  rw [← hret]
  exact hc

theorem Tracked.successBacked {credits : List (Nat × ResponseCode)} {base : Nat} {wl : Inflight}
    (h : Tracked credits base wl) : SuccessBacked credits base wl := by
  intro b r hr f hf _
  have hrun := h.runs b r hr
  have hget := (hrun.ran.consistent.logged f.task).mp (List.mem_map_of_mem hf)
  have hlt : f.task < r.batch.tasks.length := by
    rw [← hrun.length_eq]
    exact (List.getElem?_eq_some_iff.mp hget).1
  exact h.backed ((hrun.finished_iff f.task hlt).mp hget)

/-- Task `i` of batch `b`. -/
theorem Inflight.placed_mem {wl : Inflight} {b i : Nat} {r : Running} {task : Task}
    (hr : wl.workload[b]? = some r) (htask : r.batch.tasks[i]? = some task) :
    ⟨b, i, task⟩ ∈ placedTasks 0 wl.batches := by
  have hbatch : wl.batches[b]? = some r.batch := by
    rw [Inflight.batches, List.getElem?_map, hr]
    rfl
  exact mem_placedTasks.mpr ⟨b, r.batch, (Nat.zero_add b).symm, hbatch, htask⟩

/-- A task with something to read has its `TaskState`. -/
theorem Tracked.state {credits : List (Nat × ResponseCode)} {base : Nat} {wl : Inflight}
    (h : Tracked credits base wl) {b i : Nat} {r : Running} {task : Task}
    (hr : wl.workload[b]? = some r) (htask : r.batch.tasks[i]? = some task)
    (hne : task.info.bytesize ≠ 0) : ∃ ts ∈ wl.tasks, ts.ref = (b, i) := by
  have hread : (⟨b, i, task⟩ : Placed).ref ∈ wl.tasks.map TaskState.ref := by
    rw [h.refs]
    exact List.mem_map_of_mem
      (List.mem_filter.mpr ⟨Inflight.placed_mem hr htask, by simpa using hne⟩)
  exact List.mem_map.mp hread

/-- **Reporting a tracked workload**, aborted or with no task remaining. -/
theorem Tracked.report {credits : List (Nat × ResponseCode)} {base : Nat} {wl : Inflight}
    (h : Tracked credits base wl) {code : ResponseCode}
    (hcode : code ≠ .success ∨ wl.remainingTasks = 0) :
    Concluded credits base (wl.reportWorkload code) := by
  refine concluded_report h.runs (fun _ _ => h.backed) (fun b r hr hsuccess i hi => ?_)
  have hcode' : code = .success := by
    by_contra hne
    rw [Inflight.errorCode, if_neg hne] at hsuccess
    exact hne hsuccess
  rw [Inflight.errorCode, if_pos hcode'] at hsuccess
  have hzero := hcode.resolve_left (not_not.mpr hcode')
  have hbatch : wl.batches[b]? = some r.batch := by
    rw [Inflight.batches, List.getElem?_map, hr]
    rfl
  have htask : r.batch.tasks[i]? = some r.batch.tasks[i] := List.getElem?_eq_getElem hi
  by_cases hempty : r.batch.tasks[i].info.bytesize = 0
  · exact .inl ⟨_, Inflight.placed_mem hr htask, rfl, hempty⟩
  · -- its `TaskState` has no chunk left, and its file no error
    obtain ⟨ts, hts, href⟩ := h.state hr htask hempty
    have hleft : ts.remainingChunks = 0 := by
      have hnone := h.remainingTasks
      rw [hzero] at hnone
      simpa using List.countP_eq_zero.mp hnone.symm ts hts
    refine .inr ⟨ts, hts, href, hleft, ?_⟩
    by_contra herr
    have hb : ts.batch = b := congrArg Prod.fst href
    exact h.codes.find (h.errors ts hts hleft herr r.batch (by rw [hb]; exact hbatch)) hsuccess

end ModelStreamer.ObjectStorage
