/-
  ModelStreamer.ObjectStorage.Truthful
  ────────────────────────────────────
  **WHEN A RANGE GETS A CODE OF ITS OWN** (`complete_chunk`,
  `report_workload`).

  A failure is recorded per FILE: every failed task of the file gets the code
  of the first one to settle.  An abort gives its own code to every task that
  has not succeeded, also to one whose chunks were all in.

    • `Drop` — a workload as it was reported, and the code of the abort,
    • `Truthful` — every failed range has a code that a chunk of its own
      produced, or that of the abort that cut it short; a range whose chunks
      all succeeded has Success,
    • `Agrees` — the completions gave every failed range that code anyway,
    • `truthful_iff` — in every run the first holds of a dropped workload
      exactly when the second does,
    • `shared_code` — two ranges of a file fail with different codes, and both
      report the first.
-/
import ModelStreamer.ObjectStorage.Codes
import ModelStreamer.ObjectStorage.Sound

namespace ModelStreamer.ObjectStorage

open ModelStreamer.Lib ModelStreamer.Planning ModelStreamer.Delivery

/-! ## §1. Dropped workloads. -/

/-- A workload the worker has dropped, as it was reported, and the code it was
aborted with; Success when it was finalized with every chunk completed. -/
structure Drop where
  base : Nat
  wl : Inflight
  code : ResponseCode

/-- The chunk is one of the range's own. -/
def Drop.Owns (d : Drop) (range : Nat × Nat) (handle : Nat) : Prop :=
  ∃ t, d.wl.rangeOf t = some range ∧ ObjectStorage.Owns d.base d.wl.chunkTaskIdx t handle

/-- A chunk of the range completed with this code. -/
def Drop.Produced (d : Drop) (credits : List (Nat × ResponseCode)) (range : Nat × Nat)
    (code : ResponseCode) : Prop :=
  ∃ handle, d.Owns range handle ∧ (handle, code) ∈ credits

/-- A chunk of the range never completed, or the workload was dropped before
it had any chunks. -/
def Drop.CutShort (d : Drop) (credits : List (Nat × ResponseCode)) (range : Nat × Nat) : Prop :=
  d.wl.chunkTaskIdx = [] ∨ ∃ handle, d.Owns range handle ∧ handle ∉ credits.map Prod.fst

/-- The codes of the workload's ranges are their own. -/
structure Truthful (credits : List (Nat × ResponseCode)) (d : Drop) : Prop where
  failed : ∀ r ∈ d.wl.workload, ∀ f ∈ r.run.log, ∀ task, r.batch.tasks[f.task]? = some task →
    f.ret ≠ .success → d.Produced credits task.request.key f.ret ∨
      (f.ret = d.code ∧ d.CutShort credits task.request.key)
  succeeded : ∀ r ∈ d.wl.workload, ∀ f ∈ r.run.log, ∀ task, r.batch.tasks[f.task]? = some task →
    ¬ d.CutShort credits task.request.key →
    (∀ c ∈ credits, d.Owns task.request.key c.1 → c.2 = .success) → f.ret = .success

/-- The code the failures of a file are given: the abort's, or that of the
file's first task to settle with a failure. -/
def Drop.blame (d : Drop) (credits : List (Nat × ResponseCode)) (fileIndex : Nat) :
    ResponseCode :=
  if d.code = .success then (fileCode credits d.base d.wl fileIndex).getD .success else d.code

/-- Every range with a failed task has a chunk that produced the code its file
is given, or is cut short by the abort. -/
def Agrees (credits : List (Nat × ResponseCode)) (d : Drop) : Prop :=
  ∀ t range, d.wl.rangeOf t = some range →
    taskCode credits d.base d.wl.chunkTaskIdx t ≠ .success →
    d.Produced credits range (d.blame credits range.1) ∨
      (d.code ≠ .success ∧ d.CutShort credits range)

/-! ## §2. How workloads are dropped. -/

/-- Either the entry was what the credits made it, and was reported, aborted
or with no task remaining; or the workload never had chunks, and all of it got
one code. -/
inductive Dropped (credits : List (Nat × ResponseCode)) : Drop → Prop
  | tracked {base : Nat} {wl : Inflight} {code : ResponseCode} (htracked : Tracked credits base wl)
      (hcoded : Coded credits base wl) (hended : code = .success ↔ wl.remainingTasks = 0) :
      Dropped credits ⟨base, wl.reportWorkload code, code⟩
  | whole {base : Nat} {wl : Inflight} {code : ResponseCode} (hidx : wl.chunkTaskIdx = [])
      (hlog : ∀ r ∈ wl.workload, ∀ f ∈ r.run.log, f.ret = code) :
      Dropped credits ⟨base, wl, code⟩

section

variable {credits : List (Nat × ResponseCode)} {base : Nat} {wl : Inflight}

/-- **A task that is not done is not finished.** -/
theorem Tracked.unfinished (h : Tracked credits base wl) {t : Nat} {ts : TaskState} {r : Running}
    (hts : wl.tasks[t]? = some ts) (hr : wl.workload[ts.batch]? = some r)
    (hdone : ¬ ts.Done) : r.run.finished[ts.task]? = some false := by
  obtain ⟨p, r', hp, href, hr', htask, -⟩ := h.placed hts
  obtain rfl := Option.some.inj (hr.symm.trans hr')
  have hlt : ts.task < r.batch.tasks.length := (List.getElem?_eq_some_iff.mp htask).1
  have hrun := h.runs ts.batch r hr
  have hplaced := List.mem_of_getElem? hp
  have hnodup : (wl.tasks.map TaskState.ref).Nodup := by
    rw [h.refs]
    exact (placedTasks_nodup 0 wl.batches).sublist (List.filter_sublist.map _)
  have hnot : ¬ r.run.finished[ts.task]? = some true := by
    rw [hrun.finished_iff ts.task hlt]
    rintro (⟨p', hp', href', hzero⟩ | ⟨ts', hts', href', hdone'⟩)
    · -- the task read is the task with nothing to read
      have hsame := List.inj_on_of_nodup_map (placedTasks_nodup 0 wl.batches)
        (List.mem_of_mem_filter hplaced) hp' (href.trans href'.symm)
      have hne := of_decide_eq_true (List.mem_filter.mp hplaced).2
      rw [hsame] at hne
      exact hne hzero
    · have hsame := List.inj_on_of_nodup_map hnodup (List.mem_of_getElem? hts) hts' href'.symm
      rw [hsame] at hdone
      exact hdone hdone'
  have hget : ts.task < r.run.finished.length := by
    rw [hrun.length_eq]
    exact hlt
  rw [List.getElem?_eq_getElem hget] at hnot ⊢
  simpa using hnot

/-- The task of an unfinished report has a chunk open, or has failed. -/
theorem Tracked.of_unfinished (h : Tracked credits base wl) {b i : Nat} {r : Running}
    {task : Task} (hr : wl.workload[b]? = some r) (htask : r.batch.tasks[i]? = some task)
    (hopen : r.run.finished[i]? = some false) :
    ∃ (t : Nat) (ts : TaskState), wl.tasks[t]? = some ts ∧ ts.ref = (b, i) ∧ ¬ ts.Done := by
  have hlt := (List.getElem?_eq_some_iff.mp htask).1
  have hnot : ¬ (wl.NothingToRead b i ∨ ∃ ts ∈ wl.tasks, ts.ref = (b, i) ∧ ts.Done) := by
    refine mt ((h.runs b r hr).finished_iff i hlt).mpr ?_
    rw [hopen]
    simp
  rw [not_or] at hnot
  have hne : task.info.bytesize ≠ 0 :=
    fun hzero => hnot.1 ⟨_, Inflight.placed_mem hr htask, rfl, hzero⟩
  obtain ⟨ts, hts, href⟩ := h.state hr htask hne
  obtain ⟨t, ht⟩ := List.mem_iff_getElem?.mp hts
  exact ⟨t, ts, ht, href, fun hdone => hnot.2 ⟨ts, hts, href, hdone⟩⟩

theorem report_rangeOf (code : ResponseCode) (t : Nat) :
    (wl.reportWorkload code).rangeOf t = wl.rangeOf t :=
  rangeOf_congr (report_batches wl code) t

theorem report_fileCode (code : ResponseCode) (fileIndex : Nat) :
    fileCode credits base (wl.reportWorkload code) fileIndex
      = fileCode credits base wl fileIndex := by
  rw [fileCode, fileCode]
  simp only [report_rangeOf]
  rfl

/-- The code a batch is failed with. -/
theorem Coded.errorCode (h : Coded credits base wl) (code : ResponseCode) (batch : Batch) :
    wl.errorCode code batch
      = (⟨base, wl.reportWorkload code, code⟩ : Drop).blame credits batch.fileIndex := by
  rw [Inflight.errorCode, Drop.blame, h.files]
  simp only [report_fileCode]

/-! ## §3. The codes of one workload. -/

/-- A task not done has failed, or its range has a chunk open. -/
theorem Tracked.cutShort (h : Tracked credits base wl) (hcoded : Coded credits base wl)
    {t : Nat} {ts : TaskState} {range : Nat × Nat} (hts : wl.tasks[t]? = some ts)
    (hrange : wl.rangeOf t = some range) (hdone : ¬ ts.Done) (code : ResponseCode) :
    taskCode credits base wl.chunkTaskIdx t ≠ .success ∨
      (ts.remainingChunks ≠ 0 ∧
        (⟨base, wl.reportWorkload code, code⟩ : Drop).CutShort credits range) := by
  by_cases herr : ts.error = .success
  · have hleft : ts.remainingChunks ≠ 0 := fun hzero => hdone ⟨hzero, herr⟩
    refine .inr ⟨hleft, .inr ?_⟩
    have hpos : 0 < openChunks credits base wl.chunkTaskIdx t := by
      rw [← h.counted.remaining t ts hts]
      omega
    rw [openChunks, List.countP_pos_iff] at hpos
    obtain ⟨handle, hopen, hown⟩ := hpos
    obtain ⟨hle, -, hnew⟩ := mem_openHandles.mp hopen
    exact ⟨handle, ⟨t, (report_rangeOf code t).trans hrange, hle, of_decide_eq_true hown⟩, hnew⟩
  · rw [hcoded.tasks t ts hts] at herr
    exact .inl herr

/-- **What a failing report carries**: the code its file is given. -/
theorem Tracked.failing (h : Tracked credits base wl) (hcoded : Coded credits base wl)
    {code : ResponseCode} {r : Running} (hr : r ∈ (wl.reportWorkload code).workload) {f : Finish}
    (hf : f ∈ r.run.log) {task : Task} (htask : r.batch.tasks[f.task]? = some task)
    (hret : f.ret ≠ .success) :
    f.ret = (⟨base, wl.reportWorkload code, code⟩ : Drop).blame credits
        task.request.fileIndex ∧
      ∃ (t : Nat) (ts : TaskState), wl.tasks[t]? = some ts ∧
        wl.rangeOf t = some task.request.key ∧ ¬ ts.Done := by
  obtain ⟨r₀, hr₀, rfl⟩ := List.mem_map.mp hr
  obtain ⟨b, hb⟩ := List.mem_iff_getElem?.mp hr₀
  have htask : r₀.batch.tasks[f.task]? = some task := htask
  have hf : f ∈ (r₀.run.handleError (wl.errorCode code r₀.batch)).log := hf
  have hfile := (h.runs b r₀ hb).owned task (List.mem_of_getElem? htask)
  rcases handleError_log hf with hold | ⟨hcode, hopen⟩
  · exact absurd ((h.runs b r₀ hb).log_success f hold) hret
  · obtain ⟨t, ts, hts, href, hdone⟩ := h.of_unfinished hb htask hopen
    obtain ⟨p, r', hp, href', hr', htask', -⟩ := h.placed hts
    obtain ⟨hbatch, hplace⟩ := Prod.mk.inj (show (ts.batch, ts.task) = (b, f.task) from href)
    rw [hbatch] at hr'
    obtain rfl := Option.some.inj (hb.symm.trans hr')
    rw [hplace] at htask'
    have hvalue : p.value = task := Option.some.inj (htask'.symm.trans htask)
    refine ⟨?_, t, ts, hts, ?_, hdone⟩
    · rw [hcode, hcoded.errorCode, hfile]
    · rw [Inflight.rangeOf, hp, ← hvalue]
      rfl

/-- **A failed task is reported** with the code its file is given. -/
theorem Tracked.reported (h : Tracked credits base wl) (hcoded : Coded credits base wl)
    {code : ResponseCode} (hended : code = .success ↔ wl.remainingTasks = 0) {t : Nat}
    {range : Nat × Nat} (hrange : wl.rangeOf t = some range)
    (hcode : taskCode credits base wl.chunkTaskIdx t ≠ .success) :
    ∃ r ∈ (wl.reportWorkload code).workload, ∃ f ∈ r.run.log, ∃ task,
      r.batch.tasks[f.task]? = some task ∧ task.request.key = range ∧ f.ret ≠ .success ∧
        f.ret = (⟨base, wl.reportWorkload code, code⟩ : Drop).blame credits range.1 := by
  have hlt : t < wl.tasks.length := by
    have hlen := congrArg List.length h.refs
    rw [List.length_map, List.length_map] at hlen
    obtain ⟨p, hp, -⟩ := Option.map_eq_some_iff.mp hrange
    have := (List.getElem?_eq_some_iff.mp hp).1
    omega
  obtain ⟨ts, hts⟩ : ∃ ts, wl.tasks[t]? = some ts := ⟨_, List.getElem?_eq_getElem hlt⟩
  obtain ⟨p, r, hp, -, hr, htask, hfile⟩ := h.placed hts
  have hvalue : p.value.request.key = range := by
    rw [Inflight.rangeOf, hp] at hrange
    exact Option.some.inj hrange
  -- the task has failed, so it is not among the finished ones
  have herr : ts.error ≠ .success := by
    rw [hcoded.tasks t ts hts]
    exact hcode
  have hopen := h.unfinished hts hr (fun hdone => herr hdone.2)
  have hfails : wl.errorCode code r.batch ≠ .success := by
    by_cases hsuccess : code = .success
    · -- the task has settled, so its file has a code
      have hwaiting := h.remainingTasks
      rw [hended.mp hsuccess] at hwaiting
      have hleft : ts.remainingChunks = 0 := by
        simpa using List.countP_eq_zero.mp hwaiting.symm ts (List.mem_of_getElem? hts)
      rw [Inflight.errorCode, if_pos hsuccess]
      refine h.codes.find (h.errors ts (List.mem_of_getElem? hts) hleft herr r.batch ?_)
      rw [Inflight.batches, List.getElem?_map, hr]
      rfl
    · rwa [Inflight.errorCode, if_neg hsuccess]
  refine ⟨_, List.mem_map_of_mem (List.mem_of_getElem? hr), ⟨ts.task, wl.errorCode code r.batch⟩,
    handleError_fails (h.runs _ r hr).ran hfails hopen, p.value, htask, hvalue, hfails, ?_⟩
  show wl.errorCode code r.batch = _
  rw [hcoded.errorCode, ← hfile, ← hvalue]
  rfl

end

/-- **A dropped workload is truthful exactly when the completions agree.** -/
theorem Dropped.truthful {credits : List (Nat × ResponseCode)} {d : Drop}
    (h : Dropped credits d) : Truthful credits d ↔ Agrees credits d := by
  cases h with
  | whole hidx hlog =>
      -- a whole workload was reported with one code, and had no chunks
      refine iff_of_true ⟨fun r hr f hf task _ _ => .inr ⟨hlog r hr f hf, .inl hidx⟩,
        fun r hr f hf task _ hnot _ => absurd (.inl hidx) hnot⟩ (fun t range _ hcode => ?_)
      obtain ⟨handle, hown, -⟩ := taskCode_produced hcode
      rw [hidx] at hown
      exact absurd hown.2 (by simp)
  | @tracked base wl code htracked hcoded hended =>
      constructor
      · intro htruthful t range hrange hcode
        rw [report_rangeOf] at hrange
        obtain ⟨r, hr, f, hf, task, htask, hkey, hret, hblame⟩ :=
          htracked.reported hcoded hended hrange hcode
        rcases htruthful.failed r hr f hf task htask hret with hown | ⟨habort, hcut⟩
        · rw [hkey, hblame] at hown
          exact .inl hown
        · rw [hkey] at hcut
          exact .inr ⟨habort ▸ hret, hcut⟩
      · intro hagrees
        refine ⟨fun r hr f hf task htask hret => ?_, fun r hr f hf task htask hwhole hall => ?_⟩
        · obtain ⟨hblame, t, ts, hts, hrange, hdone⟩ :=
            htracked.failing hcoded hr hf htask hret
          have habort : code ≠ .success → f.ret = code := by
            intro hne
            rw [hblame, Drop.blame, if_neg hne]
          rcases htracked.cutShort hcoded hts hrange hdone code with hcode | ⟨hleft, hcut⟩
          · rcases hagrees t _ ((report_rangeOf code t).trans hrange) hcode with
              hown | ⟨hne, hcut⟩
            · rw [hblame]
              exact .inl hown
            · exact .inr ⟨habort hne, hcut⟩
          · -- a chunk is open, so the workload was aborted
            refine .inr ⟨habort (fun hsuccess => ?_), hcut⟩
            have hwaiting := htracked.remainingTasks
            rw [hended.mp hsuccess] at hwaiting
            refine hleft ?_
            simpa using List.countP_eq_zero.mp hwaiting.symm ts (List.mem_of_getElem? hts)
        · by_contra hret
          obtain ⟨-, t, ts, hts, hrange, hdone⟩ := htracked.failing hcoded hr hf htask hret
          rcases htracked.cutShort hcoded hts hrange hdone code with hcode | ⟨-, hcut⟩
          · obtain ⟨handle, hown, hmem⟩ := taskCode_produced hcode
            exact hcode (hall _ hmem ⟨t, (report_rangeOf code t).trans hrange, hown⟩)
          · exact hwhole hcut

/-! ## §4. The journal of a worker. -/

/-- The entries in flight have their codes, and the drops are the workloads
reported. -/
structure Filed (w : Worker) (drops : List Drop) : Prop where
  coded : ∀ e ∈ w.inflight, Coded w.credits e.1 e.2
  entries : drops.map (fun d => (d.base, d.wl)) = w.reported
  dropped : ∀ d ∈ drops, Dropped w.credits d

/-- A credit outside of the block changes nothing. -/
theorem Dropped.other {credits : List (Nat × ResponseCode)} {d : Drop} (h : Dropped credits d)
    {handle : Nat} (ret : ResponseCode)
    (hout : handle < d.base ∨ d.base + blockSize d.wl ≤ handle) :
    Dropped (credits ++ [(handle, ret)]) d := by
  cases h with
  | tracked htracked hcoded hended =>
      exact .tracked (htracked.other ret hout) (hcoded.other ret hout) hended
  | whole hidx hlog => exact .whole hidx hlog

/-- **Completing a chunk** files what it drops: a workload with every chunk
completed. -/
theorem Filed.completeChunk {w w' : Worker} {drops : List Drop} (h : Filed w drops) (hinv : w.Inv)
    {base t handle : Nat} {wl : Inflight} {ret : ResponseCode} (he : (base, wl) ∈ w.inflight)
    (hown : Owns base wl.chunkTaskIdx t handle) (hnew : handle ∉ w.credits.map Prod.fst)
    (hok : w.completeChunk handle base t ret = .ok w') :
    ∃ more, Filed w' (drops ++ more) ∧
      ∀ d ∈ more, d.code = .success ∧ d.wl.chunkTaskIdx ≠ [] := by
  obtain ⟨before, after, hsplit, hreplace, hremove⟩ := hinv.ascending.split he
  obtain ⟨wl', last, hwl, htracked, hidx, -, hlast⟩ :=
    (hinv.tracked _ he).completeChunk ret hown hnew
  have hfind := find_mem hinv.ascending he
  simp only [Worker.completeChunk, hfind, hwl, hreplace, Except.ok.injEq] at hok
  have hin : InBlock blockSize (base, wl) handle := hown.lt
  -- the other workloads do not own the handle
  have hcoded : ∀ e ∈ before ++ (base, wl') :: after,
      Coded (w.credits ++ [(handle, ret)]) e.1 e.2 := by
    have hother : ∀ e ∈ before ++ after, Coded (w.credits ++ [(handle, ret)]) e.1 e.2 := by
      intro e hmem
      have hmem' : e ∈ w.inflight := by
        rw [hsplit]
        exact ((List.sublist_cons_self _ _).append_left _).subset hmem
      refine (h.coded e hmem').other ret ?_
      exact hinv.apart_inflight hsplit hin e hmem
    intro e hmem
    rcases List.mem_append.mp hmem with hmem | hmem
    · exact hother e (List.mem_append.mpr (.inl hmem))
    · rcases List.mem_cons.mp hmem with rfl | hmem
      · exact (h.coded _ he).completeChunk (hinv.tracked _ he) hown hnew hwl
      · exact hother e (List.mem_append.mpr (.inr hmem))
  -- nor do those that were reported
  have hdropped : ∀ d ∈ drops, Dropped (w.credits ++ [(handle, ret)]) d := by
    intro d hd
    have hrep : (d.base, d.wl) ∈ w.reported := by
      rw [← h.entries]
      exact List.mem_map.mpr ⟨d, hd, rfl⟩
    exact (h.dropped d hd).other ret (hinv.outside he hrep hin)
  -- the last task settles the workload, which is reported
  by_cases hzero : last = true
  · rw [if_pos hzero] at hok
    subst hok
    have hmem : (base, wl') ∈ before ++ (base, wl') :: after := by simp
    refine ⟨[⟨base, wl'.reportWorkload .success, .success⟩], ⟨fun e hmem' => ?_, ?_, ?_⟩, ?_⟩
    · refine hcoded e ?_
      have hmem' : e ∈ remove (before ++ (base, wl') :: after) base := hmem'
      exact List.mem_of_mem_filter hmem'
    · rw [List.map_append, h.entries]
      rfl
    · intro d hd
      rcases List.mem_append.mp hd with hd | hd
      · exact hdropped d hd
      · rw [List.mem_singleton.mp hd]
        exact .tracked htracked (hcoded _ hmem) (iff_of_true rfl (hlast.mp hzero))
    · intro d hd
      rw [List.mem_singleton.mp hd]
      exact ⟨rfl, List.ne_nil_of_length_pos htracked.size_pos⟩
  · rw [if_neg hzero] at hok
    subst hok
    refine ⟨[], ⟨hcoded, ?_, ?_⟩, by simp⟩
    · rw [List.append_nil]
      exact h.entries
    · rw [List.append_nil]
      exact hdropped

theorem Filed.completes {w w' : Worker} (h : Completes w w') :
    ∀ {drops : List Drop}, Filed w drops → ∃ more, Filed w' (drops ++ more) ∧
      ∀ d ∈ more, d.code = .success ∧ d.wl.chunkTaskIdx ≠ [] := by
  induction h with
  | refl w => exact fun hfiled => ⟨[], by rwa [List.append_nil], by simp⟩
  | step hinv he hown hnew hok _ ih =>
      intro drops hfiled
      obtain ⟨more, hfiled', hmore⟩ := hfiled.completeChunk hinv he hown hnew hok
      obtain ⟨rest, hfiled'', hrest⟩ := ih hfiled'
      refine ⟨more ++ rest, by rwa [← List.append_assoc], fun d hd => ?_⟩
      rcases List.mem_append.mp hd with hd | hd
      · exact hmore d hd
      · exact hrest d hd

/-- **Aborting** files everything in flight, with the abort's code. -/
theorem Filed.abortAll {w : Worker} {drops : List Drop} (h : Filed w drops) (hinv : w.Inv)
    (hlive : w.Live) {code : ResponseCode} (hcode : code ≠ .success) :
    ∃ more, Filed (w.abortAll code) (drops ++ more) ∧
      ∀ d ∈ more, d.code = code ∧ d.wl.chunkTaskIdx ≠ [] := by
  refine ⟨w.inflight.map (fun e => ⟨e.1, e.2.reportWorkload code, code⟩), ⟨?_, ?_, ?_⟩, ?_⟩
  · simp [Worker.abortAll]
  · rw [List.map_append, h.entries, List.map_map]
    rfl
  · intro d hd
    rcases List.mem_append.mp hd with hd | hd
    · exact h.dropped d hd
    · obtain ⟨e, he, rfl⟩ := List.mem_map.mp hd
      exact .tracked (hinv.tracked e he) (h.coded e he) (iff_of_false hcode (hlive e he))
  · intro d hd
    obtain ⟨e, he, rfl⟩ := List.mem_map.mp hd
    exact ⟨rfl, List.ne_nil_of_length_pos (hinv.tracked e he).size_pos⟩

/-- One more workload that never had chunks. -/
theorem Filed.whole {w w' : Worker} {drops : List Drop} (h : Filed w drops) {wl : Inflight}
    {code : ResponseCode} (hidx : wl.chunkTaskIdx = [])
    (hlog : ∀ r ∈ wl.workload, ∀ f ∈ r.run.log, f.ret = code)
    (hinflight : w'.inflight = w.inflight) (hcredits : w'.credits = w.credits)
    (hreported : w'.reported = w.reported ++ [(0, wl)]) :
    Filed w' (drops ++ [⟨0, wl, code⟩]) := by
  refine ⟨by rw [hinflight, hcredits]; exact h.coded, ?_, fun d hd => ?_⟩
  · rw [List.map_append, h.entries, hreported]
    rfl
  · rcases List.mem_append.mp hd with hd | hd
    · rw [hcredits]
      exact h.dropped d hd
    · rw [List.mem_singleton.mp hd]
      exact .whole hidx hlog

/-! ## §5. Over whole runs. -/

/-- The code of the abort a step makes, where it makes one. -/
def Action.abortCode (s : State) : Action → ResponseCode
  | .execute workload backend =>
      match s.worker.receive workload backend with
      | .ok (_, false) => (s.worker.capacity workload backend).1.discardCode workload
      | _ => .success
  | .drain stopped round => drainCode stopped round
  | _ => .success

/-- What is written down of a dropped workload: one with every chunk completed
has run to its end, any other was aborted. -/
def Drop.of (credits : List (Nat × ResponseCode)) (code : ResponseCode) (e : Nat × Inflight) :
    Drop :=
  ⟨e.1, e.2,
    if e.2.chunkTaskIdx ≠ [] ∧ openHandles credits e.1 (blockSize e.2) = [] then .success else code⟩

/-- A worker with its backend, and what it has dropped. -/
structure Journal where
  base : State
  drops : List Drop

/-- The journal after a step. -/
def Journal.next (s : Journal) (a : Action) (t : State) : Journal :=
  ⟨t, s.drops ++ (t.worker.reported.drop s.base.worker.reported.length).map
    (Drop.of t.worker.credits (a.abortCode s.base))⟩

/-- The worker's system, with its journal kept. -/
def journal : System Journal Action where
  init s := Init s.base ∧ s.drops = []
  step s a t := Step s.base a t.base ∧ t = s.next a t.base

theorem Dropped.of_eq {credits : List (Nat × ResponseCode)} {d : Drop} (h : Dropped credits d)
    {code : ResponseCode} (hcode : d.code = .success ∨ d.code = code)
    (hwhole : d.wl.chunkTaskIdx = [] → d.code = code) :
    Drop.of credits code (d.base, d.wl) = d := by
  cases h with
  | whole hidx hlog => rw [Drop.of, if_neg (fun hand => hand.1 hidx), ← hwhole hidx]
  | @tracked base wl c htracked hcoded hended =>
      have hidx : (wl.reportWorkload c).chunkTaskIdx ≠ [] :=
        List.ne_nil_of_length_pos htracked.size_pos
      by_cases hsuccess : c = .success
      · have hnone : openHandles credits base (blockSize (wl.reportWorkload c)) = [] := by
          refine List.eq_nil_iff_forall_not_mem.mpr (fun handle hopen => ?_)
          obtain ⟨hle, hlt, hnew⟩ := mem_openHandles.mp hopen
          exact hnew (htracked.all_credited (hended.mp hsuccess) ⟨hle, hlt⟩)
        rw [Drop.of, if_pos ⟨hidx, hnone⟩, hsuccess]
      · obtain ⟨handle, hopen⟩ := htracked.exists_open (fun hzero => hsuccess (hended.mpr hzero))
        have hopen : handle ∈ openHandles credits base (blockSize (wl.reportWorkload c)) := hopen
        rw [Drop.of, if_neg (fun hand => ?_), ← hcode.resolve_left hsuccess]
        rw [hand.2] at hopen
        simp at hopen

/-- The worker's invariant, and the journal is right. -/
structure Recorded (s : Journal) : Prop where
  good : Good s.base
  filed : Filed s.base.worker s.drops

/-- **A step files what it drops.** -/
theorem Filed.step {s t : State} {a : Action} {drops : List Drop} (h : Filed s.worker drops)
    (hsteady : Steady s) (hfit : StepFits s a) (hstep : Step s a t) :
    ∃ more, Filed t.worker (drops ++ more) ∧
      ∀ d ∈ more, (d.code = .success ∨ d.code = a.abortCode s) ∧
        (d.wl.chunkTaskIdx = [] → d.code = a.abortCode s) := by
  cases hstep with
  | execute workload backend hpc =>
      obtain ⟨w', enqueued, hok, -, hrec, -, -, hentered, hdiscarded⟩ :=
        receive_ok hsteady.inv backend hfit
      simp only [hok, State.after]
      cases enqueued with
      | true =>
          have hcode : (Action.execute workload backend).abortCode s = .success := by
            simp only [Action.abortCode, hok]
          -- its chunks are queued, or it had nothing to read
          cases hentered rfl with
          | @cut wl hinflight hreported herrors htasks =>
              refine ⟨[], ⟨fun e he => ?_, ?_, ?_⟩, by simp⟩
              · have he : e ∈ w'.inflight := he
                rw [hinflight, List.mem_append, List.mem_singleton] at he
                rw [hrec.credits]
                rcases he with he | rfl
                · exact h.coded e he
                · exact coded_fresh (fun c hc => (hsteady.inv.credits_known c hc).2) herrors htasks
              · rw [List.append_nil, h.entries, hreported]
              · rw [List.append_nil, hrec.credits]
                exact h.dropped
          | @inline wl hinflight hidx hreported herrors hsuccess =>
              refine ⟨_, @Filed.whole s.worker w' drops h (wl.reportWorkload .success) .success hidx ?_ hinflight hrec.credits hreported, ?_⟩
              · intro r hr f hf
                obtain ⟨r₀, hr₀, rfl⟩ := List.mem_map.mp hr
                have hnone : wl.errorCode .success r₀.batch = .success := by
                  rw [Inflight.errorCode, if_pos rfl, herrors]
                  rfl
                have hf : f ∈ (r₀.run.handleError (wl.errorCode .success r₀.batch)).log := hf
                rw [hnone, BatchRun.handleError, if_pos rfl] at hf
                exact hsuccess r₀ hr₀ f hf
              · intro d hd
                rw [List.mem_singleton.mp hd, hcode]
                exact ⟨.inl rfl, fun _ => rfl⟩
      | false =>
          obtain ⟨hinflight, hreported⟩ := hdiscarded rfl
          have hcode : (Action.execute workload backend).abortCode s
              = (s.worker.capacity workload backend).1.discardCode workload := by
            simp only [Action.abortCode, hok]
          -- the plugin could not be set up: the whole workload is given up
          refine ⟨_, @Filed.whole s.worker w' drops h _ ((Action.execute workload backend).abortCode s)
            rfl ?_ hinflight hrec.credits hreported, ?_⟩
          · intro r hr f hf
            obtain ⟨r₀, hr₀, rfl⟩ := List.mem_map.mp hr
            obtain ⟨batch, -, rfl⟩ := List.mem_map.mp hr₀
            have hfails := discardCode_ne (s.worker.capacity workload backend).1 workload
            rcases handleError_log hf with hold | ⟨hret, -⟩
            · simp [Running.start, startRun] at hold
            · rw [hret, hcode, Inflight.errorCode, if_neg hfails]
          · intro d hd
            rw [List.mem_singleton.mp hd]
            exact ⟨.inr rfl, fun _ => rfl⟩
  | fill q hq hpc => exact ⟨[], by rwa [List.append_nil], by simp⟩
  | submit outcome q q' chunk hq hpc htake =>
      obtain ⟨hinv, hopen, -, hnot⟩ := take_ok hsteady.inv hq htake
      obtain ⟨w', issued, hok, -, -, -, -, hcompletes⟩ := submit_ok hinv outcome hopen hnot
      have htaken : Filed { s.worker with queue := some q' } drops :=
        ⟨h.coded, h.entries, h.dropped⟩
      obtain ⟨more, hfiled, hmore⟩ := htaken.completes hcompletes
      simp only [hok, State.after]
      exact ⟨more, hfiled, fun d hd => ⟨.inl (hmore d hd).1, fun hnil => absurd hnil (hmore d hd).2⟩⟩
  | drain stopped round delivered next hdraining hround =>
      obtain ⟨w', hok, -, -, -, w₁, hcompletes, hinv, hkept, hlast⟩ :=
        drainBatch_ok hsteady.inv hsteady.env hround
      obtain ⟨more, hfiled, hmore⟩ := h.completes hcompletes
      have hsettled : ∀ d ∈ more, (d.code = .success ∨ d.code = drainCode stopped round) ∧
          (d.wl.chunkTaskIdx = [] → d.code = drainCode stopped round) :=
        fun d hd => ⟨.inl (hmore d hd).1, fun hnil => absurd hnil (hmore d hd).2⟩
      simp only [hok, State.after]
      -- the round ends there, or the rest is aborted
      rcases hlast with rfl | rfl
      · exact ⟨more, hfiled, hsettled⟩
      · obtain ⟨rest, hfiled', hrest⟩ :=
          hfiled.abortAll hinv (hkept.live hsteady.live) (drainCode_ne stopped round)
        refine ⟨more ++ rest, by rwa [← List.append_assoc], fun d hd => ?_⟩
        rcases List.mem_append.mp hd with hd | hd
        · exact hsettled d hd
        · exact ⟨.inr (hrest d hd).1, fun hnil => absurd hnil (hrest d hd).2⟩
  | pumped q hq hdone hpc => exact ⟨[], by rwa [List.append_nil], by simp⟩
  | close q hq hpc hroom => exact ⟨[], by rwa [List.append_nil], by simp⟩

theorem Recorded.step {s t : Journal} {a : Action} (h : Recorded s) (hfit : StepFits s.base a)
    (hstep : journal.step s a t) : Recorded t := by
  obtain ⟨hstep, hnext⟩ := hstep
  obtain ⟨more, hfiled, hmore⟩ := h.filed.step h.good.steady hfit hstep
  refine ⟨good_step h.good hfit hstep, ?_⟩
  have hnew : t.base.worker.reported.drop s.base.worker.reported.length
      = more.map (fun d => (d.base, d.wl)) := by
    rw [← hfiled.entries, ← h.filed.entries, List.map_append, List.drop_left]
  have hdrops : t.drops = s.drops ++ more := by
    rw [hnext]
    show s.drops ++ _ = _
    rw [hnew, List.map_map]
    refine congrArg _ ((List.map_congr_left (fun d hd => ?_)).trans (List.map_id _))
    exact (hfiled.dropped d (List.mem_append.mpr (.inr hd))).of_eq (hmore d hd).1 (hmore d hd).2
  rw [hdrops]
  exact hfiled

theorem reachable_recorded : ∀ s, (journal.restrict (fun s a => StepFits s.base a)).Reachable s →
    Recorded s := by
  apply System.Reachable.invariant
  · intro s hinit
    obtain ⟨hinit, hdrops⟩ := hinit
    refine ⟨good_init hinit, ?_, ?_, ?_⟩
    · obtain ⟨chunk, hchunk, hworker⟩ := hinit.worker_eq
      rw [hworker]
      simp [Worker.new]
    · obtain ⟨chunk, hchunk, hworker⟩ := hinit.worker_eq
      rw [hdrops, hworker]
      rfl
    · rw [hdrops]
      simp
  · intro s a t _ h hstep
    exact h.step hstep.1 hstep.2

/-- **WHEN THE CODES ARE TRUTHFUL.**  In every run whose workloads fit in the
word arithmetic of `enqueue`, every workload dropped is in the journal, and
its ranges have codes of their own exactly when the completions agree. -/
theorem truthful_iff {s : Journal}
    (h : (journal.restrict (fun s a => StepFits s.base a)).Reachable s) :
    s.drops.map (fun d => (d.base, d.wl)) = s.base.worker.reported ∧
      ∀ d ∈ s.drops, (Truthful s.base.worker.credits d ↔ Agrees s.base.worker.credits d) := by
  have hrecorded := reachable_recorded s h
  exact ⟨hrecorded.filed.entries, fun d hd => (hrecorded.filed.dropped d hd).truthful⟩

/-! ## §6. Two ranges of one object. -/

/-- Two ranges of a byte each, of one object. -/
def rangesBatch : Batch :=
  ⟨1, 0, 0, "s3://bucket/object", some ⟨"s3", "bucket", "object"⟩,
    [⟨⟨0, 0, 0, 1, 1, 0⟩, ⟨0, 1, 1, 0⟩⟩, ⟨⟨1, 0, 1, 1, 1, 1⟩, ⟨1, 1, 2, 0⟩⟩], twoByteRange⟩

/-- A workload of these, in chunks of one byte. -/
def twoRanges : Workload where
  config := ⟨1, 1, 1, 1⟩
  batches := [rangesBatch]
  owned := by simp [rangesBatch]

/-- The two ranges cut, a chunk each. -/
def cutRanges : Inflight :=
  ⟨twoRanges.batches.map Running.start, [0, 1], [⟨0, 0, 1, .success⟩, ⟨0, 1, 1, .success⟩], [], 2⟩

/-- The worker after `enqueue`. -/
def rangesWorker : Worker where
  chunkBytesize := 1
  chunk_pos := by decide
  reader := true
  readerError := .success
  queue := some ⟨18446744073709551615, 0, [⟨⟨1, 0, 1, 0⟩, 1⟩, ⟨⟨2, 1, 1, 1⟩, 1⟩]⟩
  inflight := [(1, cutRanges)]
  asyncHandleCounter := 3
  enqueued := [⟨1, 0, 1, 0⟩, ⟨2, 1, 1, 1⟩]
  credits := []
  reported := []

theorem cut_twoRanges :
    enqueueLoop 1 (by decide) 1 (placedTasks 0 twoRanges.batches)
      ⟨{ Inflight.ofWorkload twoRanges with chunkTaskIdx := [0, 0] }, [], 0⟩
      = .ok ⟨{ cutRanges with remainingTasks := 0 }, [⟨1, 0, 1, 0⟩, ⟨2, 1, 1, 1⟩], 2⟩ := by
  have hfirst : enqueueTask 1 (by decide) 1 0 0 ⟨⟨0, 0, 0, 1, 1, 0⟩, ⟨0, 1, 1, 0⟩⟩
      ⟨{ Inflight.ofWorkload twoRanges with chunkTaskIdx := [0, 0] }, [], 0⟩
      = .ok ⟨⟨twoRanges.batches.map Running.start, [0, 0], [⟨0, 0, 1, .success⟩], [], 0⟩,
          [⟨1, 0, 1, 0⟩], 1⟩ := by
    show chunkLoop 1 _ 1 0 0 1 0 _ = _
    rw [chunkLoop]
    exact chunkLoop_zero _ _ _ _ _ _
  have hsecond : enqueueTask 1 (by decide) 1 0 1 ⟨⟨1, 0, 1, 1, 1, 1⟩, ⟨1, 1, 2, 0⟩⟩
      ⟨⟨twoRanges.batches.map Running.start, [0, 0], [⟨0, 0, 1, .success⟩], [], 0⟩,
        [⟨1, 0, 1, 0⟩], 1⟩
      = .ok ⟨{ cutRanges with remainingTasks := 0 }, [⟨1, 0, 1, 0⟩, ⟨2, 1, 1, 1⟩], 2⟩ := by
    show chunkLoop 1 _ 1 1 1 1 1 _ = _
    rw [chunkLoop]
    exact chunkLoop_zero _ _ _ _ _ _
  show enqueueLoop 1 _ 1 [⟨0, 0, ⟨⟨0, 0, 0, 1, 1, 0⟩, ⟨0, 1, 1, 0⟩⟩⟩,
    ⟨0, 1, ⟨⟨1, 0, 1, 1, 1, 1⟩, ⟨1, 1, 2, 0⟩⟩⟩] _ = _
  simp only [enqueueLoop, hfirst, hsecond]

theorem receive_twoRanges :
    fresh.worker.receive twoRanges unbounded = .ok (rangesWorker, true) := by
  have hopen : fresh.worker.receive twoRanges unbounded
      = (Worker.enqueue { rangesWorker with
          queue := some (.new 18446744073709551615)
          inflight := []
          asyncHandleCounter := 1
          enqueued := [] } twoRanges).map (·, true) := rfl
  have hcut : Worker.enqueue { rangesWorker with
          queue := some (.new 18446744073709551615)
          inflight := []
          asyncHandleCounter := 1
          enqueued := [] } twoRanges = .ok rangesWorker := by
    refine Eq.trans (enqueue_of_cut ?_ (Nat.succ_ne_zero 1) ?_ cut_twoRanges) ?_ <;> rfl
  rw [hopen, hcut]
  rfl

/-- What the worker has dropped when the first read fails with one code, and
the second with another. -/
def sharedDrop : Drop where
  base := 1
  wl := ⟨[⟨rangesBatch, ⟨[true, true], 0,
      [⟨0, .fileTruncatedError⟩, ⟨1, .fileTruncatedError⟩]⟩⟩], [0, 1],
    [⟨0, 0, 0, .fileTruncatedError⟩, ⟨0, 1, 0, .fileAccessError⟩], [(0, .fileTruncatedError)], 0⟩
  code := .success

theorem sharedDrop_reached :
    ∃ s, (journal.restrict (fun s a => StepFits s.base a)).Reachable s ∧
      s.drops = [sharedDrop] ∧
      s.base.worker.credits = [(1, .fileTruncatedError), (2, .fileAccessError)] := by
  have hfits : StepFits fresh (.execute twoRanges unbounded) := by
    refine ⟨fun task htask _ => ?_, by decide⟩
    rcases List.mem_cons.mp htask with rfl | htask
    · decide
    · obtain rfl := List.mem_singleton.mp htask
      decide
  have hexecute := Step.execute (s := fresh) twoRanges unbounded rfl
  rw [receive_twoRanges] at hexecute
  have next : ∀ {s : Journal} {t : State} (a : Action),
      (journal.restrict (fun s a => StepFits s.base a)).Reachable s → StepFits s.base a →
      Step s.base a t →
      (journal.restrict (fun s a => StepFits s.base a)).Reachable (s.next a t) :=
    fun _ h hfit hstep => .step h ⟨hfit, hstep, rfl⟩
  have h₁ := next _ (.init (show journal.init ⟨fresh, []⟩ from ⟨fresh_init, rfl⟩)) hfits hexecute
  have h₂ := next .fill h₁ trivial (.fill _ rfl rfl)
  have h₃ := next (.submit .success) h₂ trivial (.submit .success _ _ _ rfl (.inl rfl) rfl)
  have h₄ := next (.submit .success) h₃ trivial (.submit .success _ _ _ rfl (.inl rfl) rfl)
  have h₅ := next .pumped h₄ trivial (.pumped _ rfl rfl (.inr ⟨rfl, rfl⟩))
  have h₆ := next .fill h₅ trivial (.fill _ rfl rfl)
  have h₇ := next .close h₆ trivial (.close _ rfl rfl (by decide))
  have h₈ := next (.drain false ⟨.success, [⟨1, .fileTruncatedError⟩, ⟨2, .fileAccessError⟩]⟩) h₇
    trivial (.drain false _ [2, 1] _ (.tail _ rfl rfl)
      (.real (by decide) (by decide) (by decide) (.real (by decide) (by decide) (by decide) .nil)))
  exact ⟨_, h₈, rfl, rfl⟩

/-- The two ranges, in the journal. -/
theorem truthful_iff_twoRanges :
    ∃ s, (journal.restrict (fun s a => StepFits s.base a)).Reachable s ∧ sharedDrop ∈ s.drops ∧
      (Truthful s.base.worker.credits sharedDrop ↔ Agrees s.base.worker.credits sharedDrop) := by
  obtain ⟨s, hs, hdrops, -⟩ := sharedDrop_reached
  have hmem : sharedDrop ∈ s.drops := by
    rw [hdrops]
    exact List.mem_singleton_self _
  exact ⟨s, hs, hmem, (truthful_iff hs).2 sharedDrop hmem⟩

/-- **A range with another range's code**: the chunk of the second range fails
with FileAccessError, and the range reports the first one's
FileTruncatedError. -/
theorem shared_code :
    ∃ s, (journal.restrict (fun s a => StepFits s.base a)).Reachable s ∧
      ∃ d ∈ s.drops, ¬ Truthful s.base.worker.credits d := by
  obtain ⟨s, hs, hdrops, hcredits⟩ := sharedDrop_reached
  refine ⟨s, hs, sharedDrop, by rw [hdrops]; exact List.mem_singleton_self _, fun htruthful => ?_⟩
  rcases htruthful.failed _ (List.mem_singleton.mpr rfl) ⟨1, .fileTruncatedError⟩ (by decide) _ rfl
    (by decide) with ⟨handle, ⟨t, hrange, hown⟩, hmem⟩ | ⟨habort, -⟩
  · rw [hcredits] at hmem
    have hfirst : handle = 1 := by simpa using hmem
    -- the chunk with that code is the first range's
    rw [hfirst] at hown
    have ht : t = 0 := (Option.some.inj hown.2).symm
    rw [ht] at hrange
    exact absurd hrange (by decide)
  · exact absurd habort (by decide)

end ModelStreamer.ObjectStorage
