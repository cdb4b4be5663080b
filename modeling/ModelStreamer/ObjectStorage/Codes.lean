/-
  ModelStreamer.ObjectStorage.Codes
  ─────────────────────────────────
  **WHICH CODE A TASK AND A FILE GET.**

  A task keeps the code of its first failing chunk, a file the code of its
  first task to settle with a failure.  Both are read off the completions
  credited so far, in their order:

    • `taskCode` — what a task of the block at `base` keeps,
    • `settled` — the tasks whose chunks are all credited, oldest first,
    • `fileCode` — what `error_by_file_index` holds for a file,
    • `Coded.completeChunk`, `Coded.other` — an entry of `_inflight` keeps
      exactly these codes, whatever order the chunks complete in.
-/
import ModelStreamer.ObjectStorage.Hooks
import ModelStreamer.Planning.Positions
import Mathlib.Data.List.Find
import Mathlib.Data.List.Infix

namespace ModelStreamer.ObjectStorage

open ModelStreamer.Lib ModelStreamer.Planning ModelStreamer.Delivery

/-! ## §1. The code of a task. -/

instance (base : Nat) (chunkTaskIdx : List Nat) (t handle : Nat) :
    Decidable (Owns base chunkTaskIdx t handle) :=
  inferInstanceAs (Decidable (_ ∧ _))

/-- The code of the first failing chunk of task `t`; Success when none has
failed. -/
def taskCode (credits : List (Nat × ResponseCode)) (base : Nat) (chunkTaskIdx : List Nat)
    (t : Nat) : ResponseCode :=
  ((credits.find? (fun c => decide (Owns base chunkTaskIdx t c.1 ∧ c.2 ≠ .success))).map
    Prod.snd).getD .success

section

variable {credits : List (Nat × ResponseCode)} {base : Nat} {chunkTaskIdx : List Nat}
  {t handle : Nat}

/-- A code other than Success is one that a chunk of the task produced. -/
theorem taskCode_produced (h : taskCode credits base chunkTaskIdx t ≠ .success) :
    ∃ handle, Owns base chunkTaskIdx t handle ∧
      (handle, taskCode credits base chunkTaskIdx t) ∈ credits := by
  unfold taskCode at h ⊢
  cases hfind : credits.find?
      (fun c => decide (Owns base chunkTaskIdx t c.1 ∧ c.2 ≠ .success)) with
  | none => exact absurd (by rw [hfind]; rfl) h
  | some c =>
      have hown := List.find?_some hfind
      simp only [decide_eq_true_eq] at hown
      exact ⟨c.1, hown.1, List.mem_of_find?_eq_some hfind⟩

/-- **A task that has failed keeps its code**; one that has not takes the code
of the chunk credited. -/
theorem taskCode_credit (ret : ResponseCode) :
    taskCode (credits ++ [(handle, ret)]) base chunkTaskIdx t
      = if taskCode credits base chunkTaskIdx t = .success ∧ Owns base chunkTaskIdx t handle
        then ret else taskCode credits base chunkTaskIdx t := by
  unfold taskCode
  rw [List.find?_append]
  cases hfind : credits.find?
      (fun c => decide (Owns base chunkTaskIdx t c.1 ∧ c.2 ≠ .success)) with
  | some c =>
      have hown := List.find?_some hfind
      simp only [decide_eq_true_eq] at hown
      simp [hown.2]
  | none =>
      by_cases hown : Owns base chunkTaskIdx t handle
      · by_cases hret : ret = .success <;> simp [hown, hret]
      · simp [hown]

/-- A chunk of another task changes nothing. -/
theorem taskCode_other (ret : ResponseCode) (hown : ¬ Owns base chunkTaskIdx t handle) :
    taskCode (credits ++ [(handle, ret)]) base chunkTaskIdx t
      = taskCode credits base chunkTaskIdx t := by
  rw [taskCode_credit, if_neg (fun h => hown h.2)]

/-- Nothing is credited to a block above every credit. -/
theorem taskCode_fresh (h : ∀ c ∈ credits, c.1 < base) :
    taskCode credits base chunkTaskIdx t = .success := by
  by_contra hne
  obtain ⟨handle, hown, hmem⟩ := taskCode_produced hne
  have hlt := h _ hmem
  have hle := hown.1
  omega

/-! ## §2. The order in which tasks settle. -/

/-- The task whose last chunk the newest credit is for. -/
def settledBy (credits : List (Nat × ResponseCode)) (base : Nat) (chunkTaskIdx : List Nat) :
    Option Nat :=
  match credits.getLast? with
  | none => none
  | some c =>
      if base ≤ c.1 then
        (chunkTaskIdx[c.1 - base]?).filter
          (fun t => decide (openChunks credits base chunkTaskIdx t = 0))
      else none

/-- The tasks whose chunks are all credited, in the order of their last
chunks. -/
def settled (credits : List (Nat × ResponseCode)) (base : Nat) (chunkTaskIdx : List Nat) :
    List Nat :=
  credits.inits.filterMap (fun past => settledBy past base chunkTaskIdx)

theorem settled_credit (c : Nat × ResponseCode) :
    settled (credits ++ [c]) base chunkTaskIdx
      = settled credits base chunkTaskIdx
        ++ (settledBy (credits ++ [c]) base chunkTaskIdx).toList := by
  unfold settled
  rw [List.inits_append, List.filterMap_append]
  cases hlast : settledBy (credits ++ [c]) base chunkTaskIdx <;> simp [hlast]

/-- A credit of the task settles it, once none of its chunks is open. -/
theorem settledBy_own (ret : ResponseCode) (hown : Owns base chunkTaskIdx t handle) :
    settledBy (credits ++ [(handle, ret)]) base chunkTaskIdx
      = if openChunks (credits ++ [(handle, ret)]) base chunkTaskIdx t = 0 then some t
        else none := by
  unfold settledBy
  rw [List.getLast?_append_cons, List.getLast?_singleton]
  simp only [if_pos hown.1, hown.2, Option.filter_some, decide_eq_true_eq]

/-- A credit outside of the block settles nothing. -/
theorem settledBy_other (ret : ResponseCode)
    (hout : handle < base ∨ base + chunkTaskIdx.length ≤ handle) :
    settledBy (credits ++ [(handle, ret)]) base chunkTaskIdx = none := by
  unfold settledBy
  rw [List.getLast?_append_cons, List.getLast?_singleton]
  simp only
  split
  next hle =>
    have hnone : chunkTaskIdx[handle - base]? = none := by
      rw [List.getElem?_eq_none_iff]
      omega
    rw [hnone, Option.filter_none]
  next => rfl

theorem openChunks_credit_le (ret : ResponseCode) :
    openChunks (credits ++ [(handle, ret)]) base chunkTaskIdx t
      ≤ openChunks credits base chunkTaskIdx t := by
  unfold openChunks
  rw [openHandles_credit]
  exact List.erase_sublist.countP_le

/-- Settled tasks have no chunk open. -/
theorem settled_closed (h : t ∈ settled credits base chunkTaskIdx) :
    openChunks credits base chunkTaskIdx t = 0 := by
  induction credits using List.reverseRecOn with
  | nil => simp [settled, settledBy] at h
  | append_singleton past c ih =>
      rw [settled_credit, List.mem_append, Option.mem_toList] at h
      rcases h with hold | hnew
      · have hzero := ih hold
        have hle := @openChunks_credit_le past base chunkTaskIdx t c.1 c.2
        show openChunks (past ++ [(c.1, c.2)]) base chunkTaskIdx t = 0
        omega
      · unfold settledBy at hnew
        rw [List.getLast?_append_cons, List.getLast?_singleton] at hnew
        simp only at hnew
        split at hnew
        · exact of_decide_eq_true (Option.mem_filter_iff.mp hnew).2
        · simp at hnew

end

/-! ## §3. The code of a file. -/

/-- The file and the range task `t` of a workload reads for. -/
def Inflight.rangeOf (wl : Inflight) (t : Nat) : Option (Nat × Nat) :=
  wl.reads[t]?.map (fun p => p.value.request.key)

/-- The code of the first task of the file to settle with a failure. -/
def fileCode (credits : List (Nat × ResponseCode)) (base : Nat) (wl : Inflight)
    (fileIndex : Nat) : Option ResponseCode :=
  ((settled credits base wl.chunkTaskIdx).find? (fun t => decide
    ((wl.rangeOf t).map Prod.fst = some fileIndex ∧
      taskCode credits base wl.chunkTaskIdx t ≠ .success))).map
    (taskCode credits base wl.chunkTaskIdx)

theorem tryEmplace_head {α : Type} (entries : List (Nat × α)) (key : Nat) (value : α)
    {e : Nat × α} (h : e ∈ tryEmplace entries key value) {k : Nat} (hkey : k < key)
    (hentries : ∀ e ∈ entries, k < e.1) : k < e.1 := by
  rcases mem_tryEmplace h with rfl | he
  · exact hkey
  · exact hentries e he

theorem tryEmplace_ascending {α : Type} {entries : List (Nat × α)} (h : Ascending entries)
    (key : Nat) (value : α) : Ascending (tryEmplace entries key value) := by
  induction entries with
  | nil => exact List.pairwise_singleton _ _
  | cons e entries ih =>
      obtain ⟨hhead, hrest⟩ := List.pairwise_cons.mp h
      rw [tryEmplace]
      split
      next hlt =>
        refine List.pairwise_cons.mpr ⟨fun e' he' => ?_, h⟩
        rcases List.mem_cons.mp he' with rfl | he'
        · exact hlt
        · exact hlt.trans (hhead e' he')
      next hle =>
        split
        next => exact h
        next hne =>
          refine List.pairwise_cons.mpr ⟨fun e' he' => ?_, ih hrest⟩
          exact tryEmplace_head entries key value he' (show e.1 < key by omega) hhead

/-- **`emplace` keeps what is there.** -/
theorem find_tryEmplace {α : Type} {entries : List (Nat × α)} (h : Ascending entries)
    (key : Nat) (value : α) (k : Nat) :
    find (tryEmplace entries key value) k
      = if k = key then some ((find entries key).getD value) else find entries k := by
  induction entries with
  | nil =>
      rw [tryEmplace, find_cons]
      by_cases hk : key = k
      · rw [if_pos hk, if_pos hk.symm]
        rfl
      · rw [if_neg hk, if_neg (Ne.symm hk)]
  | cons e entries ih =>
      obtain ⟨hhead, hrest⟩ := List.pairwise_cons.mp h
      rw [tryEmplace]
      split
      next hlt =>
        -- every key there is above the new one
        have hnone : find (e :: entries) key = none := by
          rw [find, Option.map_eq_none_iff, List.find?_eq_none]
          intro e' he'
          simp only [decide_eq_true_eq]
          rcases List.mem_cons.mp he' with rfl | he'
          · omega
          · have := hhead e' he'
            omega
        rw [find_cons, hnone]
        by_cases hk : key = k
        · rw [if_pos hk, if_pos hk.symm]
          rfl
        · rw [if_neg hk, if_neg (Ne.symm hk)]
      next hle =>
        split
        next heq =>
          rw [find_cons, find_cons]
          by_cases hk : e.1 = k
          · rw [if_pos hk, if_pos (by omega), if_pos heq.symm]
            rfl
          · rw [if_neg hk, if_neg (by omega)]
        next hne =>
          rw [find_cons, ih hrest, find_cons, find_cons, if_neg (show e.1 ≠ key by omega)]
          by_cases hk : e.1 = k
          · rw [if_pos hk, if_pos hk, if_neg (by omega)]
          · rw [if_neg hk, if_neg hk]

/-! ## §4. What an entry of `_inflight` keeps. -/

/-- The tasks and the files of an entry have these codes. -/
structure Coded (credits : List (Nat × ResponseCode)) (base : Nat) (wl : Inflight) : Prop where
  ascending : Ascending wl.errorByFileIndex
  tasks : ∀ t ts, wl.tasks[t]? = some ts → ts.error = taskCode credits base wl.chunkTaskIdx t
  files : ∀ fileIndex, find wl.errorByFileIndex fileIndex = fileCode credits base wl fileIndex

/-- A workload nothing is credited to has no code. -/
theorem coded_fresh {credits : List (Nat × ResponseCode)} {base : Nat} {wl : Inflight}
    (hcredits : ∀ c ∈ credits, c.1 < base) (herrors : wl.errorByFileIndex = [])
    (htasks : ∀ ts ∈ wl.tasks, ts.error = .success) : Coded credits base wl := by
  refine ⟨by rw [herrors]; exact List.Pairwise.nil, fun t ts hts => ?_, fun fileIndex => ?_⟩
  · rw [taskCode_fresh hcredits]
    exact htasks ts (List.mem_of_getElem? hts)
  · have hnone : (settled credits base wl.chunkTaskIdx).find? (fun t => decide
        ((wl.rangeOf t).map Prod.fst = some fileIndex ∧
          taskCode credits base wl.chunkTaskIdx t ≠ .success)) = none := by
      refine List.find?_eq_none.mpr (fun t _ => ?_)
      simp [taskCode_fresh hcredits]
    rw [herrors, fileCode, hnone]
    rfl

/-- **A chunk of another block changes no code.** -/
theorem Coded.other {credits : List (Nat × ResponseCode)} {base : Nat} {wl : Inflight}
    (h : Coded credits base wl) {handle : Nat} (ret : ResponseCode)
    (hout : handle < base ∨ base + blockSize wl ≤ handle) :
    Coded (credits ++ [(handle, ret)]) base wl := by
  have hcode : ∀ t, taskCode (credits ++ [(handle, ret)]) base wl.chunkTaskIdx t
      = taskCode credits base wl.chunkTaskIdx t := by
    intro t
    refine taskCode_other ret (fun hown => ?_)
    have hlt := hown.lt
    have hsize : blockSize wl = wl.chunkTaskIdx.length := rfl
    omega
  refine ⟨h.ascending, fun t ts hts => ?_, fun fileIndex => ?_⟩
  · rw [hcode]
    exact h.tasks t ts hts
  · rw [h.files, fileCode, fileCode, settled_credit, settledBy_other ret hout]
    simp only [hcode, Option.toList_none, List.append_nil]
    rw [show taskCode (credits ++ [(handle, ret)]) base wl.chunkTaskIdx
      = taskCode credits base wl.chunkTaskIdx from funext hcode]

/-! ## §5. Crediting a chunk of the workload. -/

theorem Owns.unique {base : Nat} {chunkTaskIdx : List Nat} {t t' handle : Nat}
    (h : Owns base chunkTaskIdx t handle) (h' : Owns base chunkTaskIdx t' handle) : t = t' :=
  Option.some.inj (h.2.symm.trans h'.2)

theorem rangeOf_congr {wl wl' : Inflight} (h : wl'.batches = wl.batches) (t : Nat) :
    wl'.rangeOf t = wl.rangeOf t := by
  rw [Inflight.rangeOf, Inflight.rangeOf, Inflight.reads, Inflight.reads, h]

/-- The place of a `TaskState`: its batch, and its task there. -/
theorem Tracked.placed {credits : List (Nat × ResponseCode)} {base : Nat} {wl : Inflight}
    (h : Tracked credits base wl) {t : Nat} {ts : TaskState} (hts : wl.tasks[t]? = some ts) :
    ∃ p r, wl.reads[t]? = some p ∧ p.ref = ts.ref ∧ wl.workload[ts.batch]? = some r ∧
      r.batch.tasks[ts.task]? = some p.value ∧ p.value.request.fileIndex = r.batch.fileIndex := by
  have href : (wl.reads.map Placed.ref)[t]? = some ts.ref := by
    rw [← h.refs, List.getElem?_map, hts]
    rfl
  rw [List.getElem?_map, Option.map_eq_some_iff] at href
  obtain ⟨p, hp, href⟩ := href
  obtain ⟨k, batch, hb, hbatch, htask⟩ :=
    mem_placedTasks.mp (List.mem_of_mem_filter (List.mem_of_getElem? hp))
  obtain ⟨hrefb, hreft⟩ := Prod.mk.inj (show (p.batch, p.task) = (ts.batch, ts.task) from href)
  rw [Inflight.batches, List.getElem?_map, Option.map_eq_some_iff] at hbatch
  obtain ⟨r, hr, rfl⟩ := hbatch
  have hk : k = ts.batch := by omega
  subst hk
  rw [hreft] at htask
  exact ⟨p, r, hp, href, hr, htask, (h.runs _ r hr).owned _ (List.mem_of_getElem? htask)⟩

/-- What completing a chunk makes of the tasks and of the errors by file. -/
theorem completeChunk_codes {wl wl' : Inflight} {t : Nat} {ret : ResponseCode} {last : Bool}
    (h : wl.completeChunk t ret = .ok (wl', last)) :
    ∃ ts, wl.tasks[t]? = some ts ∧ wl'.tasks = wl.tasks.set t (ts.completeChunk ret) ∧
      if (ts.completeChunk ret).remainingChunks = 0 ∧ (ts.completeChunk ret).error ≠ .success then
        ∃ r, wl.workload[ts.batch]? = some r ∧ wl'.errorByFileIndex
          = tryEmplace wl.errorByFileIndex r.batch.fileIndex (ts.completeChunk ret).error
      else wl'.errorByFileIndex = wl.errorByFileIndex := by
  unfold Inflight.completeChunk at h
  split at h
  · simp at h
  next ts hts =>
    refine ⟨ts, hts, ?_⟩
    split at h
    · simp at h
    · simp only at h
      split at h
      next hleft =>
        simp only [Except.ok.injEq, Prod.mk.injEq] at h
        -- the task waits for other chunks
        rw [if_neg (fun hand => hleft hand.1), ← h.1]
        exact ⟨rfl, rfl⟩
      next hleft =>
        split at h
        next herr =>
          rw [if_neg (fun hand => hand.2 herr)]
          split at h
          · simp at h
          · simp only [Except.ok.injEq, Prod.mk.injEq] at h
            rw [← h.1]
            exact ⟨rfl, rfl⟩
        next herr =>
          -- it is settled and has failed
          rw [if_pos ⟨not_not.mp hleft, herr⟩]
          split at h
          · simp at h
          next r hr =>
            simp only [Except.ok.injEq, Prod.mk.injEq] at h
            have hr : wl.workload[ts.batch]? = some r := hr
            rw [← h.1]
            exact ⟨rfl, r, hr, rfl⟩

/-- **A file keeps its code**; one without a code takes that of a task of its
own that settles with a failure. -/
theorem fileCode_credit {credits : List (Nat × ResponseCode)} {base : Nat} {wl : Inflight}
    {t handle : Nat} (ret : ResponseCode) (hown : Owns base wl.chunkTaskIdx t handle)
    (hopen : openChunks credits base wl.chunkTaskIdx t ≠ 0) (fileIndex : Nat) :
    fileCode (credits ++ [(handle, ret)]) base wl fileIndex
      = (fileCode credits base wl fileIndex).or
        (if openChunks (credits ++ [(handle, ret)]) base wl.chunkTaskIdx t = 0 ∧
            (wl.rangeOf t).map Prod.fst = some fileIndex ∧
            taskCode (credits ++ [(handle, ret)]) base wl.chunkTaskIdx t ≠ .success
          then some (taskCode (credits ++ [(handle, ret)]) base wl.chunkTaskIdx t) else none) := by
  -- the tasks settled before are others, and keep their codes
  have hold : ∀ u ∈ settled credits base wl.chunkTaskIdx,
      taskCode (credits ++ [(handle, ret)]) base wl.chunkTaskIdx u
        = taskCode credits base wl.chunkTaskIdx u := by
    intro u hu
    refine taskCode_other ret (fun hown' => hopen ?_)
    rw [hown.unique hown']
    exact settled_closed hu
  have hfind : (settled credits base wl.chunkTaskIdx).find? (fun u => decide
        ((wl.rangeOf u).map Prod.fst = some fileIndex ∧
          taskCode (credits ++ [(handle, ret)]) base wl.chunkTaskIdx u ≠ .success))
      = (settled credits base wl.chunkTaskIdx).find? (fun u => decide
        ((wl.rangeOf u).map Prod.fst = some fileIndex ∧
          taskCode credits base wl.chunkTaskIdx u ≠ .success)) :=
    List.find?_congr (fun u hu => by rw [hold u hu])
  rw [fileCode, settled_credit, settledBy_own ret hown, List.find?_append, hfind, fileCode]
  cases hfound : (settled credits base wl.chunkTaskIdx).find? (fun u => decide
      ((wl.rangeOf u).map Prod.fst = some fileIndex ∧
        taskCode credits base wl.chunkTaskIdx u ≠ .success)) with
  | some u =>
      simp only [Option.some_or, Option.map_some, hold u (List.mem_of_find?_eq_some hfound)]
  | none =>
      simp only [Option.none_or, Option.map_none]
      by_cases hzero : openChunks (credits ++ [(handle, ret)]) base wl.chunkTaskIdx t = 0
      · rw [if_pos hzero, Option.toList_some, List.find?_singleton]
        by_cases hfile : (wl.rangeOf t).map Prod.fst = some fileIndex ∧
            taskCode (credits ++ [(handle, ret)]) base wl.chunkTaskIdx t ≠ .success
        · rw [if_pos (decide_eq_true hfile), if_pos ⟨hzero, hfile⟩]
          rfl
        · rw [if_neg (by simpa using hfile), if_neg (fun hand => hfile hand.2)]
          rfl
      · rw [if_neg hzero, if_neg (fun hand => hzero hand.1)]
        rfl

/-- **The codes stay right**, whichever chunk completes. -/
theorem Coded.completeChunk {credits : List (Nat × ResponseCode)} {base : Nat}
    {wl wl' : Inflight} (h : Coded credits base wl) (htracked : Tracked credits base wl)
    {t handle : Nat} {ret : ResponseCode} {last : Bool}
    (hown : Owns base wl.chunkTaskIdx t handle) (hnew : handle ∉ credits.map Prod.fst)
    (hok : wl.completeChunk t ret = .ok (wl', last)) :
    Coded (credits ++ [(handle, ret)]) base wl' := by
  obtain ⟨ts, hts, htasks, herrors⟩ := completeChunk_codes hok
  obtain ⟨wl₁, last₁, hok₁, htracked', hidx, hbatches, -⟩ :=
    htracked.completeChunk ret hown hnew
  obtain ⟨rfl, rfl⟩ := Prod.mk.inj (Except.ok.inj (hok₁.symm.trans hok))
  obtain ⟨p, r, hp, href, hr, -, hfile⟩ := htracked.placed hts
  have hlt := (List.getElem?_eq_some_iff.mp hts).1
  have hset : wl₁.tasks[t]? = some (ts.completeChunk ret) := by
    rw [htasks, List.getElem?_set_self hlt]
  -- the first failed chunk decides, here as in the credits
  have hcode : (ts.completeChunk ret).error
      = taskCode (credits ++ [(handle, ret)]) base wl.chunkTaskIdx t := by
    rw [taskCode_credit, ← h.tasks t ts hts]
    simp only [TaskState.completeChunk]
    by_cases hret : ret = .success <;> by_cases herr : ts.error = .success <;>
      simp [hret, herr, hown]
  have hleft : (ts.completeChunk ret).remainingChunks
      = openChunks (credits ++ [(handle, ret)]) base wl.chunkTaskIdx t := by
    rw [htracked'.counted.remaining t _ hset, hidx]
  -- the chunk at hand was open until now
  have hopen : openChunks credits base wl.chunkTaskIdx t ≠ 0 := by
    have hpos := htracked.counted.remaining_pos hown hnew hts
    rw [htracked.counted.remaining t ts hts] at hpos
    omega
  have hrange : (wl.rangeOf t).map Prod.fst = some r.batch.fileIndex := by
    rw [Inflight.rangeOf, hp, ← hfile]
    rfl
  -- the ranges of the tasks do not change, so a file has the tasks it had
  have hfiles : ∀ fileIndex, fileCode (credits ++ [(handle, ret)]) base wl₁ fileIndex
      = fileCode (credits ++ [(handle, ret)]) base wl fileIndex := by
    intro fileIndex
    rw [fileCode, fileCode, hidx]
    simp only [rangeOf_congr hbatches]
  refine ⟨?_, fun t' ts' hts' => ?_, fun fileIndex => ?_⟩
  · split at herrors
    · obtain ⟨r', -, herrors⟩ := herrors
      rw [herrors]
      exact tryEmplace_ascending h.ascending _ _
    · rw [herrors]
      exact h.ascending
  · rw [hidx]
    by_cases heq : t' = t
    · subst heq
      obtain rfl := Option.some.inj (hset.symm.trans hts')
      exact hcode
    · rw [htasks, List.getElem?_set_ne (Ne.symm heq)] at hts'
      rw [taskCode_other ret (fun hown' => heq (hown'.unique hown))]
      exact h.tasks t' ts' hts'
  · rw [hfiles, fileCode_credit ret hown hopen, hrange, ← hcode, ← hleft, ← h.files]
    split at herrors
    next hfails =>
      obtain ⟨r', hr', herrors⟩ := herrors
      obtain rfl := Option.some.inj (hr.symm.trans hr')
      rw [herrors, find_tryEmplace h.ascending]
      by_cases hk : fileIndex = r.batch.fileIndex
      · rw [if_pos hk, if_pos ⟨hfails.1, by rw [hk], hfails.2⟩, hk]
        cases find wl.errorByFileIndex r.batch.fileIndex <;> rfl
      · rw [if_neg hk, if_neg (fun hand => hk (Option.some.inj hand.2.1).symm), Option.or_none]
    next hfails =>
      rw [herrors, if_neg (fun hand => hfails ⟨hand.1, hand.2.2⟩), Option.or_none]

end ModelStreamer.ObjectStorage
