/-
  ModelStreamer.Delivery.Landing
  ──────────────────────────────
  **WHERE THE BYTES OF A SUBMISSION GO.**

    • `Submission.Byte` — a byte of a range: its address, the file it is read
      from, and its position there,
    • `Submission.Reads` — the same, seen from a task: the byte is one that
      the holder of a ticket reads,
    • `Submission.Reads.byte`, `Submission.Byte.read` — the two agree: what a
      task reads is a byte of its range, and every byte of a range is read by
      a task that reports to it,
    • `Owns` — of the submissions made so far, the range is the last one
      that was given the address.
-/
import ModelStreamer.Delivery.Invariant
import ModelStreamer.Planning.Lossless

namespace ModelStreamer.Delivery

open ModelStreamer.Lib ModelStreamer.Planning

/-! ## §1. Paths. -/

theorem makeBatches_path {submissionId fileIndex : Nat} {path : String} {uri : Option StorageUri}
    (slices : List FileReadTask) :
    ∀ {vTasks : List (List Task)} {batches : List Batch},
      makeBatches submissionId fileIndex path uri slices vTasks = .ok batches →
      ∀ batch ∈ batches, batch.path = path ∧ batch.fileIndex = fileIndex := by
  induction slices with
  | nil =>
      intro vTasks batches h
      simp only [makeBatches, Except.ok.injEq] at h
      subst h
      simp
  | cons slice slices ih =>
      intro vTasks batches h
      cases vTasks with
      | nil =>
          simp only [makeBatches, Except.ok.injEq] at h
          subst h
          simp
      | cons tasks vTasks =>
          rw [makeBatches] at h
          split at h
          · exact ih h
          · split at h
            next => simp at h
            next range hrange =>
              split at h
              next => simp at h
              next rest hrest =>
                obtain rfl := Except.ok.inj h
                intro batch hbatch
                rcases List.mem_cons.mp hbatch with rfl | hbatch
                · exact ⟨rfl, rfl⟩
                · exact ih hrest batch hbatch

theorem batchesNew_path {submissionId : Nat} {path : String} {t : ContiguousTransfer}
    {bs : Batches} (h : Batches.new submissionId path t = .ok bs) :
    ∀ batch ∈ bs.batches, batch.path = path ∧ batch.fileIndex = t.fileIndex := by
  unfold Batches.new at h
  split at h
  next => simp at h
  next vTasks requests hbuild =>
    split at h
    next => simp at h
    next batches hmake =>
      obtain rfl := Except.ok.inj h
      exact makeBatches_path t.tasks hmake

/-- Every batch is read from the file its index names. -/
theorem planTransfers_path {submissionId : Nat} {request : List FileRanges}
    (ts : List ContiguousTransfer) :
    ∀ {bs : Batches}, planTransfers submissionId request ts = .ok bs →
      ∀ batch ∈ bs.batches,
        batch.path = (request[batch.fileIndex]?.map FileRanges.path).getD "" := by
  induction ts with
  | nil =>
      intro bs h
      simp only [planTransfers, Except.ok.injEq] at h
      subst h
      simp
  | cons t ts ih =>
      intro bs h
      rw [planTransfers] at h
      split at h
      next => simp at h
      next first hfirst =>
        split at h
        next => simp at h
        next rest hrest =>
          obtain rfl := Except.ok.inj h
          intro batch hbatch
          rcases List.mem_append.mp hbatch with hbatch | hbatch
          · obtain ⟨hpath, hfile⟩ := batchesNew_path hfirst batch hbatch
            rw [hpath, hfile]
          · exact ih hrest batch hbatch

theorem plan_path {config : Config} {submissionId : Nat} {request : List FileRanges} {p : Plan}
    (h : plan config submissionId request = .ok p) :
    ∀ batch ∈ p.batches,
      batch.path = (request[batch.fileIndex]?.map FileRanges.path).getD "" := by
  unfold plan at h
  split at h
  next => simp at h
  next assigner hnew =>
    split at h
    next => simp at h
    next bs hbs =>
      obtain rfl := Except.ok.inj h
      exact planTransfers_path assigner.transfers hbs

/-! ## §2. The bytes of a range. -/

/-- A byte of range `k`: it goes to an address, and is at a position of the
file at a path. -/
inductive Submission.Byte (sub : Submission) : RangeId → Nat → String → Nat → Prop
  | mk {f j x : Nat} {file : FileRanges} {range : ReadRange} (hfile : sub.request[f]? = some file)
      (hrange : file.ranges[j]? = some range) (hx : x < range.size) :
      Submission.Byte sub ⟨sub.id, f, j⟩ (wrap (range.dst + x)) file.path (range.offset + x)

theorem Submission.Byte.submission_eq {sub : Submission} {k : RangeId} {a pos : Nat}
    {path : String} (h : sub.Byte k a path pos) : k.submission = sub.id := by
  cases h
  rfl

theorem Submission.Byte.known {sub : Submission} {k : RangeId} {a pos : Nat} {path : String}
    (h : sub.Byte k a path pos) : k ∈ sub.ranges := by
  cases h with
  | @mk f j x file range hfile hrange hx =>
      have hat : rangeAt sub.request f j = some range := by
        rw [rangeAt, hfile]
        exact hrange
      exact List.mem_map.mpr ⟨⟨f, j, range⟩, mem_indexFiles.mpr ⟨Nat.zero_le _, hat⟩, rfl⟩

/-- A range has one byte for an address. -/
theorem Submission.Byte.unique {sub : Submission} {k : RangeId} {a pos pos' : Nat}
    {path path' : String} (h : sub.Byte k a path pos) (h' : sub.Byte k a path' pos') :
    path = path' ∧ pos = pos' := by
  cases h with
  | @mk f j x file range hfile hrange hx =>
      generalize ha : wrap (range.dst + x) = a at h'
      cases h' with
      | @mk f j x' file' range' hfile' hrange' hx' =>
          rw [hfile, Option.some.injEq] at hfile'
          subst hfile'
          rw [hrange, Option.some.injEq] at hrange'
          subst hrange'
          -- the range is shorter than the memory
          have hsize := range.size_lt
          unfold wrap at ha
          exact ⟨rfl, by omega⟩

/-! ## §3. The bytes of a task. -/

/-- A byte the holder of a ticket reads, one of those of `sub`. -/
inductive Submission.Reads (sub : Submission) : Ticket → Nat → String → Nat → Prop
  | mk {job : Job} {i y : Nat} {task : Task} (hjob : job ∈ sub.jobs)
      (htask : job.batch.tasks[i]? = some task) (hy : y < task.info.bytesize) :
      Submission.Reads sub (job.ticket i task) (wrap (task.destination + y)) job.batch.path
        (task.info.offset + y)

theorem mem_tickets {sub : Submission} {job : Job} (hjob : job ∈ sub.jobs) {i : Nat} {task : Task}
    (htask : job.batch.tasks[i]? = some task) : job.ticket i task ∈ sub.tickets := by
  obtain ⟨hi, hget⟩ := List.getElem?_eq_some_iff.mp htask
  refine List.mem_flatMap.mpr ⟨job, hjob, List.mem_mapIdx.mpr ⟨i, hi, ?_⟩⟩
  rw [hget]

theorem Submission.Reads.ticket {sub : Submission} {t : Ticket} {a pos : Nat} {path : String}
    (h : sub.Reads t a path pos) : t ∈ sub.tickets := by
  cases h with
  | mk hjob htask hy => exact mem_tickets hjob htask

/-- A place of the plan is one job. -/
theorem job_unique {sub : Submission} {job job' : Job} (h : job ∈ sub.jobs) (h' : job' ∈ sub.jobs)
    (hposition : job.position = job'.position) : job = job' :=
  List.inj_on_of_nodup_map (jobs_positions sub) h h' hposition

/-- **What a task reads is a byte of its range.** -/
theorem Submission.Reads.byte {sub : Submission} (hno : NoWrap sub.request) {t : Ticket}
    {a pos : Nat} {path : String} (h : sub.Reads t a path pos) : sub.Byte t.range a path pos := by
  cases h with
  | @mk job i y task hjob htask hy =>
      have hbatch := mem_jobs hjob
      have hmem := List.mem_of_getElem? htask
      have hb := planned_batch sub hbatch
      have hlossless := plan_ok_lossless sub.workers_pos hno sub.planned
      have htasks : task ∈ sub.plan.tasks := List.mem_flatMap.mpr ⟨_, hbatch, hmem⟩
      obtain ⟨range, hat⟩ := Option.isSome_iff_exists.mp (hlossless.no_stray_task task htasks)
      have hrange := hlossless.range _ _ range hat
      have hof : task ∈ sub.plan.tasksOf task.request.fileIndex task.request.index :=
        List.mem_filter.mpr ⟨htasks, by simp [Request.key]⟩
      -- the byte is covered, so it is in the range
      have hpos : 0 < (sub.plan.tasksOf task.request.fileIndex task.request.index).countP
          (fun u => u.span.covers (task.info.offset + y)) := by
        refine List.countP_pos_iff.mpr ⟨task, hof, ?_⟩
        rw [covers_iff]
        exact ⟨Nat.le_add_right _ _, Nat.add_lt_add_left hy _⟩
      rw [hrange.covers_once] at hpos
      obtain ⟨hle, hdestination⟩ := hrange.destination task hof
      have hin : range.offset ≤ task.info.offset + y ∧
          task.info.offset + y < range.offset + range.size := by
        by_contra hout
        rw [if_neg hout] at hpos
        exact Nat.lt_irrefl _ hpos
      rw [rangeAt, Option.bind_eq_some_iff] at hat
      obtain ⟨file, hfile, hget⟩ := hat
      have hrest : sub.Byte ⟨sub.id, task.request.fileIndex, task.request.index⟩
          (wrap (range.dst + (task.info.offset + y - range.offset))) file.path
          (range.offset + (task.info.offset + y - range.offset)) :=
        .mk hfile hget (by omega)
      have hpath : job.batch.path = file.path := by
        rw [plan_path sub.planned _ hbatch, ← hb.file_eq task hmem, hfile]
        rfl
      have haddress : wrap (range.dst + (task.info.offset + y - range.offset))
          = wrap (task.destination + y) := by
        have h₁ := range.dst_lt
        have h₂ : task.destination < 2 ^ 64 := wrap_lt _
        have h₃ := range.size_lt
        unfold wrapSub at hdestination
        unfold wrap
        omega
      rw [haddress, show range.offset + (task.info.offset + y - range.offset)
        = task.info.offset + y by omega, ← hpath] at hrest
      have hk : (job.ticket i task).range
          = ⟨sub.id, task.request.fileIndex, task.request.index⟩ := by
        show (⟨job.batch.submissionId, job.batch.fileIndex, _⟩ : RangeId) = _
        rw [hb.submissionId_eq, hb.file_eq task hmem]
      rw [hk]
      exact hrest

/-- **Every byte of a range is read** by a task that reports to it. -/
theorem Submission.Byte.read {sub : Submission} (hno : NoWrap sub.request) {k : RangeId}
    {a pos : Nat} {path : String} (h : sub.Byte k a path pos) :
    ∃ t, t.range = k ∧ sub.Reads t a path pos := by
  cases h with
  | @mk f j x file range hfile hrange hx =>
      have hat : rangeAt sub.request f j = some range := by
        rw [rangeAt, hfile]
        exact hrange
      have hrange' := (plan_ok_lossless sub.workers_pos hno sub.planned).range f j range hat
      have hcover := hrange'.covers_once (range.offset + x)
      rw [if_pos ⟨Nat.le_add_right _ _, Nat.add_lt_add_left hx _⟩] at hcover
      obtain ⟨task, hof, hcovers⟩ := List.countP_pos_iff.mp
        (show 0 < _ from hcover ▸ Nat.one_pos)
      rw [covers_iff] at hcovers
      obtain ⟨hle, hlt⟩ := hcovers
      have hle : task.info.offset ≤ range.offset + x := hle
      have hlt : range.offset + x < task.info.offset + task.info.bytesize := hlt
      obtain ⟨htasks, hkey⟩ := List.mem_filter.mp hof
      obtain ⟨batch, hbatch, hmem⟩ := List.mem_flatMap.mp htasks
      obtain ⟨b, hb, rfl⟩ := List.mem_iff_getElem.mp hbatch
      obtain ⟨i, htask⟩ := List.getElem?_of_mem hmem
      have hjob : (⟨b, sub.plan.batches[b]⟩ : Job) ∈ sub.jobs :=
        List.mem_mapIdx.mpr ⟨b, hb, rfl⟩
      have hreads : sub.Reads ((⟨b, sub.plan.batches[b]⟩ : Job).ticket i task)
          (wrap (task.destination + (range.offset + x - task.info.offset)))
          sub.plan.batches[b].path (task.info.offset + (range.offset + x - task.info.offset)) :=
        .mk hjob htask (by omega)
      have hbyte := hreads.byte hno
      have hk : ((⟨b, sub.plan.batches[b]⟩ : Job).ticket i task).range = ⟨sub.id, f, j⟩ := by
        have hplanned := planned_batch sub hbatch
        show (⟨sub.plan.batches[b].submissionId, sub.plan.batches[b].fileIndex, _⟩ : RangeId) = _
        simp only [Request.key, decide_eq_true_eq, Prod.mk.injEq] at hkey
        rw [hplanned.submissionId_eq, ← hplanned.file_eq task hmem, hkey.1, hkey.2]
      -- it is the byte at this place, since the task lands where its range says
      have haddress : wrap (task.destination + (range.offset + x - task.info.offset))
          = wrap (range.dst + x) := by
        have h₁ := range.dst_lt
        have h₂ : task.destination < 2 ^ 64 := wrap_lt _
        have h₃ := range.size_lt
        obtain ⟨hstart, hdestination⟩ := hrange'.destination task hof
        unfold wrapSub at hdestination
        unfold wrap
        omega
      have hposition : task.info.offset + (range.offset + x - task.info.offset)
          = range.offset + x := by omega
      rw [hk, haddress, hposition] at hbyte
      rw [haddress, hposition, (hbyte.unique (.mk hfile hrange hx)).1] at hreads
      exact ⟨_, hk, hreads⟩

/-! ## §4. Owners. -/

/-- The last submission that was given the address was given it for `k`. -/
def Owns (committed : List Submission) (k : RangeId) (a : Nat) : Prop :=
  ∃ before sub after, committed = before ++ sub :: after ∧ (∃ path pos, sub.Byte k a path pos) ∧
    ∀ later ∈ after, ∀ k' path pos, ¬ later.Byte k' a path pos

theorem Owns.of_append {committed : List Submission} {sub : Submission} {k : RangeId} {a : Nat}
    (h : Owns (committed ++ [sub]) k a) (hk : k.submission ≠ sub.id) : Owns committed k a := by
  obtain ⟨before, sub', after, heq, ⟨path, pos, hbyte⟩, hlater⟩ := h
  rcases List.eq_nil_or_concat after with rfl | ⟨front, last, rfl⟩
  · -- it would be the new one
    have hlast : sub = sub' := by
      have := congrArg List.getLast? heq
      simpa using this
    exact absurd (hlast ▸ hbyte.submission_eq) hk
  · rw [List.concat_eq_append, ← List.cons_append, ← List.append_assoc] at heq
    obtain ⟨hfront, -⟩ := List.append_inj' heq rfl
    refine ⟨before, sub', front, hfront, ⟨path, pos, hbyte⟩, fun later hmem => ?_⟩
    exact hlater later (by rw [List.concat_eq_append]; exact List.mem_append_left _ hmem)

theorem Owns.append {committed : List Submission} {sub : Submission} {k : RangeId} {a : Nat}
    (h : Owns committed k a) (hsub : ∀ k' path pos, ¬ sub.Byte k' a path pos) :
    Owns (committed ++ [sub]) k a := by
  obtain ⟨before, sub', after, rfl, hbyte, hlater⟩ := h
  refine ⟨before, sub', after ++ [sub], by simp, hbyte, fun later hmem => ?_⟩
  rcases List.mem_append.mp hmem with hmem | hmem
  · exact hlater later hmem
  · rw [List.mem_singleton.mp hmem]
    exact hsub

/-- **An address has one owner**, where the ranges of a submission do not
overlap. -/
theorem Owns.unique {committed : List Submission}
    (hapart : ∀ sub ∈ committed, ∀ k k' a path path' pos pos', sub.Byte k a path pos →
      sub.Byte k' a path' pos' → k = k') {k k' : RangeId} {a : Nat} (h : Owns committed k a)
    (h' : Owns committed k' a) : k = k' := by
  obtain ⟨before, sub, after, heq, ⟨path, pos, hbyte⟩, hlater⟩ := h
  obtain ⟨before', sub', after', heq', ⟨path', pos', hbyte'⟩, hlater'⟩ := h'
  rw [heq] at heq'
  rcases List.append_eq_append_iff.mp heq' with ⟨mid, hbefore, hmid⟩ | ⟨mid, hbefore, hmid⟩
  · cases mid with
    | nil =>
        obtain ⟨rfl, -⟩ := List.cons.inj hmid
        exact hapart sub (by rw [heq]; simp) _ _ a _ _ _ _ hbyte hbyte'
    | cons later mid =>
        -- the second submission is later than the first
        obtain ⟨-, rfl⟩ := List.cons.inj hmid
        exact absurd hbyte' (hlater sub' (by simp) k' path' pos')
  · cases mid with
    | nil =>
        obtain ⟨rfl, -⟩ := List.cons.inj hmid
        exact hapart _ (by rw [heq]; simp) _ _ a _ _ _ _ hbyte hbyte'
    | cons later mid =>
        obtain ⟨-, rfl⟩ := List.cons.inj hmid
        exact absurd hbyte (hlater' sub (by simp) k path pos)

end ModelStreamer.Delivery
