/-
  ModelStreamer.Planning.Planned
  ──────────────────────────────
  **EVERY PLAN THAT IS BUILT** serves exactly the ranges of its request.

  The transfers of a request group its ranges (`Grouped.groups`); slicing a
  transfer does not change what it serves (`Serves.of_strip`).  `plan_ok`
  reads the result off the batches: the requests and tasks of a plan are
  exactly those the ranges are cut into, in workloads that exist.  Nothing
  is assumed about the ranges here: their offsets may wrap.
-/
import ModelStreamer.Planning.Plan
import Mathlib.Algebra.Order.BigOperators.Group.List

namespace ModelStreamer.Planning

/-! ## §1. The transfers of a request, group by group. -/

/-- The ranges of one transfer. -/
structure Group where
  fileIndex : Nat
  first : Nat
  ranges : List ReadRange

/-- The transfer serves the group. -/
def Serves (t : ContiguousTransfer) (g : Group) : Prop := t.Covers g.fileIndex g.first g.ranges

/-- The ranges of a request with their positions. -/
def indexFiles : Nat → List FileRanges → List Indexed
  | _, [] => []
  | fileIndex, file :: files =>
      indexRanges fileIndex 0 file.ranges ++ indexFiles (fileIndex + 1) files

/-- The ranges of a list of groups with their positions. -/
def indexGroups (groups : List Group) : List Indexed :=
  groups.flatMap (fun g => indexRanges g.fileIndex g.first g.ranges)

theorem Grouped.groups {fileIndex i : Nat} {ranges : List ReadRange}
    {ts : List ContiguousTransfer} (h : Grouped fileIndex i ranges ts) :
    ∃ groups, List.Forall₂ Serves ts groups ∧
      indexGroups groups = indexRanges fileIndex i ranges := by
  induction h with
  | nil i => exact ⟨[], .nil, rfl⟩
  | @cons i group ranges t ts hcov _ ih =>
      obtain ⟨groups, hserves, hindex⟩ := ih
      refine ⟨⟨fileIndex, i, group⟩ :: groups, .cons hcov hserves, ?_⟩
      rw [indexRanges_append, ← hindex]
      rfl

theorem GroupedFiles.groups {fileIndex : Nat} {files : List FileRanges}
    {ts : List ContiguousTransfer} (h : GroupedFiles fileIndex files ts) :
    ∃ groups, List.Forall₂ Serves ts groups ∧
      indexGroups groups = indexFiles fileIndex files := by
  induction h with
  | nil fileIndex => exact ⟨[], .nil, rfl⟩
  | @cons fileIndex file files ts rest hfile _ ih =>
      obtain ⟨groups, hserves, hindex⟩ := hfile.groups
      obtain ⟨groups', hserves', hindex'⟩ := ih
      refine ⟨groups ++ groups', List.rel_append hserves hserves', ?_⟩
      rw [indexFiles, ← hindex, ← hindex']
      simp [indexGroups]

/-- Cutting a transfer into slices does not change what it serves. -/
theorem Serves.of_strip {t t' : ContiguousTransfer} {g : Group} (h : Serves t g)
    (hstrip : t'.strip = t.strip) : Serves t' g := by
  simp only [ContiguousTransfer.strip, ContiguousTransfer.mk.injEq, and_true] at hstrip
  obtain ⟨hfile, hoff, hsize, hdst, hfirst, hsizes⟩ := hstrip
  refine ⟨?_, ?_, ?_, ?_, h.nonempty, ?_, ?_, ?_⟩
  · rw [hfile, h.fileIndex_eq]
  · rw [hfirst, h.first_eq]
  · rw [hsizes, h.sizes_eq]
  · rw [hsize, h.size_eq]
  · rw [hoff]
    exact h.offset_lt
  · rw [hdst]
    exact h.destination_lt
  · rw [hoff, hdst]
    exact h.placed

theorem serves_of_strip {ts : List ContiguousTransfer} {groups : List Group}
    (h : List.Forall₂ Serves ts groups) :
    ∀ {ts' : List ContiguousTransfer},
      ts'.map ContiguousTransfer.strip = ts.map ContiguousTransfer.strip →
      List.Forall₂ Serves ts' groups := by
  induction h with
  | nil =>
      intro ts' hstrip
      obtain rfl : ts' = [] := by simpa using hstrip
      exact .nil
  | cons hserve _ ih =>
      intro ts' hstrip
      cases ts' with
      | nil => simp at hstrip
      | cons t' ts' =>
          simp only [List.map_cons, List.cons.injEq] at hstrip
          exact .cons (hserve.of_strip hstrip.1) (ih hstrip.2)

/-- The byte total of the groups is the request's. -/
theorem GroupedFiles.size_sum {fileIndex : Nat} {files : List FileRanges}
    {ts : List ContiguousTransfer} (h : GroupedFiles fileIndex files ts) :
    (ts.map ContiguousTransfer.size).sum = requestBytes files := by
  have hfile : ∀ {fileIndex i : Nat} {ranges : List ReadRange} {ts : List ContiguousTransfer},
      Grouped fileIndex i ranges ts →
        (ts.map ContiguousTransfer.size).sum = rangeBytes ranges := by
    intro fileIndex i ranges ts h
    induction h with
    | nil => rfl
    | cons hcov _ ih => simp [ih, hcov.size_eq]
  induction h with
  | nil => rfl
  | cons hgrouped _ ih => simp [hfile hgrouped, ih]

/-! ## §2. Every plan that is built. -/

/-- A batch of the plan. -/
structure PlannedBatch (submissionId n : Nat) (batch : Batch) : Prop where
  submissionId_eq : batch.submissionId = submissionId
  workload_lt : batch.workloadIndex < n
  file_eq : ∀ task ∈ batch.tasks, task.request.fileIndex = batch.fileIndex
  nonempty : batch.tasks ≠ []
  chained : batch.tasks.IsChain Task.Follows
  range_eq : BatchRange.new batch.tasks = .ok batch.range

/-- What the batches and requests of a list of ranges are. -/
structure PlannedRanges (submissionId n : Nat) (ranges : List Indexed) (batches : List Batch)
    (requests : List Request) : Prop where
  cuts : ∃ cuts, AllCut ranges cuts ∧ requests = cuts.map Prod.fst ∧
    (batches.flatMap Batch.tasks).Perm (cuts.map Prod.snd).flatten
  batch : ∀ batch ∈ batches, PlannedBatch submissionId n batch

theorem planTransfers_ok {submissionId n : Nat} {request : List FileRanges}
    {ts : List ContiguousTransfer} {groups : List Group} (h : List.Forall₂ Serves ts groups) :
    ∀ {bs : Batches}, (∀ t ∈ ts, t.Sliced n) →
      planTransfers submissionId request ts = .ok bs →
      PlannedRanges submissionId n (indexGroups groups) bs.batches bs.requests := by
  induction h with
  | nil =>
      intro bs _ hrun
      simp only [planTransfers, Except.ok.injEq] at hrun
      subst hrun
      exact ⟨⟨[], .nil, rfl, by simp⟩, by simp⟩
  | @cons t g ts groups hserve _ ih =>
      intro bs hsliced hrun
      rw [planTransfers] at hrun
      cases hnew : Batches.new submissionId
          ((request[t.fileIndex]?.map FileRanges.path).getD "") t with
      | error e => simp [hnew] at hrun
      | ok first =>
          cases hplan : planTransfers submissionId request ts with
          -- no error on the way, so both parts are planned
          | error e => simp [hnew, hplan] at hrun
          | ok rest =>
              simp only [hnew, hplan, Except.ok.injEq] at hrun
              subst hrun
              obtain ⟨cuts, hall, hreq, hperm, hbatch⟩ :=
                batchesNew_ok hserve (hsliced t (by simp)) hnew
              obtain ⟨⟨cuts', hall', hreq', hperm'⟩, hbatch'⟩ :=
                ih (fun u hu => hsliced u (by simp [hu])) hplan
              refine ⟨⟨cuts ++ cuts', List.rel_append hall hall', ?_, ?_⟩, ?_⟩
              · rw [List.map_append, hreq, hreq']
              · simp only [List.flatMap_append, List.map_append, List.flatten_append]
                exact hperm.append hperm'
              · intro batch hmem
                rcases List.mem_append.mp hmem with hmem | hmem
                · have hb := hbatch batch hmem
                  exact ⟨hb.submissionId_eq, hb.workload_lt, hb.file_eq, hb.nonempty,
                    hb.chained, hb.range_eq⟩
                · exact hbatch' batch hmem

/-- The byte-total check of `coalesce` is the request's own total. -/
theorem coalesceRanges_total {fileIndex : Nat} (ranges : List ReadRange) :
    ∀ {i total total' : Nat} {current : Option ContiguousTransfer}
      {ts : List ContiguousTransfer}, total < 2 ^ 64 →
      coalesceRanges fileIndex i ranges current total = .ok (ts, total') →
      total' = total + rangeBytes ranges ∧ total' < 2 ^ 64 := by
  induction ranges with
  | nil =>
      intro i total total' current ts hlt h
      simp only [coalesceRanges, Except.ok.injEq, Prod.mk.injEq] at h
      rw [← h.2]
      exact ⟨by simp, hlt⟩
  | cons range ranges ih =>
      intro i total total' current ts hlt h
      rw [coalesceRanges] at h
      split at h
      next => simp at h
      next hfits =>
        have hsize := range.size_lt
        have hnext : total + range.size < 2 ^ 64 := by omega
        -- whatever becomes of the current transfer, the total goes on
        have hdone : ∀ {i : Nat} {current : Option ContiguousTransfer}
            {ts : List ContiguousTransfer},
            coalesceRanges fileIndex i ranges current (total + range.size) = .ok (ts, total') →
            total' = total + rangeBytes (range :: ranges) ∧ total' < 2 ^ 64 := by
          intro i current ts h
          have := ih hnext h
          rw [rangeBytes_cons]
          omega
        cases current with
        | none => exact hdone h
        | some current =>
            simp only at h
            split at h
            · exact hdone h
            · split at h
              next => simp at h
              next transfers total'' hrun =>
                simp only [Except.ok.injEq, Prod.mk.injEq] at h
                rw [h.2] at hrun
                exact hdone hrun

theorem coalesceFiles_total (files : List FileRanges) :
    ∀ {fileIndex total total' : Nat} {ts : List ContiguousTransfer}, total < 2 ^ 64 →
      coalesceFiles fileIndex files total = .ok (ts, total') →
      total + requestBytes files < 2 ^ 64 := by
  induction files with
  | nil =>
      intro fileIndex total total' ts hlt _
      simpa [requestBytes] using hlt
  | cons file files ih =>
      intro fileIndex total total' ts hlt h
      rw [coalesceFiles] at h
      split at h
      next => simp at h
      next transfers total₁ hrun =>
        obtain ⟨rfl, hlt'⟩ := coalesceRanges_total file.ranges hlt hrun
        split at h
        next => simp at h
        next rest total₂ hrest =>
          have := ih hlt' hrest
          rw [requestBytes_cons]
          omega

/-- What the Assigner hands to the batches. -/
theorem assigner_ok {config : Config} {request : List FileRanges} {assigner : Assigner}
    (hworkers : 1 ≤ numWorkers config request)
    (h : Assigner.new config request = .ok assigner) :
    ∃ groups, List.Forall₂ Serves assigner.transfers groups ∧
      indexGroups groups = indexFiles 0 request ∧
      ∀ t ∈ assigner.transfers, t.Sliced assigner.numWorkloads := by
  rw [Assigner.new] at h
  split at h
  next hempty =>
    obtain rfl : request = [] := by simpa using hempty
    simp only [Except.ok.injEq] at h
    subst h
    exact ⟨[], .nil, rfl, by simp⟩
  next =>
    split at h
    next => simp at h
    next transfers total hrun =>
      have htotal : requestBytes request < 2 ^ 64 := by
        have := coalesceFiles_total request (by omega) hrun
        omega
      obtain ⟨ts, hts, hgrouped, hfresh⟩ := coalesce_spec htotal
      rw [hts] at hrun
      simp only [Except.ok.injEq, Prod.mk.injEq] at hrun
      obtain ⟨rfl, rfl⟩ := hrun
      obtain ⟨groups, hserves, hindex⟩ := hgrouped.groups
      split at h
      next hnil =>
        obtain rfl : ts = [] := by simpa using hnil
        simp only [Except.ok.injEq] at h
        subst h
        cases hserves
        exact ⟨[], .nil, hindex, by simp⟩
      next =>
        obtain ⟨ts', hassign, hsliced, hstrip⟩ :=
          assign_spec (blockBytesize config request) hworkers hfresh
            hgrouped.size_sum
        simp only [hassign, Except.ok.injEq] at h
        subst h
        exact ⟨groups, serves_of_strip hserves hstrip, hindex, hsliced⟩

/-- **Every plan that is built** serves exactly the ranges of the request. -/
theorem plan_ok {config : Config} {submissionId : Nat} {request : List FileRanges} {p : Plan}
    (hworkers : 1 ≤ numWorkers config request) (h : plan config submissionId request = .ok p) :
    PlannedRanges submissionId p.numWorkloads (indexFiles 0 request) p.batches p.requests := by
  rw [plan] at h
  cases hnew : Assigner.new config request with
  | error e => simp [hnew] at h
  | ok assigner =>
      obtain ⟨groups, hserves, hindex, hsliced⟩ := assigner_ok hworkers hnew
      cases hplan : planTransfers submissionId request assigner.transfers with
      | error e => simp [hnew, hplan] at h
      | ok bs =>
          simp only [hnew, hplan, Except.ok.injEq] at h
          subst h
          rw [← hindex]
          exact planTransfers_ok hserves hsliced hplan

/-! ## §3. No batch of a plan wraps. -/

/-- Bytes of a list of tasks. -/
def tasksBytes (tasks : List Task) : Nat := (tasks.map (·.info.bytesize)).sum

@[simp] theorem tasksBytes_nil : tasksBytes [] = 0 := rfl

@[simp] theorem tasksBytes_cons (task : Task) (tasks : List Task) :
    tasksBytes (task :: tasks) = task.info.bytesize + tasksBytes tasks := by
  simp [tasksBytes]

/-- `Task::Info` computes its end. -/
def Task.Ended (task : Task) : Prop :=
  task.info.stop = wrap (task.info.offset + task.info.bytesize)

theorem numbered_bytes {k offset rel : Nat} (sizes : List Nat) :
    ((numbered k offset rel sizes).map (fun e => e.2.bytesize)).sum = sizes.sum ∧
      ∀ e ∈ numbered k offset rel sizes, e.2.stop = wrap (e.2.offset + e.2.bytesize) := by
  induction sizes generalizing k offset rel with
  | nil => simp [numbered]
  | cons s sizes ih =>
      obtain ⟨hsum, hstop⟩ := ih (k := k + 1)
      refine ⟨?_, fun e he => ?_⟩
      · rw [numbered, List.map_cons, List.sum_cons, hsum]
        rfl
      · rw [numbered, List.mem_cons] at he
        rcases he with rfl | he
        · rfl
        · exact hstop e he

theorem CutInto.bytes {f j : Nat} {range : ReadRange} {cut : Request × List Task}
    (h : CutInto f j range cut) :
    tasksBytes cut.2 = range.size ∧ ∀ task ∈ cut.2, task.Ended := by
  obtain ⟨k, sizes, -, hsum, hpieces⟩ := h.pieces
  obtain ⟨hbytes, hstop⟩ := numbered_bytes (k := k) sizes
  rw [hpieces]
  refine ⟨?_, fun task htask => ?_⟩
  · rw [tasksBytes, tasksOf, List.map_map, ← hsum, ← hbytes]
    rfl
  · rw [tasksOf] at htask
    obtain ⟨e, he, rfl⟩ := List.mem_map.mp htask
    exact hstop e he

theorem AllCut.bytes {ranges : List Indexed} {cuts : List (Request × List Task)}
    (h : AllCut ranges cuts) :
    tasksBytes (cuts.map Prod.snd).flatten = (ranges.map (·.range.size)).sum ∧
      ∀ task ∈ (cuts.map Prod.snd).flatten, task.Ended := by
  induction h with
  | nil => simp
  | @cons r cut ranges cuts hcut _ ih =>
      obtain ⟨hbytes, hended⟩ := hcut.bytes
      refine ⟨?_, fun task htask => ?_⟩
      · have happ : ∀ xs ys : List Task,
            tasksBytes (xs ++ ys) = tasksBytes xs + tasksBytes ys := by
          intro xs ys
          simp [tasksBytes]
        simp only [List.map_cons, List.flatten_cons, happ, hbytes, ih.1, List.sum_cons]
      · simp only [List.map_cons, List.flatten_cons, List.mem_append] at htask
        exact htask.elim (hended task) (ih.2 task)

theorem indexFiles_bytes (n : Nat) (request : List FileRanges) :
    ((indexFiles n request).map (·.range.size)).sum = requestBytes request := by
  have hranges : ∀ (f i : Nat) (ranges : List ReadRange),
      ((indexRanges f i ranges).map (·.range.size)).sum = rangeBytes ranges := by
    intro f i ranges
    induction ranges generalizing i with
    | nil => rfl
    | cons range ranges ih => simp [indexRanges, ih]
  induction request generalizing n with
  | nil => rfl
  | cons file files ih => simp [indexFiles, hranges, ih]

/-- `coalesce` rejects a request of `2 ^ 64` bytes or more. -/
theorem assigner_bytes {config : Config} {request : List FileRanges} {assigner : Assigner}
    (h : Assigner.new config request = .ok assigner) : requestBytes request < 2 ^ 64 := by
  rw [Assigner.new] at h
  split at h
  next hempty =>
    obtain rfl : request = [] := by simpa using hempty
    simp [requestBytes]
  next =>
    split at h
    next => simp at h
    next transfers total hrun =>
      have := coalesceFiles_total request (by omega) hrun
      omega

theorem plan_bytes {config : Config} {submissionId : Nat} {request : List FileRanges} {p : Plan}
    (h : plan config submissionId request = .ok p) : requestBytes request < 2 ^ 64 := by
  rw [plan] at h
  cases hnew : Assigner.new config request with
  | error e => simp [hnew] at h
  | ok assigner => exact assigner_bytes hnew

/-- The tasks of a chain end within the chain, unless it wraps. -/
theorem chain_stops {task : Task} {tasks : List Task} :
    (task :: tasks).IsChain Task.Follows → (∀ u ∈ task :: tasks, u.Ended) →
      (∀ last ∈ (task :: tasks).getLast?,
        last.info.stop = wrap (task.info.offset + tasksBytes (task :: tasks))) ∧
      (task.info.offset + tasksBytes (task :: tasks) < 2 ^ 64 →
        ∀ u ∈ task :: tasks, u.info.stop = u.info.offset + u.info.bytesize ∧
          u.info.stop ≤ task.info.offset + tasksBytes (task :: tasks)) := by
  induction tasks generalizing task with
  | nil =>
      intro _ hended
      have hhead : task.info.stop = wrap (task.info.offset + task.info.bytesize) :=
        hended task (by simp)
      refine ⟨fun last hlast => ?_, fun hlt u hu => ?_⟩
      · simp only [List.getLast?_singleton, Option.mem_def, Option.some.injEq] at hlast
        subst hlast
        simpa using hhead
      · obtain rfl : u = task := by simpa using hu
        simp only [tasksBytes_cons, tasksBytes_nil, Nat.add_zero] at hlt ⊢
        rw [hhead, wrap_of_lt hlt]
        exact ⟨rfl, Nat.le_refl _⟩
  | cons next tasks ih =>
      intro hchain hended
      have hhead : task.info.stop = wrap (task.info.offset + task.info.bytesize) :=
        hended task (by simp)
      rw [List.isChain_cons_cons] at hchain
      obtain ⟨hlast, hstops⟩ := ih hchain.2 (fun u hu => hended u (List.mem_cons_of_mem _ hu))
      have hnext := hchain.1.1
      rw [tasksBytes_cons task]
      refine ⟨fun last hmem => ?_, fun hlt u hu => ?_⟩
      · rw [List.getLast?_cons_cons] at hmem
        rw [hlast last hmem, hnext, hhead, wrap_wrap_add, Nat.add_assoc]
      · rw [hhead, wrap_of_lt (by omega)] at hnext
        rcases List.mem_cons.mp hu with rfl | hu
        · rw [hhead, wrap_of_lt (by omega)]
          omega
        · have := hstops (by omega) u hu
          omega

/-- **No batch of a plan wraps**: the bytes of its tasks, from where the first
one begins, end below `2 ^ 64`. -/
theorem planned_fits {config : Config} {submissionId : Nat} {request : List FileRanges}
    {p : Plan} (hworkers : 1 ≤ numWorkers config request)
    (h : plan config submissionId request = .ok p) {batch : Batch} (hmem : batch ∈ p.batches) :
    ∃ task tasks, batch.tasks = task :: tasks ∧ (∀ u ∈ batch.tasks, u.Ended) ∧
      task.info.offset + tasksBytes batch.tasks < 2 ^ 64 ∧
      batch.range.stop = task.info.offset + tasksBytes batch.tasks := by
  obtain ⟨⟨cuts, hall, -, hperm⟩, hbatch⟩ := plan_ok hworkers h
  obtain ⟨hbytes, hended⟩ := hall.bytes
  rw [indexFiles_bytes] at hbytes
  have htotal := plan_bytes h
  have hb := hbatch batch hmem
  -- the batch's tasks are some of all tasks
  have hsub : batch.tasks.Sublist (p.batches.flatMap Batch.tasks) := by
    rw [List.flatMap_def]
    exact List.sublist_flatten_of_mem (List.mem_map_of_mem hmem)
  have hsum : tasksBytes batch.tasks < 2 ^ 64 := by
    have hle : tasksBytes batch.tasks ≤ tasksBytes (p.batches.flatMap Batch.tasks) :=
      (hsub.map _).sum_le_sum (fun _ _ => Nat.zero_le _)
    have heq : tasksBytes (p.batches.flatMap Batch.tasks)
        = tasksBytes (cuts.map Prod.snd).flatten := (hperm.map _).sum_eq
    omega
  have hall' : ∀ u ∈ batch.tasks, u.Ended := fun u hu =>
    hended u (hperm.mem_iff.mp (hsub.subset hu))
  obtain ⟨task, tasks, htasks⟩ := List.exists_cons_of_ne_nil hb.nonempty
  have hrange := hb.range_eq
  have hchain := hb.chained
  refine ⟨task, tasks, htasks, hall', ?_⟩
  rw [htasks] at hsum hall' hrange hchain ⊢
  have hend := (chain_stops hchain hall').1 _ (List.getLast?_eq_some_getLast (by simp))
  simp only [BatchRange.new, List.head?_cons, Option.map_some, Option.getD_some,
    List.getLast?_eq_some_getLast (List.cons_ne_nil task tasks)] at hrange
  split at hrange
  next hle =>
    simp only [Except.ok.injEq] at hrange
    rw [hend] at hle
    -- a chain that wrapped would end before it starts
    have hlt : task.info.offset + tasksBytes (task :: tasks) < 2 ^ 64 := by
      unfold wrap at hle
      omega
    refine ⟨hlt, ?_⟩
    rw [← hrange]
    show ((task :: tasks).getLast _).info.stop = _
    rw [hend, wrap_of_lt hlt]
  next => simp at hrange

/-- So its tasks end within its range, where their sizes say. -/
theorem planned_stops {config : Config} {submissionId : Nat} {request : List FileRanges}
    {p : Plan} (hworkers : 1 ≤ numWorkers config request)
    (h : plan config submissionId request = .ok p) :
    ∀ batch ∈ p.batches, ∀ task ∈ batch.tasks,
      task.info.stop = task.info.offset + task.info.bytesize ∧
        task.info.stop ≤ batch.range.stop := by
  intro batch hmem
  obtain ⟨first, tasks, htasks, hended, hlt, hstop⟩ := planned_fits hworkers h hmem
  have hchain := ((plan_ok hworkers h).batch batch hmem).chained
  rw [hstop]
  rw [htasks] at hended hlt hchain ⊢
  exact (chain_stops hchain hended).2 hlt

end ModelStreamer.Planning
