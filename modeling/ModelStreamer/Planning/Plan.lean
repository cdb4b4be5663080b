/-
  ModelStreamer.Planning.Plan
  ───────────────────────────
  **THE PLAN OF A SUBMISSION**: the composition coalesce → assign →
  build_tasks that `Streamer::async_request` runs before it commits.

  `CutInto` says what becomes of one range: the pieces of ONE `Request`, one
  task each.  `buildTasks_spec` and `batchesNew_ok` say that a transfer's
  batches hold exactly the tasks its ranges are cut into.  Offsets are words
  and may wrap.
-/
import ModelStreamer.Planning.Assigned
import ModelStreamer.Planning.Pieces
import Mathlib.Data.List.Perm.Basic

namespace ModelStreamer.Planning

/-! ## §1. The plan. -/

/-- What `async_request` has built when it commits. -/
structure Plan where
  numWorkloads : Nat
  batches : List Batch
  requests : List Request
  deriving DecidableEq, Repr

/-- Every task of the plan. -/
def Plan.tasks (plan : Plan) : List Task := plan.batches.flatMap Batch.tasks

/-- The loop of `async_request` over the transfers. -/
def planTransfers (submissionId : Nat) (request : List FileRanges) :
    List ContiguousTransfer → Except Failure Batches
  | [] => .ok ⟨[], []⟩
  | t :: ts =>
      let path := (request[t.fileIndex]?.map FileRanges.path).getD ""
      match Batches.new submissionId path t with
      | .error e => .error e
      | .ok batches =>
          match planTransfers submissionId request ts with
          | .error e => .error e
          | .ok rest => .ok ⟨batches.batches ++ rest.batches, batches.requests ++ rest.requests⟩

/-- The planning part of `async_request`. -/
def plan (config : Config) (submissionId : Nat) (request : List FileRanges) :
    Except Failure Plan :=
  match Assigner.new config request with
  | .error e => .error e
  | .ok assigner =>
      match planTransfers submissionId request assigner.transfers with
      | .error e => .error e
      | .ok batches => .ok ⟨assigner.numWorkloads, batches.batches, batches.requests⟩

/-! ## §2. One range, one transfer. -/

/-- The range `(fileIndex, index)` is served by one request and the pieces
it is cut into. -/
structure CutInto (fileIndex index : Nat) (range : ReadRange) (cut : Request × List Task) :
    Prop where
  request_eq : cut.1 = ⟨range.offset, fileIndex, index, cut.2.length, range.size, range.dst⟩
  pieces : ∃ k sizes, sizes ≠ [] ∧ sizes.sum = range.size ∧
    cut.2 = tasksOf cut.1 (numbered k range.offset 0 sizes)

/-- A range with its position in the request. -/
structure Indexed where
  fileIndex : Nat
  index : Nat
  range : ReadRange

/-- The ranges of one file, from index `i` on. -/
def indexRanges (fileIndex : Nat) : Nat → List ReadRange → List Indexed
  | _, [] => []
  | i, range :: ranges => ⟨fileIndex, i, range⟩ :: indexRanges fileIndex (i + 1) ranges

theorem indexRanges_append (fileIndex i : Nat) (xs ys : List ReadRange) :
    indexRanges fileIndex i (xs ++ ys)
      = indexRanges fileIndex i xs ++ indexRanges fileIndex (i + xs.length) ys := by
  induction xs generalizing i with
  | nil => simp [indexRanges]
  | cons x xs ih =>
      simp only [List.cons_append, indexRanges, ih, List.length_cons]
      rw [show i + 1 + xs.length = i + (xs.length + 1) by omega]

/-- The ranges are served, in order, by the requests and tasks of `cuts`. -/
def AllCut (ranges : List Indexed) (cuts : List (Request × List Task)) : Prop :=
  List.Forall₂ (fun r cut => CutInto r.fileIndex r.index r.range cut) ranges cuts

/-- `handleRequest` cuts one range. -/
theorem handleRequest_spec (fileIndex rangeIndex : Nat) {pos offset dst : Nat} {range : ReadRange}
    {itr : BatchItr} {vTasks : List (List Task)}
    (hgood : itr.Good) (hroom : range.size ≤ itr.capacity)
    (hlen : vTasks.length = itr.fileReadTasks.length)
    (hends : Ends vTasks itr.currentTaskIndex (offset + pos) (dst + pos))
    (hoff : range.offset = wrap (offset + pos)) (hdst : range.dst = wrap (dst + pos)) :
    ∃ handled tasks,
      handleRequest fileIndex itr vTasks rangeIndex range.offset range.size range.dst
        = .ok handled ∧
      CutInto fileIndex rangeIndex range (handled.request, tasks) ∧
      handled.vTasks.flatten.Perm (vTasks.flatten ++ tasks) ∧
      handled.itr.fileReadTasks = itr.fileReadTasks ∧ handled.itr.Good ∧
      handled.itr.capacity + range.size = itr.capacity ∧
      handled.vTasks.length = vTasks.length ∧
      Ends handled.vTasks handled.itr.currentTaskIndex (offset + (pos + range.size))
        (dst + (pos + range.size)) := by
  obtain ⟨sizes, next, hloop, hspec⟩ :=
    handleLoop_spec itr.fileReadTasks.length [] range.offset 0
      (by omega) hgood hroom (by simp)
  rw [List.nil_append] at hloop
  -- the first piece goes on in the current batch or opens the next one
  have hends' : Ends vTasks (itr.nextIndex range.size) (offset + pos) (dst + pos) := by
    unfold BatchItr.nextIndex
    split
    · exact hends.next _ _
    · exact hends
  have hindex := hspec.index_eq
  have hbound := hspec.good.index_lt
  rw [hspec.fileReadTasks_eq] at hbound
  have hpos : 0 < sizes.length := List.length_pos_of_ne_nil hspec.nonempty
  let request : Request := ⟨range.offset, fileIndex, rangeIndex, sizes.length, range.size,
    range.dst⟩
  obtain ⟨vTasks', hpush, hlen', hends'', hperm⟩ :=
    pushTasks_spec request sizes _ _ _ 0 hspec.nonempty hends' (by omega)
      (by simp [request, hdst, wrap])
  rw [← hoff] at hpush hperm
  refine ⟨⟨next, vTasks', request⟩, _, ?_, ⟨?_, ?_⟩, hperm, hspec.fileReadTasks_eq,
    hspec.good, hspec.capacity_eq, hlen', ?_⟩
  · simp only [handleRequest, hloop, numbered_length, hpush, request]
  · simp [request, tasksOf]
  · exact ⟨_, sizes, hspec.nonempty, hspec.sum_eq, rfl⟩
  · have h₁ : itr.nextIndex range.size + sizes.length - 1 = next.currentTaskIndex := by omega
    rw [h₁, hspec.sum_eq, Nat.add_assoc, Nat.add_assoc] at hends''
    exact hends''

/-- The loop of `build_tasks` cuts every range of a group. -/
theorem buildLoop_spec (fileIndex : Nat) {offset dst : Nat} (ranges : List ReadRange) :
    ∀ (i : Nat) {pos : Nat} {itr : BatchItr} (vTasks : List (List Task)),
      Placed offset dst pos ranges → itr.Good → rangeBytes ranges ≤ itr.capacity →
      vTasks.length = itr.fileReadTasks.length →
      Ends vTasks itr.currentTaskIndex (offset + pos) (dst + pos) →
      ∃ vTasks' cuts,
        buildLoop fileIndex i (ranges.map ReadRange.size) itr vTasks (wrap (offset + pos))
          (wrap (dst + pos)) = .ok (vTasks', cuts.map Prod.fst) ∧
        AllCut (indexRanges fileIndex i ranges) cuts ∧
        vTasks'.flatten.Perm (vTasks.flatten ++ (cuts.map Prod.snd).flatten) ∧
        vTasks'.length = vTasks.length ∧
        ∀ k, (batchTasks vTasks' k).IsChain Task.Follows := by
  induction ranges with
  | nil =>
      intro i pos itr vTasks _ _ _ _ hends
      exact ⟨vTasks, [], rfl, .nil, by simp, rfl, hends.chained⟩
  | cons range ranges ih =>
      intro i pos itr vTasks hplaced hgood hroom hlen hends
      obtain ⟨hoff, hdst, hrest⟩ := hplaced
      rw [rangeBytes_cons] at hroom
      obtain ⟨handled, tasks, hrun, hcut, hperm, hsame, hgood', hcap, hlen', hends'⟩ :=
        handleRequest_spec fileIndex i hgood (by omega) hlen
          hends hoff hdst
      obtain ⟨vTasks', cuts, hloop, hall, hperm', hlen'', hchain⟩ :=
        ih (i + 1) handled.vTasks hrest hgood' (by omega) (by rw [hlen', hlen, hsame]) hends'
      refine ⟨vTasks', (handled.request, tasks) :: cuts, ?_, .cons hcut hall, ?_,
        by rw [hlen'', hlen'], hchain⟩
      · rw [List.map_cons, buildLoop, ← hoff, ← hdst, hrun]
        simp only
        rw [hoff, hdst, wrap_wrap_add, wrap_wrap_add, Nat.add_assoc, Nat.add_assoc, hloop]
        rfl
      · simp only [List.map_cons, List.flatten_cons]
        refine hperm'.trans ?_
        rw [← List.append_assoc]
        exact hperm.append_right _

/-- The iterator a transfer's tasks are cut with. -/
theorem buildTasks_spec {t : ContiguousTransfer} {fileIndex first n : Nat}
    {group : List ReadRange} (hcov : t.Covers fileIndex first group) (hsliced : t.Sliced n) :
    ∃ vTasks cuts, buildTasks t = .ok (vTasks, cuts.map Prod.fst) ∧
      AllCut (indexRanges fileIndex first group) cuts ∧
      vTasks.flatten.Perm (cuts.map Prod.snd).flatten ∧
      vTasks.length = t.tasks.length ∧
      ∀ k, (batchTasks vTasks k).IsChain Task.Follows := by
  obtain ⟨slices, htasks, hsum, hne, -, hpos⟩ := hsliced
  obtain ⟨⟨w, s⟩, slices, rfl⟩ := List.exists_cons_of_ne_nil hne
  have hmap : ∀ pos, (t.slicesAt pos slices).map FileReadTask.size = slices.map Prod.snd :=
    fun pos => map_size_slicesAt t pos slices
  -- nothing has been pushed to any worker yet
  have hempty : ∀ m k, batchTasks (List.replicate m []) k = [] := by
    intro m k
    unfold batchTasks
    rw [List.getElem?_replicate]
    split <;> rfl
  simp only [ContiguousTransfer.slicesAt, Nat.zero_add] at htasks
  -- the iterator starts at the first slice, with all of it to go
  let itr : BatchItr := ⟨t.tasks, 0, s⟩
  have hgood : itr.Good := by
    refine ⟨by simp [itr, htasks], fun task htask => ?_⟩
    simp only [itr, htasks, List.drop_succ_cons, List.drop_zero] at htask
    rcases hpos with hall | ⟨-, hone⟩
    · have hmem : task.size ∈ slices.map Prod.snd := by
        rw [← hmap s]
        exact List.mem_map_of_mem htask
      obtain ⟨c, hc, hcs⟩ := List.mem_map.mp hmem
      rw [← hcs]
      exact hall c (by simp [hc])
    · obtain rfl : slices = [] := by simpa using hone
      simp [ContiguousTransfer.slicesAt] at htask
  -- the slices hold exactly the bytes of the group
  have hcap : itr.capacity = t.size := by
    rw [← hsum, cutBytes_cons]
    simp [itr, BatchItr.capacity, htasks, hmap, cutBytes]
  obtain ⟨vTasks, cuts, hrun, hall, hperm, hlen, hchain⟩ :=
    buildLoop_spec fileIndex group first (List.replicate t.tasks.length []) hcov.placed hgood
      (by rw [hcap, hcov.size_eq]) (by simp [itr])
      ⟨by simp [hempty], by simp [hempty], by simp [hempty]⟩
  refine ⟨vTasks, cuts, ?_, hall, by simpa using hperm, by simpa using hlen, hchain⟩
  rw [← hcov.sizes_eq, Nat.add_zero, Nat.add_zero] at hrun
  simp only [buildTasks, htasks]
  rw [← htasks, hcov.fileIndex_eq, hcov.first_eq]
  exact hrun

/-! ## §3. Batches. -/

/-- The batches made of the tasks of a transfer's slices. -/
structure BatchesSpec (submissionId fileIndex n : Nat) (uri : Option StorageUri)
    (batch : Batch) : Prop where
  submissionId_eq : batch.submissionId = submissionId
  workload_lt : batch.workloadIndex < n
  file_eq : ∀ task ∈ batch.tasks, task.request.fileIndex = batch.fileIndex
  fileIndex_eq : batch.fileIndex = fileIndex
  uri_eq : batch.uri = uri
  nonempty : batch.tasks ≠ []
  chained : batch.tasks.IsChain Task.Follows
  range_eq : BatchRange.new batch.tasks = .ok batch.range

theorem makeBatches_ok {submissionId fileIndex n : Nat} {path : String}
    {uri : Option StorageUri} (slices : List FileReadTask) :
    ∀ {vTasks : List (List Task)} {batches : List Batch},
      makeBatches submissionId fileIndex path uri slices vTasks = .ok batches →
      vTasks.length = slices.length → (∀ slice ∈ slices, slice.workloadIndex < n) →
      (∀ tasks ∈ vTasks, tasks.IsChain Task.Follows) →
      (∀ tasks ∈ vTasks, ∀ task ∈ tasks, task.request.fileIndex = fileIndex) →
      batches.flatMap Batch.tasks = vTasks.flatten ∧
        ∀ batch ∈ batches, BatchesSpec submissionId fileIndex n uri batch := by
  induction slices with
  | nil =>
      intro vTasks batches h hlen _ _ _
      obtain rfl : vTasks = [] := by simpa using hlen
      simp only [makeBatches, Except.ok.injEq] at h
      subst h
      simp
  | cons slice slices ih =>
      intro vTasks batches h hlen hlt hchain hfile
      obtain ⟨tasks, vTasks, rfl⟩ : ∃ tasks rest, vTasks = tasks :: rest :=
        List.exists_cons_of_ne_nil (by rintro rfl; simp at hlen)
      have hrest := fun {bs} (hb : makeBatches submissionId fileIndex path uri slices vTasks
          = .ok bs) => ih hb (by simpa using hlen) (fun s hs => hlt s (by simp [hs]))
        (fun ts hts => hchain ts (by simp [hts])) (fun ts hts => hfile ts (by simp [hts]))
      rw [makeBatches] at h
      split at h
      next hnil =>
        -- no tasks for this worker: no batch is made
        obtain rfl : tasks = [] := by simpa using hnil
        simpa using hrest h
      next hne =>
        cases hrange : BatchRange.new tasks with
        | error e => simp [hrange] at h
        | ok range =>
            cases hmake : makeBatches submissionId fileIndex path uri slices vTasks with
            | error e => simp [hrange, hmake] at h
            | ok bs =>
                simp only [hrange, hmake, Except.ok.injEq] at h
                subst h
                obtain ⟨hflat, hspec⟩ := hrest hmake
                refine ⟨by simp [hflat], fun batch hbatch => ?_⟩
                rcases List.mem_cons.mp hbatch with rfl | hbatch
                · exact ⟨rfl, hlt slice (by simp), hfile tasks (by simp), rfl, rfl,
                    by simpa using hne, hchain tasks (by simp), hrange⟩
                · exact hspec batch hbatch

theorem makeBatches_total (submissionId fileIndex : Nat) (path : String)
    (uri : Option StorageUri) (slices : List FileReadTask) :
    ∀ (vTasks : List (List Task)),
      (∀ tasks ∈ vTasks, ∃ range, BatchRange.new tasks = .ok range) →
      ∃ batches, makeBatches submissionId fileIndex path uri slices vTasks = .ok batches := by
  induction slices with
  | nil =>
      intro vTasks _
      exact ⟨[], by simp [makeBatches]⟩
  | cons slice slices ih =>
      intro vTasks h
      cases vTasks with
      | nil => exact ⟨[], by simp [makeBatches]⟩
      | cons tasks vTasks =>
          obtain ⟨batches, hmake⟩ := ih vTasks (fun ts hts => h ts (by simp [hts]))
          obtain ⟨range, hrange⟩ := h tasks (by simp)
          rw [makeBatches]
          split
          · exact ⟨batches, hmake⟩
          · simp only [hrange, hmake]
            exact ⟨_, rfl⟩

theorem mem_batchTasks {vTasks : List (List Task)} {tasks : List Task} (h : tasks ∈ vTasks) :
    ∃ k, tasks = batchTasks vTasks k := by
  obtain ⟨k, hk, rfl⟩ := List.mem_iff_getElem.mp h
  exact ⟨k, by simp [batchTasks, List.getElem?_eq_getElem hk]⟩

theorem mem_slicesAt_lt {t : ContiguousTransfer} {n : Nat} (h : t.Sliced n) :
    ∀ slice ∈ t.tasks, slice.workloadIndex < n := by
  obtain ⟨cuts, htasks, -, -, hlt, -⟩ := h
  rw [htasks]
  clear htasks
  generalize 0 = pos
  induction cuts generalizing pos with
  | nil => simp [ContiguousTransfer.slicesAt]
  | cons c cuts ih =>
      intro slice hslice
      simp only [ContiguousTransfer.slicesAt, List.mem_cons] at hslice
      rcases hslice with rfl | hslice
      · exact hlt c (by simp)
      · exact ih (fun c hc => hlt c (by simp [hc])) _ slice hslice

/-- The tasks a range is cut into belong to its file. -/
theorem AllCut.fileIndex {fileIndex : Nat} {ranges : List ReadRange} :
    ∀ {i : Nat} {cuts : List (Request × List Task)},
      AllCut (indexRanges fileIndex i ranges) cuts →
      ∀ task ∈ (cuts.map Prod.snd).flatten, task.request.fileIndex = fileIndex := by
  induction ranges with
  | nil =>
      intro i cuts h
      cases h
      simp
  | cons range ranges ih =>
      intro i cuts h task htask
      rw [indexRanges] at h
      cases h with
      | @cons _ cut _ cuts hcut hall =>
          simp only [List.map_cons, List.flatten_cons, List.mem_append] at htask
          rcases htask with htask | htask
          · obtain ⟨k, sizes, -, -, hpieces⟩ := hcut.pieces
            rw [hpieces, tasksOf] at htask
            obtain ⟨e, -, rfl⟩ := List.mem_map.mp htask
            rw [hcut.request_eq]
          · exact ih hall task htask

/-- The batches of one transfer, when they are built. -/
theorem batchesNew_ok {t : ContiguousTransfer} {submissionId fileIndex first n : Nat}
    {group : List ReadRange} {path : String} {bs : Batches}
    (hcov : t.Covers fileIndex first group) (hsliced : t.Sliced n)
    (h : Batches.new submissionId path t = .ok bs) :
    ∃ cuts, AllCut (indexRanges fileIndex first group) cuts ∧
      bs.requests = cuts.map Prod.fst ∧
      (bs.batches.flatMap Batch.tasks).Perm (cuts.map Prod.snd).flatten ∧
      ∀ batch ∈ bs.batches,
        BatchesSpec submissionId fileIndex n (StorageUri.parse path) batch := by
  obtain ⟨vTasks, cuts, hbuild, hall, hperm, hlen, hchain⟩ := buildTasks_spec hcov hsliced
  rw [Batches.new, hbuild] at h
  simp only at h
  cases hmake : makeBatches submissionId t.fileIndex path (StorageUri.parse path) t.tasks
      vTasks with
  | error e => simp [hmake] at h
  | ok batches =>
      simp only [hmake, Except.ok.injEq] at h
      subst h
      rw [hcov.fileIndex_eq] at hmake
      have hfile : ∀ tasks ∈ vTasks, ∀ task ∈ tasks, task.request.fileIndex = fileIndex := by
        intro tasks htasks task htask
        exact hall.fileIndex task
          (hperm.mem_iff.mp (List.mem_flatten.mpr ⟨tasks, htasks, htask⟩))
      obtain ⟨hflat, hspec⟩ := makeBatches_ok (n := n) t.tasks hmake hlen
        (mem_slicesAt_lt hsliced)
        (fun tasks htasks => by
          obtain ⟨k, rfl⟩ := mem_batchTasks htasks
          exact hchain k) hfile
      exact ⟨cuts, hall, rfl, by rw [hflat]; exact hperm, hspec⟩

end ModelStreamer.Planning
