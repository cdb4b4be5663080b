/-
  ModelStreamer.Planning.Lossless
  ───────────────────────────────
  **READ PLANNING LOSES AND DUPLICATES NOTHING.**

  Where no range wraps, the words of `Plan` are numbers: a piece's offset is
  the range's plus its relative offset (`CutInto.exact`), the pieces tile
  the range (`CutInto.spans`), and a batch's chain of tasks runs upwards, so
  `Batch::Range` never throws (`plan_total`).

  `plan_lossless` puts this together with `plan_ok`, range by range:

    • every byte of the range is read by EXACTLY ONE of its tasks, to the
      right address, and no other byte is read for it,
    • the range has exactly one `Request`, which counts exactly its tasks,
    • every batch is contiguous, in a workload that exists.
-/
import ModelStreamer.Planning.Positions
import ModelStreamer.Lib.Span

namespace ModelStreamer.Planning

open ModelStreamer.Lib

/-! ## §1. Pieces that do not wrap. -/

/-- The file bytes a task reads. -/
def Task.span (task : Task) : Span := ⟨task.info.offset, task.info.bytesize⟩

theorem numbered_spans {sizes : List Nat} :
    ∀ (k offset rel : Nat), offset + sizes.sum < 2 ^ 64 →
      (numbered k offset rel sizes).map (fun e => (⟨e.2.offset, e.2.bytesize⟩ : Span))
        = layout offset sizes := by
  induction sizes with
  | nil => intros; rfl
  | cons s sizes ih =>
      intro k offset rel h
      simp only [List.sum_cons] at h
      rw [numbered, wrap_of_lt (by omega), List.map_cons, ih _ _ _ (by omega)]
      rfl

theorem numbered_exact {sizes : List Nat} :
    ∀ {k offset rel : Nat}, offset + sizes.sum < 2 ^ 64 →
      ∀ e ∈ numbered k offset rel sizes,
        e.2.stop = e.2.offset + e.2.bytesize ∧ e.2.offset + rel = offset + e.2.relativeOffset ∧
          rel ≤ e.2.relativeOffset ∧ e.2.relativeOffset + e.2.bytesize ≤ rel + sizes.sum := by
  induction sizes with
  | nil =>
      intro k offset rel _ e he
      simp [numbered] at he
  | cons s sizes ih =>
      intro k offset rel h e he
      simp only [List.sum_cons] at h ⊢
      rw [numbered, List.mem_cons] at he
      rcases he with rfl | he
      · refine ⟨?_, ?_, Nat.le_refl _, ?_⟩
        · exact wrap_of_lt (by omega)
        · rfl
        · show rel + s ≤ rel + (s + sizes.sum)
          omega
      · rw [wrap_of_lt (by omega)] at he
        have := ih (by omega) e he
        omega

/-- A task that reads part of `range`, where `range` does not wrap. -/
structure Task.Exact (task : Task) (range : ReadRange) : Prop where
  stop_eq : task.info.stop = task.info.offset + task.info.bytesize
  offset_eq : task.info.offset = range.offset + task.info.relativeOffset
  inside : task.info.relativeOffset + task.info.bytesize ≤ range.size

theorem CutInto.exact {f j : Nat} {range : ReadRange} {cut : Request × List Task}
    (h : CutInto f j range cut) (hno : range.offset + range.size < 2 ^ 64) :
    ∀ task ∈ cut.2, task.request = cut.1 ∧ task.Exact range := by
  obtain ⟨k, sizes, -, hsum, hpieces⟩ := h.pieces
  intro task htask
  rw [hpieces, tasksOf] at htask
  obtain ⟨e, he, rfl⟩ := List.mem_map.mp htask
  obtain ⟨hstop, hoff, -, hin⟩ := numbered_exact (by omega) e he
  exact ⟨rfl, hstop, by simpa using hoff, by simpa [hsum] using hin⟩

/-- The pieces of a range tile it. -/
theorem CutInto.spans {f j : Nat} {range : ReadRange} {cut : Request × List Task}
    (h : CutInto f j range cut) (hno : range.offset + range.size < 2 ^ 64) :
    ∃ sizes, sizes.sum = range.size ∧ cut.2.map Task.span = layout range.offset sizes := by
  obtain ⟨k, sizes, -, hsum, hpieces⟩ := h.pieces
  refine ⟨sizes, hsum, ?_⟩
  rw [← numbered_spans k _ 0 (by omega), hpieces, tasksOf, List.map_map]
  rfl

/-- A piece lands as far into the destination as it lies in the range. -/
theorem Task.Exact.destination {task : Task} {range : ReadRange} (h : task.Exact range)
    (hdst : task.request.dst = range.dst) :
    range.offset ≤ task.info.offset ∧
      wrapSub task.destination range.dst = task.info.offset - range.offset := by
  have hoff := h.offset_eq
  have hin := h.inside
  have hsize := range.size_lt
  refine ⟨by omega, ?_⟩
  rw [Task.destination, hdst, wrapSub_wrap_add range.dst_lt (by omega)]
  omega

/-! ## §2. Where nothing wraps, the plan is built. -/

/-- No range of the request wraps. -/
def NoWrap (request : List FileRanges) : Prop :=
  ∀ file ∈ request, ∀ range ∈ file.ranges, range.offset + range.size < 2 ^ 64

/-- A chain of tasks runs upwards. -/
theorem chain_upwards {task : Task} {tasks : List Task} :
    (task :: tasks).IsChain Task.Follows →
      (∀ u ∈ task :: tasks, u.info.stop = u.info.offset + u.info.bytesize) →
      ∀ last ∈ (task :: tasks).getLast?, task.info.offset ≤ last.info.stop := by
  induction tasks generalizing task with
  | nil =>
      intro _ hexact last hlast
      simp only [List.getLast?_singleton, Option.mem_def, Option.some.injEq] at hlast
      subst hlast
      have := hexact task (by simp)
      omega
  | cons next tasks ih =>
      intro hchain hexact last hlast
      rw [List.isChain_cons_cons] at hchain
      rw [List.getLast?_cons_cons] at hlast
      have h₁ := ih hchain.2 (fun u hu => hexact u (List.mem_cons_of_mem _ hu)) last hlast
      have h₂ := hchain.1.1
      have h₃ := hexact task (by simp)
      omega

/-- `Batch::Range` does not throw on a chain of unwrapped tasks. -/
theorem batchRange_total {tasks : List Task} (hchain : tasks.IsChain Task.Follows)
    (hexact : ∀ u ∈ tasks, u.info.stop = u.info.offset + u.info.bytesize) :
    ∃ range, BatchRange.new tasks = .ok range := by
  rw [BatchRange.new]
  cases tasks with
  | nil => exact ⟨_, dif_pos (Nat.le_refl _)⟩
  | cons task tasks =>
      have h := chain_upwards hchain hexact _ (List.getLast?_eq_some_getLast (by simp))
      refine ⟨_, dif_pos ?_⟩
      rw [List.getLast?_eq_some_getLast (by simp)]
      exact h

/-- The tasks of ranges that do not wrap. -/
theorem AllCut.exact {ranges : List Indexed} {cuts : List (Request × List Task)}
    (h : AllCut ranges cuts) (hno : ∀ r ∈ ranges, r.range.offset + r.range.size < 2 ^ 64) :
    ∀ task ∈ (cuts.map Prod.snd).flatten,
      task.info.stop = task.info.offset + task.info.bytesize := by
  induction h with
  | nil => simp
  | cons hcut _ ih =>
      intro task htask
      simp only [List.map_cons, List.flatten_cons, List.mem_append] at htask
      rcases htask with htask | htask
      · exact (hcut.exact (hno _ (by simp)) task htask).2.stop_eq
      · exact ih (fun r hr => hno r (by simp [hr])) task htask

theorem batchesNew_total {t : ContiguousTransfer} (submissionId : Nat) {n : Nat} {g : Group}
    (path : String) (hcov : Serves t g) (hsliced : t.Sliced n)
    (hno : ∀ range ∈ g.ranges, range.offset + range.size < 2 ^ 64) :
    ∃ bs, Batches.new submissionId path t = .ok bs := by
  obtain ⟨vTasks, cuts, hbuild, hall, hperm, -, hchain⟩ := buildTasks_spec hcov hsliced
  have hexact := hall.exact (fun r hr =>
    hno r.range (List.mem_of_getElem? (mem_indexRanges.mp hr).2.2))
  obtain ⟨batches, hmake⟩ := makeBatches_total submissionId t.fileIndex path
    (StorageUri.parse path) t.tasks vTasks (by
      intro tasks htasks
      obtain ⟨k, hk⟩ := mem_batchTasks htasks
      refine batchRange_total (hk ▸ hchain k) (fun u hu => hexact u ?_)
      exact hperm.mem_iff.mp (List.mem_flatten.mpr ⟨tasks, htasks, hu⟩))
  refine ⟨⟨batches, cuts.map Prod.fst⟩, ?_⟩
  rw [Batches.new, hbuild]
  simp only [hmake]

theorem planTransfers_total (submissionId : Nat) {n : Nat} (request : List FileRanges)
    {ts : List ContiguousTransfer} {groups : List Group} (h : List.Forall₂ Serves ts groups) :
    (∀ t ∈ ts, t.Sliced n) →
      (∀ g ∈ groups, ∀ range ∈ g.ranges, range.offset + range.size < 2 ^ 64) →
      ∃ bs, planTransfers submissionId request ts = .ok bs := by
  induction h with
  | nil =>
      intro _ _
      exact ⟨_, rfl⟩
  | @cons t g ts groups hserve _ ih =>
      intro hsliced hno
      obtain ⟨first, hfirst⟩ := batchesNew_total submissionId
        ((request[t.fileIndex]?.map FileRanges.path).getD "") hserve
        (hsliced t (by simp)) (hno g (by simp))
      obtain ⟨rest, hrest⟩ := ih (fun u hu => hsliced u (by simp [hu]))
        (fun g' hg' => hno g' (by simp [hg']))
      rw [planTransfers]
      simp only [hfirst, hrest]
      exact ⟨_, rfl⟩

/-- Ranges within `2 ^ 64` bytes are always assigned. -/
theorem assigner_total {config : Config} {request : List FileRanges}
    (hworkers : 1 ≤ numWorkers config request) (htotal : requestBytes request < 2 ^ 64) :
    ∃ assigner, Assigner.new config request = .ok assigner := by
  rw [Assigner.new]
  split
  · exact ⟨_, rfl⟩
  · obtain ⟨ts, hts, hgrouped, hfresh⟩ := coalesce_spec htotal
    obtain ⟨ts', hassign, -, -⟩ :=
      assign_spec (blockBytesize config request) hworkers hfresh hgrouped.size_sum
    simp only [hts, hassign]
    split
    · exact ⟨_, rfl⟩
    · exact ⟨_, rfl⟩

theorem indexFiles_noWrap {request : List FileRanges} (hno : NoWrap request) :
    ∀ r ∈ indexFiles 0 request, r.range.offset + r.range.size < 2 ^ 64 := by
  intro r hr
  have hat := (mem_indexFiles.mp hr).2
  rw [rangeAt, Option.bind_eq_some_iff] at hat
  obtain ⟨file, hfile, hget⟩ := hat
  exact hno file (List.mem_of_getElem? hfile) _ (List.mem_of_getElem? hget)

/-- The groups behind a request's transfers are made of its ranges. -/
theorem groups_noWrap {request : List FileRanges} {groups : List Group} (hno : NoWrap request)
    (hindex : indexGroups groups = indexFiles 0 request) :
    ∀ g ∈ groups, ∀ range ∈ g.ranges, range.offset + range.size < 2 ^ 64 := by
  intro g hg range hrange
  obtain ⟨j, hj, rfl⟩ := List.mem_iff_getElem.mp hrange
  have hmem : (⟨g.fileIndex, g.first + j, g.ranges[j]⟩ : Indexed) ∈ indexGroups groups := by
    refine List.mem_flatMap.mpr ⟨g, hg, mem_indexRanges.mpr ⟨rfl, Nat.le_add_right _ _, ?_⟩⟩
    rw [Nat.add_sub_cancel_left]
    exact List.getElem?_eq_getElem hj
  rw [hindex] at hmem
  exact indexFiles_noWrap hno _ hmem

/-- **Every submission whose ranges do not wrap is planned**: no `ASSERT`
of the three splittings fires. -/
theorem plan_total {config : Config} (submissionId : Nat) {request : List FileRanges}
    (hworkers : 1 ≤ numWorkers config request) (hno : NoWrap request)
    (htotal : requestBytes request < 2 ^ 64) :
    ∃ p, plan config submissionId request = .ok p := by
  obtain ⟨assigner, hnew⟩ := assigner_total hworkers htotal
  obtain ⟨groups, hserves, hindex, hsliced⟩ := assigner_ok hworkers hnew
  obtain ⟨bs, hbs⟩ := planTransfers_total submissionId request
    hserves hsliced (groups_noWrap hno hindex)
  rw [plan, hnew]
  simp only [hbs]
  exact ⟨_, rfl⟩

/-! ## §3. Lossless plans. -/

/-- Range `j` of file `f` is read completely, once, to its own place, and
its one `Request` counts its tasks. -/
structure RangeLossless (p : Plan) (f j : Nat) (range : ReadRange) : Prop where
  covers_once : ∀ x, (p.tasksOf f j).countP (fun task => task.span.covers x)
    = if range.offset ≤ x ∧ x < range.offset + range.size then 1 else 0
  destination : ∀ task ∈ p.tasksOf f j, range.offset ≤ task.info.offset ∧
    wrapSub task.destination range.dst = task.info.offset - range.offset
  one_request : ∃ r, p.requestsOf f j = [r] ∧ r.index = j ∧ r.tasks = (p.tasksOf f j).length ∧
    1 ≤ r.tasks ∧ ∀ task ∈ p.tasksOf f j, task.request = r

/-- `b` starts where `a` ends, in the file and in destination memory. -/
def Task.Adjoins (a b : Task) : Prop :=
  b.info.offset = a.info.offset + a.info.bytesize ∧
    b.destination = wrap (a.destination + a.info.bytesize)

/-- The plan reads exactly the request. -/
structure Lossless (request : List FileRanges) (p : Plan) : Prop where
  range : ∀ f j range, rangeAt request f j = some range → RangeLossless p f j range
  no_stray_task : ∀ task ∈ p.tasks,
    (rangeAt request task.request.fileIndex task.request.index).isSome
  no_stray_request : ∀ r ∈ p.requests, (rangeAt request r.fileIndex r.index).isSome
  in_workload : ∀ batch ∈ p.batches, batch.workloadIndex < p.numWorkloads
  contiguous : ∀ batch ∈ p.batches, batch.tasks ≠ [] ∧ batch.tasks.IsChain Task.Adjoins ∧
    ∀ task ∈ batch.tasks, task.request.fileIndex = batch.fileIndex

theorem CutInto.lossless {p : Plan} {f j : Nat} {range : ReadRange}
    {cut : Request × List Task} (h : CutInto f j range cut)
    (hno : range.offset + range.size < 2 ^ 64) (hreq : p.requestsOf f j = [cut.1])
    (htasks : (p.tasksOf f j).Perm cut.2) : RangeLossless p f j range where
  covers_once x := by
    obtain ⟨sizes, hsum, hspans⟩ := h.spans hno
    have hcount : cut.2.countP (fun task => task.span.covers x)
        = (cut.2.map Task.span).countP (·.covers x) := by
      rw [List.countP_map]
      rfl
    rw [htasks.countP_eq, hcount, hspans, countP_covers_layout, hsum]
  destination task htask := by
    obtain ⟨hrequest, hexact⟩ := h.exact hno task (htasks.mem_iff.mp htask)
    refine hexact.destination ?_
    rw [hrequest, h.request_eq]
  one_request := by
    obtain ⟨k, sizes, hne, -, hpieces⟩ := h.pieces
    have hlen : cut.1.tasks = cut.2.length := by rw [h.request_eq]
    refine ⟨cut.1, hreq, by rw [h.request_eq], by rw [htasks.length_eq, hlen], ?_, ?_⟩
    · rw [hlen, hpieces, tasksOf, List.length_map, numbered_length]
      exact List.length_pos_of_ne_nil hne
    · intro task htask
      exact (h.exact hno task (htasks.mem_iff.mp htask)).1

/-- A plan of ranges that do not wrap is lossless. -/
theorem plan_ok_lossless {config : Config} {submissionId : Nat} {request : List FileRanges}
    {p : Plan} (hworkers : 1 ≤ numWorkers config request) (hno : NoWrap request)
    (h : plan config submissionId request = .ok p) : Lossless request p := by
  obtain ⟨⟨cuts, hall, hreq, hperm⟩, hbatch⟩ := plan_ok hworkers h
  have hno' := indexFiles_noWrap hno
  obtain ⟨hknown, hknown'⟩ := hall.known
  have hpos : ∀ {f j : Nat}, (f, j) ∈ (indexFiles 0 request).map Indexed.key →
      (rangeAt request f j).isSome := by
    intro f j hmem
    obtain ⟨r, hr, hkey⟩ := List.mem_map.mp hmem
    have hat := (mem_indexFiles.mp hr).2
    simp only [Indexed.key, Prod.mk.injEq] at hkey
    rw [Nat.sub_zero, hkey.1, hkey.2] at hat
    rw [hat]
    rfl
  refine ⟨fun f j range hat => ?_, fun task htask => ?_, fun r hr => ?_, ?_, fun batch hmem => ?_⟩
  · have hmem : (⟨f, j, range⟩ : Indexed) ∈ indexFiles 0 request :=
      mem_indexFiles.mpr ⟨Nat.zero_le _, hat⟩
    obtain ⟨cut, hcut, hone, hsel⟩ := hall.select (indexFiles_keys 0 request) _ hmem
    refine hcut.lossless (hno' _ hmem) ?_ ?_
    · rw [Plan.requestsOf, hreq]
      exact hone
    · rw [← hsel]
      exact hperm.filter _
  · exact hpos (hknown' task (hperm.mem_iff.mp htask))
  · exact hpos (hknown r (hreq ▸ hr))
  · exact fun batch hmem => (hbatch batch hmem).workload_lt
  · have hb := hbatch batch hmem
    refine ⟨hb.nonempty, ?_, hb.file_eq⟩
    have hexact : ∀ task ∈ batch.tasks,
        task.info.stop = task.info.offset + task.info.bytesize := by
      intro task htask
      refine hall.exact hno' task (hperm.mem_iff.mp ?_)
      exact List.mem_flatMap.mpr ⟨batch, hmem, htask⟩
    refine hb.chained.imp_of_mem_imp ?_
    intro a b ha _ hab
    exact ⟨by rw [hab.1, hexact a ha], hab.2⟩

/-- **READ PLANNING LOSES AND DUPLICATES NOTHING**: every submission within
`2 ^ 64` bytes whose ranges do not wrap is planned, and its plan reads
exactly what it asks for. -/
theorem plan_lossless {config : Config} {submissionId : Nat} {request : List FileRanges}
    (hworkers : 1 ≤ numWorkers config request) (_hblock : 1 ≤ blockBytesize config request)
    (hno : NoWrap request) (htotal : requestBytes request < 2 ^ 64) :
    ∃ p, plan config submissionId request = .ok p ∧ Lossless request p := by
  obtain ⟨p, hp⟩ := plan_total submissionId hworkers hno htotal
  exact ⟨p, hp, plan_ok_lossless hworkers hno hp⟩

/-- Two workers, blocks of 4 bytes; a file whose first range is cut, whose
second is empty and whose third overlaps the first. -/
theorem plan_lossless_overlapping :
    let config : Config := ⟨2, 8, 4, 4⟩
    let request : List FileRanges :=
      [⟨"model", [{ offset := 0, size := 12, dst := 100 }, { offset := 12, size := 0, dst := 112 },
        { offset := 3, size := 5, dst := 0 }]⟩]
    ∃ p, plan config 7 request = .ok p ∧ Lossless request p :=
  plan_lossless (by decide) (by decide)
    (by
      intro file hfile range hrange
      simp only [List.mem_singleton] at hfile
      subst hfile
      simp only [List.mem_cons, List.not_mem_nil, or_false] at hrange
      rcases hrange with rfl | rfl | rfl <;> decide)
    (by decide)

end ModelStreamer.Planning
