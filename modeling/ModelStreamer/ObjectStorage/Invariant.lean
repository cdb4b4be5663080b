/-
  ModelStreamer.ObjectStorage.Invariant
  ─────────────────────────────────────
  **WHAT A WORKER KEEPS IN STEP.**

  Three views of a worker, each kept by every hook call:

    • `Layout` — the handle blocks: disjoint, never reused, and tiled by the
      chunks enqueued,
    • `Credits` — what each workload keeps track of, and how it was reported,
    • `Window` — the chunks pending and in flight are those of the workloads
      in flight that are still open.

  `Worker.Inv` is the three together.
-/
import ModelStreamer.ObjectStorage.System
import ModelStreamer.ObjectStorage.Tracking

namespace ModelStreamer.ObjectStorage

open ModelStreamer.Lib ModelStreamer.Planning ModelStreamer.Delivery

/-! ## §1. Handle blocks. -/

/-- A workload's handle block, and whose chunks it is for. -/
structure Block where
  base : Nat
  chunkTaskIdx : List Nat
  batches : List Batch

def Block.size (b : Block) : Nat := b.chunkTaskIdx.length

/-- The block of an entry of `_inflight`. -/
def blockOf (e : Nat × Inflight) : Block := ⟨e.1, e.2.chunkTaskIdx, e.2.batches⟩

/-- The tasks of a block, by index. -/
def Block.reads (b : Block) : List Placed := readTasks (placedTasks 0 b.batches)

/-- The chunks of task `t` of a block, in the order they were enqueued. -/
def Block.chunksOf (b : Block) (enqueued : List ObjectChunk) (t : Nat) : List ObjectChunk :=
  enqueued.filter (fun c => decide (b.base ≤ c.handle ∧ b.chunkTaskIdx[c.handle - b.base]? = some t))

/-- No handle is in both blocks. -/
def Apart (a b : Block) : Prop := a.base + a.size ≤ b.base ∨ b.base + b.size ≤ a.base

/-- Blocks in flight (`live`) and dropped ones (`gone`), below the counter. -/
structure Layout (chunk counter : Nat) (enqueued : List ObjectChunk) (live gone : List Block) :
    Prop where
  counter_pos : 1 ≤ counter
  counter_lt : counter < 2 ^ 64
  handles : enqueued.map ObjectChunk.handle = List.range' 1 (counter - 1)
  ordered : live.Pairwise (fun a b => a.base + a.size ≤ b.base)
  apart : (live ++ gone).Pairwise Apart
  below : ∀ b ∈ live ++ gone, b.base + b.size ≤ counter
  nonempty : ∀ b ∈ live, 1 ≤ b.base ∧ 0 < b.size
  tiled : ∀ b ∈ live ++ gone, b.size ≠ 0 → ∀ t p, b.reads[t]? = some p →
    TilesTask chunk p.value (b.chunksOf enqueued t)

theorem apart_symm {a b : Block} (h : Apart a b) : Apart b a := h.symm

/-- Blocks are dropped, and stay where they are. -/
theorem Layout.drop {chunk counter : Nat} {enqueued : List ObjectChunk}
    {live gone live' gone' : List Block} (h : Layout chunk counter enqueued live gone)
    (hsub : live'.Sublist live) (hperm : (live' ++ gone').Perm (live ++ gone)) :
    Layout chunk counter enqueued live' gone' :=
  ⟨h.counter_pos, h.counter_lt, h.handles, h.ordered.sublist hsub,
    (hperm.pairwise_iff (fun hab => apart_symm hab)).mpr h.apart,
    fun b hb => h.below b (hperm.subset hb), fun b hb => h.nonempty b (hsub.subset hb),
    fun b hb => h.tiled b (hperm.subset hb)⟩

/-- A workload reported inline has no block. -/
theorem Layout.inline {chunk counter : Nat} {enqueued : List ObjectChunk} {live gone : List Block}
    (h : Layout chunk counter enqueued live gone) (batches : List Batch) :
    Layout chunk counter enqueued live (gone ++ [⟨0, [], batches⟩]) := by
  refine ⟨h.counter_pos, h.counter_lt, h.handles, h.ordered, ?_, ?_, h.nonempty, ?_⟩
  · rw [← List.append_assoc, List.pairwise_append]
    refine ⟨h.apart, List.pairwise_singleton _ _, fun a _ b hb => ?_⟩
    obtain rfl := List.mem_singleton.mp hb
    exact .inr (Nat.zero_le _)
  · intro b hb
    rw [← List.append_assoc, List.mem_append, List.mem_singleton] at hb
    rcases hb with hb | rfl
    · exact h.below b hb
    · exact Nat.zero_le _
  · intro b hb hsize
    rw [← List.append_assoc, List.mem_append, List.mem_singleton] at hb
    rcases hb with hb | rfl
    · exact h.tiled b hb hsize
    · exact absurd rfl hsize

/-- The chunks of a block are the cut pieces of its task. -/
theorem chunksOf_cut {handleBase total : Nat} {cut : List (ObjectChunk × Nat)} {b : Building}
    (h : Cut handleBase total cut b) (batches : List Batch) (t : Nat) :
    (⟨handleBase, b.wl.chunkTaskIdx, batches⟩ : Block).chunksOf b.chunks t
      = (cut.filter (fun c => decide (c.2 = t))).map Prod.fst := by
  rw [Block.chunksOf, h.chunks_eq, List.filter_map]
  refine congrArg _ (List.filter_congr (fun c hc => ?_))
  obtain ⟨k, hk⟩ := List.mem_iff_getElem?.mp hc
  have hlt := (List.getElem?_eq_some_iff.mp hk).1
  have hhandle := h.handles k c hk
  have hidx : b.wl.chunkTaskIdx[k]? = some c.2 := by
    rw [h.idx_eq, List.getElem?_append_left (by simpa using hlt), List.getElem?_map, hk]
    rfl
  simp only [Function.comp_apply, hhandle, Nat.le_add_right, Nat.add_sub_cancel_left, hidx,
    true_and, Option.some.injEq]

/-- **A new block** above every other one. -/
theorem Layout.enqueue {chunk counter total : Nat} {enqueued chunks : List ObjectChunk}
    {live gone : List Block} (h : Layout chunk counter enqueued live gone) {block : Block}
    (hbase : block.base = counter) (hsize : block.size = total) (hpos : 0 < total)
    (hword : counter + total < 2 ^ 64)
    (hhandles : chunks.map ObjectChunk.handle = List.range' counter total)
    (htiled : ∀ t p, block.reads[t]? = some p → TilesTask chunk p.value (block.chunksOf chunks t)) :
    Layout chunk (counter + total) (enqueued ++ chunks) (live ++ [block]) gone := by
  have hcounter := h.counter_pos
  have hold : ∀ c ∈ enqueued, c.handle < counter := by
    intro c hc
    have hmem : c.handle ∈ List.range' 1 (counter - 1) := h.handles ▸ List.mem_map_of_mem hc
    have := (List.mem_range'_1.mp hmem).2
    omega
  have hnew : ∀ c ∈ chunks, counter ≤ c.handle := by
    intro c hc
    have hmem : c.handle ∈ List.range' counter total := hhandles ▸ List.mem_map_of_mem hc
    exact (List.mem_range'_1.mp hmem).1
  have hperm : (live ++ [block] ++ gone).Perm (block :: (live ++ gone)) := by
    rw [List.append_assoc, List.singleton_append]
    exact List.perm_middle
  refine ⟨by omega, hword, ?_, ?_, ?_, ?_, ?_, ?_⟩
  · -- the handles go on where they stopped
    rw [List.map_append, h.handles, hhandles, show counter = 1 + (counter - 1) by omega,
      show 1 + (counter - 1) + total - 1 = counter - 1 + total by omega]
    rw [← List.range'_append_1]
    simp
  · rw [List.pairwise_append]
    refine ⟨h.ordered, List.pairwise_singleton _ _, fun a ha b hb => ?_⟩
    rw [List.mem_singleton.mp hb, hbase]
    exact h.below a (List.mem_append.mpr (.inl ha))
  · -- the new block lies behind all others
    refine (hperm.pairwise_iff (fun hab => apart_symm hab)).mpr (List.pairwise_cons.mpr ⟨?_, h.apart⟩)
    intro b hb
    refine .inr ?_
    rw [hbase]
    exact h.below b hb
  · intro b hb
    rcases List.mem_cons.mp (hperm.subset hb) with rfl | hb
    · omega
    · have := h.below b hb
      omega
  · intro b hb
    rcases List.mem_append.mp hb with hb | hb
    · exact h.nonempty b hb
    · rw [List.mem_singleton.mp hb]
      omega
  · intro b hb hne t p hp
    have hsplit : b.chunksOf (enqueued ++ chunks) t
        = b.chunksOf enqueued t ++ b.chunksOf chunks t := by
      rw [Block.chunksOf, List.filter_append]
      rfl
    rw [hsplit]
    rcases List.mem_cons.mp (hperm.subset hb) with rfl | hb
    · -- nothing enqueued before is in the new block
      have hnone : b.chunksOf enqueued t = [] := by
        rw [Block.chunksOf, List.filter_eq_nil_iff]
        intro c hc hin
        have := hold c hc
        have := (of_decide_eq_true hin).1
        omega
      rw [hnone, List.nil_append]
      exact htiled t p hp
    · -- nothing enqueued now is in an old block
      have hnone : b.chunksOf chunks t = [] := by
        rw [Block.chunksOf, List.filter_eq_nil_iff]
        intro c hc hin
        have hlt := (List.getElem?_eq_some_iff.mp (of_decide_eq_true hin).2).1
        have := hnew c hc
        have := h.below b hb
        rw [Block.size] at this
        omega
      rw [hnone, List.append_nil]
      exact h.tiled b hb hne t p hp

/-! ## §2. The window. -/

/-- The handles of the workloads in flight no completion is credited to. -/
def Worker.openHandles (w : Worker) : List Nat :=
  w.inflight.flatMap (fun e => ObjectStorage.openHandles w.credits e.1 (blockSize e.2))

/-- The handles of the chunks not submitted yet. -/
def Worker.pendingHandles (w : Worker) : List Nat :=
  ((w.queue.map CapacityQueue.pending).getD []).map (fun x => x.item.handle)

/-- The window counts the open chunks: some pending, the others in flight. -/
structure Window (w : Worker) (q : CapacityQueue ObjectChunk) : Prop where
  capacity_pos : 1 ≤ q.capacity
  bounded : q.inflight ≤ q.capacity
  costs : ∀ x ∈ q.pending, x.cost = 1
  pending_nodup : (q.pending.map (fun x => x.item.handle)).Nodup
  pending_open : ∀ x ∈ q.pending, x.item.handle ∈ w.openHandles
  count : q.inflight + q.pending.length = w.openHandles.length

theorem mem_openAll {w : Worker} {handle : Nat} :
    handle ∈ w.openHandles ↔
      (∃ e ∈ w.inflight, InBlock blockSize e handle) ∧ handle ∉ w.credits.map Prod.fst := by
  simp only [Worker.openHandles, List.mem_flatMap, mem_openHandles, InBlock]
  constructor
  · rintro ⟨e, he, hle, hlt, hnew⟩
    exact ⟨⟨e, he, hle, hlt⟩, hnew⟩
  · rintro ⟨⟨e, he, hle, hlt⟩, hnew⟩
    exact ⟨e, he, hle, hlt, hnew⟩

/-- Every block ends before the next begins, in `_inflight`. -/
def Ordered (w : Worker) : Prop := Blocks blockSize w.inflight

theorem openAll_nodup {w : Worker} (h : Ordered w) : w.openHandles.Nodup := by
  rw [Worker.openHandles, List.nodup_flatMap]
  refine ⟨fun e _ => openHandles_nodup _ _ _, h.imp (fun {a b} hab => ?_)⟩
  intro handle ha hb
  have := mem_openHandles.mp ha
  have := mem_openHandles.mp hb
  omega

/-! ## §3. The invariant. -/

/-- What holds of a worker between any two hook calls. -/
structure Worker.Inv (w : Worker) : Prop where
  layout : Layout w.chunkBytesize w.asyncHandleCounter w.enqueued
    (w.inflight.map blockOf) (w.reported.map blockOf)
  tracked : ∀ e ∈ w.inflight, Tracked w.credits e.1 e.2
  concluded : ∀ e ∈ w.reported, Concluded w.credits e.1 e.2
  credits_nodup : (w.credits.map Prod.fst).Nodup
  credits_known : ∀ c ∈ w.credits, 1 ≤ c.1 ∧ c.1 < w.asyncHandleCounter
  window : ∀ q, w.queue = some q → Window w q
  unsized : w.queue = none →
    w.enqueued = [] ∧ w.inflight = [] ∧ ∀ e ∈ w.reported, blockSize e.2 = 0
  reader : w.queue ≠ none → w.reader = true

/-- The batches of every workload received. -/
def Worker.works (w : Worker) : List (List Batch) :=
  (w.inflight ++ w.reported).map (fun e => e.2.batches)

/-- Every workload in flight has a task remaining. -/
def Worker.Live (w : Worker) : Prop := ∀ e ∈ w.inflight, e.2.remainingTasks ≠ 0

/-- What completing and aborting leave as it was. -/
structure Carried (w w' : Worker) : Prop where
  counter_eq : w'.asyncHandleCounter = w.asyncHandleCounter
  pending : w'.pendingHandles.Sublist w.pendingHandles
  queue : w'.queue.isSome = w.queue.isSome
  works : w'.works.Perm w.works
  reported : w.reported <+: w'.reported
  opens : ∀ handle ∈ w'.openHandles,
    handle ∈ w.openHandles ∧ (handle ∈ w.pendingHandles → handle ∈ w'.pendingHandles)

/-- The same, for a whole hook. -/
structure Kept (w w' : Worker) : Prop extends Carried w w' where
  live : w.Live → w'.Live

theorem Kept.refl (w : Worker) : Kept w w :=
  ⟨⟨rfl, List.Sublist.refl _, rfl, List.Perm.refl _, List.prefix_refl _, fun _ h => ⟨h, id⟩⟩, id⟩

theorem Carried.trans {w w' w'' : Worker} (h : Carried w w') (h' : Carried w' w'') :
    Carried w w'' :=
  ⟨h'.counter_eq.trans h.counter_eq, h'.pending.trans h.pending, h'.queue.trans h.queue,
    h'.works.trans h.works, h.reported.trans h'.reported,
    fun handle hopen => ⟨(h.opens handle (h'.opens handle hopen).1).1,
      fun hp => (h'.opens handle hopen).2 ((h.opens handle (h'.opens handle hopen).1).2 hp)⟩⟩

theorem Kept.trans {w w' w'' : Worker} (h : Kept w w') (h' : Kept w' w'') : Kept w w'' :=
  ⟨h.toCarried.trans h'.toCarried, fun hlive => h'.live (h.live hlive)⟩

theorem Worker.Inv.ordered {w : Worker} (h : w.Inv) : Ordered w :=
  List.pairwise_map.mp h.layout.ordered

theorem Worker.Inv.ascending {w : Worker} (h : w.Inv) : Ascending w.inflight := by
  refine h.ordered.imp_of_mem (fun {a b} ha _ hab => ?_)
  have hpos := (h.tracked a ha).size_pos
  omega

theorem report_blockOf (base : Nat) (wl : Inflight) (code : ResponseCode) :
    blockOf (base, wl.reportWorkload code) = blockOf (base, wl) := by
  simp only [blockOf, Inflight.batches, report_batches]
  rfl

/-- An open chunk of a live block is known to the backend or to the window. -/
theorem Worker.Inv.known {w : Worker} (h : w.Inv) {e : Nat × Inflight} (he : e ∈ w.inflight)
    {handle : Nat} (hin : InBlock blockSize e handle) :
    1 ≤ handle ∧ handle < w.asyncHandleCounter := by
  have hmem : blockOf e ∈ w.inflight.map blockOf := List.mem_map_of_mem he
  have hone := (h.layout.nonempty _ hmem).1
  have hbelow := h.layout.below _ (List.mem_append.mpr (.inl hmem))
  have hsize : (blockOf e).size = blockSize e.2 := rfl
  have hbase : (blockOf e).base = e.1 := rfl
  have := hin.1
  have := hin.2
  omega

/-! ## §4. Completing a chunk. -/

/-- Two lists of open handles with the same members have the same length. -/
theorem openAll_length {w w' : Worker} (h : Ordered w) (h' : Ordered w')
    (hmem : ∀ handle, handle ∈ w'.openHandles ↔ handle ∈ w.openHandles) :
    w'.openHandles.length = w.openHandles.length :=
  ((List.perm_ext_iff_of_nodup (openAll_nodup h') (openAll_nodup h)).mpr hmem).length_eq

/-- A credit takes one open handle off. -/
theorem openAll_credit {w w' : Worker} (h : Ordered w) (h' : Ordered w') {handle : Nat}
    (hopen : handle ∈ w.openHandles)
    (hmem : ∀ k, k ∈ w'.openHandles ↔ k ∈ w.openHandles ∧ k ≠ handle) :
    w'.openHandles.length + 1 = w.openHandles.length := by
  have hperm : w'.openHandles.Perm (w.openHandles.erase handle) := by
    refine (List.perm_ext_iff_of_nodup (openAll_nodup h') ((openAll_nodup h).erase _)).mpr
      (fun k => ?_)
    rw [hmem, (openAll_nodup h).mem_erase_iff, and_comm]
  rw [hperm.length_eq, List.length_erase_of_mem hopen]
  have := List.length_pos_of_mem hopen
  omega

/-- Completing a chunk, as the window sees it. -/
theorem Window.complete {w w' : Worker} {q : CapacityQueue ObjectChunk} (h : Window w q)
    (hord : Ordered w) (hord' : Ordered w') {handle : Nat} (hopen : handle ∈ w.openHandles)
    (hpend : handle ∉ q.pending.map (fun x => x.item.handle))
    (hmem : ∀ k, k ∈ w'.openHandles ↔ k ∈ w.openHandles ∧ k ≠ handle) :
    Window w' (q.complete 1) := by
  have hcredit := openAll_credit hord hord' hopen hmem
  -- the chunk is open but not pending, so it is in flight
  have hinflight : q.pending.length < w.openHandles.length := by
    have hsub : (handle :: q.pending.map (fun x => x.item.handle)).Subperm w.openHandles := by
      refine List.Nodup.subperm (List.nodup_cons.mpr ⟨hpend, h.pending_nodup⟩) (fun k hk => ?_)
      rcases List.mem_cons.mp hk with rfl | hk
      · exact hopen
      · obtain ⟨x, hx, rfl⟩ := List.mem_map.mp hk
        exact h.pending_open x hx
    have := hsub.length_le
    rw [List.length_cons, List.length_map] at this
    omega
  have hcount := h.count
  have hbounded := h.bounded
  have hcomplete : (q.complete 1).inflight = q.inflight - 1 := by
    show (if 1 ≤ q.inflight then q.inflight - 1 else 0) = _
    split <;> omega
  refine ⟨h.capacity_pos, ?_, h.costs, h.pending_nodup, fun x hx => (hmem _).mpr
    ⟨h.pending_open x hx, ?_⟩, ?_⟩
  · rw [hcomplete]
    show q.inflight - 1 ≤ q.capacity
    omega
  · rintro rfl
    exact hpend (List.mem_map_of_mem hx)
  · rw [hcomplete]
    show q.inflight - 1 + q.pending.length = _
    omega

/-- With no task remaining, every chunk of the block is credited. -/
theorem Tracked.all_credited {credits : List (Nat × ResponseCode)} {base : Nat} {wl : Inflight}
    (h : Tracked credits base wl) (hzero : wl.remainingTasks = 0) {handle : Nat}
    (hin : InBlock blockSize (base, wl) handle) : handle ∈ credits.map Prod.fst := by
  by_contra hopen
  have hlt : handle - base < wl.chunkTaskIdx.length := by
    have h₁ : base ≤ handle := hin.1
    have h₂ : handle < base + wl.chunkTaskIdx.length := hin.2
    omega
  have hown : Owns base wl.chunkTaskIdx wl.chunkTaskIdx[handle - base] handle :=
    ⟨hin.1, List.getElem?_eq_getElem hlt⟩
  obtain ⟨ts, hts⟩ := h.counted.task hown
  have hpos := h.counted.remaining_pos hown hopen hts
  have hwaiting := h.remainingTasks
  rw [hzero] at hwaiting
  have hnone := List.countP_eq_zero.mp hwaiting.symm ts (List.mem_of_getElem? hts)
  simp only [ne_eq, decide_eq_true_eq, not_not] at hnone
  omega

theorem split_perm {α : Type} (before after gone : List α) (e : α) :
    (before ++ after ++ (gone ++ [e])).Perm (before ++ e :: after ++ gone) := by
  have h₁ : (before ++ after ++ (gone ++ [e])).Perm (e :: (before ++ after ++ gone)) := by
    rw [← List.append_assoc]
    exact List.perm_append_singleton _ _
  have h₂ : (before ++ e :: after ++ gone).Perm (e :: (before ++ after ++ gone)) := by
    rw [List.append_assoc, List.cons_append]
    exact List.perm_middle.trans (by simp)
  exact h₁.trans h₂.symm

/-- **Finalizing** a workload with no task remaining. -/
theorem Worker.Inv.finalize {w : Worker} (h : w.Inv) {base : Nat} {wl : Inflight}
    (he : (base, wl) ∈ w.inflight) (hzero : wl.remainingTasks = 0) :
    (w.finalize base wl .success).Inv ∧ Carried w (w.finalize base wl .success) := by
  obtain ⟨before, after, hsplit, -, hremove⟩ := h.ascending.split he
  have hremove : remove w.inflight base = before ++ after := by
    rw [hsplit]
    exact hremove wl
  have hfinal : w.finalize base wl .success
      = { w with
          inflight := before ++ after
          reported := w.reported ++ [(base, wl.reportWorkload .success)] } := by
    rw [Worker.finalize, hremove]
  have hblock := report_blockOf base wl .success
  have hsub : (before ++ after).Sublist w.inflight := by
    rw [hsplit]
    exact (List.sublist_cons_self _ _).append_left _
  have htrack := h.tracked _ he
  rw [hfinal]
  -- a handle of the workload that leaves has been credited
  have hmem : ∀ handle, handle ∈ Worker.openHandles { w with
      inflight := before ++ after
      reported := w.reported ++ [(base, wl.reportWorkload .success)] } ↔
        handle ∈ w.openHandles := by
    intro handle
    rw [mem_openAll, mem_openAll]
    refine and_congr_left (fun hnew => ⟨?_, ?_⟩)
    · rintro ⟨e, hmem, hin⟩
      exact ⟨e, hsub.subset hmem, hin⟩
    · rintro ⟨e, hmem, hin⟩
      rw [hsplit, List.mem_append, List.mem_cons] at hmem
      rcases hmem with hmem | rfl | hmem
      · exact ⟨e, List.mem_append.mpr (.inl hmem), hin⟩
      · exact absurd (htrack.all_credited hzero hin) hnew
      · exact ⟨e, List.mem_append.mpr (.inr hmem), hin⟩
  refine ⟨⟨?_, fun e hmem => h.tracked e (hsub.subset hmem), ?_, h.credits_nodup, h.credits_known,
    fun q hq => ?_, fun hnone => ?_, h.reader⟩, rfl, List.Sublist.refl _, rfl, ?_, ?_,
    fun handle hopen => ⟨(hmem handle).mp hopen, id⟩⟩
  · refine h.layout.drop (hsub.map _) ?_
    show ((before ++ after).map blockOf
      ++ (w.reported ++ [(base, wl.reportWorkload .success)]).map blockOf).Perm _
    rw [hsplit, List.map_append, List.map_append, List.map_append, List.map_singleton, hblock,
      List.map_cons]
    exact split_perm _ _ _ _
  · intro e hmem
    rcases List.mem_append.mp hmem with hmem | hmem
    · exact h.concluded e hmem
    · rw [List.mem_singleton.mp hmem]
      exact htrack.report (.inr hzero)
  · have hw := h.window q hq
    have hord : Ordered { w with
        inflight := before ++ after
        reported := w.reported ++ [(base, wl.reportWorkload .success)] } :=
      h.ordered.sublist hsub
    exact ⟨hw.capacity_pos, hw.bounded, hw.costs, hw.pending_nodup,
      fun x hx => (hmem _).mpr (hw.pending_open x hx),
      hw.count.trans (openAll_length h.ordered hord hmem).symm⟩
  · have hempty := (h.unsized hnone).2.1
    rw [hempty] at he
    simp at he
  · show ((before ++ after ++ (w.reported ++ [(base, wl.reportWorkload .success)])).map _).Perm _
    have hbatches : (wl.reportWorkload .success).batches = wl.batches := report_batches wl _
    rw [Worker.works, hsplit]
    simp only [List.map_append, List.map_cons, List.map_nil, hbatches]
    exact split_perm _ _ _ _
  · exact List.prefix_append _ _

/-- A chunk of one workload in flight is in the block of no other. -/
theorem Worker.Inv.apart_inflight {w : Worker} (h : w.Inv) {base handle : Nat} {wl : Inflight}
    {before after : List (Nat × Inflight)} (hsplit : w.inflight = before ++ (base, wl) :: after)
    (hin : InBlock blockSize (base, wl) handle) :
    ∀ e ∈ before ++ after, handle < e.1 ∨ e.1 + blockSize e.2 ≤ handle := by
  have hblocks := h.ordered
  rw [Ordered, Blocks, hsplit, List.pairwise_append, List.pairwise_cons] at hblocks
  obtain ⟨-, ⟨hafter, -⟩, hbefore⟩ := hblocks
  have h₁ : base ≤ handle := hin.1
  have h₂ : handle < base + blockSize wl := hin.2
  intro e hmem
  rcases List.mem_append.mp hmem with hmem | hmem
  · have : e.1 + blockSize e.2 ≤ base := hbefore e hmem (base, wl) List.mem_cons_self
    omega
  · have : base + blockSize wl ≤ e.1 := hafter e hmem
    omega

/-- The worker after crediting a chunk, before finalizing. -/
theorem Worker.Inv.credit {w : Worker} (h : w.Inv) {base t handle : Nat} {wl wl' : Inflight}
    {before after : List (Nat × Inflight)} (hsplit : w.inflight = before ++ (base, wl) :: after)
    (ret : ResponseCode) (hown : Owns base wl.chunkTaskIdx t handle)
    (hnew : handle ∉ w.credits.map Prod.fst) (hpend : handle ∉ w.pendingHandles)
    (htrack : Tracked (w.credits ++ [(handle, ret)]) base wl')
    (hidx : wl'.chunkTaskIdx = wl.chunkTaskIdx) (hbatches : wl'.batches = wl.batches) :
    Worker.Inv { w with
        queue := w.queue.map (fun q => q.complete 1)
        inflight := before ++ (base, wl') :: after
        credits := w.credits ++ [(handle, ret)] } ∧
      Carried w { w with
        queue := w.queue.map (fun q => q.complete 1)
        inflight := before ++ (base, wl') :: after
        credits := w.credits ++ [(handle, ret)] } := by
  have he : (base, wl) ∈ w.inflight := by
    rw [hsplit]
    simp
  have hin : InBlock blockSize (base, wl) handle := hown.lt
  have hknown := h.known he hin
  have hblock : blockOf (base, wl') = blockOf (base, wl) := by
    simp only [blockOf, hidx, hbatches]
  have hsize : blockSize wl' = blockSize wl := by rw [blockSize, hidx, blockSize]
  have hord : Ordered { w with
      queue := w.queue.map (fun q => q.complete 1)
      inflight := before ++ (base, wl') :: after
      credits := w.credits ++ [(handle, ret)] } := by
    have hmap : (before ++ (base, wl') :: after).map blockOf = w.inflight.map blockOf := by
      rw [hsplit, List.map_append, List.map_cons, hblock, List.map_append, List.map_cons]
    refine List.pairwise_map.mp (?_ : ((before ++ (base, wl') :: after).map blockOf).Pairwise
      (fun a b => a.base + a.size ≤ b.base))
    rw [hmap]
    exact h.layout.ordered
  have hout := h.apart_inflight hsplit hin
  have hmem : ∀ k, k ∈ Worker.openHandles { w with
      queue := w.queue.map (fun q => q.complete 1)
      inflight := before ++ (base, wl') :: after
      credits := w.credits ++ [(handle, ret)] } ↔ k ∈ w.openHandles ∧ k ≠ handle := by
    intro k
    rw [mem_openAll, mem_openAll]
    have hblocks : (∃ e ∈ before ++ (base, wl') :: after, InBlock blockSize e k) ↔
        ∃ e ∈ w.inflight, InBlock blockSize e k := by
      have hsame : InBlock blockSize (base, wl') k ↔ InBlock blockSize (base, wl) k := by
        simp only [InBlock, hsize]
      simp only [hsplit, List.mem_append, List.mem_cons, or_and_right, exists_or, exists_eq_left,
        hsame]
    show (∃ e ∈ before ++ (base, wl') :: after, InBlock blockSize e k) ∧ _ ↔ _
    rw [hblocks, and_assoc]
    refine and_congr_right (fun _ => ?_)
    simp
  have hpending : Worker.pendingHandles { w with
      queue := w.queue.map (fun q => q.complete 1)
      inflight := before ++ (base, wl') :: after
      credits := w.credits ++ [(handle, ret)] } = w.pendingHandles := by
    simp only [Worker.pendingHandles]
    cases w.queue <;> rfl
  refine ⟨⟨?_, ?_, fun e hmem => (h.concluded e hmem).credit _, ?_, ?_, ?_, ?_, ?_⟩,
    rfl, by rw [hpending], by simp, ?_, List.prefix_refl _,
    fun k hk => ⟨((hmem k).mp hk).1, fun hp => hpending ▸ hp⟩⟩
  · show Layout _ _ _ ((before ++ (base, wl') :: after).map blockOf) _
    have hlayout := h.layout
    rw [hsplit] at hlayout
    rwa [List.map_append, List.map_cons, hblock, ← List.map_cons, ← List.map_append]
  · intro e hmem
    rcases List.mem_append.mp hmem with hmem | hmem
    · exact (h.tracked e (by rw [hsplit]; simp [hmem])).other ret
        (hout e (List.mem_append.mpr (.inl hmem)))
    · rcases List.mem_cons.mp hmem with rfl | hmem
      · exact htrack
      · exact (h.tracked e (by rw [hsplit]; simp [hmem])).other ret
          (hout e (List.mem_append.mpr (.inr hmem)))
  · rw [List.map_append, List.nodup_append]
    refine ⟨h.credits_nodup, by simp, fun a ha b hb hab => ?_⟩
    obtain rfl : b = handle := by simpa using hb
    exact hnew (hab ▸ ha)
  · intro c hc
    rcases List.mem_append.mp hc with hc | hc
    · exact h.credits_known c hc
    · rw [List.mem_singleton.mp hc]
      exact hknown
  · intro q' hq'
    obtain ⟨q, hq, rfl⟩ := Option.map_eq_some_iff.mp hq'
    refine (h.window q hq).complete h.ordered hord (mem_openAll.mpr ⟨⟨_, he, hin⟩, hnew⟩) ?_ ?_
    · rw [Worker.pendingHandles, hq] at hpend
      exact hpend
    · exact hmem
  · intro hnone
    rw [(h.unsized (by simpa using hnone)).2.1] at he
    simp at he
  · intro hsome
    exact h.reader (by simpa using hsome)
  · show ((before ++ (base, wl') :: after ++ w.reported).map _).Perm _
    rw [Worker.works, hsplit]
    simp only [List.map_append, List.map_cons, hbatches]
    exact List.Perm.refl _

/-- **Completing a chunk**: no `ASSERT` fails, and everything stays in
step. -/
theorem Worker.Inv.completeChunk {w : Worker} (h : w.Inv) {base t handle : Nat} {wl : Inflight}
    (he : (base, wl) ∈ w.inflight) (ret : ResponseCode) (hown : Owns base wl.chunkTaskIdx t handle)
    (hnew : handle ∉ w.credits.map Prod.fst) (hpend : handle ∉ w.pendingHandles) :
    ∃ w', w.completeChunk handle base t ret = .ok w' ∧ w'.Inv ∧ Kept w w' ∧
      w'.credits = w.credits ++ [(handle, ret)] := by
  obtain ⟨before, after, hsplit, hreplace, hremove⟩ := h.ascending.split he
  obtain ⟨wl', last, hok, htrack, hidx, hbatches, hlast⟩ :=
    (h.tracked _ he).completeChunk ret hown hnew
  obtain ⟨hinv, hkept⟩ := h.credit hsplit ret hown hnew hpend htrack hidx hbatches
  have hfind := find_mem h.ascending he
  have hreplace := hreplace wl'
  have hothers : w.Live → ∀ e ∈ before ++ after, e.2.remainingTasks ≠ 0 := by
    intro hlive e hmem
    refine hlive e ?_
    rw [hsplit]
    exact ((List.sublist_cons_self _ _).append_left _).subset hmem
  simp only [Worker.completeChunk, hfind, hok, hreplace]
  by_cases hzero : last = true
  · have hmem : (base, wl') ∈ before ++ (base, wl') :: after := by simp
    obtain ⟨hinv', hkept'⟩ := hinv.finalize hmem (hlast.mp hzero)
    rw [if_pos hzero]
    refine ⟨_, rfl, hinv', ⟨hkept.trans hkept', fun hlive e hin => hothers hlive e ?_⟩, rfl⟩
    have hin : e ∈ remove (before ++ (base, wl') :: after) base := hin
    rwa [hremove wl'] at hin
  · rw [if_neg hzero]
    refine ⟨_, rfl, hinv, ⟨hkept, fun hlive e hin => ?_⟩, rfl⟩
    rcases List.mem_append.mp hin with hin | hin
    · exact hothers hlive e (List.mem_append.mpr (.inl hin))
    · rcases List.mem_cons.mp hin with rfl | hin
      · exact fun hne => hzero (hlast.mpr hne)
      · exact hothers hlive e (List.mem_append.mpr (.inr hin))

/-- What `locate` finds is there. -/
theorem locate_owns {inflight : List (Nat × Inflight)} {handle base t : Nat}
    (h : locate inflight handle = some (base, t)) :
    ∃ wl, (base, wl) ∈ inflight ∧ Owns base wl.chunkTaskIdx t handle := by
  rw [locate] at h
  cases hfloor : floorEntry inflight handle with
  | none => simp [hfloor] at h
  | some e =>
      simp only [hfloor, Option.map_eq_some_iff, Prod.mk.injEq] at h
      obtain ⟨t', ht, rfl, rfl⟩ := h
      obtain ⟨hmem, hle⟩ := floorEntry_mem hfloor
      exact ⟨e.2, hmem, hle, ht⟩

/-- A handle of a live block is located. -/
theorem locate_live {w : Worker} (h : w.Inv) {base t handle : Nat} {wl : Inflight}
    (he : (base, wl) ∈ w.inflight) (hown : Owns base wl.chunkTaskIdx t handle) :
    locate w.inflight handle = some (base, t) := by
  have hfloor := floorEntry_block h.ordered he
    (show InBlock blockSize (base, wl) handle from hown.lt)
  simp only [locate, hfloor, hown.2, Option.map_some]

/-- A chunk in flight is in no dropped block. -/
theorem Worker.Inv.outside {w : Worker} (h : w.Inv) {e e' : Nat × Inflight}
    (he : e ∈ w.inflight) (he' : e' ∈ w.reported) {handle : Nat}
    (hin : InBlock blockSize e handle) : handle < e'.1 ∨ e'.1 + blockSize e'.2 ≤ handle := by
  have hapart := (List.pairwise_append.mp h.layout.apart).2.2 _ (List.mem_map_of_mem he) _
    (List.mem_map_of_mem he')
  have hblocks : e.1 + blockSize e.2 ≤ e'.1 ∨ e'.1 + blockSize e'.2 ≤ e.1 := hapart
  have hle := hin.1
  have hlt := hin.2
  omega

/-- **A late completion is dropped**: the handles of a dropped workload are
not located. -/
theorem locate_gone {w : Worker} (h : w.Inv) {e : Nat × Inflight} (he : e ∈ w.reported)
    {handle : Nat} (hin : InBlock blockSize e handle) : locate w.inflight handle = none := by
  cases hlocate : locate w.inflight handle with
  | none => rfl
  | some found =>
      obtain ⟨wl, hmem, hown⟩ := locate_owns
        (show locate w.inflight handle = some (found.1, found.2) from hlocate)
      -- the two blocks would share the handle
      have hout := h.outside hmem he hown.lt
      have h₁ := hin.1
      have h₂ := hin.2
      omega

end ModelStreamer.ObjectStorage
