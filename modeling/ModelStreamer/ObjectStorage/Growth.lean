/-
  ModelStreamer.ObjectStorage.Growth
  ──────────────────────────────────
  **WHAT A HOOK NEVER TAKES BACK.**

  A worker's workloads keep their blocks, in flight and dropped; the chunks
  enqueued stay on record; and only a round of the backend credits a chunk
  with Success.

    • `Grows` — the blocks and the chunks, kept by every hook,
    • `submit_credits`, `drainBatch_credits` — where a Success comes from,
    • `Delivers.success` — and of which reads.
-/
import ModelStreamer.ObjectStorage.Retained
import ModelStreamer.ObjectStorage.Sound

namespace ModelStreamer.ObjectStorage

open ModelStreamer.Lib ModelStreamer.Planning ModelStreamer.Delivery

/-! ## §1. Blocks and chunks. -/

/-- What is pending has been enqueued. -/
def Queued (w : Worker) : Prop :=
  ∀ q, w.queue = some q → ∀ x ∈ q.pending, x.item ∈ w.enqueued

/-- The blocks of a worker's workloads. -/
def Worker.blocks (w : Worker) : List Block := w.entries.map blockOf

/-- Of the worker, what a hook never takes back. -/
structure Grows (w w' : Worker) : Prop where
  blocks : ∀ block ∈ w.blocks, block ∈ w'.blocks
  enqueued : ∀ chunk ∈ w.enqueued, chunk ∈ w'.enqueued
  queued : Queued w → Queued w'

theorem Grows.refl (w : Worker) : Grows w w := ⟨fun _ h => h, fun _ h => h, id⟩

theorem Grows.trans {w w' w'' : Worker} (h : Grows w w') (h' : Grows w' w'') : Grows w w'' :=
  ⟨fun block hb => h'.blocks block (h.blocks block hb),
    fun chunk hc => h'.enqueued chunk (h.enqueued chunk hc), fun hq => h'.queued (h.queued hq)⟩

section Hooks

variable {w w' : Worker}

/-- The result of `complete_chunk`, in its parts. -/
theorem completeChunk_eq {handle base t : Nat} {ret : ResponseCode}
    (h : w.completeChunk handle base t ret = .ok w') :
    ∃ wl wl' last, find w.inflight base = some wl ∧ wl.completeChunk t ret = .ok (wl', last) ∧
      w' = (if last = true then Worker.finalize { w with
          queue := w.queue.map (fun q => q.complete 1)
          inflight := replace w.inflight base wl'
          credits := w.credits ++ [(handle, ret)] } base wl' .success
        else { w with
          queue := w.queue.map (fun q => q.complete 1)
          inflight := replace w.inflight base wl'
          credits := w.credits ++ [(handle, ret)] }) := by
  unfold Worker.completeChunk at h
  split at h
  · simp at h
  next wl hfind =>
    split at h
    · simp at h
    next wl' last hwl => exact ⟨wl, wl', last, hfind, hwl, (Except.ok.inj h).symm⟩

theorem completeChunk_credits {handle base t : Nat} {ret : ResponseCode}
    (h : w.completeChunk handle base t ret = .ok w') : w'.credits = w.credits ++ [(handle, ret)] := by
  obtain ⟨wl, wl', last, -, -, rfl⟩ := completeChunk_eq h
  cases last with
  | true => rfl
  | false => rfl

/-- Completing a chunk of a workload in flight. -/
theorem completeChunk_grows (hinv : w.Inv) {handle base t : Nat} {wl : Inflight}
    {ret : ResponseCode} (he : (base, wl) ∈ w.inflight) (hown : Owns base wl.chunkTaskIdx t handle)
    (hnew : handle ∉ w.credits.map Prod.fst) (h : w.completeChunk handle base t ret = .ok w') :
    Grows w w' := by
  obtain ⟨before, after, hsplit, hreplace, hremove⟩ := hinv.ascending.split he
  obtain ⟨wl₀, wl', last, hfind, hwl, rfl⟩ := completeChunk_eq h
  obtain rfl : wl = wl₀ := Option.some.inj ((find_mem hinv.ascending he).symm.trans hfind)
  obtain ⟨wl₁, last₁, hwl₁, -, hidx, hbatches, -⟩ :=
    (hinv.tracked _ he).completeChunk ret hown hnew
  obtain ⟨rfl, rfl⟩ := Prod.mk.inj (Except.ok.inj (hwl.symm.trans hwl₁))
  -- the entry keeps its block, wherever it goes
  have hblock : blockOf (base, wl') = blockOf (base, wl) := by
    unfold blockOf
    dsimp only
    rw [hidx, hbatches]
  have hqueued : Queued w → ∀ q, w.queue.map (fun q => q.complete 1) = some q →
      ∀ x ∈ q.pending, x.item ∈ w.enqueued := by
    intro hqueued q hq x hx
    obtain ⟨q', hq', rfl⟩ := Option.map_eq_some_iff.mp hq
    exact hqueued q' hq' x hx
  have hmem : ∀ block, block ∈ w.blocks ↔ block = blockOf (base, wl) ∨
      block ∈ (before ++ after).map blockOf ∨ block ∈ w.reported.map blockOf := by
    intro block
    show block ∈ (w.inflight ++ w.reported).map blockOf ↔ _
    rw [hsplit]
    simp only [List.map_append, List.map_cons, List.mem_append, List.mem_cons]
    tauto
  cases last with
  | true =>
      refine ⟨fun block hb => ?_, fun _ hc => hc, hqueued⟩
      have hgone : remove (replace w.inflight base wl') base = before ++ after := by
        rw [hreplace, hremove]
      show block ∈ (remove (replace w.inflight base wl') base
        ++ (w.reported ++ [(base, wl'.reportWorkload .success)])).map blockOf
      rw [hgone]
      simp only [List.map_append, List.map_cons, List.map_nil, List.mem_append, List.mem_singleton,
        report_blockOf, hblock]
      have hcases := (hmem block).mp hb
      simp only [List.map_append, List.mem_append] at hcases
      tauto
  | false =>
      refine ⟨fun block hb => ?_, fun _ hc => hc, hqueued⟩
      show block ∈ (replace w.inflight base wl' ++ w.reported).map blockOf
      rw [hreplace]
      simp only [List.map_append, List.map_cons, List.mem_append, List.mem_cons, hblock]
      have hcases := (hmem block).mp hb
      simp only [List.map_append, List.mem_append] at hcases
      tauto

theorem Completes.grows (h : Completes w w') : Grows w w' := by
  induction h with
  | refl w => exact Grows.refl w
  | step hinv he hown hnew hok _ ih => exact (completeChunk_grows hinv he hown hnew hok).trans ih

theorem abortAll_grows (w : Worker) (code : ResponseCode) : Grows w (w.abortAll code) where
  blocks := by
    intro block hb
    show block ∈ ([] ++ (w.reported ++ w.inflight.map
      (fun e : Nat × Inflight => (e.1, e.2.reportWorkload code)))).map blockOf
    obtain ⟨e, he, rfl⟩ := List.mem_map.mp hb
    rw [List.nil_append, List.map_append, List.mem_append]
    rcases List.mem_append.mp he with he | he
    · right
      rw [List.map_map]
      exact List.mem_map.mpr ⟨e, he, report_blockOf e.1 e.2 code⟩
    · exact Or.inl (List.mem_map_of_mem he)
  enqueued := fun _ h => h
  queued := by
    intro _ q hq x hx
    obtain ⟨q', -, rfl⟩ := Option.map_eq_some_iff.mp
      (show w.queue.map CapacityQueue.clear = some q from hq)
    simp [CapacityQueue.clear] at hx

/-- The chunks `enqueue` puts in the queue are recorded. -/
theorem enqueue_queued {workload : Workload} (h : w.enqueue workload = .ok w') :
    (∀ chunk ∈ w.enqueued, chunk ∈ w'.enqueued) ∧ (Queued w → Queued w') := by
  unfold Worker.enqueue at h
  dsimp only at h
  split at h
  · split at h
    · simp at h
    · obtain rfl := Except.ok.inj h
      exact ⟨fun _ hc => hc, id⟩
  · split at h
    · simp at h
    · split at h
      · simp at h
      next b _ =>
        obtain rfl := Except.ok.inj h
        refine ⟨fun _ hc => List.mem_append_left _ hc, fun hqueued q hq x hx => ?_⟩
        obtain ⟨q', hq', rfl⟩ := Option.map_eq_some_iff.mp hq
        rw [foldl_enqueue] at hx
        rcases List.mem_append.mp hx with hx | hx
        · exact List.mem_append_left _ (hqueued q' hq' x hx)
        · obtain ⟨chunk, hchunk, rfl⟩ := List.mem_map.mp hx
          exact List.mem_append_right _ hchunk

theorem receive_queued {workload : Workload} {backend : Backend} {enqueued : Bool}
    (h : w.receive workload backend = .ok (w', enqueued)) :
    (∀ chunk ∈ w.enqueued, chunk ∈ w'.enqueued) ∧ (Queued w → Queued w') := by
  unfold Worker.receive at h
  split at h
  · obtain ⟨w₁, hw₁, heq⟩ := map_ok h
    obtain ⟨rfl, -⟩ := Prod.mk.inj heq
    exact enqueue_queued hw₁
  next hnone =>
    obtain ⟨chunk, hchunk, reader, code, hcap, -⟩ := capacity_ok w workload backend
    split at h
    next w₁ hw₁ =>
      rw [hw₁] at hcap
      obtain ⟨rfl, -⟩ := Prod.mk.inj (Except.ok.inj h)
      dsimp only at hcap
      subst hcap
      refine ⟨fun _ hc => hc, fun _ q hq => ?_⟩
      have hqueue : w.queue = some q := hq
      rw [hnone] at hqueue
      simp at hqueue
    next w₁ window hw₁ =>
      rw [hw₁] at hcap
      obtain ⟨w₂, hw₂, heq⟩ := map_ok h
      obtain ⟨rfl, -⟩ := Prod.mk.inj heq
      dsimp only at hcap
      subst hcap
      obtain ⟨henqueued, hqueued⟩ := enqueue_queued hw₂
      refine ⟨henqueued, fun _ => hqueued ?_⟩
      intro q hq x hx
      obtain rfl : CapacityQueue.new window = q := Option.some.inj hq
      simp [CapacityQueue.new] at hx

/-- **A workload received** adds a block at most. -/
theorem receive_grows (hinv : w.Inv) {workload : Workload} {backend : Backend}
    (hfit : Fits (w.chunkFor workload) w.asyncHandleCounter workload) {enqueued : Bool}
    (h : w.receive workload backend = .ok (w', enqueued)) : Grows w w' := by
  obtain ⟨henqueued, hqueued⟩ := receive_queued h
  refine ⟨?_, henqueued, hqueued⟩
  obtain ⟨w₁, enqueued₁, hok, -, hrec, -, -, hentered, hdiscarded⟩ := receive_ok hinv backend hfit
  obtain ⟨rfl, rfl⟩ := Prod.mk.inj (Except.ok.inj (h.symm.trans hok))
  have hinflight : ∀ e ∈ w.inflight, e ∈ w'.inflight := by
    intro e he
    cases enqueued with
    | false =>
        rw [(hdiscarded rfl).1]
        exact he
    | true =>
        cases hentered rfl with
        | cut hinflight _ _ _ =>
            rw [hinflight]
            exact List.mem_append_left _ he
        | inline hinflight _ _ _ _ =>
            rw [hinflight]
            exact he
  intro block hb
  obtain ⟨e, he, rfl⟩ := List.mem_map.mp hb
  apply List.mem_map_of_mem
  rcases List.mem_append.mp he with he | he
  · exact List.mem_append_left _ (hinflight e he)
  · exact List.mem_append_right _ (hrec.reported.subset he)

/-! ## §2. Credits. -/

/-- A chunk that is not issued is not credited with Success. -/
theorem submit_credits {chunk : ObjectChunk} {outcome : ResponseCode} {issued : Bool}
    (h : w.submit chunk outcome = .ok (w', issued)) :
    ∀ c ∈ w'.credits, c.2 = .success → c ∈ w.credits := by
  have hfailed : ∀ {base t : Nat} {code : ResponseCode}, code ≠ .success →
      (w.completeChunk chunk.handle base t code).map (·, false) = .ok (w', issued) →
        ∀ c ∈ w'.credits, c.2 = .success → c ∈ w.credits := by
    intro base t code hcode hok c hc hsuccess
    obtain ⟨w₁, hw₁, heq⟩ := map_ok hok
    obtain ⟨rfl, -⟩ := Prod.mk.inj heq
    rw [completeChunk_credits hw₁] at hc
    rcases List.mem_append.mp hc with hc | hc
    · exact hc
    · rw [List.mem_singleton.mp hc] at hsuccess
      exact absurd hsuccess hcode
  unfold Worker.submit at h
  split at h
  · simp at h
  · split at h
    · simp at h
    · split at h
      next herror => exact hfailed herror h
      · split at h
        next houtcome => exact hfailed houtcome h
        · obtain ⟨rfl, -⟩ := Prod.mk.inj (Except.ok.inj h)
          exact fun c hc _ => hc

/-- What `drain_batch` credits is in the round. -/
theorem drainLoop_credits {responses : List Completion} {d d' : Drained}
    (h : drainLoop responses d = .ok d') :
    ∀ c ∈ d'.worker.credits, c ∈ d.worker.credits ∨ (⟨c.1, c.2⟩ : Completion) ∈ responses := by
  induction responses generalizing d with
  | nil =>
      obtain rfl := Except.ok.inj h
      exact fun c hc => Or.inl hc
  | cons response responses ih =>
      unfold drainLoop at h
      split at h
      · obtain rfl := Except.ok.inj h
        exact fun c hc => Or.inl hc
      split at h
      · intro c hc
        exact (ih h c hc).imp_right (List.mem_cons_of_mem _)
      · split at h
        · simp at h
        next w₁ hw₁ =>
          intro c hc
          rcases ih h c hc with hold | hnew
          · have hold : c ∈ w₁.credits := hold
            rw [completeChunk_credits hw₁] at hold
            rcases List.mem_append.mp hold with hold | hold
            · exact Or.inl hold
            · rw [List.mem_singleton.mp hold]
              exact Or.inr List.mem_cons_self
          · exact Or.inr (List.mem_cons_of_mem _ hnew)

theorem drainBatch_credits {stopped : Bool} {round : Round}
    (h : w.drainBatch stopped round = .ok w') :
    ∀ c ∈ w'.credits, c ∈ w.credits ∨ (⟨c.1, c.2⟩ : Completion) ∈ round.responses ∧
      ¬ (stopped = true ∨ round.ret ≠ .success) := by
  unfold Worker.drainBatch at h
  split at h
  · obtain rfl := Except.ok.inj h
    exact fun c hc => Or.inl hc
  split at h
  · obtain rfl := Except.ok.inj h
    exact fun c hc => Or.inl hc
  split at h
  · obtain rfl := Except.ok.inj h
    exact fun c hc => Or.inl hc
  next hgoes hret =>
    split at h
    · simp at h
    next d hd =>
      intro c hc
      have hcredits : w'.credits = d.worker.credits := by
        obtain rfl := Except.ok.inj h
        split
        · rfl
        · rfl
      rw [hcredits] at hc
      refine (drainLoop_credits hd c hc).imp_right (fun hmem => ⟨hmem, ?_⟩)
      rintro (hstopped | hfailed)
      · exact hgoes hstopped
      · exact hret hfailed

/-- A success in a round is that of a read under way. -/
theorem Delivers.success {counter : Nat} {started delivered delivered' : List Nat}
    {responses : List Completion} (h : Delivers counter started delivered responses delivered')
    {handle : Nat} (hmem : (⟨handle, .success⟩ : Completion) ∈ responses) :
    (handle ∈ started ∧ handle ∉ delivered ∧ handle ∈ delivered') ∨ handle = 0 ∨
      counter ≤ handle := by
  induction h with
  | nil => simp at hmem
  | real hstarted hnew hret hrest ih =>
      rcases List.mem_cons.mp hmem with heq | hmem
      · obtain ⟨rfl, -⟩ := Completion.mk.inj heq
        exact Or.inl ⟨hstarted, hnew, hrest.subset List.mem_cons_self⟩
      · exact (ih hmem).imp_left (fun hreal =>
          ⟨hreal.1, fun hd => hreal.2.1 (List.mem_cons_of_mem _ hd), hreal.2.2⟩)
  | sentinel hrest ih =>
      rcases List.mem_cons.mp hmem with heq | hmem
      · exact absurd (Completion.mk.inj heq).2 (by simp)
      · exact ih hmem
  | unknown hunknown hrest ih =>
      rcases List.mem_cons.mp hmem with heq | hmem
      · obtain ⟨rfl, -⟩ := Completion.mk.inj heq
        exact Or.inr hunknown
      · exact ih hmem

theorem Delivers.delivered_started {counter : Nat} {started delivered delivered' : List Nat}
    {responses : List Completion} (h : Delivers counter started delivered responses delivered')
    (hsub : delivered ⊆ started) : delivered' ⊆ started := by
  induction h with
  | nil => exact hsub
  | real hstarted _ _ _ ih => exact ih (List.cons_subset.mpr ⟨hstarted, hsub⟩)
  | sentinel _ ih => exact ih hsub
  | unknown _ _ ih => exact ih hsub

end Hooks

end ModelStreamer.ObjectStorage
