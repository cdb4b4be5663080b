/-
  ModelStreamer.ObjectStorage.Retained
  ────────────────────────────────────
  **WHAT A HOOK LEAVES OPEN.**

  Completing one chunk closes that chunk and no other: a workload is dropped
  by its last completion only, when all of its chunks are credited.  The other
  way out of `_inflight` is `abort_all`.

    • `completeChunk_retains` — one completion,
    • `submit_retains`, `submit_issued` — one submission, and when it comes to
      a read,
    • `drainOne_retains` — a round of one completion,
    • `receive_retains` — a new workload.
-/
import ModelStreamer.ObjectStorage.Hooks

namespace ModelStreamer.ObjectStorage

open ModelStreamer.Lib ModelStreamer.Planning ModelStreamer.Delivery

/-! ## §1. Completions. -/

/-- An open handle stays open where its block stays. -/
theorem open_of_block {w w' : Worker} {k : Nat} (hk : k ∈ w.openHandles)
    (hblock : ∀ e ∈ w.inflight, InBlock blockSize e k →
      k ∉ w'.credits.map Prod.fst → ∃ e' ∈ w'.inflight, InBlock blockSize e' k)
    (hcredits : k ∉ w.credits.map Prod.fst → k ∉ w'.credits.map Prod.fst) :
    k ∈ w'.openHandles := by
  obtain ⟨⟨e, he, hin⟩, hnew⟩ := mem_openAll.mp hk
  have hnew' := hcredits hnew
  exact mem_openAll.mpr ⟨hblock e he hin hnew', hnew'⟩

/-- **Completing a chunk closes that chunk alone.** -/
theorem Worker.Inv.completeChunk_retains {w w' : Worker} (h : w.Inv) {base t handle : Nat}
    {wl : Inflight} (he : (base, wl) ∈ w.inflight) {ret : ResponseCode}
    (hown : Owns base wl.chunkTaskIdx t handle) (hnew : handle ∉ w.credits.map Prod.fst)
    (hok : w.completeChunk handle base t ret = .ok w') {k : Nat} (hk : k ∈ w.openHandles)
    (hne : k ≠ handle) : k ∈ w'.openHandles := by
  obtain ⟨before, after, hsplit, hreplace, hremove⟩ := h.ascending.split he
  obtain ⟨wl', last, hwl, htrack, hidx, -, hlast⟩ :=
    (h.tracked _ he).completeChunk ret hown hnew
  have hsize : blockSize wl' = blockSize wl := by rw [blockSize, hidx, blockSize]
  have hfind := find_mem h.ascending he
  simp only [Worker.completeChunk, hfind, hwl, hreplace, Except.ok.injEq] at hok
  have hcredits : k ∉ w.credits.map Prod.fst →
      k ∉ (w.credits ++ [(handle, ret)]).map Prod.fst := by
    intro hopen
    rw [List.map_append, List.mem_append, not_or]
    exact ⟨hopen, by simpa using hne⟩
  -- the block of `k` is the completed chunk's, or another one
  have hcases : ∀ e ∈ w.inflight, InBlock blockSize e k →
      InBlock blockSize (base, wl') k ∨ ∃ e' ∈ before ++ after, InBlock blockSize e' k := by
    intro e hmem hin
    rw [hsplit, List.mem_append, List.mem_cons] at hmem
    rcases hmem with hmem | rfl | hmem
    · exact .inr ⟨e, List.mem_append.mpr (.inl hmem), hin⟩
    · refine .inl ?_
      rw [InBlock, hsize]
      exact hin
    · exact .inr ⟨e, List.mem_append.mpr (.inr hmem), hin⟩
  by_cases hzero : last = true
  · rw [if_pos hzero] at hok
    subst hok
    refine open_of_block hk (fun e hmem hin hopen => ?_) hcredits
    rcases hcases e hmem hin with hin | ⟨e', hmem', hin'⟩
    · -- the dropped workload has no open chunk left
      exact absurd (htrack.all_credited (hlast.mp hzero) hin) hopen
    · refine ⟨e', ?_, hin'⟩
      show e' ∈ remove (before ++ (base, wl') :: after) base
      rw [hremove wl']
      exact hmem'
  · rw [if_neg hzero] at hok
    subst hok
    refine open_of_block hk (fun e hmem hin _ => ?_) hcredits
    rcases hcases e hmem hin with hin | ⟨e', hmem', hin'⟩
    · exact ⟨(base, wl'), by simp, hin⟩
    · refine ⟨e', ?_, hin'⟩
      exact ((List.sublist_cons_self _ _).append_left _).subset hmem'

/-! ## §2. Submissions. -/

theorem map_ok {α β : Type} {f : α → β} {x : Except Crash α} {b : β}
    (h : x.map f = .ok b) : ∃ a, x = .ok a ∧ f a = b := by
  cases x with
  | error e => simp [Except.map] at h
  | ok a => exact ⟨a, rfl, Except.ok.inj h⟩

/-- The task of a chunk has failed already. -/
def Worker.doomed (w : Worker) (chunk : ObjectChunk) : Bool :=
  (((locate w.inflight chunk.handle).bind (fun found =>
    (find w.inflight found.1).bind (fun wl => wl.tasks[found.2]?))).map
      (fun ts => decide (ts.error ≠ .success))).getD false

/-- **When `submit` comes to a read.** -/
theorem submit_issued {w w' : Worker} {chunk : ObjectChunk} {outcome : ResponseCode}
    {issued : Bool} (hok : w.submit chunk outcome = .ok (w', issued)) :
    issued = (!w.doomed chunk && decide (outcome = .success)) := by
  unfold Worker.submit at hok
  unfold Worker.doomed
  split at hok
  · simp at hok
  next base taskIdx hlocate =>
    rw [hlocate, Option.bind_some]
    split at hok
    · simp at hok
    next ts hts =>
      rw [hts, Option.map_some, Option.getD_some]
      by_cases hdoomed : ts.error = .success
      · rw [if_neg (not_not.mpr hdoomed)] at hok
        by_cases houtcome : outcome = .success
        · rw [if_neg (not_not.mpr houtcome)] at hok
          simp only [Except.ok.injEq, Prod.mk.injEq] at hok
          simp [← hok.2, hdoomed, houtcome]
        · rw [if_pos houtcome] at hok
          obtain ⟨w₁, -, hpair⟩ := map_ok hok
          simp only [Prod.mk.injEq] at hpair
          simp [← hpair.2, houtcome]
      · rw [if_pos hdoomed] at hok
        obtain ⟨w₁, -, hpair⟩ := map_ok hok
        simp only [Prod.mk.injEq] at hpair
        simp [← hpair.2, hdoomed]

/-- **A submission closes its own chunk at most**, and nothing when the read
is issued. -/
theorem submit_retains {w w' : Worker} (h : w.Inv) {chunk : ObjectChunk} {outcome : ResponseCode}
    {issued : Bool} (hopen : chunk.handle ∈ w.openHandles)
    (hok : w.submit chunk outcome = .ok (w', issued)) {k : Nat} (hk : k ∈ w.openHandles)
    (hne : issued = true ∨ k ≠ chunk.handle) : k ∈ w'.openHandles := by
  have hnew := (mem_openAll.mp hopen).2
  unfold Worker.submit at hok
  split at hok
  · simp at hok
  next base taskIdx hlocate =>
    obtain ⟨wl, hmem, hown⟩ := locate_owns hlocate
    have hcomplete : ∀ code, (w.completeChunk chunk.handle base taskIdx code).map (·, false)
        = .ok (w', issued) → k ∈ w'.openHandles := by
      intro code hmap
      obtain ⟨w₁, hok', hpair⟩ := map_ok hmap
      simp only [Prod.mk.injEq] at hpair
      obtain ⟨rfl, rfl⟩ := hpair
      exact h.completeChunk_retains hmem hown hnew hok' hk (hne.resolve_left (by simp))
    split at hok
    · simp at hok
    next ts _ =>
      split at hok
      · exact hcomplete _ hok
      · split at hok
        · exact hcomplete _ hok
        · simp only [Except.ok.injEq, Prod.mk.injEq] at hok
          rw [← hok.1]
          exact hk

/-! ## §3. Rounds. -/

/-- **One completion** closes its own chunk at most. -/
theorem drainOne_retains {w w' : Worker} (h : w.Inv) {started delivered : List Nat}
    (henv : Env w started delivered) {response : Completion}
    (hstarted : response.handle ∈ started) (hnew : response.handle ∉ delivered)
    (hret : response.ret ≠ .finishedError)
    (hok : w.drainBatch false ⟨.success, [response]⟩ = .ok w') {k : Nat}
    (hk : k ∈ w.openHandles) (hne : k ≠ response.handle) : k ∈ w'.openHandles := by
  unfold Worker.drainBatch at hok
  by_cases hreader : w.reader = true
  · simp only [hreader, Bool.not_true, Bool.false_eq_true, if_false, ne_eq, not_true,
      List.isEmpty_cons, drainLoop, if_neg hret] at hok
    cases hlocate : locate w.inflight response.handle with
    | none =>
        simp only [hlocate, Bool.not_false, Bool.true_and, Bool.false_and, Bool.false_eq_true,
          if_false, Except.ok.injEq] at hok
        rw [← hok]
        exact hk
    | some found =>
        obtain ⟨wl, hmem, hown⟩ := locate_owns
          (show locate w.inflight response.handle = some (found.1, found.2) from hlocate)
        have hopen : response.handle ∉ w.credits.map Prod.fst :=
          fun hc => hnew (henv.credited _ hstarted hc)
        simp only [hlocate] at hok
        cases hcomplete : w.completeChunk response.handle found.1 found.2 response.ret with
        | error e => simp [hcomplete] at hok
        | ok w₁ =>
            simp only [hcomplete, Bool.not_true, Bool.false_and, Bool.false_eq_true, if_false,
              Except.ok.injEq] at hok
            rw [← hok]
            exact h.completeChunk_retains hmem hown hopen hcomplete hk hne
  · simp only [hreader, Bool.not_false, if_true, Except.ok.injEq] at hok
    rw [← hok]
    exact hk

/-! ## §4. Workloads. -/

/-- What is in flight stays in flight while a workload is enqueued. -/
theorem enqueue_inflight {w w' : Worker} (h : w.Inv) {workload : Workload}
    (hok : w.enqueue workload = .ok w') {e : Nat × Inflight} (he : e ∈ w.inflight) :
    e ∈ w'.inflight := by
  unfold Worker.enqueue at hok
  simp only at hok
  split at hok
  · split at hok
    · simp at hok
    · simp only [Except.ok.injEq] at hok
      rw [← hok]
      exact he
  · split at hok
    · simp at hok
    · split at hok
      · simp at hok
      · simp only [Except.ok.injEq] at hok
        rw [← hok, tryEmplace_above _ (fun e he => h.keys_lt he)]
        exact List.mem_append.mpr (.inl he)

/-- **A new workload closes nothing.** -/
theorem receive_retains {w w' : Worker} (h : w.Inv) {workload : Workload} {backend : Backend}
    {enqueued : Bool} (hok : w.receive workload backend = .ok (w', enqueued))
    (hcredits : w'.credits = w.credits) {k : Nat} (hk : k ∈ w.openHandles) :
    k ∈ w'.openHandles := by
  have hinflight : ∀ e ∈ w.inflight, e ∈ w'.inflight := by
    cases hq : w.queue with
    | some q =>
        simp only [Worker.receive, hq] at hok
        obtain ⟨w₁, hok', hpair⟩ := map_ok hok
        simp only [Prod.mk.injEq] at hpair
        obtain ⟨rfl, -⟩ := hpair
        exact fun e he => enqueue_inflight h hok' he
    | none =>
        -- nothing is in flight yet
        rw [(h.unsized hq).2.1]
        simp
  refine open_of_block hk (fun e he hin _ => ⟨e, hinflight e he, hin⟩) ?_
  rw [hcredits]
  exact id

end ModelStreamer.ObjectStorage
