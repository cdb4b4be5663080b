/-
  ModelStreamer.ObjectStorage.ZeroSized
  ─────────────────────────────────────
  **WHAT A ZERO-SIZED RANGE IS ANSWERED**, from a file and from an object.

  A zero-sized range needs no read of its own, but its task sits in a batch
  with others.  From a file it is finished when the batch gets that far, and
  shares the failure of a batch that does not.  From an object it is finished
  as its workload is cut into chunks, before anything is read; only a workload
  that is discarded before that fails it.

    • `Running.Grows` — reports only add to a batch's log,
    • `enqueue_answers` — cutting a workload answers its zero-sized tasks,
    • `Answering` — in every run, of all workloads that were not discarded,
    • `zero_sized_answered` — both backends,
    • `zero_sized_failed` — a zero-sized range of a missing file fails.
-/
import ModelStreamer.Delivery.ExactlyOnce
import ModelStreamer.Filesystem.Execute
import ModelStreamer.ObjectStorage.Retained
import ModelStreamer.ObjectStorage.Sound

namespace ModelStreamer.ObjectStorage

open ModelStreamer.Lib ModelStreamer.Planning ModelStreamer.Delivery

/-! ## §1. Reports only add. -/

/-- What reports make of a batch: the same batch, further on. -/
structure Running.Grows (r r' : Running) : Prop where
  batch_eq : r'.batch = r.batch
  ran : Ran r.batch r.run → Ran r.batch r'.run
  log : ∀ f ∈ r.run.log, f ∈ r'.run.log

theorem Running.Grows.refl (r : Running) : r.Grows r := ⟨rfl, id, fun _ => id⟩

theorem Running.Grows.trans {r r' r'' : Running} (h : r.Grows r') (h' : r'.Grows r'') :
    r.Grows r'' := by
  refine ⟨h'.batch_eq.trans h.batch_eq, fun hran => ?_, fun f hf => h'.log f (h.log f hf)⟩
  have := h'.ran
  rw [h.batch_eq] at this
  exact this (h.ran hran)

/-- The same for the batches of a workload. -/
structure Grown (workload workload' : List Running) : Prop where
  length_eq : workload'.length = workload.length
  grows : ∀ (b : Nat) (r r' : Running), workload[b]? = some r → workload'[b]? = some r' → r.Grows r'

theorem Grown.refl (workload : List Running) : Grown workload workload := by
  refine ⟨rfl, fun b r r' hr hr' => ?_⟩
  obtain rfl := Option.some.inj (hr.symm.trans hr')
  exact .refl r

theorem Grown.forward {workload workload' : List Running} (h : Grown workload workload') {b : Nat}
    {r : Running} (hr : workload[b]? = some r) : ∃ r', workload'[b]? = some r' ∧ r.Grows r' := by
  have hlt : b < workload'.length := by
    rw [h.length_eq]
    exact (List.getElem?_eq_some_iff.mp hr).1
  have hget := List.getElem?_eq_getElem hlt
  exact ⟨_, hget, h.grows b r _ hr hget⟩

theorem Grown.backward {workload workload' : List Running} (h : Grown workload workload') {b : Nat}
    {r' : Running} (hr' : workload'[b]? = some r') :
    ∃ r, workload[b]? = some r ∧ r.Grows r' := by
  have hlt : b < workload.length := by
    rw [← h.length_eq]
    exact (List.getElem?_eq_some_iff.mp hr').1
  have hget := List.getElem?_eq_getElem hlt
  exact ⟨_, hget, h.grows b _ r' hget hr'⟩

theorem Grown.trans {workload workload' workload'' : List Running} (h : Grown workload workload')
    (h' : Grown workload' workload'') : Grown workload workload'' := by
  refine ⟨h'.length_eq.trans h.length_eq, fun b r r'' hr hr'' => ?_⟩
  obtain ⟨r', hr', hgrows⟩ := h.forward hr
  exact hgrows.trans (h'.grows b r' r'' hr' hr'')

theorem reportWorkload_grown (wl : Inflight) (code : ResponseCode) :
    Grown wl.workload (wl.reportWorkload code).workload := by
  refine ⟨by simp [Inflight.reportWorkload], fun b r r' hr hr' => ?_⟩
  rw [Inflight.reportWorkload, List.getElem?_map, hr, Option.map_some, Option.some.injEq] at hr'
  subst hr'
  exact ⟨rfl, .handleError _, fun f hf => handleError_keeps hf _⟩

/-- What `handle_response` does to a batch. -/
theorem handleResponse_grows {r : Running} {run : BatchRun} {i : Nat} {ret : ResponseCode}
    (h : handleResponse r.batch i ret r.run = .ok run) :
    run = r.run.finishedRequest i ret ∧ ret = .success ∧ i < r.batch.tasks.length ∧
      r.Grows { r with run := run } := by
  have hran : Ran r.batch r.run → Ran r.batch run := fun hran => .handleResponse hran h
  unfold handleResponse at h
  split at h
  · simp at h
  next hret =>
    split at h
    · simp at h
    next task htask =>
      split at h
      · simp at h
      · obtain rfl := Except.ok.inj h
        exact ⟨rfl, not_not.mp hret, (List.getElem?_eq_some_iff.mp htask).1, rfl, hran,
          fun f hf => finishedRequest_keeps hf i ret⟩

/-- What reporting one task does to a workload. -/
theorem respond_grown {workload workload' : List Running} {b i : Nat}
    (h : respond workload b i = .ok workload') :
    Grown workload workload' ∧ ∃ r, workload[b]? = some r ∧ i < r.batch.tasks.length ∧
      workload' = workload.set b { r with run := r.run.finishedRequest i .success } := by
  unfold respond at h
  split at h
  · simp at h
  next r hr =>
    split at h
    · simp at h
    next run hrun =>
      obtain ⟨rfl, -, hi, hgrows⟩ := handleResponse_grows hrun
      obtain rfl := Except.ok.inj h
      refine ⟨⟨List.length_set, fun k q q' hq hq' => ?_⟩, r, hr, hi, rfl⟩
      by_cases hbk : b = k
      · subst hbk
        rw [List.getElem?_set_self (List.getElem?_eq_some_iff.mp hr).1, Option.some.injEq] at hq'
        obtain rfl := Option.some.inj (hr.symm.trans hq)
        rw [← hq']
        exact hgrows
      · rw [List.getElem?_set_ne hbk] at hq'
        obtain rfl := Option.some.inj (hq.symm.trans hq')
        exact .refl q

/-! ## §2. Cutting a workload. -/

/-- Every zero-sized task of the batch is finished with Success. -/
structure Running.ZeroAnswered (r : Running) : Prop where
  ran : Ran r.batch r.run
  answered : ∀ i task, r.batch.tasks[i]? = some task → task.info.bytesize = 0 →
    ⟨i, .success⟩ ∈ r.run.log

theorem Running.ZeroAnswered.grows {r r' : Running} (h : r.ZeroAnswered) (hgrows : r.Grows r') :
    r'.ZeroAnswered := by
  have hran := hgrows.ran h.ran
  rw [← hgrows.batch_eq] at hran
  refine ⟨hran, fun i task htask hzero => hgrows.log _ (h.answered i task ?_ hzero)⟩
  rw [← hgrows.batch_eq]
  exact htask

/-- Reports of Success alone so far. -/
structure Clean (workload : List Running) : Prop where
  ran : ∀ (b : Nat) (r : Running), workload[b]? = some r → Ran r.batch r.run
  success : ∀ (b : Nat) (r : Running), workload[b]? = some r → ∀ f ∈ r.run.log, f.ret = .success

theorem clean_start (workload : Workload) : Clean (Inflight.ofWorkload workload).workload := by
  have hstart : ∀ (b : Nat) (r : Running), (Inflight.ofWorkload workload).workload[b]? = some r →
      r.run = startRun r.batch := by
    intro b r hr
    rw [Inflight.ofWorkload, List.getElem?_map, Option.map_eq_some_iff] at hr
    obtain ⟨batch, -, rfl⟩ := hr
    rfl
  refine ⟨fun b r hr => ?_, fun b r hr f hf => ?_⟩
  · rw [hstart b r hr]
    exact .start
  · rw [hstart b r hr] at hf
    simp [startRun] at hf

/-- **Reporting one task** of a clean workload finishes it with Success. -/
theorem Clean.respond {workload workload' : List Running} (h : Clean workload) {b i : Nat}
    (hok : respond workload b i = .ok workload') :
    Clean workload' ∧ ∃ r, workload'[b]? = some r ∧ ⟨i, .success⟩ ∈ r.run.log := by
  obtain ⟨hgrown, r, hr, hi, heq⟩ := respond_grown hok
  have hlt := (List.getElem?_eq_some_iff.mp hr).1
  have hself : workload'[b]? = some { r with run := r.run.finishedRequest i .success } := by
    rw [heq, List.getElem?_set_self hlt]
  refine ⟨⟨fun k q hq => ?_, fun k q hq f hf => ?_⟩, _, hself, ?_⟩
  · obtain ⟨q₀, hq₀, hgrows⟩ := hgrown.backward hq
    rw [hgrows.batch_eq]
    exact hgrows.ran (h.ran k q₀ hq₀)
  · -- the batch responded to has one finish more, the others are as they were
    by_cases hbk : b = k
    · subst hbk
      obtain rfl := Option.some.inj (hself.symm.trans hq)
      rcases finishedRequest_log hf with hf | rfl
      · exact h.success b r hr f hf
      · rfl
    · rw [heq, List.getElem?_set_ne hbk] at hq
      exact h.success k q hq f hf
  · -- finished now, or with Success before
    show (⟨i, .success⟩ : Finish) ∈ (r.run.finishedRequest i .success).log
    have hconsistent := (h.ran b r hr).consistent
    rw [BatchRun.finishedRequest]
    split
    next => simp
    next hnot =>
      have hfinished : r.run.finished[i]? = some true := by
        have hlen : i < r.run.finished.length := by
          rw [hconsistent.length_eq]
          exact hi
        rw [List.getElem?_eq_getElem hlen] at hnot ⊢
        simpa using hnot
      obtain ⟨f, hf, rfl⟩ := List.mem_map.mp ((hconsistent.logged i).mpr hfinished)
      have hret := h.success b r hr f hf
      rw [← hret]
      exact hf

/-- Where the loops of `enqueue` stand: the workload is clean, and the
zero-sized tasks of `done` are answered. -/
structure Reached (start : List Running) (done : List Placed) (workload : List Running) :
    Prop where
  grown : Grown start workload
  clean : Clean workload
  answered : ∀ p ∈ done, p.value.info.bytesize = 0 →
    ∃ r, workload[p.batch]? = some r ∧ ⟨p.task, .success⟩ ∈ r.run.log

/-- One more task is looked at, and reported when it is zero-sized. -/
theorem Reached.respond {start workload workload' : List Running} {done : List Placed}
    (h : Reached start done workload) {p : Placed}
    (hok : respond workload p.batch p.task = .ok workload') :
    Reached start (done ++ [p]) workload' := by
  obtain ⟨hclean, hself⟩ := h.clean.respond hok
  obtain ⟨hgrown, -⟩ := respond_grown hok
  refine ⟨h.grown.trans hgrown, hclean, fun q hq hzero => ?_⟩
  rcases List.mem_append.mp hq with hq | hq
  · obtain ⟨r, hr, hmem⟩ := h.answered q hq hzero
    obtain ⟨r', hr', hgrows⟩ := hgrown.forward hr
    exact ⟨r', hr', hgrows.log _ hmem⟩
  · rw [List.mem_singleton.mp hq]
    exact hself

theorem Reached.skip {start workload : List Running} {done : List Placed}
    (h : Reached start done workload) {p : Placed} (hp : p.value.info.bytesize ≠ 0) :
    Reached start (done ++ [p]) workload := by
  refine ⟨h.grown, h.clean, fun q hq hzero => ?_⟩
  rcases List.mem_append.mp hq with hq | hq
  · exact h.answered q hq hzero
  · rw [List.mem_singleton.mp hq] at hzero
    exact absurd hzero hp

theorem enqueueLoop_reached {chunk : Nat} (hchunk : 0 < chunk) {handleBase : Nat}
    (placed : List Placed) :
    ∀ {start : List Running} {done : List Placed} {b b' : Building},
      Reached start done b.wl.workload →
      enqueueLoop chunk hchunk handleBase placed b = .ok b' →
      Reached start (done ++ placed) b'.wl.workload := by
  induction placed with
  | nil =>
      intro start done b b' h hok
      rw [← Except.ok.inj hok, List.append_nil]
      exact h
  | cons p placed ih =>
      intro start done b b' h hok
      rw [enqueueLoop] at hok
      split at hok
      · simp at hok
      next b₁ htask =>
        have hnext : Reached start (done ++ [p]) b₁.wl.workload := by
          unfold enqueueTask at htask
          split at htask
          next hzero =>
            split at htask
            · simp at htask
            next workload hrespond =>
              rw [← Except.ok.inj htask]
              exact h.respond hrespond
          next hpos =>
            rw [(chunkLoop_keeps hchunk _ _ _ _ htask).1]
            exact h.skip hpos
        have hrest := ih hnext hok
        rwa [List.append_assoc] at hrest

theorem respondAll_reached (placed : List Placed) :
    ∀ {start : List Running} {done : List Placed} {workload workload' : List Running},
      Reached start done workload → respondAll placed workload = .ok workload' →
      Reached start (done ++ placed) workload' := by
  induction placed with
  | nil =>
      intro start done workload workload' h hok
      rw [← Except.ok.inj hok, List.append_nil]
      exact h
  | cons p placed ih =>
      intro start done workload workload' h hok
      rw [respondAll] at hok
      split at hok
      · simp at hok
      next workload₁ hrespond =>
        have hrest := ih (h.respond hrespond) hok
        rwa [List.append_assoc] at hrest

/-- Once all tasks are looked at, every zero-sized one is answered. -/
theorem Reached.all {workload : Workload} {running : List Running}
    (h : Reached (Inflight.ofWorkload workload).workload (placedTasks 0 workload.batches) running) :
    ∀ r ∈ running, r.ZeroAnswered := by
  intro r hr
  obtain ⟨b, hb⟩ := List.mem_iff_getElem?.mp hr
  refine ⟨h.clean.ran b r hb, fun i task htask hzero => ?_⟩
  obtain ⟨r₀, hr₀, hgrows⟩ := h.grown.backward hb
  rw [Inflight.ofWorkload, List.getElem?_map, Option.map_eq_some_iff] at hr₀
  obtain ⟨batch, hbatch, rfl⟩ := hr₀
  rw [hgrows.batch_eq] at htask
  obtain ⟨r', hr', hmem⟩ := h.answered ⟨b, i, task⟩
    (mem_placedTasks.mpr ⟨b, batch, (Nat.zero_add b).symm, hbatch, htask⟩) hzero
  obtain rfl := Option.some.inj (hb.symm.trans hr')
  exact hmem

theorem reached_start (workload : Workload) :
    Reached (Inflight.ofWorkload workload).workload []
      (Inflight.ofWorkload workload).workload :=
  ⟨.refl _, clean_start workload, by simp⟩

/-! ## §3. What the hooks do to the workloads. -/

/-- Failed as a whole before anything was reported. -/
def Running.Discarded (r : Running) : Prop :=
  ∃ code : ResponseCode, code ≠ .success ∧ r.run = (startRun r.batch).handleError code

/-- Every workload in flight has its zero-sized tasks answered, and so has
every dropped one, unless it was discarded, where `discards` allows it. -/
structure Answering (discards : Prop) (w : Worker) : Prop where
  inflight : ∀ e ∈ w.inflight, ∀ r ∈ e.2.workload, r.ZeroAnswered
  reported : ∀ e ∈ w.reported,
    (∀ r ∈ e.2.workload, r.ZeroAnswered) ∨ (discards ∧ ∀ r ∈ e.2.workload, r.Discarded)

variable {discards : Prop}

theorem Grown.answered {workload workload' : List Running} (h : Grown workload workload')
    (hall : ∀ r ∈ workload, r.ZeroAnswered) : ∀ r' ∈ workload', r'.ZeroAnswered := by
  intro r' hr'
  obtain ⟨b, hb⟩ := List.mem_iff_getElem?.mp hr'
  obtain ⟨r, hr, hgrows⟩ := h.backward hb
  exact (hall r (List.mem_of_getElem? hr)).grows hgrows

theorem Answering.abortAll {w : Worker} (h : Answering discards w) (code : ResponseCode) :
    Answering discards (w.abortAll code) := by
  refine ⟨by simp [Worker.abortAll], fun e he => ?_⟩
  rcases List.mem_append.mp he with he | he
  · exact h.reported e he
  · obtain ⟨e₀, he₀, rfl⟩ := List.mem_map.mp he
    exact .inl ((reportWorkload_grown e₀.2 code).answered (h.inflight e₀ he₀))

/-- Completing a chunk only adds reports to its workload. -/
theorem inflight_completeChunk_grown {wl wl' : Inflight} {t : Nat} {ret : ResponseCode}
    {last : Bool} (h : wl.completeChunk t ret = .ok (wl', last)) :
    Grown wl.workload wl'.workload := by
  unfold Inflight.completeChunk at h
  split at h
  · simp at h
  · split at h
    · simp at h
    · simp only at h
      split at h
      · simp only [Except.ok.injEq, Prod.mk.injEq] at h
        rw [← h.1]
        exact .refl _
      · split at h
        · split at h
          · simp at h
          next workload hrespond =>
            simp only [Except.ok.injEq, Prod.mk.injEq] at h
            rw [← h.1]
            exact (respond_grown hrespond).1
        · split at h
          · simp at h
          · simp only [Except.ok.injEq, Prod.mk.injEq] at h
            rw [← h.1]
            exact .refl _

theorem Answering.completeChunk {w w' : Worker} (h : Answering discards w) {handle base t : Nat}
    {ret : ResponseCode} (hok : w.completeChunk handle base t ret = .ok w') :
    Answering discards w' := by
  unfold Worker.completeChunk at hok
  split at hok
  · simp at hok
  next wl hfind =>
    split at hok
    · simp at hok
    next wl' last hwl =>
      obtain ⟨e, he, heq⟩ := find_some_mem hfind
      have hold : ∀ r ∈ wl.workload, r.ZeroAnswered := by
        rw [← heq]
        exact h.inflight e he
      have hnew := (inflight_completeChunk_grown hwl).answered hold
      have hinflight : ∀ e ∈ replace w.inflight base wl', ∀ r ∈ e.2.workload, r.ZeroAnswered := by
        intro e he
        rcases mem_replace he with heq | he
        · rw [heq]
          exact hnew
        · exact h.inflight e he
      simp only [Except.ok.injEq] at hok
      split at hok
      · subst hok
        refine ⟨fun e he => hinflight e (List.mem_of_mem_filter he), fun e he => ?_⟩
        rcases List.mem_append.mp he with he | he
        · exact h.reported e he
        · rw [List.mem_singleton.mp he]
          exact .inl ((reportWorkload_grown wl' .success).answered hnew)
      · subst hok
        exact ⟨hinflight, h.reported⟩

theorem Answering.submit {w w' : Worker} (h : Answering discards w) {chunk : ObjectChunk}
    {outcome : ResponseCode} {issued : Bool} (hok : w.submit chunk outcome = .ok (w', issued)) :
    Answering discards w' := by
  have hcomplete : ∀ base t code,
      (w.completeChunk chunk.handle base t code).map (·, false) = .ok (w', issued) →
        Answering discards w' := by
    intro base t code hmap
    obtain ⟨w₁, hok', hpair⟩ := map_ok hmap
    simp only [Prod.mk.injEq] at hpair
    rw [← hpair.1]
    exact h.completeChunk hok'
  unfold Worker.submit at hok
  split at hok
  · simp at hok
  · split at hok
    · simp at hok
    · split at hok
      · exact hcomplete _ _ _ hok
      · split at hok
        · exact hcomplete _ _ _ hok
        · simp only [Except.ok.injEq, Prod.mk.injEq] at hok
          rw [← hok.1]
          exact h

theorem Answering.drainLoop {responses : List Completion} :
    ∀ {d d' : Drained}, Answering discards d.worker → drainLoop responses d = .ok d' →
      Answering discards d'.worker := by
  induction responses with
  | nil =>
      intro d d' h hok
      rw [← Except.ok.inj hok]
      exact h
  | cons response responses ih =>
      intro d d' h hok
      rw [ObjectStorage.drainLoop] at hok
      split at hok
      · rw [← Except.ok.inj hok]
        exact h
      · split at hok
        · exact ih h hok
        · split at hok
          · simp at hok
          next worker hcomplete => exact ih (h.completeChunk hcomplete) hok

theorem Answering.drainBatch {w w' : Worker} (h : Answering discards w) {stopped : Bool}
    {round : Round} (hok : w.drainBatch stopped round = .ok w') : Answering discards w' := by
  unfold Worker.drainBatch at hok
  split at hok
  · rw [← Except.ok.inj hok]
    exact h
  · split at hok
    · rw [← Except.ok.inj hok]
      exact h.abortAll _
    · split at hok
      · rw [← Except.ok.inj hok]
        exact h.abortAll _
      · split at hok
        · simp at hok
        next d hloop =>
          have hd : Answering discards d.worker := h.drainLoop hloop
          rw [← Except.ok.inj hok]
          split
          · exact hd.abortAll _
          · exact hd

/-- **Cutting a workload answers its zero-sized tasks.** -/
theorem enqueue_answers {w w' : Worker} (h : Answering discards w) {workload : Workload}
    (hok : w.enqueue workload = .ok w') : Answering discards w' := by
  unfold Worker.enqueue at hok
  simp only at hok
  split at hok
  · split at hok
    · simp at hok
    next running hrespond =>
      have hall := (respondAll_reached _ (reached_start workload) hrespond).all
      rw [← Except.ok.inj hok]
      refine ⟨h.inflight, fun e he => ?_⟩
      rcases List.mem_append.mp he with he | he
      · exact h.reported e he
      · rw [List.mem_singleton.mp he]
        exact .inl ((reportWorkload_grown { Inflight.ofWorkload workload with workload := running }
          .success).answered hall)
  · split at hok
    · simp at hok
    · split at hok
      · simp at hok
      next b hloop =>
        have hall := (enqueueLoop_reached _ _ (reached_start workload) hloop).all
        rw [← Except.ok.inj hok]
        refine ⟨fun e he => ?_, h.reported⟩
        rcases mem_tryEmplace he with rfl | he
        · exact hall
        · exact h.inflight e he

/-- Discarding a workload. -/
theorem Answering.discard {w : Worker} (h : Answering discards w) (hallowed : discards)
    (workload : Workload) :
    Answering discards (w.discard workload) := by
  refine ⟨h.inflight, fun e he => ?_⟩
  rcases List.mem_append.mp he with he | he
  · exact h.reported e he
  · rw [List.mem_singleton.mp he]
    refine .inr ⟨hallowed, fun r hr => ?_⟩
    obtain ⟨r₀, hr₀, rfl⟩ := List.mem_map.mp hr
    obtain ⟨batch, -, rfl⟩ := List.mem_map.mp hr₀
    have hcode : (Inflight.ofWorkload workload).errorCode (w.discardCode workload) batch
        = w.discardCode workload := if_neg (discardCode_ne w workload)
    exact ⟨_, discardCode_ne w workload, congrArg (BatchRun.handleError (startRun batch)) hcode⟩

/-! ## §4. Over whole runs. -/

theorem capacity_keeps (w : Worker) (workload : Workload) (backend : Backend) :
    (w.capacity workload backend).1.inflight = w.inflight ∧
      (w.capacity workload backend).1.reported = w.reported := by
  unfold Worker.capacity Worker.buildReader
  split
  · exact ⟨rfl, rfl⟩
  · by_cases hreader : w.reader = true
    · simp only [hreader, if_true, and_self]
    · simp only [hreader, Bool.false_eq_true, if_false]
      rcases backend.build with _ | _ | code <;> exact ⟨rfl, rfl⟩

/-- The window is there, or comes up for this workload. -/
def WindowUp (s : State) : Action → Prop
  | .execute workload backend =>
      s.worker.queue ≠ none ∨ (s.worker.capacity workload backend).2 ≠ none
  | _ => True

theorem Answering.receive {w w' : Worker} (h : Answering discards w) {workload : Workload}
    {backend : Backend} {enqueued : Bool}
    (hup : discards ∨ w.queue ≠ none ∨ (w.capacity workload backend).2 ≠ none)
    (hok : w.receive workload backend = .ok (w', enqueued)) : Answering discards w' := by
  obtain ⟨hinflight, hreported⟩ := capacity_keeps w workload backend
  unfold Worker.receive at hok
  split at hok
  · obtain ⟨w₁, hok', hpair⟩ := map_ok hok
    simp only [Prod.mk.injEq] at hpair
    rw [← hpair.1]
    exact enqueue_answers h hok'
  next hqueue =>
    split at hok
    next w₁ hcapacity =>
      rw [hcapacity] at hup hinflight hreported
      simp only [Except.ok.injEq, Prod.mk.injEq] at hok
      rw [← hok.1]
      have hw₁ : Answering discards w₁ := ⟨hinflight ▸ h.inflight, hreported ▸ h.reported⟩
      exact hw₁.discard (hup.resolve_right (by simp [hqueue])) workload
    next w₁ window hcapacity =>
      rw [hcapacity] at hinflight hreported
      obtain ⟨w₂, hok', hpair⟩ := map_ok hok
      simp only [Prod.mk.injEq] at hpair
      rw [← hpair.1]
      have hopen : Answering discards { w₁ with queue := some (.new window) } :=
        ⟨hinflight ▸ h.inflight, hreported ▸ h.reported⟩
      exact enqueue_answers hopen hok'

/-- **Every step keeps the answers**, also one in which a hook crashes. -/
theorem answering_step {s t : State} {a : Action} (h : Answering discards s.worker)
    (hup : discards ∨ WindowUp s a) (hstep : Step s a t) : Answering discards t.worker := by
  cases hstep with
  | execute workload backend hpc =>
      unfold State.after
      split
      next result hok => exact h.receive hup hok
      next => exact h
  | fill q hq hpc => exact h
  | submit outcome q q' chunk hq hpc htake =>
      unfold State.after
      split
      next result hok =>
        have htaken : Answering discards { s.worker with queue := some q' } :=
          ⟨h.inflight, h.reported⟩
        obtain ⟨w', issued⟩ := result
        exact htaken.submit hok
      next => exact h
  | drain stopped round delivered next hdraining hround =>
      unfold State.after
      split
      next worker hok => exact h.drainBatch hok
      next => exact h
  | pumped q hq hdone hpc => exact h
  | close q hq hpc hroom => exact h

theorem answering_init {s : State} (h : Init s) : Answering discards s.worker := by
  obtain ⟨chunk, hchunk, hworker⟩ := h.worker_eq
  rw [hworker]
  exact ⟨by simp [Worker.new], by simp [Worker.new]⟩

theorem reachable_answering : ∀ s, worker.Reachable s → Answering True s.worker :=
  System.Reachable.invariant (fun _ hinit => answering_init hinit)
    (fun _ _ _ _ h hstep => answering_step h (.inl trivial) hstep)

theorem reachable_up : ∀ s, (worker.restrict WindowUp).Reachable s → Answering False s.worker :=
  System.Reachable.invariant (fun _ hinit => answering_init hinit)
    (fun _ _ _ _ h hstep => answering_step h (.inr hstep.1) hstep.2)

/-! ## §5. Both backends. -/

/-- Task `i` has reported exactly once, with `ret`. -/
def ReportedOnce (run : BatchRun) (i : Nat) (ret : ResponseCode) : Prop :=
  run.log.filter (fun f => decide (f.task = i)) = [⟨i, ret⟩]

theorem reportedOnce_of {run : BatchRun} (hnodup : (run.log.map Finish.task).Nodup) {i : Nat}
    {ret : ResponseCode} (hmem : ⟨i, ret⟩ ∈ run.log) : ReportedOnce run i ret := by
  unfold ReportedOnce
  generalize run.log = log at hnodup hmem
  obtain ⟨before, after, rfl⟩ := List.append_of_mem hmem
  rw [List.map_append, List.map_cons, List.nodup_middle, List.nodup_cons, List.mem_append] at hnodup
  have hother : ∀ fs : List Finish, i ∉ fs.map Finish.task →
      fs.filter (fun f => decide (f.task = i)) = [] := by
    intro fs hnot
    refine List.filter_eq_nil_iff.mpr (fun f hf heq => hnot ?_)
    rw [← of_decide_eq_true heq]
    exact List.mem_map_of_mem hf
  obtain ⟨hnot, -⟩ := hnodup
  rw [not_or] at hnot
  rw [List.filter_append, List.filter_cons_of_pos (by simp), hother _ hnot.1, hother _ hnot.2,
    List.nil_append]

theorem Running.ZeroAnswered.once {r : Running} (h : r.ZeroAnswered) {i : Nat} {task : Task}
    (htask : r.batch.tasks[i]? = some task) (hzero : task.info.bytesize = 0) :
    ReportedOnce r.run i .success :=
  reportedOnce_of h.ran.consistent.nodup (h.answered i task htask hzero)

/-- A discarded batch fails every task with the same code. -/
theorem failed_once {batch : Batch} {code : ResponseCode} (hcode : code ≠ .success) {i : Nat}
    (hi : i < batch.tasks.length) :
    ReportedOnce ((startRun batch).handleError code) i code := by
  have hopen : (startRun batch).finished[i]? = some false := by
    simp [startRun, hi]
  exact reportedOnce_of (Execution.fail batch code hcode).ran.consistent.nodup
    (handleError_fails .start hcode hopen)

/-- The tasks of a zero-sized range are zero-sized. -/
theorem zero_sized_task (sub : Submission) {r : Indexed} (hr : r ∈ indexFiles 0 sub.request)
    (hzero : r.range.size = 0) {task : Task} (htask : task ∈ sub.plan.tasks)
    (hkey : task.request.key = r.key) : task.info.bytesize = 0 := by
  obtain ⟨⟨cuts, hall, -, hperm⟩, -⟩ := plan_ok sub.workers_pos sub.planned
  obtain ⟨cut, hcut, -, hsel⟩ := hall.select (indexFiles_keys 0 sub.request) r hr
  have hmem : task ∈ cut.2 := by
    rw [← hsel, List.mem_filter, decide_eq_true_eq]
    exact ⟨hperm.mem_iff.mp htask, hkey⟩
  have hsum := hcut.bytes.1
  rw [hzero] at hsum
  exact List.sum_eq_zero_iff.mp hsum _ (List.mem_map_of_mem hmem)

/-- A submission of one zero-sized range of one file. -/
def emptyRange : List FileRanges := [⟨"/missing", [⟨0, 0, 0, zero_lt_word, zero_lt_word, zero_lt_word⟩]⟩]

def emptyBatch : Batch :=
  ⟨1, 0, 0, "/missing", none, [⟨⟨0, 0, 0, 1, 0, 0⟩, ⟨0, 0, 0, 0⟩⟩], ⟨0, 0, by decide⟩⟩

theorem emptyRange_planned :
    Planning.plan ⟨1, 1, 1, 1⟩ 1 emptyRange = .ok ⟨1, [emptyBatch], [⟨0, 0, 0, 1, 0, 0⟩]⟩ := by
  have hassigned : Assigner.new ⟨1, 1, 1, 1⟩ emptyRange
      = .ok ⟨[⟨0, 0, 0, 0, 0, [0], [⟨0, 0, 0, 0, 0⟩]⟩], 1⟩ := by decide
  have hloop : handleLoop ⟨[⟨0, 0, 0, 0, 0⟩], 0, 0⟩ [] 0 0 0
      = .ok ([(0, Info.new 0 0 0)], ⟨[⟨0, 0, 0, 0, 0⟩], 0, 0⟩) := by
    rw [handleLoop]
    rfl
  rw [Planning.plan, hassigned]
  simp only [planTransfers, Batches.new, buildTasks, buildLoop, handleRequest, hloop]
  rfl

def emptySubmission : Submission where
  id := 1
  config := ⟨1, 1, 1, 1⟩
  request := emptyRange
  plan := ⟨1, [emptyBatch], [⟨0, 0, 0, 1, 0, 0⟩]⟩
  workers_pos := by decide
  ranges_pos := by decide
  ranges_lt := by decide
  planned := emptyRange_planned

/-- A file that does not open. -/
def missingFile : Filesystem.Disk := ⟨[], false, true⟩

/-- An OS that hands out a byte at a time. -/
def silentOs : Filesystem.Os where
  next := fun _ => .transfers 0
  lively := fun i => ⟨i, Nat.le_refl i, by simp⟩

/-- The execution of the batch on the missing file. -/
def emptyExecution : Execution emptyBatch where
  run := (Filesystem.executeFile ⟨1, 1, 1, 1⟩ missingFile silentOs 10 emptyBatch (fun _ => 0)).run
  ran := (Execution.fail emptyBatch .fileAccessError (by decide)).ran
  complete := (Execution.fail emptyBatch .fileAccessError (by decide)).complete

/-- **A zero-sized range of a missing file fails**: the batch reports it with
FileAccessError, and so the streamer answers. -/
theorem zero_sized_failed : emptyExecution.run.log = [⟨0, .fileAccessError⟩] ∧
    ∃ s : Delivery.State 1, (streamer 1).Reachable s ∧ s.committed = [emptySubmission] ∧
      s.popped = [⟨⟨1, 0, 0, .fileAccessError⟩, true⟩] := by
  let job : Job := ⟨0, emptyBatch⟩
  let call : Event := ⟨⟨1, 0, 0⟩, ⟨1, 0, 0⟩, .fileAccessError⟩
  have h₀ : (streamer 1).Reachable idle := .init idle_init
  have h₁ := h₀.step (Delivery.Step.mint)
  have h₂ := h₁.step (Delivery.Step.submit emptySubmission _ (by decide) rfl)
  have h₃ := h₂.step (t := _) (a := _)
    (Delivery.Step.take 0 job emptyExecution [call] (List.mem_singleton.mpr rfl) rfl
      (List.Perm.of_eq rfl))
  have h₄ := h₃.step (Delivery.Step.store 0 call [] rfl)
  have h₅ := h₄.step (Delivery.Step.sub 0 call [] rfl)
  have h₆ := h₅.step (Delivery.Step.answer 0 call [] rfl)
  have h₇ := h₆.step (Delivery.Step.push 0 call [] _ rfl)
  have h₈ := h₇.step (Delivery.Step.pop _ _ _ _ rfl rfl)
  exact ⟨rfl, _, h₈, rfl, rfl⟩

/-- **WHAT A ZERO-SIZED RANGE IS ANSWERED.**  Each of its tasks reports
exactly once, whatever the storage does.

From a file, Success where the task ends within the blocks the batch read in
full, and else the code the reading ended with.  From an object, Success in
every run, except where the workload is discarded because the window does not
come up; then it shares the code of all the others.  And the response of the
range is Success exactly when these reports are. -/
theorem zero_sized_answered (sub : Submission) (hblock : 1 ≤ sub.config.fsBlockBytesize)
    {r : Indexed} (hr : r ∈ indexFiles 0 sub.request) (hzero : r.range.size = 0) :
    (∀ batch ∈ sub.plan.batches, ∀ i task, batch.tasks[i]? = some task →
      task.request.key = r.key →
      (∀ disk os stopAt memory,
        ReportedOnce (Filesystem.executeFile sub.config disk os stopAt batch memory).run i
          (if Filesystem.Within
              (Filesystem.executeFile sub.config disk os stopAt batch memory).reached task
            then .success
            else (Filesystem.executeFile sub.config disk os stopAt batch memory).code) ∧
        (Filesystem.Undisturbed sub.config disk os stopAt batch →
          (Filesystem.executeFile sub.config disk os stopAt batch memory).code = .success)) ∧
      (∀ s, worker.Reachable s → ∀ e ∈ s.worker.entries, ∀ x ∈ e.2.workload, x.batch = batch →
        ReportedOnce x.run i .success ∨
          ∃ code : ResponseCode, code ≠ .success ∧ ReportedOnce x.run i code ∧
            x.run = (startRun batch).handleError code) ∧
      ∀ s, (worker.restrict WindowUp).Reachable s → ∀ e ∈ s.worker.entries,
        ∀ x ∈ e.2.workload, x.batch = batch → ReportedOnce x.run i .success) ∧
    ∀ (n : Nat) (s : Delivery.State n), (streamer n).Reachable s → sub ∈ s.committed →
      ∀ response ∈ s.pushed, response.range = ⟨sub.id, r.fileIndex, r.index⟩ →
        (response.ret = .success ↔
          ∀ event ∈ s.finished, event.range = response.range → event.ret = .success) := by
  refine ⟨fun batch hbatch i task htask hkey => ?_, fun n s hs _ response hmem _ =>
    ((reachable_inv s hs).final.pushed response hmem).ret_eq⟩
  have hbytes : task.info.bytesize = 0 :=
    zero_sized_task sub hr hzero
      (List.mem_flatMap.mpr ⟨batch, hbatch, List.mem_of_getElem? htask⟩) hkey
  have hcontiguous := Filesystem.planned_contiguous sub.workers_pos sub.planned batch hbatch
  refine ⟨fun disk os stopAt memory => ⟨?_, fun h =>
    h.success hblock hcontiguous.laidOut.sorted memory⟩, fun s hs e he x hx hxb => ?_,
    fun s hs e he x hx hxb => ?_⟩
  · -- on a file system `execute` answers every request once, an empty one as any other
    obtain ⟨hperm, hret⟩ :=
      Filesystem.execute_answers hblock hcontiguous disk os stopAt memory
    have hi : i ∈ List.range batch.tasks.length :=
      List.mem_range.mpr (List.getElem?_eq_some_iff.mp htask).1
    obtain ⟨f, hf, rfl⟩ := List.mem_map.mp (hperm.mem_iff.mpr hi)
    refine reportedOnce_of (hperm.nodup_iff.mpr List.nodup_range) ?_
    rw [← hret f hf task htask]
    exact hf
  · -- on an object store it was answered when its workload came in, or with the whole workload
    subst hxb
    have hanswering := reachable_answering s hs
    rcases List.mem_append.mp he with he | he
    · exact .inl ((hanswering.inflight e he x hx).once htask hbytes)
    · rcases hanswering.reported e he with hall | ⟨-, hall⟩
      · exact .inl ((hall x hx).once htask hbytes)
      · obtain ⟨code, hcode, hrun⟩ := hall x hx
        refine .inr ⟨code, hcode, ?_, hrun⟩
        rw [hrun]
        exact failed_once hcode (List.getElem?_eq_some_iff.mp htask).1
  · -- while the window is up, no workload is given up as a whole
    subst hxb
    have hanswering := reachable_up s hs
    rcases List.mem_append.mp he with he | he
    · exact (hanswering.inflight e he x hx).once htask hbytes
    · rcases hanswering.reported e he with hall | ⟨hfalse, -⟩
      · exact (hall x hx).once htask hbytes
      · exact hfalse.elim

/-- Three ranges of one file, back to back: two bytes, none, and one. -/
def mixedRanges : List FileRanges :=
  [⟨"/data/weights", [⟨0, 2, 100, by decide, by decide, by decide⟩,
    ⟨2, 0, 102, by decide, by decide, by decide⟩, ⟨2, 1, 102, by decide, by decide, by decide⟩]⟩]

def mixedBatch : Batch where
  submissionId := 1
  workloadIndex := 0
  fileIndex := 0
  path := "/data/weights"
  uri := none
  tasks := [⟨⟨0, 0, 0, 1, 2, 100⟩, ⟨0, 2, 2, 0⟩⟩, ⟨⟨2, 0, 1, 1, 0, 102⟩, ⟨2, 0, 2, 0⟩⟩,
    ⟨⟨2, 0, 2, 1, 1, 102⟩, ⟨2, 1, 3, 0⟩⟩]
  range := ⟨0, 3, by decide⟩

theorem mixedRanges_planned :
    Planning.plan ⟨1, 1, 1, 1⟩ 1 mixedRanges
      = .ok ⟨1, [mixedBatch], mixedBatch.tasks.map Task.request⟩ := by
  have hassigned : Assigner.new ⟨1, 1, 1, 1⟩ mixedRanges
      = .ok ⟨[⟨0, 0, 3, 100, 0, [2, 0, 1], [⟨0, 0, 0, 3, 100⟩]⟩], 1⟩ := by decide
  have hfirst : handleRequest 0 ⟨[⟨0, 0, 0, 3, 100⟩], 0, 3⟩ [[]] 0 0 2 100
      = .ok ⟨⟨[⟨0, 0, 0, 3, 100⟩], 0, 1⟩, [mixedBatch.tasks.take 1], ⟨0, 0, 0, 1, 2, 100⟩⟩ := by
    rw [handleRequest, handleLoop]
    rfl
  have hempty : handleRequest 0 ⟨[⟨0, 0, 0, 3, 100⟩], 0, 1⟩ [mixedBatch.tasks.take 1] 1 2 0 102
      = .ok ⟨⟨[⟨0, 0, 0, 3, 100⟩], 0, 1⟩, [mixedBatch.tasks.take 2], ⟨2, 0, 1, 1, 0, 102⟩⟩ := by
    rw [handleRequest, handleLoop]
    rfl
  have hlast : handleRequest 0 ⟨[⟨0, 0, 0, 3, 100⟩], 0, 1⟩ [mixedBatch.tasks.take 2] 2 2 1 102
      = .ok ⟨⟨[⟨0, 0, 0, 3, 100⟩], 0, 0⟩, [mixedBatch.tasks], ⟨2, 0, 2, 1, 1, 102⟩⟩ := by
    rw [handleRequest, handleLoop]
    rfl
  have hbuilt : buildTasks ⟨0, 0, 3, 100, 0, [2, 0, 1], [⟨0, 0, 0, 3, 100⟩]⟩
      = .ok ([mixedBatch.tasks], mixedBatch.tasks.map Task.request) := by
    show buildLoop 0 0 [2, 0, 1] ⟨[⟨0, 0, 0, 3, 100⟩], 0, 3⟩ [[]] 0 100 = _
    rw [buildLoop, hfirst]
    dsimp only
    rw [buildLoop, show wrap (0 + 2) = 2 from rfl, show wrap (100 + 2) = 102 from rfl, hempty]
    dsimp only
    rw [buildLoop, show wrap (2 + 0) = 2 from rfl, show wrap (102 + 0) = 102 from rfl, hlast]
    rfl
  rw [Planning.plan, hassigned]
  simp only [planTransfers, Batches.new, hbuilt]
  rfl

def mixedSubmission : Submission where
  id := 1
  config := ⟨1, 1, 1, 1⟩
  request := mixedRanges
  plan := ⟨1, [mixedBatch], mixedBatch.tasks.map Task.request⟩
  workers_pos := by decide
  ranges_pos := by decide
  ranges_lt := by decide
  planned := mixedRanges_planned

/-- The zero-sized range between the others: of a file that is long enough,
and of one that is missing. -/
theorem zero_sized_answered_mixed :
    ReportedOnce (Filesystem.executeFile ⟨1, 1, 1, 1⟩ ⟨[7, 8, 9], true, true⟩ silentOs 10 mixedBatch
      (fun _ => 0)).run 1 .success ∧
    ReportedOnce (Filesystem.executeFile ⟨1, 1, 1, 1⟩ missingFile silentOs 10 mixedBatch
      (fun _ => 0)).run 1 .fileAccessError := by
  have h := ((@zero_sized_answered mixedSubmission (by decide)
    ⟨0, 1, ⟨2, 0, 102, by decide, by decide, by decide⟩⟩
    (List.mem_cons_of_mem _ List.mem_cons_self) rfl).1
    mixedBatch (List.mem_singleton.mpr rfl) 1 _ rfl rfl).1
  obtain ⟨hpresent, hsuccess⟩ := h ⟨[7, 8, 9], true, true⟩ silentOs 10 (fun _ => 0)
  refine ⟨?_, (h missingFile silentOs 10 (fun _ => 0)).1⟩
  have hread := hsuccess ⟨rfl, rfl, rfl, fun i => by simp [silentOs], .inr (by decide), by decide⟩
  rw [hread, ite_self] at hpresent
  exact hpresent

end ModelStreamer.ObjectStorage
