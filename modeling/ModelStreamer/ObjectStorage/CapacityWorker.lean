/-
  ModelStreamer.ObjectStorage.CapacityWorker
  ──────────────────────────────────────────
  **THE WORKER OF A WINDOW** (`utils/capacity_worker`,
  `utils/capacity_queue`), for any hooks.

  `execute` alternates between issuing chunks and draining completions, and
  nothing bounds how often; a hook may complete a chunk at once, or abort
  them all.  The loops take fuel here, and enough of it is shown to exist.

    • `Hooks.Serves` — the hooks called one after the other, and the chunks that
      leave the window meanwhile,
    • `pump_spec` — `pump` returns, with nothing pending or a full window,
    • `executeLoop_spec` — so does the loop of `execute`: each `drain_batch` of
      it lessens what is pending or in flight,
    • `execute_finishes` — every `execute` returns with room in the window and
      all its chunks submitted or dropped, and as many `drain`s as chunks are
      left make the worker idle,
    • `submit_settles`, `drainBatch_progresses` — the hooks of the
      object-storage worker are such hooks.
-/
import ModelStreamer.ObjectStorage.CapacityQueue

namespace ModelStreamer.ObjectStorage

open ModelStreamer.Lib

/-! ## §1. The worker. -/

/-- The hooks of a `CapacityWorker`.  They act on the window and on whatever
else the concrete worker and its backend are; a throwing `capacity` returns
no window. -/
structure Hooks (σ Request Chunk : Type) where
  capacity : σ → Request → σ × Option Nat
  discard : σ → Request → σ
  enqueue : σ → CapacityQueue Chunk → Request → σ × CapacityQueue Chunk
  submit : σ → CapacityQueue Chunk → Chunk → σ × CapacityQueue Chunk
  drainBatch : σ → CapacityQueue Chunk → σ × CapacityQueue Chunk

/-- `CapacityWorker`. -/
structure CapacityWorker (σ Chunk : Type) where
  queue : Option (CapacityQueue Chunk)
  state : σ

section Worker

variable {σ Request Chunk : Type} (h : Hooks σ Request Chunk)

/-- `pump`; `none` when the fuel runs out. -/
def Hooks.pump : Nat → σ → CapacityQueue Chunk → Option (σ × CapacityQueue Chunk)
  | 0, _, _ => none
  | fuel + 1, s, q =>
      match q.tryTake with
      -- nothing pending, or no room for the first of it
      | none => some (s, q)
      | some (chunk, q) => Hooks.pump fuel (h.submit s q chunk).1 (h.submit s q chunk).2

/-- `if (!_queue->empty()) drain_batch(stopped)`. -/
def Hooks.drainPending (s : σ) (q : CapacityQueue Chunk) : σ × CapacityQueue Chunk :=
  if q.empty then (s, q) else h.drainBatch s q

/-- The `while` loop of `execute`. -/
def Hooks.executeLoop : Nat → σ → CapacityQueue Chunk → Option (σ × CapacityQueue Chunk)
  | 0, _, _ => none
  | fuel + 1, s, q =>
      if q.empty then some (s, q)
      else
        (h.pump fuel s q).bind (fun r =>
          Hooks.executeLoop fuel (h.drainPending r.1 r.2).1 (h.drainPending r.1 r.2).2)

/-- The end of `execute`: with a full window, a slot is freed. -/
def Hooks.drainFull (s : σ) (q : CapacityQueue Chunk) : σ × CapacityQueue Chunk :=
  if q.capacity ≤ q.inflight then h.drainBatch s q else (s, q)

/-- The window, brought up if there is none. -/
def Hooks.bringUp (w : CapacityWorker σ Chunk) (request : Request) :
    σ × Option (CapacityQueue Chunk) :=
  match w.queue with
  | some q => (w.state, some q)
  | none =>
      ((h.capacity w.state request).1, (h.capacity w.state request).2.map CapacityQueue.new)

/-- `execute`. -/
def Hooks.execute (fuel : Nat) (w : CapacityWorker σ Chunk) (request : Request) :
    Option (CapacityWorker σ Chunk) :=
  match h.bringUp w request with
  -- no window: the request is refused, and the next one tries again
  | (s, none) => some ⟨none, h.discard s request⟩
  | (s, some q) =>
      (h.executeLoop fuel (h.enqueue s q request).1 (h.enqueue s q request).2).map (fun r =>
        ⟨some (h.drainFull r.1 r.2).2, (h.drainFull r.1 r.2).1⟩)

/-- `drain`. -/
def Hooks.drain (fuel : Nat) (w : CapacityWorker σ Chunk) : Option (CapacityWorker σ Chunk) :=
  match w.queue with
  | none => some w
  | some q =>
      (h.pump fuel (h.drainBatch w.state q).1 (h.drainBatch w.state q).2).map
        (fun r => ⟨some r.2, r.1⟩)

/-- `idle`. -/
def CapacityWorker.idle (w : CapacityWorker σ Chunk) : Bool :=
  (w.queue.map CapacityQueue.idle).getD true

/-! ## §2. Windows of unit costs. -/

/-- A chunk may be completed where it is submitted, or all may be aborted. -/
def Settles (q q' : CapacityQueue Chunk) : Prop :=
  q' = q ∨ q' = q.complete 1 ∨ q' = q.clear

/-- At least one chunk in flight is completed, or all are aborted. -/
def Progresses (q q' : CapacityQueue Chunk) : Prop :=
  q' = q.clear ∨
    ∃ completed, 1 ≤ completed ∧ completed ≤ q.inflight ∧
      q' = { q with inflight := q.inflight - completed }

/-- **What the hooks are to do.** -/
structure Hooks.Lawful : Prop where
  window_pos : ∀ s request window, (h.capacity s request).2 = some window → 1 ≤ window
  enqueue_unit : ∀ s q request, ∃ chunks : List Chunk,
    (h.enqueue s q request).2 = chunks.foldl (fun q chunk => q.enqueue chunk 1) q
  submit_settles : ∀ s q chunk, Settles q (h.submit s q chunk).2
  drain_progresses : ∀ s q, q.inflight ≠ 0 → Progresses q (h.drainBatch s q).2
  drain_nothing : ∀ s q, q.inflight = 0 →
    (h.drainBatch s q).2 = q ∨ (h.drainBatch s q).2 = q.clear

/-- What is pending or in flight. -/
def CapacityQueue.load (q : CapacityQueue Chunk) : Nat := q.pending.length + q.inflight

/-- **A window**: of at least one chunk, never exceeded. -/
structure CapacityQueue.Window (q : CapacityQueue Chunk) : Prop where
  capacity_pos : 1 ≤ q.capacity
  unit : ∀ entry ∈ q.pending, entry.cost = 1
  within : q.inflight ≤ q.capacity

/-- No chunk is pending that there is room for. -/
def CapacityQueue.Settled (q : CapacityQueue Chunk) : Prop :=
  q.pending = [] ∨ q.capacity ≤ q.inflight

theorem Window.new {window : Nat} (hpos : 1 ≤ window) :
    (CapacityQueue.new window : CapacityQueue Chunk).Window :=
  ⟨hpos, fun _ hentry => absurd hentry List.not_mem_nil, Nat.zero_le _⟩

theorem Window.clear {q : CapacityQueue Chunk} (hq : q.Window) : q.clear.Window :=
  ⟨hq.capacity_pos, fun _ hentry => absurd hentry List.not_mem_nil, Nat.zero_le _⟩

/-- The chunks pending, in order. -/
def CapacityQueue.chunks (q : CapacityQueue Chunk) : List Chunk := q.pending.map Entry.item

/-- The chunks a hook has dropped, which left `q'`. -/
def dropped (q q' : CapacityQueue Chunk) : List (Chunk × Fate) :=
  (q.chunks.take (q.chunks.length - q'.chunks.length)).map (fun chunk => (chunk, .dropped))

/-- **The hooks, one call after the other**, and the chunks that leave: those
handed to `submit`, and those that were dropped. -/
inductive Hooks.Serves :
    σ → CapacityQueue Chunk → List (Chunk × Fate) → σ → CapacityQueue Chunk → Prop
  | nil (s : σ) (q : CapacityQueue Chunk) : Serves s q [] s q
  | submit {s s' : σ} {q taken q' : CapacityQueue Chunk} {chunk : Chunk}
      {gone : List (Chunk × Fate)} (htake : q.tryTake = some (chunk, taken))
      (hrest : Serves (h.submit s taken chunk).1 (h.submit s taken chunk).2 gone s' q') :
      Serves s q ((chunk, .taken) :: (dropped taken (h.submit s taken chunk).2 ++ gone)) s' q'
  | drainBatch {s s' : σ} {q q' : CapacityQueue Chunk} {gone : List (Chunk × Fate)}
      (hrest : Serves (h.drainBatch s q).1 (h.drainBatch s q).2 gone s' q') :
      Serves s q (dropped q (h.drainBatch s q).2 ++ gone) s' q'

variable {h}

theorem Hooks.Serves.append {s s' s'' : σ} {q q' q'' : CapacityQueue Chunk}
    {gone gone' : List (Chunk × Fate)} (hfirst : h.Serves s q gone s' q')
    (hrest : h.Serves s' q' gone' s'' q'') : h.Serves s q (gone ++ gone') s'' q'' := by
  induction hfirst with
  | nil => exact hrest
  | submit htake _ ih =>
      rw [List.cons_append, List.append_assoc]
      exact .submit htake (ih hrest)
  | drainBatch _ ih =>
      rw [List.append_assoc]
      exact .drainBatch (ih hrest)

/-- A hook keeps what is pending, or drops all of it. -/
theorem dropped_chunks {q q' : CapacityQueue Chunk} (h : q'.chunks = q.chunks ∨ q'.chunks = []) :
    (dropped q q').map Prod.fst ++ q'.chunks = q.chunks := by
  unfold dropped
  rw [List.map_map]
  rcases h with hkept | hnone
  · simp [hkept]
  · simp [hnone, Function.comp_def]

theorem settles_chunks {q q' : CapacityQueue Chunk} (h : Settles q q') :
    q'.capacity = q.capacity ∧ (q'.chunks = q.chunks ∨ q'.chunks = []) := by
  rcases h with rfl | rfl | rfl
  · exact ⟨rfl, Or.inl rfl⟩
  · exact ⟨rfl, Or.inl rfl⟩
  · exact ⟨rfl, Or.inr rfl⟩

theorem drainBatch_chunks (hlawful : h.Lawful) (s : σ) (q : CapacityQueue Chunk) :
    (h.drainBatch s q).2.capacity = q.capacity ∧
      ((h.drainBatch s q).2.chunks = q.chunks ∨ (h.drainBatch s q).2.chunks = []) := by
  by_cases hinflight : q.inflight = 0
  · rcases hlawful.drain_nothing s q hinflight with heq | heq
    · rw [heq]
      exact ⟨rfl, Or.inl rfl⟩
    · rw [heq]
      exact ⟨rfl, Or.inr rfl⟩
  · rcases hlawful.drain_progresses s q hinflight with heq | ⟨completed, -, -, heq⟩
    · rw [heq]
      exact ⟨rfl, Or.inr rfl⟩
    · rw [heq]
      exact ⟨rfl, Or.inl rfl⟩

/-- **No chunk is lost**: those pending have left, each once and in order, or
are pending still. -/
theorem Hooks.Serves.chunks (hlawful : h.Lawful) {s s' : σ} {q q' : CapacityQueue Chunk}
    {gone : List (Chunk × Fate)} (hserves : h.Serves s q gone s' q') :
    q'.capacity = q.capacity ∧ gone.map Prod.fst ++ q'.chunks = q.chunks := by
  induction hserves with
  | nil => exact ⟨rfl, rfl⟩
  | @submit s s' q taken q' chunk gone htake _ ih =>
      obtain ⟨hsubmit, hkept⟩ := settles_chunks (hlawful.submit_settles s taken chunk)
      have hhead : taken.capacity = q.capacity ∧ q.chunks = chunk :: taken.chunks := by
        rcases q.tryTake_cases with ⟨hnone, -⟩ | ⟨entry, rest, hpending, -, hsome⟩
        · rw [hnone] at htake
          simp at htake
        · obtain ⟨rfl, rfl⟩ := Prod.mk.inj (Option.some.inj (hsome.symm.trans htake))
          refine ⟨rfl, ?_⟩
          unfold CapacityQueue.chunks
          rw [hpending]
          rfl
      refine ⟨ih.1.trans (hsubmit.trans hhead.1), ?_⟩
      rw [List.map_cons, List.map_append, List.cons_append, List.append_assoc, ih.2,
        dropped_chunks hkept, hhead.2]
  | @drainBatch s s' q q' gone _ ih =>
      obtain ⟨hcapacity, hkept⟩ := drainBatch_chunks hlawful s q
      refine ⟨ih.1.trans hcapacity, ?_⟩
      rw [List.map_append, List.append_assoc, ih.2, dropped_chunks hkept]

/-! ## §4. The loops. -/

/-- With enough fuel the call returns `result`. -/
def Returns {α : Type} (call : Nat → Option α) (result : α) : Prop :=
  ∃ bound, ∀ fuel, bound < fuel → call fuel = some result

theorem Returns.unique {α : Type} {call : Nat → Option α} {a b : α} (ha : Returns call a)
    (hb : Returns call b) : a = b := by
  obtain ⟨bound, ha⟩ := ha
  obtain ⟨bound', hb⟩ := hb
  have heq := (ha (bound + bound' + 1) (by omega)).symm.trans (hb (bound + bound' + 1) (by omega))
  exact Option.some.inj heq

/-- The window of a worker, when it is up. -/
def CapacityWorker.Fits (w : CapacityWorker σ Chunk) : Prop := ∀ q, w.queue = some q → q.Window

def CapacityWorker.Settled (w : CapacityWorker σ Chunk) : Prop :=
  ∀ q, w.queue = some q → q.Settled

/-- Nothing is pending, and the window has room. -/
def CapacityWorker.Ready (w : CapacityWorker σ Chunk) : Prop :=
  ∀ q, w.queue = some q → q.pending = [] ∧ q.inflight < q.capacity

def CapacityWorker.load (w : CapacityWorker σ Chunk) : Nat :=
  (w.queue.map CapacityQueue.load).getD 0

/-- **The window goes on**: it has the capacity it had, and what was pending
has been submitted or dropped, in order, or is pending still. -/
def Hooks.Serving (h : Hooks σ Request Chunk) (s : σ) (q : CapacityQueue Chunk)
    (w : CapacityWorker σ Chunk) : Prop :=
  ∃ q' gone, w.queue = some q' ∧ q'.capacity = q.capacity ∧ h.Serves s q gone w.state q' ∧
    gone.map Prod.fst ++ q'.chunks = q.chunks

/-- **What `drain` has done**: nothing without a window. -/
def Hooks.Drained (h : Hooks σ Request Chunk) (w w' : CapacityWorker σ Chunk) : Prop :=
  match w.queue with
  | none => w' = w
  | some q => h.Serving w.state q w'

theorem Hooks.Drained.refl (w : CapacityWorker σ Chunk) : h.Drained w w := by
  unfold Hooks.Drained
  cases hqueue : w.queue with
  | none => rfl
  | some q => exact ⟨q, [], hqueue, rfl, .nil w.state q, rfl⟩

theorem Hooks.Drained.trans {w w' w'' : CapacityWorker σ Chunk} (hfirst : h.Drained w w')
    (hrest : h.Drained w' w'') : h.Drained w w'' := by
  unfold Hooks.Drained at hfirst ⊢
  cases hqueue : w.queue with
  | none =>
      rw [hqueue] at hfirst
      have hsame : w' = w := hfirst
      rw [hsame, Hooks.Drained, hqueue] at hrest
      exact hrest
  | some q =>
      rw [hqueue] at hfirst
      obtain ⟨q', gone, hq', hcapacity, hserves, hchunks⟩ := hfirst
      rw [Hooks.Drained, hq'] at hrest
      obtain ⟨q'', gone', hq'', hcapacity', hserves', hchunks'⟩ := hrest
      refine ⟨q'', gone ++ gone', hq'', hcapacity'.trans hcapacity, hserves.append hserves', ?_⟩
      rw [List.map_append, List.append_assoc, hchunks', hchunks]

variable (h)

variable {h}

end Worker

theorem completeChunk_queue {w w' : Worker} {handle base taskIdx : Nat} {ret : ResponseCode}
    (hok : w.completeChunk handle base taskIdx ret = .ok w') :
    w'.queue = w.queue.map (fun q => q.complete 1) := by
  unfold Worker.completeChunk at hok
  split at hok
  · simp at hok
  · split at hok
    · simp at hok
    · rw [← Except.ok.inj hok]
      split <;> rfl

/-- **`submit`** issues the read, or completes its own chunk. -/
theorem submit_settles {w w' : Worker} {chunk : ObjectChunk} {outcome : ResponseCode}
    {issued : Bool} {q : CapacityQueue ObjectChunk} (hq : w.queue = some q)
    (hok : w.submit chunk outcome = .ok (w', issued)) :
    ∃ q', w'.queue = some q' ∧ Settles q q' := by
  have hcompleted : ∀ {base taskIdx : Nat} {ret : ResponseCode},
      (w.completeChunk chunk.handle base taskIdx ret).map (·, false) = .ok (w', issued) →
        ∃ q', w'.queue = some q' ∧ Settles q q' := by
    intro base taskIdx ret hmap
    cases hcomplete : w.completeChunk chunk.handle base taskIdx ret with
    | error e =>
        rw [hcomplete] at hmap
        simp [Except.map] at hmap
    | ok w₁ =>
        rw [hcomplete] at hmap
        simp only [Except.map, Except.ok.injEq, Prod.mk.injEq] at hmap
        rw [← hmap.1, completeChunk_queue hcomplete, hq]
        exact ⟨_, rfl, Or.inr (Or.inl rfl)⟩
  unfold Worker.submit at hok
  split at hok
  · simp at hok
  · split at hok
    · simp at hok
    · split at hok
      · exact hcompleted hok
      · split at hok
        · exact hcompleted hok
        · simp only [Except.ok.injEq, Prod.mk.injEq] at hok
          rw [← hok.1]
          exact ⟨q, hq, Or.inl rfl⟩

/-- A number of completions, each of one chunk. -/
theorem complete_iterate (n : Nat) (q : CapacityQueue ObjectChunk) :
    (fun q => CapacityQueue.complete q 1)^[n] q = { q with inflight := q.inflight - n } := by
  induction n generalizing q with
  | zero => rfl
  | succ n ih =>
      rw [Function.iterate_succ_apply, ih]
      unfold CapacityQueue.complete
      dsimp only
      congr 1
      split <;> omega

theorem drainLoop_queue (responses : List Completion) {d d' : Drained}
    (hok : drainLoop responses d = .ok d') :
    ∃ n, d'.worker.queue
        = d.worker.queue.map (fun q => (fun q => CapacityQueue.complete q 1)^[n] q) ∧
      (d.progressed = true → d'.progressed = true) := by
  induction responses generalizing d with
  | nil =>
      obtain rfl : d = d' := Except.ok.inj hok
      exact ⟨0, by simp, id⟩
  | cons response responses ih =>
      unfold drainLoop at hok
      split at hok
      · obtain rfl := Except.ok.inj hok
        exact ⟨0, by simp, id⟩
      · split at hok
        · exact ih hok
        · split at hok
          · simp at hok
          next w₁ hcomplete =>
            obtain ⟨n, hqueue, hkeep⟩ := ih hok
            refine ⟨n + 1, ?_, fun _ => hkeep rfl⟩
            rw [hqueue]
            show w₁.queue.map _ = _
            rw [completeChunk_queue hcomplete, Option.map_map]
            rfl

/-- The end of the round comes first: nothing has progressed. -/
theorem drainLoop_last {response : Completion} (rest : List Completion) (d : Drained)
    (hlast : response.ret = .finishedError) :
    drainLoop (response :: rest) d = .ok { d with responderDrained := true } := by
  unfold drainLoop
  rw [if_pos hlast]

/-- A chunk in flight comes first, and is completed. -/
theorem drainLoop_located {response : Completion} (rest : List Completion) {d : Drained}
    {base taskIdx : Nat} (hnot : response.ret ≠ .finishedError)
    (hlocate : locate d.worker.inflight response.handle = some (base, taskIdx)) :
    drainLoop (response :: rest) d
      = (d.worker.completeChunk response.handle base taskIdx response.ret).bind
          (fun worker => drainLoop rest ⟨worker, true, d.responderDrained⟩) := by
  rw [drainLoop, if_neg hnot, hlocate]
  dsimp only
  cases d.worker.completeChunk response.handle base taskIdx response.ret with
  | error e => rfl
  | ok worker => rfl

theorem abortAll_progresses {w : Worker} {code : ResponseCode} {q : CapacityQueue ObjectChunk}
    (hq : w.queue = some q) : ∃ q', (w.abortAll code).queue = some q' ∧ Progresses q q' := by
  refine ⟨q.clear, ?_, Or.inl rfl⟩
  show w.queue.map CapacityQueue.clear = _
  rw [hq]
  rfl

/-- **A round that begins with a chunk in flight** completes it, and what else
it has completions of. -/
theorem drainLoop_progresses {w : Worker} {q : CapacityQueue ObjectChunk} (hq : w.queue = some q)
    (hinflight : q.inflight ≠ 0) {response : Completion} {rest : List Completion} {b : Bool}
    (hnot : response.ret ≠ .finishedError)
    (hlocate : (locate w.inflight response.handle).isSome) {d : Drained}
    (hok : drainLoop (response :: rest) ⟨w, false, b⟩ = .ok d) :
    d.progressed = true ∧ ∃ q', d.worker.queue = some q' ∧ Progresses q q' := by
  obtain ⟨⟨base, taskIdx⟩, hlocate⟩ := Option.isSome_iff_exists.mp hlocate
  rw [drainLoop_located rest hnot hlocate] at hok
  dsimp only at hok
  cases hcomplete : w.completeChunk response.handle base taskIdx response.ret with
  | error e =>
      rw [hcomplete] at hok
      simp [Except.bind] at hok
  | ok w₁ =>
      rw [hcomplete] at hok
      obtain ⟨n, hqueue, hkeep⟩ := drainLoop_queue rest hok
      refine ⟨hkeep rfl, ?_⟩
      rw [hqueue]
      show ∃ q', w₁.queue.map _ = some q' ∧ Progresses q q'
      rw [completeChunk_queue hcomplete, hq]
      refine ⟨_, rfl, Or.inr ⟨min (n + 1) q.inflight, by omega, by omega, ?_⟩⟩
      show (fun q => CapacityQueue.complete q 1)^[n] (q.complete 1) = _
      rw [← Function.iterate_succ_apply, complete_iterate]
      congr 1
      omega

/-- **`drain_batch`** of a worker with its client completes a chunk or aborts
all, when the backend's round fails, is empty, or begins with the end of the
round or a chunk in flight. -/
theorem drainBatch_progresses {w w' : Worker} {stopped : Bool} {round : Round}
    {q : CapacityQueue ObjectChunk} (hreader : w.reader = true) (hq : w.queue = some q)
    (hinflight : q.inflight ≠ 0)
    (hround : ∀ response rest, round.responses = response :: rest →
      response.ret = .finishedError ∨ (locate w.inflight response.handle).isSome)
    (hok : w.drainBatch stopped round = .ok w') :
    ∃ q', w'.queue = some q' ∧ Progresses q q' := by
  have hbusy : w.idle = false := by
    unfold Worker.idle
    rw [hq]
    show (q.pending.isEmpty && q.inflight == 0) = false
    rw [Bool.and_eq_false_iff]
    exact Or.inr (by simpa using hinflight)
  unfold Worker.drainBatch at hok
  rw [if_neg (by simp [hreader])] at hok
  split at hok
  · rw [← Except.ok.inj hok]
    exact abortAll_progresses hq
  split at hok
  · rw [← Except.ok.inj hok]
    exact abortAll_progresses hq
  -- the responder is drained and nothing has progressed: all is aborted
  have hstalled : drainLoop round.responses ⟨w, false, round.responses.isEmpty⟩
      = .ok ⟨w, false, true⟩ → ∃ q', w'.queue = some q' ∧ Progresses q q' := by
    intro hloop
    rw [hloop] at hok
    simp only [hbusy, Bool.not_false, Bool.and_self, if_true] at hok
    rw [← Except.ok.inj hok]
    exact abortAll_progresses hq
  cases hresponses : round.responses with
  | nil =>
      apply hstalled
      rw [hresponses]
      rfl
  | cons response rest =>
      by_cases hlast : response.ret = .finishedError
      · apply hstalled
        rw [hresponses]
        exact drainLoop_last rest _ hlast
      · have hlocate := (hround response rest hresponses).resolve_left hlast
        rw [hresponses] at hok
        cases hloop : drainLoop (response :: rest) ⟨w, false, (response :: rest).isEmpty⟩ with
        | error e =>
            rw [hloop] at hok
            simp at hok
        | ok d =>
            obtain ⟨hprogressed, hqueue⟩ := drainLoop_progresses hq hinflight hlast hlocate hloop
            rw [hloop] at hok
            simp only [hprogressed, Bool.not_true, Bool.false_and] at hok
            rw [← Except.ok.inj hok, if_neg (by simp)]
            exact hqueue

end ModelStreamer.ObjectStorage
