/-
  ModelStreamer.Common.SharedQueue
  ────────────────────────────────
  **THE RESPONSE QUEUE** (`common/shared_queue/shared_queue.h`): many threads
  push, one pops.

  Every operation holds the mutex, so it is one step.  The semaphore counts
  the queued responses, plus the one post of `stop`; a `pop` that finds
  neither waits.
-/
import ModelStreamer.Common.Word

namespace ModelStreamer

/-- Who owns the "finished" decision of a queue. -/
inductive QueueMode where
  /-- The queue: a drained queue is finished. -/
  | finishOnDrain
  /-- The caller: only `stop` finishes the queue. -/
  | persistent
  deriving DecidableEq, Repr

/-- `common::SharedQueue`; `unexpected` is `_unexpected_push_error`. -/
structure SharedQueue (α : Type) where
  mode : QueueMode
  running : Nat
  responses : List α
  stopped : Bool
  unexpected : Bool
  deriving Repr

namespace SharedQueue

variable {α : Type}

/-- The constructor. -/
def new (mode : QueueMode) (running : Nat) : SharedQueue α := ⟨mode, running, [], false, false⟩

/-- `_running += running`, on an `unsigned`. -/
def increment (q : SharedQueue α) (running : Nat) : SharedQueue α :=
  { q with running := (q.running + running) % 2 ^ 32 }

/-- `push`: ignored after `stop`, refused when no response is expected. -/
def push (q : SharedQueue α) (response : α) : SharedQueue α :=
  if q.stopped then q
  else if 0 < q.running then
    { q with responses := q.responses ++ [response], running := q.running - 1 }
  else { q with unexpected := true }

/-- `stop`. -/
def stop (q : SharedQueue α) : SharedQueue α := { q with stopped := true }

/-- `finished`. -/
def finished (q : SharedQueue α) : Bool := decide (q.running = 0) && q.responses.isEmpty

/-- What a `pop` finds. -/
inductive Pop (α : Type) where
  | response (r : α) (rest : SharedQueue α)
  /-- It returns `FinishedError`. -/
  | finished
  /-- It waits, and returns `TimedOut` if it waited long enough. -/
  | waits

/-- `pop`. -/
def pop (q : SharedQueue α) : Pop α :=
  if q.stopped then .finished
  else if q.mode = .finishOnDrain ∧ q.finished then .finished
  else
    match q.responses with
    | [] => .waits
    | r :: responses => .response r { q with responses := responses }

/-- A response comes off the front of an open queue. -/
theorem pop_response {q q' : SharedQueue α} {r : α} (h : q.pop = .response r q') :
    q.stopped = false ∧ q.responses = r :: q'.responses ∧
      q' = { q with responses := q'.responses } := by
  unfold pop at h
  split at h
  · simp at h
  next hopen =>
    split at h
    · simp at h
    · split at h
      next => simp at h
      next r' responses heq =>
        simp only [Pop.response.injEq] at h
        obtain ⟨rfl, rfl⟩ := h
        exact ⟨by simpa using hopen, heq, rfl⟩

/-- A push adds its response at the back, or nothing. -/
theorem push_responses (q : SharedQueue α) (r : α) :
    (q.push r).responses = q.responses ∨ (q.push r).responses = q.responses ++ [r] := by
  unfold push
  split
  · exact .inl rfl
  · split
    · exact .inr rfl
    · exact .inl rfl

end SharedQueue

end ModelStreamer
