/-
  ModelStreamer.Common.QueueSteps
  ───────────────────────────────
  **THE RESPONSE QUEUE, STEP BY STEP.**

  In `ModelStreamer.Common.SharedQueue` every operation is one step.  Here
  the semaphore has steps of its own: a push posts after it has left its
  critical section, so does `stop`, and a `pop` takes a post before it looks
  at the responses.  Any number of pushes, increments and stops interleave
  with the pops of one consumer; a push before its critical section, and a
  stop before its own, have changed nothing yet.

    • `Inv.step` — the semaphore accounts for the responses,
    • `Inv.exact` — so no notified pop finds the queue empty, and no response
      is lost, doubled or overtaken,
    • `decided_pop` — what a pop returns is what the one-step `pop` gives at
      the moment it is decided.
-/
import ModelStreamer.Common.SharedQueue
import ModelStreamer.Lib.TransitionSystem

namespace ModelStreamer.QueueSteps

open ModelStreamer.Lib

/-! ## §1. The queue and its consumer. -/

/-- What a `pop` returns. -/
inductive Result (α : Type) where
  | response (r : α)
  | finishedError
  | timedOut
  deriving DecidableEq, Repr

/-- Where the consumer is. -/
inductive Consumer (α : Type) where
  | outside
  /-- Not stopped at entry; about to look whether the queue has drained. -/
  | entered (timed : Bool)
  /-- At the semaphore, for ever or for a time. -/
  | waiting (timed : Bool)
  /-- Has taken a post. -/
  | notified
  | returning (result : Result α)
  /-- `ASSERT(!_responses.empty())` has failed. -/
  | asserted
  deriving DecidableEq, Repr

/-- The queue, the count of `_ready`, the pushes and stops that have left
their critical sections and still owe a post, and the consumer; `accepted`
and `popped` are all responses ever queued and ever returned. -/
structure State (α : Type) where
  queue : SharedQueue α
  count : Nat
  posting : Nat
  stopping : Nat
  consumer : Consumer α
  accepted : List α
  popped : List α

variable {α : Type}

/-- The notification a pop in progress has taken. -/
def Consumer.taken : Consumer α → Nat
  | .notified => 1
  | _ => 0

/-- The push is queued. -/
def accepts (q : SharedQueue α) : Bool := !q.stopped && decide (0 < q.running)

/-- What happens. -/
inductive Op (α : Type) where
  | increment (running : Nat)
  | push (r : α)
  | post
  | stop
  | postStop
  | enter (timed : Bool)
  | check
  | wake
  | timeout
  | take
  | return

/-- One step. -/
inductive Step : State α → Op α → State α → Prop
  | increment {s : State α} (running : Nat) :
      Step s (.increment running)
        ⟨s.queue.increment running, s.count, s.posting, s.stopping, s.consumer, s.accepted,
          s.popped⟩
  | push {s : State α} (r : α) :
      Step s (.push r)
        ⟨s.queue.push r, s.count, if accepts s.queue then s.posting + 1 else s.posting,
          s.stopping, s.consumer, if accepts s.queue then s.accepted ++ [r] else s.accepted,
          s.popped⟩
  | post {s : State α} (howed : 0 < s.posting) :
      Step s .post
        ⟨s.queue, s.count + 1, s.posting - 1, s.stopping, s.consumer, s.accepted, s.popped⟩
  /-- Only the first `stop` posts. -/
  | stop {s : State α} :
      Step s .stop
        ⟨s.queue.stop, s.count, s.posting,
          if s.queue.stopped then s.stopping else s.stopping + 1, s.consumer, s.accepted, s.popped⟩
  | postStop {s : State α} (howed : 0 < s.stopping) :
      Step s .postStop
        ⟨s.queue, s.count + 1, s.posting, s.stopping - 1, s.consumer, s.accepted, s.popped⟩
  | enterStopped {s : State α} (timed : Bool) (hat : s.consumer = .outside)
      (hstopped : s.queue.stopped = true) :
      Step s (.enter timed)
        ⟨s.queue, s.count, s.posting, s.stopping, .returning .finishedError, s.accepted, s.popped⟩
  | enter {s : State α} (timed : Bool) (hat : s.consumer = .outside)
      (hopen : s.queue.stopped = false) :
      Step s (.enter timed)
        ⟨s.queue, s.count, s.posting, s.stopping, .entered timed, s.accepted, s.popped⟩
  | drained {s : State α} (timed : Bool) (hat : s.consumer = .entered timed)
      (hmode : s.queue.mode = .finishOnDrain) (hfinished : s.queue.finished = true) :
      Step s .check
        ⟨s.queue, s.count, s.posting, s.stopping, .returning .finishedError, s.accepted, s.popped⟩
  | goOn {s : State α} (timed : Bool) (hat : s.consumer = .entered timed)
      (hmore : s.queue.mode = .persistent ∨ s.queue.finished = false) :
      Step s .check
        ⟨s.queue, s.count, s.posting, s.stopping, .waiting timed, s.accepted, s.popped⟩
  | wake {s : State α} (timed : Bool) (hat : s.consumer = .waiting timed) (hcount : 0 < s.count) :
      Step s .wake
        ⟨s.queue, s.count - 1, s.posting, s.stopping, .notified, s.accepted, s.popped⟩
  /-- The time is up, even where a post has just come. -/
  | timeout {s : State α} (hat : s.consumer = .waiting true) :
      Step s .timeout
        ⟨s.queue, s.count, s.posting, s.stopping, .returning .timedOut, s.accepted, s.popped⟩
  | takeStopped {s : State α} (hat : s.consumer = .notified) (hstopped : s.queue.stopped = true) :
      Step s .take
        ⟨s.queue, s.count, s.posting, s.stopping, .returning .finishedError, s.accepted, s.popped⟩
  | takeEmpty {s : State α} (hat : s.consumer = .notified) (hopen : s.queue.stopped = false)
      (hempty : s.queue.responses = []) :
      Step s .take
        ⟨s.queue, s.count, s.posting, s.stopping, .asserted, s.accepted, s.popped⟩
  | take {s : State α} (r : α) (rest : List α) (hat : s.consumer = .notified)
      (hopen : s.queue.stopped = false) (hfront : s.queue.responses = r :: rest) :
      Step s .take
        ⟨⟨s.queue.mode, s.queue.running, rest, s.queue.stopped, s.queue.unexpected⟩, s.count,
          s.posting, s.stopping, .returning (.response r), s.accepted, s.popped ++ [r]⟩
  | returned {s : State α} (result : Result α) (hat : s.consumer = .returning result) :
      Step s .return
        ⟨s.queue, s.count, s.posting, s.stopping, .outside, s.accepted, s.popped⟩

/-- A queue of either kind that expects `running` responses, from its
construction on. -/
def queueSystem (mode : QueueMode) (running : Nat) : System (State α) (Op α) where
  init s := s = ⟨.new mode running, 0, 0, 0, .outside, [], []⟩
  step := Step

/-! ## §2. What the semaphore counts. -/

theorem push_of_accepts {q : SharedQueue α} (r : α) (h : accepts q = true) :
    (q.push r).responses = q.responses ++ [r] ∧ (q.push r).stopped = q.stopped ∧
      (q.push r).mode = q.mode := by
  simp only [accepts, Bool.and_eq_true, Bool.not_eq_true', decide_eq_true_eq] at h
  unfold SharedQueue.push
  rw [if_neg (by rw [h.1]; decide), if_pos h.2]
  exact ⟨rfl, rfl, rfl⟩

theorem push_of_not_accepts {q : SharedQueue α} (r : α) (h : accepts q = false) :
    (q.push r).responses = q.responses ∧ (q.push r).stopped = q.stopped ∧
      (q.push r).mode = q.mode := by
  unfold SharedQueue.push
  split
  · exact ⟨rfl, rfl, rfl⟩
  next hopen =>
    split
    next hrunning =>
      have haccepts : accepts q = true := by simp [accepts, hopen, hrunning]
      rw [haccepts] at h
      simp at h
    next => exact ⟨rfl, rfl, rfl⟩

/-- Nothing that has been stopped is accepted. -/
theorem accepts_stopped {q : SharedQueue α} (h : q.stopped = true) : accepts q = false := by
  simp [accepts, h]

/-- The consumer is on its way to the semaphore, or there. -/
def Consumer.Blocking : Consumer α → Prop
  | .entered _ | .waiting _ => True
  | _ => False

/-- What holds between any two steps. -/
structure Inv (s : State α) : Prop where
  /-- an open queue: a post, owed, given or taken, for every response -/
  balance : s.queue.stopped = false →
    s.count + s.posting + s.consumer.taken = s.queue.responses.length ∧ s.stopping = 0
  /-- a stopped queue: the stop has posted, or will -/
  posted : s.queue.stopped = true → s.consumer.Blocking → 0 < s.count ∨ 0 < s.stopping
  order : s.accepted = s.popped ++ s.queue.responses
  holds : s.consumer ≠ .asserted

/-- The consumer moves, and touches nothing else. -/
theorem Inv.consumer {s : State α} (h : Inv s) {consumer : Consumer α}
    (htaken : s.queue.stopped = false → consumer.taken = s.consumer.taken)
    (hblocking : s.queue.stopped = true → consumer.Blocking → s.consumer.Blocking)
    (hholds : consumer ≠ .asserted) :
    Inv ⟨s.queue, s.count, s.posting, s.stopping, consumer, s.accepted, s.popped⟩ := by
  refine ⟨fun hopen => ?_, fun hstopped hb => h.posted hstopped (hblocking hstopped hb), h.order,
    hholds⟩
  show s.count + s.posting + consumer.taken = _ ∧ _
  rw [htaken hopen]
  exact h.balance hopen

theorem Inv.init (mode : QueueMode) (running : Nat) :
    Inv (⟨.new mode running, 0, 0, 0, .outside, [], []⟩ : State α) :=
  ⟨fun _ => ⟨rfl, rfl⟩, fun hstopped => by simp [SharedQueue.new] at hstopped, rfl, by simp⟩

/-- **Every step keeps the account.** -/
theorem Inv.step {s t : State α} {a : Op α} (h : Inv s) (hstep : Step s a t) : Inv t := by
  cases hstep with
  | increment running => exact ⟨h.balance, h.posted, h.order, h.holds⟩
  | push r =>
      by_cases haccepts : accepts s.queue = true
      · obtain ⟨hresponses, hstopped, -⟩ := push_of_accepts r haccepts
        refine ⟨fun hopen => ?_, fun hclosed => ?_, ?_, h.holds⟩
        · simp only [if_pos haccepts, hresponses, List.length_append, List.length_singleton]
          have := h.balance (hstopped ▸ hopen)
          omega
        · have hclosed : (s.queue.push r).stopped = true := hclosed
          rw [hstopped] at hclosed
          rw [accepts_stopped hclosed] at haccepts
          simp at haccepts
        · simp only [if_pos haccepts, hresponses]
          rw [h.order, List.append_assoc]
      · obtain ⟨hresponses, hstopped, -⟩ := push_of_not_accepts r (by simpa using haccepts)
        refine ⟨fun hopen => ?_, fun hclosed => ?_, ?_, h.holds⟩
        · simp only [if_neg haccepts, hresponses]
          exact h.balance (hstopped ▸ hopen)
        · exact h.posted (hstopped ▸ hclosed)
        · simp only [if_neg haccepts, hresponses]
          exact h.order
  | post howed =>
      refine ⟨fun hopen => ?_, fun _ _ => .inl (Nat.succ_pos _), h.order, h.holds⟩
      have := h.balance hopen
      show s.count + 1 + (s.posting - 1) + s.consumer.taken = s.queue.responses.length
        ∧ s.stopping = 0
      omega
  | stop =>
      refine ⟨fun hopen => ?_, fun _ hblocking => ?_, h.order, h.holds⟩
      · simp [SharedQueue.stop] at hopen
      · by_cases hstopped : s.queue.stopped = true
        · rw [if_pos hstopped]
          exact h.posted hstopped hblocking
        · rw [if_neg hstopped]
          exact .inr (Nat.succ_pos _)
  | postStop howed =>
      refine ⟨fun hopen => ?_, fun _ _ => .inl (Nat.succ_pos _), h.order, h.holds⟩
      have := (h.balance hopen).2
      omega
  | enterStopped timed hat hstopped =>
      exact h.consumer (fun _ => by rw [hat]; rfl) (fun _ => False.elim) (by simp)
  | enter timed hat hopen =>
      refine h.consumer (fun _ => by rw [hat]; rfl) (fun hstopped => ?_) (by simp)
      rw [hopen] at hstopped
      simp at hstopped
  | drained timed hat hmode hfinished =>
      exact h.consumer (fun _ => by rw [hat]; rfl) (fun _ => False.elim) (by simp)
  | goOn timed hat hmore =>
      exact h.consumer (fun _ => by rw [hat]; rfl) (fun _ _ => by rw [hat]; trivial) (by simp)
  | wake timed hat hcount =>
      have hbalance := h.balance
      rw [hat] at hbalance
      refine ⟨fun hopen => ?_, fun _ => False.elim, h.order, by simp⟩
      obtain ⟨hcounts, hnone⟩ := hbalance hopen
      refine ⟨?_, hnone⟩
      have hcounts : s.count + s.posting + 0 = s.queue.responses.length := hcounts
      show s.count - 1 + s.posting + 1 = s.queue.responses.length
      omega
  | timeout hat => exact h.consumer (fun _ => by rw [hat]; rfl) (fun _ => False.elim) (by simp)
  | takeStopped hat hstopped =>
      refine h.consumer (fun hopen => ?_) (fun _ => False.elim) (by simp)
      rw [hstopped] at hopen
      simp at hopen
  | takeEmpty hat hopen hempty =>
      -- a notified pop has a response waiting for it
      have hcounts := (h.balance hopen).1
      rw [hat, hempty] at hcounts
      have : s.count + s.posting + 1 = 0 := hcounts
      omega
  | take r rest hat hopen hfront =>
      have hbalance := h.balance
      rw [hat, hfront] at hbalance
      refine ⟨fun hopen' => ?_, fun _ => False.elim, ?_, by simp⟩
      · obtain ⟨hcounts, hnone⟩ := hbalance hopen
        refine ⟨?_, hnone⟩
        have hcounts : s.count + s.posting + 1 = rest.length + 1 := hcounts
        show s.count + s.posting + 0 = rest.length
        omega
      · show s.accepted = (s.popped ++ [r]) ++ rest
        rw [h.order, hfront, List.append_assoc]
        rfl
  | returned result hat =>
      exact h.consumer (fun _ => by rw [hat]; rfl) (fun _ => False.elim) (by simp)

theorem reachable_inv {mode : QueueMode} {running : Nat} :
    ∀ s : State α, (queueSystem mode running).Reachable s → Inv s := by
  apply System.Reachable.invariant
  · rintro s rfl
    exact Inv.init mode running
  · intro s a t _ h hstep
    exact h.step hstep

/-! ## §3. What the consumer sees. -/

/-- **An exact queue**, in one state. -/
structure Exact (s : State α) : Prop where
  /-- before a stop, the semaphore and the posts that pushes owe are the
  responses, less the notification a pop has taken -/
  balance : s.queue.stopped = false →
    s.count + s.posting = s.queue.responses.length - s.consumer.taken ∧
      s.consumer.taken ≤ s.queue.responses.length
  /-- so a notified pop finds a response -/
  nonempty : s.consumer = .notified → s.queue.stopped = false → s.queue.responses ≠ []
  holds : s.consumer ≠ .asserted
  /-- a response is waited for only while its push has still to post -/
  woken : ∀ timed, s.consumer = .waiting timed → s.queue.stopped = false →
    s.queue.responses ≠ [] → 0 < s.count ∨ 0 < s.posting
  /-- nobody waits once `stop` has returned -/
  unblocked : ∀ timed, s.consumer = .waiting timed → s.queue.stopped = true →
    s.stopping = 0 → 0 < s.count
  /-- the accepted responses leave in order, each once, and the rest is queued -/
  order : s.accepted = s.popped ++ s.queue.responses

theorem Inv.exact {s : State α} (h : Inv s) : Exact s := by
  refine ⟨fun hopen => ?_, fun hat hopen => ?_, h.holds, fun timed hat hopen hsome => ?_,
    fun timed hat hstopped hdone => ?_, h.order⟩
  · have := (h.balance hopen).1
    omega
  · have hcounts := (h.balance hopen).1
    rw [hat] at hcounts
    have hcounts : s.count + s.posting + 1 = s.queue.responses.length := hcounts
    intro hnil
    rw [hnil, List.length_nil] at hcounts
    omega
  · have hcounts := (h.balance hopen).1
    rw [hat] at hcounts
    have hcounts : s.count + s.posting + 0 = s.queue.responses.length := hcounts
    have := List.length_pos_iff.mpr hsome
    omega
  · rcases h.posted hstopped (by rw [hat]; trivial) with hcount | howed
    · exact hcount
    · omega

/-- **A pop decides as the one-step `pop` does**: it returns a response that
`pop` gives there, and the error where `pop` gives it. -/
theorem decided_pop {s t : State α} {a : Op α} (hstep : Step s a t) :
    (∀ r, t.consumer = .returning (.response r) → s.consumer ≠ t.consumer →
      s.queue.pop = .response r t.queue ∧ t.popped = s.popped ++ [r]) ∧
    (t.consumer = .returning .finishedError → s.consumer ≠ t.consumer →
      s.queue.pop = .finished ∧ t.queue = s.queue) := by
  cases hstep with
  | enterStopped timed hat hstopped =>
      refine ⟨by simp, fun _ _ => ⟨?_, rfl⟩⟩
      unfold SharedQueue.pop
      rw [if_pos hstopped]
  | drained timed hat hmode hfinished =>
      refine ⟨by simp, fun _ _ => ⟨?_, rfl⟩⟩
      unfold SharedQueue.pop
      rw [if_pos (⟨hmode, hfinished⟩ : _ ∧ _), ite_self]
  | takeStopped hat hstopped =>
      refine ⟨by simp, fun _ _ => ⟨?_, rfl⟩⟩
      unfold SharedQueue.pop
      rw [if_pos hstopped]
  | take r rest hat hopen hfront =>
      refine ⟨fun r' heq _ => ?_, by simp⟩
      obtain rfl : r = r' := by simpa using heq
      refine ⟨?_, rfl⟩
      unfold SharedQueue.pop
      have hunfinished : s.queue.finished = false := by simp [SharedQueue.finished, hfront]
      simp [hopen, hunfinished, hfront]
  | increment running => exact ⟨fun _ _ hne => absurd rfl hne, fun _ hne => absurd rfl hne⟩
  | push r => exact ⟨fun _ _ hne => absurd rfl hne, fun _ hne => absurd rfl hne⟩
  | post howed => exact ⟨fun _ _ hne => absurd rfl hne, fun _ hne => absurd rfl hne⟩
  | stop => exact ⟨fun _ _ hne => absurd rfl hne, fun _ hne => absurd rfl hne⟩
  | postStop howed => exact ⟨fun _ _ hne => absurd rfl hne, fun _ hne => absurd rfl hne⟩
  | _ => exact ⟨by simp, by simp⟩

/-- The mode is that of the construction. -/
theorem step_mode {s t : State α} {a : Op α} (hstep : Step s a t) :
    t.queue.mode = s.queue.mode := by
  cases hstep with
  | push r =>
      by_cases haccepts : accepts s.queue = true
      · exact (push_of_accepts r haccepts).2.2
      · exact (push_of_not_accepts r (by simpa using haccepts)).2.2
  | _ => rfl

theorem reachable_mode {mode : QueueMode} {running : Nat} :
    ∀ s : State α, (queueSystem mode running).Reachable s → s.queue.mode = mode := by
  apply System.Reachable.invariant
  · rintro s rfl
    rfl
  · intro s a t _ h hstep
    rw [step_mode hstep, h]

/-- **When `FinishedError` is returned**: it is decided in a queue that has
been stopped or, where the queue owns the decision, one that expects nothing
and is empty. -/
theorem finishedError_iff {q : SharedQueue α} :
    q.pop = .finished ↔
      q.stopped = true ∨ (q.mode = .finishOnDrain ∧ q.running = 0 ∧ q.responses = []) := by
  have hfinished : q.finished = true ↔ q.running = 0 ∧ q.responses = [] := by
    unfold SharedQueue.finished
    rw [Bool.and_eq_true, decide_eq_true_eq, List.isEmpty_iff]
  unfold SharedQueue.pop
  split
  next hstopped => simp [hstopped]
  next hopen =>
    split
    next hdrained =>
      simp only [true_iff]
      exact .inr ⟨hdrained.1, hfinished.mp hdrained.2⟩
    next hmore =>
      constructor
      · intro h
        split at h <;> simp at h
      · rintro (hstopped | ⟨hmode, hdone⟩)
        · exact absurd hstopped hopen
        · exact absurd ⟨hmode, hfinished.mpr hdone⟩ hmore

/-- **The response queue is an exact FIFO**, in every interleaving; and every
pop that leaves with `FinishedError` decided so where it may. -/
theorem shared_queue_exact (mode : QueueMode) (running : Nat) (s : State α)
    (hreach : (queueSystem mode running).Reachable s) :
    Exact s ∧ ∀ a t, Step s a t →
      (∀ r, t.consumer = .returning (.response r) → s.consumer ≠ t.consumer →
        s.queue.pop = .response r t.queue ∧ t.popped = s.popped ++ [r]) ∧
      (t.consumer = .returning .finishedError → s.consumer ≠ t.consumer →
        s.queue.stopped = true ∨
          (mode = .finishOnDrain ∧ s.queue.running = 0 ∧ s.queue.responses = [])) := by
  refine ⟨(reachable_inv s hreach).exact, fun a t hstep => ?_⟩
  obtain ⟨hresponse, hfinished⟩ := decided_pop hstep
  refine ⟨hresponse, fun hat hne => ?_⟩
  rw [← reachable_mode s hreach]
  exact finishedError_iff.mp (hfinished hat hne).1

/-- One push has been queued, and has not posted; the consumer waits. -/
def oneQueued : State Nat :=
  ⟨⟨.persistent, 0, [7], false, false⟩, 0, 1, 0, .waiting false, [7], []⟩

theorem oneQueued_reachable : (queueSystem .persistent 1).Reachable oneQueued := by
  have h₀ : (@queueSystem Nat .persistent 1).Reachable _ := .init rfl
  have h₁ := h₀.step (Step.enter false rfl rfl)
  have h₂ := h₁.step (Step.goOn false rfl (.inl rfl))
  exact h₂.step (Step.push 7)

theorem shared_queue_exact_one :
    Exact oneQueued ∧ ∀ a t, Step oneQueued a t →
      (∀ r, t.consumer = .returning (.response r) → oneQueued.consumer ≠ t.consumer →
        oneQueued.queue.pop = .response r t.queue ∧ t.popped = oneQueued.popped ++ [r]) ∧
      (t.consumer = .returning .finishedError → oneQueued.consumer ≠ t.consumer →
        oneQueued.queue.stopped = true ∨
          (QueueMode.persistent = .finishOnDrain ∧ oneQueued.queue.running = 0 ∧
            oneQueued.queue.responses = [])) :=
  shared_queue_exact .persistent 1 oneQueued oneQueued_reachable

end ModelStreamer.QueueSteps
