/-
  ModelStreamer.Pools.Shutdown
  ────────────────────────────
  **STOPPING A THREAD POOL** (`utils/threadpool`: `Deque`, the two worker
  routines and the destructor).

  One semaphore counts the messages, and later the tokens by which `stop`
  wakes the workers.  Who gets a token only learns under the mutex what it is
  for.  A worker that polls gives a stop token back; one that waits keeps it,
  and exits.

  Each worker polls and waits as it likes: a worker of the first kind never
  polls, one of the second polls before it waits, and again and again while
  its own work is in flight.  The count of the semaphore does not overflow.

    • `Inv.tokens` — every token stands for a message in the deque or, after
      the stop, for a worker that has not exited,
    • `Inv.step` — kept by every step,
    • `next_stopped` — after the stop the messages stay where they are,
    • `shutdown` — the run of a pool, for every number of workers.
-/
import ModelStreamer.Lib.TransitionSystem
import Mathlib.Algebra.Order.BigOperators.Group.Finset

namespace ModelStreamer.Pools

open ModelStreamer.Lib

/-! ## §1. The deque and its workers. -/

/-- Where a worker is. -/
inductive Place where
  /-- Outside of the deque, with or without work of its own. -/
  | running
  /-- In `pop`, at `_sem.wait()`. -/
  | waiting
  /-- In `pop`, with a token; it needs the mutex. -/
  | woken
  /-- In `try_pop`, with a token; it needs the mutex. -/
  | polled
  /-- In `try_pop`, with the mutex, about to give a stop token back. -/
  | reposting
  /-- `pop` has returned false: out of its loop. -/
  | exited
  /-- Has called `front` on an empty deque: undefined behaviour. -/
  | emptied
  deriving DecidableEq, Repr

/-- Has taken a token and not used it yet. -/
def Place.holding : Place → Bool
  | .woken | .polled | .reposting => true
  | _ => false

/-- Has not left its loop. -/
def Place.alive : Place → Bool
  | .exited => false
  | _ => true

/-- A `Deque` and its `n` workers.  `posting` is how many calls of `push` are
between their two halves, `stopping` how often `stop` has yet to post;
`pushed` and `delivered` record the past. -/
structure Deque (n : Nat) (μ : Type) where
  sem : Nat
  deque : List μ
  stopped : Bool
  place : Fin n → Place
  posting : Nat
  stopping : Nat
  pushed : List μ
  delivered : List (Fin n × μ)

namespace Deque

variable {n : Nat} {μ : Type}

def new (n : Nat) (μ : Type) : Deque n μ := ⟨0, [], false, fun _ => .running, 0, 0, [], []⟩

def move (s : Deque n μ) (i : Fin n) (place : Place) : Deque n μ :=
  { s with place := Function.update s.place i place }

/-- Nobody is inside a section of the mutex.  All sections but one are single
steps. -/
def Unlocked (s : Deque n μ) : Prop := ∀ i, s.place i ≠ .reposting

instance (s : Deque n μ) : Decidable s.Unlocked :=
  inferInstanceAs (Decidable (∀ i, s.place i ≠ .reposting))

/-- `front` and `pop_front`. -/
def front (s : Deque n μ) (i : Fin n) : Deque n μ :=
  match s.deque with
  | [] => s.move i .emptied
  | message :: deque =>
      { s.move i .running with deque := deque, delivered := s.delivered ++ [(i, message)] }

inductive Step (n : Nat) (μ : Type) where
  /-- `push`, its two halves. -/
  | push (message : μ)
  | post
  /-- A worker calls `pop`, and its `_sem.wait()` returns. -/
  | pop (i : Fin n)
  | wake (i : Fin n)
  /-- A worker calls `try_pop`, up to `_sem.try_wait()`. -/
  | tryPop (i : Fin n)
  /-- The section of the mutex in `pop` or `try_pop`, and its last post. -/
  | lock (i : Fin n)
  | repost (i : Fin n)
  /-- `stop`, its section of the mutex and its posts. -/
  | stop
  | stopPost

def next (s : Deque n μ) : Step n μ → Option (Deque n μ)
  | .push message =>
      if s.stopped = false ∧ s.Unlocked then
        some { s with
          deque := s.deque ++ [message], pushed := s.pushed ++ [message]
          posting := s.posting + 1 }
      else none
  | .post =>
      if 0 < s.posting then some { s with sem := s.sem + 1, posting := s.posting - 1 } else none
  | .pop i => if s.place i = .running then some (s.move i .waiting) else none
  | .wake i =>
      if s.place i = .waiting ∧ 0 < s.sem then some { s.move i .woken with sem := s.sem - 1 }
      else none
  | .tryPop i =>
      if s.place i = .running then
        -- without a token `try_pop` returns false
        if 0 < s.sem then some { s.move i .polled with sem := s.sem - 1 } else some s
      else none
  | .lock i =>
      if s.Unlocked then
        match s.place i with
        | .woken => if s.stopped then some (s.move i .exited) else some (s.front i)
        | .polled => if s.stopped then some (s.move i .reposting) else some (s.front i)
        | _ => none
      else none
  | .repost i =>
      if s.place i = .reposting then some { s.move i .running with sem := s.sem + 1 } else none
  | .stop =>
      -- the destructor calls it once, with the number of the threads
      if s.stopped = false ∧ s.Unlocked then some { s with stopped := true, stopping := n }
      else none
  | .stopPost =>
      if 0 < s.stopping then some { s with sem := s.sem + 1, stopping := s.stopping - 1 } else none

def system (n : Nat) (μ : Type) : System (Deque n μ) (Step n μ) where
  init s := s = new n μ
  step s a t := next s a = some t

/-! ## §2. Counting the workers. -/

/-- How many workers are at such a place. -/
def count (s : Deque n μ) (p : Place → Bool) : Nat := ∑ i, (p (s.place i)).toNat

/-- The tokens held by pops and polls in progress. -/
def held (s : Deque n μ) : Nat := s.count Place.holding

/-- The workers that have not exited. -/
def alive (s : Deque n μ) : Nat := s.count Place.alive

/-- The tokens that `stop` will post, before it is called. -/
def reserve (s : Deque n μ) : Nat := if s.stopped then 0 else n

theorem reserve_of_running {s : Deque n μ} (h : s.stopped = false) : s.reserve = n := by
  rw [reserve, h, if_neg Bool.false_ne_true]

/-- A worker moves. -/
theorem count_move (s : Deque n μ) (p : Place → Bool) (i : Fin n) (place : Place) :
    (s.move i place).count p + (p (s.place i)).toNat = s.count p + (p place).toNat :=
  sum_update_add s.place (fun place => (p place).toNat) i place

theorem alive_le (s : Deque n μ) : s.alive ≤ n := by
  have hle : ∑ i, (s.place i).alive.toNat ≤ ∑ _i : Fin n, 1 :=
    Finset.sum_le_sum (fun i _ => Bool.toNat_le (s.place i).alive)
  rw [Finset.sum_const, Finset.card_univ, Fintype.card_fin, smul_eq_mul, Nat.mul_one] at hle
  exact hle

/-- A worker that waits is alive and holds nothing. -/
theorem held_lt_alive {s : Deque n μ} {i : Fin n} (h : s.place i = .waiting) :
    s.held < s.alive := by
  refine Finset.sum_lt_sum (fun j _ => ?_) ⟨i, Finset.mem_univ i, ?_⟩
  · cases s.place j <;> decide
  · rw [h]
    decide

/-! ## §3. One step. -/

/-- What holds between any two steps. -/
structure Inv (s : Deque n μ) : Prop where
  /-- The tokens: in the semaphore, held, and those still to be posted. -/
  tokens : s.sem + s.held + s.posting + s.stopping + s.reserve = s.deque.length + s.alive
  posting_le : s.posting ≤ s.deque.length
  unstopped : s.stopped = false → s.stopping = 0
  order : s.pushed = s.delivered.map Prod.snd ++ s.deque
  filled : ∀ i, s.place i ≠ .emptied

theorem Inv.new (n : Nat) (μ : Type) : Inv (new n μ) := by
  refine ⟨?_, Nat.le_refl 0, fun _ => rfl, rfl, fun i => by simp [Deque.new]⟩
  show 0 + (∑ _i : Fin n, 0) + 0 + 0 + n = 0 + ∑ _i : Fin n, 1
  simp

theorem move_filled {s : Deque n μ} (h : ∀ i, s.place i ≠ .emptied) (i : Fin n) {place : Place}
    (hplace : place ≠ .emptied) : ∀ j, (s.move i place).place j ≠ .emptied := by
  intro j
  show Function.update s.place i place j ≠ .emptied
  by_cases hj : j = i
  · subst hj
    rwa [Function.update_self]
  · rw [Function.update_of_ne hj]
    exact h j

/-- **A worker moves** and nobody pushes, posts or takes a message: what it
gains of tokens the semaphore loses, and it exits with the one it held. -/
theorem Inv.move {s : Deque n μ} (h : Inv s) (i : Fin n) {place : Place} {sem : Nat}
    (hplace : place ≠ .emptied)
    (htokens : sem + (place.holding).toNat + ((s.place i).alive).toNat
      = s.sem + ((s.place i).holding).toNat + (place.alive).toNat) :
    Inv { s.move i place with sem := sem } := by
  have hheld : (s.move i place).held + _ = s.held + _ := count_move s Place.holding i place
  have halive : (s.move i place).alive + _ = s.alive + _ := count_move s Place.alive i place
  refine ⟨?_, h.posting_le, h.unstopped, h.order, move_filled h.filled i hplace⟩
  show sem + (s.move i place).held + s.posting + s.stopping + s.reserve
    = s.deque.length + (s.move i place).alive
  have hbefore := h.tokens
  omega

/-- **A worker takes a message.**  It holds a token, and before the stop a
token that is held stands for a message in the deque. -/
theorem Inv.front {s : Deque n μ} (h : Inv s) {i : Fin n} (hrunning : s.stopped = false)
    (hholding : (s.place i).holding = true) (halive : (s.place i).alive = true) :
    Inv (s.front i) := by
  have hheld : (s.move i .running).held + _ = s.held + _ := count_move s Place.holding i .running
  have hcount : (s.move i .running).alive + _ = s.alive + _ := count_move s Place.alive i .running
  have hbefore := h.tokens
  have hle := s.alive_le
  rw [hholding] at hheld
  rw [halive] at hcount
  replace hheld : (s.move i .running).held + 1 = s.held + 0 := hheld
  replace hcount : (s.move i .running).alive + 1 = s.alive + 1 := hcount
  have hreserve := reserve_of_running hrunning
  unfold Deque.front
  cases hdeque : s.deque with
  | nil =>
      -- the worker's token would stand for nothing
      rw [hdeque, List.length_nil] at hbefore
      omega
  | cons message rest =>
      rw [hdeque, List.length_cons] at hbefore
      refine ⟨?_, ?_, h.unstopped, ?_, move_filled h.filled i (by decide)⟩
      · show s.sem + (s.move i .running).held + s.posting + s.stopping + s.reserve
          = rest.length + (s.move i .running).alive
        omega
      · show s.posting ≤ rest.length
        omega
      · show s.pushed = (s.delivered ++ [(i, message)]).map Prod.snd ++ rest
        rw [h.order, hdeque]
        simp

/-- **The section of the mutex** in `pop` and `try_pop`. -/
theorem Inv.lock {s t : Deque n μ} (h : Inv s) {i : Fin n} (hnext : next s (.lock i) = some t) :
    Inv t := by
  simp only [next, Option.ite_none_right_eq_some] at hnext
  obtain ⟨-, hnext⟩ := hnext
  split at hnext
  next hwoken =>
    split at hnext
    next =>
      obtain rfl := Option.some.inj hnext
      -- it exits, and its token is used up
      refine h.move i (by decide) ?_
      rw [hwoken]
      rfl
    next hrunning =>
      obtain rfl := Option.some.inj hnext
      refine h.front (by simpa using hrunning) ?_ ?_ <;> rw [hwoken] <;> rfl
  next hpolled =>
    split at hnext
    next =>
      obtain rfl := Option.some.inj hnext
      refine h.move i (by decide) ?_
      rw [hpolled]
      rfl
    next hrunning =>
      obtain rfl := Option.some.inj hnext
      refine h.front (by simpa using hrunning) ?_ ?_ <;> rw [hpolled] <;> rfl
  next => simp at hnext

/-- **Every step** keeps the account of the tokens. -/
theorem Inv.step {s t : Deque n μ} {a : Step n μ} (h : Inv s) (hnext : next s a = some t) :
    Inv t := by
  have htokens := h.tokens
  cases a with
  | push message =>
      simp only [next, Option.ite_none_right_eq_some, Option.some.injEq] at hnext
      obtain ⟨-, rfl⟩ := hnext
      have hle := h.posting_le
      refine ⟨?_, ?_, h.unstopped, ?_, h.filled⟩
      · show s.sem + s.held + (s.posting + 1) + s.stopping + s.reserve
          = (s.deque ++ [_]).length + s.alive
        rw [List.length_append, List.length_singleton]
        omega
      · show s.posting + 1 ≤ (s.deque ++ [_]).length
        rw [List.length_append, List.length_singleton]
        omega
      · show s.pushed ++ [_] = _ ++ (s.deque ++ [_])
        rw [h.order, List.append_assoc]
  | post =>
      simp only [next, Option.ite_none_right_eq_some, Option.some.injEq] at hnext
      obtain ⟨hposting, rfl⟩ := hnext
      refine ⟨?_, Nat.le_trans (Nat.sub_le ..) h.posting_le, h.unstopped, h.order, h.filled⟩
      show s.sem + 1 + s.held + (s.posting - 1) + s.stopping + s.reserve
        = s.deque.length + s.alive
      omega
  | pop i =>
      simp only [next, Option.ite_none_right_eq_some, Option.some.injEq] at hnext
      obtain ⟨hplace, rfl⟩ := hnext
      refine h.move i (by decide) ?_
      rw [hplace]
      rfl
  | wake i =>
      simp only [next, Option.ite_none_right_eq_some, Option.some.injEq] at hnext
      obtain ⟨⟨hplace, hsem⟩, rfl⟩ := hnext
      refine h.move i (by decide) ?_
      rw [hplace]
      show s.sem - 1 + 1 + 1 = s.sem + 0 + 1
      omega
  | tryPop i =>
      simp only [next, Option.ite_none_right_eq_some] at hnext
      obtain ⟨hplace, hnext⟩ := hnext
      split at hnext
      next hsem =>
        obtain rfl := Option.some.inj hnext
        refine h.move i (by decide) ?_
        rw [hplace]
        show s.sem - 1 + 1 + 1 = s.sem + 0 + 1
        omega
      next =>
        obtain rfl := Option.some.inj hnext
        exact h
  | lock i => exact h.lock hnext
  | repost i =>
      simp only [next, Option.ite_none_right_eq_some, Option.some.injEq] at hnext
      obtain ⟨hplace, rfl⟩ := hnext
      refine h.move i (by decide) ?_
      rw [hplace]
      rfl
  | stop =>
      simp only [next, Option.ite_none_right_eq_some, Option.some.injEq] at hnext
      obtain ⟨⟨hrunning, -⟩, rfl⟩ := hnext
      refine ⟨?_, h.posting_le, nofun, h.order, h.filled⟩
      -- the reserve is what `stop` has to post now
      show s.sem + s.held + s.posting + n + 0 = s.deque.length + s.alive
      have hreserve := reserve_of_running hrunning
      have hstopping := h.unstopped hrunning
      omega
  | stopPost =>
      simp only [next, Option.ite_none_right_eq_some, Option.some.injEq] at hnext
      obtain ⟨hstopping, rfl⟩ := hnext
      refine ⟨?_, h.posting_le, fun hrunning => ?_, h.order, h.filled⟩
      · show s.sem + 1 + s.held + s.posting + (s.stopping - 1) + s.reserve
          = s.deque.length + s.alive
        omega
      · show s.stopping - 1 = 0
        rw [h.unstopped hrunning]

/-- **After the stop** no message is pushed, and nobody takes one. -/
theorem next_stopped {s t : Deque n μ} {a : Step n μ} (hstopped : s.stopped = true)
    (hnext : next s a = some t) :
    t.stopped = true ∧ t.stopping ≤ s.stopping ∧ t.delivered = s.delivered ∧ t.deque = s.deque := by
  cases a with
  | push message => simp [next, hstopped] at hnext
  | stop => simp [next, hstopped] at hnext
  | lock i =>
      -- whoever holds a token finds the deque stopped
      simp only [next, hstopped, if_true, Option.ite_none_right_eq_some] at hnext
      obtain ⟨-, hnext⟩ := hnext
      split at hnext
      next =>
        obtain rfl := Option.some.inj hnext
        exact ⟨hstopped, Nat.le_refl _, rfl, rfl⟩
      next =>
        obtain rfl := Option.some.inj hnext
        exact ⟨hstopped, Nat.le_refl _, rfl, rfl⟩
      next => simp at hnext
  | tryPop i =>
      simp only [next, Option.ite_none_right_eq_some] at hnext
      obtain ⟨-, hnext⟩ := hnext
      split at hnext <;>
        · obtain rfl := Option.some.inj hnext
          exact ⟨hstopped, Nat.le_refl _, rfl, rfl⟩
  | stopPost =>
      simp only [next, Option.ite_none_right_eq_some, Option.some.injEq] at hnext
      obtain ⟨-, rfl⟩ := hnext
      exact ⟨hstopped, Nat.sub_le .., rfl, rfl⟩
  | post | pop i | wake i | repost i =>
      simp only [next, Option.ite_none_right_eq_some, Option.some.injEq] at hnext
      obtain ⟨-, rfl⟩ := hnext
      exact ⟨hstopped, Nat.le_refl _, rfl, rfl⟩

/-! ## §4. Whole runs. -/

theorem inv {s : Deque n μ} (h : (system n μ).Reachable s) : Inv s := by
  refine System.Reachable.invariant ?_ (fun _ _ _ _ hs hnext => hs.step hnext) s h
  rintro _ rfl
  exact .new n μ

theorem stopped_leads {s t : Deque n μ} (hs : (system n μ).Reachable s) (hstopped : s.stopped = true)
    (h : (system n μ).Leads s t) :
    t.stopped = true ∧ t.stopping ≤ s.stopping ∧ t.delivered = s.delivered ∧ t.deque = s.deque := by
  refine System.Leads.keeps (p := fun t => t.stopped = true ∧ t.stopping ≤ s.stopping ∧
    t.delivered = s.delivered ∧ t.deque = s.deque) (fun u a v _ hu hnext => ?_) hs
    ⟨hstopped, Nat.le_refl _, rfl, rfl⟩ h
  obtain ⟨hstill, hstopping, hdelivered, hdeque⟩ := next_stopped hu.1 hnext
  exact ⟨hstill, Nat.le_trans hstopping hu.2.1, hdelivered.trans hu.2.2.1, hdeque.trans hu.2.2.2⟩

/-- **The tokens suffice**: a post that is still owed stands for a message in
the deque, so the others are for the workers. -/
theorem Inv.alive_le_tokens {s : Deque n μ} (h : Inv s) (hstopped : s.stopped = true)
    (hposted : s.stopping = 0) : s.alive ≤ s.sem + s.held := by
  have htokens := h.tokens
  have hposting := h.posting_le
  have hreserve : s.reserve = 0 := by rw [reserve, hstopped, if_pos rfl]
  omega

/-- **A worker that waits is let on**, and exits once it has the mutex. -/
theorem Inv.exits {s : Deque n μ} (h : Inv s) (hstopped : s.stopped = true)
    (hposted : s.stopping = 0) {i : Fin n} (hwaiting : s.place i = .waiting) :
    ∃ t, next s (.wake i) = some t ∧
      (t.Unlocked → ∃ u, next t (.lock i) = some u ∧ u.place i = .exited) := by
  -- the tokens held are for others, so one is left in the semaphore
  have hsem : 0 < s.sem := by
    have htokens := h.alive_le_tokens hstopped hposted
    have hothers := held_lt_alive hwaiting
    omega
  refine ⟨_, if_pos ⟨hwaiting, hsem⟩, fun hunlocked => ?_⟩
  have hwoken : (s.move i .woken).place i = .woken := Function.update_self ..
  refine ⟨({ s.move i .woken with sem := s.sem - 1 } : Deque n μ).move i .exited, ?_,
    Function.update_self ..⟩
  simp only [next, if_pos hunlocked, hwoken]
  exact if_pos hstopped

/-- **Stopping a thread pool.**  In every run nobody takes from an empty deque,
and the messages delivered are the first ones pushed, in order; after the stop
they stay what they are.  Once `stop` has posted, the tokens in the semaphore
and in pops and polls are enough for the workers that have not exited, and a
worker that waits is never kept waiting. -/
theorem shutdown {s : Deque n μ} (hs : (system n μ).Reachable s) :
    (∀ i, s.place i ≠ .emptied) ∧
    s.pushed = s.delivered.map Prod.snd ++ s.deque ∧
    (s.stopped = true → ∀ t, (system n μ).Leads s t →
      t.delivered = s.delivered ∧ t.deque = s.deque) ∧
    (s.stopped = true → s.stopping = 0 → ∀ t, (system n μ).Leads s t →
      t.alive ≤ t.sem + t.held ∧
      ∀ i, t.place i = .waiting → ∃ u, next t (.wake i) = some u ∧
        (u.Unlocked → ∃ v, next u (.lock i) = some v ∧ v.place i = .exited)) := by
  refine ⟨(inv hs).filled, (inv hs).order, fun hstopped t ht => ?_,
    fun hstopped hposted t ht => ?_⟩
  · exact (stopped_leads hs hstopped ht).2.2
  · have hinv := inv (hs.leads ht)
    obtain ⟨hstill, hstopping, -⟩ := stopped_leads hs hstopped ht
    have hdone : t.stopping = 0 := by omega
    exact ⟨hinv.alive_le_tokens hstill hdone, fun i hi => hinv.exits hstill hdone hi⟩

/-- Two workers: one waits, the other has polled a stop token and gives it
back. -/
theorem shutdown_two :
    ∃ s : Deque 2 Nat, (system 2 Nat).Reachable s ∧ s.stopped = true ∧ s.stopping = 0 ∧
      s.place 0 = .reposting ∧ s.place 1 = .waiting ∧ s.alive ≤ s.sem + s.held ∧
      s.pushed = s.delivered.map Prod.snd ++ s.deque ∧ s.deque = [8] := by
  set ends := System.follow next (fun _ _ => True) (new 2 Nat)
    [.push 7, .post, .push 8, .post, .pop 0, .wake 0, .lock 0, .pop 1, .tryPop 0, .stop, .lock 0,
      .stopPost, .stopPost] with hends
  have hsome : ends.isSome = true := by decide
  obtain ⟨s, hs⟩ := Option.isSome_iff_exists.mp hsome
  have hstate : ends.map (fun s => (s.stopped, s.stopping, s.place 0, s.place 1, s.deque))
      = some (true, 0, .reposting, .waiting, [8]) := by decide
  rw [hs, Option.map_some, Option.some.injEq] at hstate
  simp only [Prod.mk.injEq] at hstate
  obtain ⟨hstopped, hposted, hzero, hone, hdeque⟩ := hstate
  have hstart : ((system 2 Nat).restrict (fun _ _ => True)).Reachable (new 2 Nat) := .init rfl
  have hreach := (System.Reachable.follow (fun _ _ _ h => h) hstart (hends ▸ hs)).of_restrict
  obtain ⟨-, horder, -, htokens⟩ := shutdown hreach
  exact ⟨s, hreach, hstopped, hposted, hzero, hone,
    (htokens hstopped hposted s .refl).1, horder, hdeque⟩

end Deque

end ModelStreamer.Pools
