/-
  ModelStreamer.Delivery.Invariant
  ────────────────────────────────
  **WHAT HOLDS IN EVERY STATE OF THE STREAMER.**

  Tickets are conserved (`Conserved`): each ticket of a committed submission
  is waiting in the queue, waiting in a thread, or counted, and only once.
  From this, for every range:

    • `Left` — its `Request` counts the tickets not counted yet,
    • `Answered` — a response is on its way or pushed exactly when the count
      is 0, and then only one,
    • `Noted`, `Rets` — its `_ret` is Success exactly while no call with an
      error has been stored,
    • `Settled` — a response made for it is final: the count stays 0 and no
      later call can change what `ret()` returned.
-/
import ModelStreamer.Delivery.Tickets
import Mathlib.Data.Multiset.AddSub

namespace ModelStreamer.Delivery

open ModelStreamer.Lib

/-! ## §1. Where the tickets are. -/

/-- The calls of a thread that are not counted yet. -/
def Thread.rest (th : Thread) : List Event :=
  match th.pc with
  | .store => th.todo
  | .sub => th.todo
  | .answer => th.todo.tail
  | .push _ => th.todo.tail

/-- The tickets a thread still has to count. -/
def Thread.tickets (th : Thread) : Multiset Ticket := (th.rest.map Event.ticket : List Ticket)

/-- The tickets not counted yet. -/
def outstanding {n : Nat} (s : State n) : Multiset Ticket :=
  ((s.queue.flatMap Job.tickets : List Ticket) : Multiset Ticket)
    + ∑ i, (s.threads i).tickets

/-- The tickets counted. -/
def counted {n : Nat} (s : State n) : Multiset Ticket :=
  (s.finished.map Event.ticket : List Ticket)

/-- The tickets of the committed submissions. -/
def issued {n : Nat} (s : State n) : Multiset Ticket :=
  (s.committed.flatMap Submission.tickets : List Ticket)

/-- A thread moves, and the queue stays. -/
theorem outstanding_update {n : Nat} {s t : State n} {i : Fin n} {th : Thread}
    (hqueue : t.queue = s.queue) (hthreads : t.threads = Function.update s.threads i th) :
    outstanding t + (s.threads i).tickets = outstanding s + th.tickets := by
  have hsum := sum_update_add s.threads Thread.tickets i th
  rw [outstanding, outstanding, hqueue, hthreads, add_assoc, hsum, ← add_assoc]

/-- A thread whose uncounted calls stay the same. -/
theorem outstanding_same {n : Nat} {s t : State n} {i : Fin n} {th : Thread}
    (hqueue : t.queue = s.queue) (hthreads : t.threads = Function.update s.threads i th)
    (hrest : th.rest = (s.threads i).rest) : outstanding t = outstanding s := by
  have h := outstanding_update hqueue hthreads
  rw [show th.tickets = (s.threads i).tickets by rw [Thread.tickets, hrest, Thread.tickets]] at h
  exact add_right_cancel h

/-- Storing a result moves no ticket. -/
theorem outstanding_store {n : Nat} {s : State n} {i : Fin n} {e : Event} {todo : List Event}
    (hthread : s.threads i = ⟨e :: todo, .store⟩) :
    outstanding (s.storeRet i e todo) = outstanding s :=
  outstanding_same (i := i) rfl rfl (by rw [hthread]; rfl)

/-- Counting a call moves its ticket. -/
theorem outstanding_count {n : Nat} {s : State n} {i : Fin n} {e : Event} {todo : List Event}
    (hthread : s.threads i = ⟨e :: todo, .sub⟩) :
    outstanding (s.count i e todo) + {e.ticket} = outstanding s := by
  have h := outstanding_update (s := s) (t := s.count i e todo) (i := i) rfl rfl
  generalize hth : (if (s.requests e.range).tasks = 1 then (⟨e :: todo, .answer⟩ : Thread)
    else ⟨todo, .store⟩) = th at h
  have hrest : th.rest = todo := by
    rw [← hth]
    split <;> rfl
  have hticket : (s.threads i).tickets = {e.ticket} + th.tickets := by
    rw [hthread, Thread.tickets, Thread.tickets, hrest]
    rfl
  rw [hticket, ← add_assoc] at h
  exact add_right_cancel h

/-- Committing a submission puts its tickets into the queue. -/
theorem outstanding_commit {n : Nat} {s : State n} {sub : Submission} {mgr : SubmissionsMgr} :
    outstanding (s.commit sub mgr) = outstanding s + (sub.tickets : Multiset Ticket) := by
  simp only [outstanding, State.commit, List.flatMap_append]
  rw [← Multiset.coe_add, add_right_comm]
  rfl

/-- Taking a job moves its tickets from the queue to the thread. -/
theorem outstanding_take {n : Nat} {s t : State n} {i : Fin n} {job : Job}
    {x : Execution job.batch} {todo : List Event} (hjob : job ∈ s.queue)
    (hpc : (s.threads i).pc = .store) (htodo : todo.Perm ((s.threads i).todo ++ job.events x))
    (hqueue : t.queue = s.queue.erase job)
    (hthreads : t.threads = Function.update s.threads i ⟨todo, .store⟩) :
    outstanding t = outstanding s := by
  have hsum := sum_update_add s.threads Thread.tickets i ⟨todo, .store⟩
  have hold : (s.threads i).rest = (s.threads i).todo := by rw [Thread.rest, hpc]
  have hnew : (⟨todo, .store⟩ : Thread).tickets
      = (s.threads i).tickets + (job.tickets : Multiset Ticket) := by
    rw [Thread.tickets, Thread.tickets, hold, Multiset.coe_add, Multiset.coe_eq_coe]
    refine (htodo.map _).trans ?_
    rw [List.map_append]
    exact (events_perm job x).append_left _
  have hfront : ((s.queue.flatMap Job.tickets : List Ticket) : Multiset Ticket)
      = (job.tickets : Multiset Ticket)
        + (((s.queue.erase job).flatMap Job.tickets : List Ticket) : Multiset Ticket) := by
    rw [Multiset.coe_add, Multiset.coe_eq_coe]
    exact (List.perm_cons_erase hjob).flatMap_right _
  rw [hnew, add_left_comm, add_comm] at hsum
  rw [outstanding, outstanding, hqueue, hthreads, hfront, add_left_cancel hsum, add_comm
    (job.tickets : Multiset Ticket), add_assoc]
  rw [add_comm (job.tickets : Multiset Ticket)]

/-! ## §2. Tickets are conserved. -/

/-- Each ticket of a committed submission is outstanding or counted, once. -/
def Conserved {n : Nat} (s : State n) : Prop := outstanding s + counted s = issued s

theorem conserved_init {n : Nat} {s : State n} (h : Init s) : Conserved s := by
  have hthreads : ∑ i, (s.threads i).tickets = 0 := by
    refine Finset.sum_eq_zero (fun i _ => ?_)
    rw [h.threads_eq i]
    rfl
  rw [Conserved, outstanding, counted, issued, hthreads, h.queue_eq, h.finished_eq,
    h.committed_eq]
  rfl

/-- A step that neither commits nor counts. -/
theorem Conserved.same {n : Nat} {s t : State n} (h : Conserved s)
    (hout : outstanding t = outstanding s) (hfin : t.finished = s.finished)
    (hcom : t.committed = s.committed) : Conserved t := by
  rw [Conserved, hout, counted, hfin, issued, hcom]
  exact h

theorem conserved_step {n : Nat} {s t : State n} {a : Action n} (h : Conserved s)
    (hstep : Step s a t) : Conserved t := by
  cases hstep with
  | mint => exact h
  | submit sub mgr hid hadd =>
      have hissued : issued (s.commit sub mgr) = issued s + (sub.tickets : Multiset Ticket) := by
        simp [issued, State.commit, List.flatMap_append]
      rw [Conserved, outstanding_commit, hissued, ← h, add_right_comm]
      rfl
  | take i job x todo hjob hpc htodo =>
      exact h.same (outstanding_take hjob hpc htodo rfl rfl) rfl rfl
  | store i e todo hthread =>
      exact h.same (outstanding_store hthread) rfl rfl
  | sub i e todo hthread =>
      have hcounted : counted (s.count i e todo) = counted s + {e.ticket} := by
        simp only [counted, State.count, List.map_append, List.map_cons, List.map_nil]
        rw [← Multiset.coe_add]
        rfl
      rw [Conserved, hcounted, add_comm (counted s), ← add_assoc, outstanding_count hthread]
      exact h
  | answer i e todo hthread =>
      exact h.same (outstanding_same (i := i) rfl rfl (by rw [hthread]; rfl)) rfl rfl
  | push i e todo r hthread =>
      exact h.same (outstanding_same (i := i) rfl rfl (by rw [hthread]; rfl)) rfl rfl
  | pop => exact h
  | popFailed => exact h
  | bare => exact h
  | stop => exact h

/-! ## §3. Ids. -/

/-- Ids are minted once: no two submissions share one, and an id still to be
used is none of theirs. -/
structure Ids {n : Nat} (s : State n) : Prop where
  distinct : (s.committed.map Submission.id).Nodup
  old : ∀ sub ∈ s.committed, sub.id < s.mgr.nextId
  minted_old : ∀ id ∈ s.minted, id < s.mgr.nextId
  minted_distinct : s.minted.Nodup
  minted_unused : ∀ id ∈ s.minted, ∀ sub ∈ s.committed, sub.id ≠ id

theorem ids_init {n : Nat} {s : State n} (h : Init s) : Ids s := by
  constructor <;> simp [h.committed_eq, h.minted_eq]

/-- A step that neither mints nor commits. -/
theorem Ids.same {n : Nat} {s t : State n} (h : Ids s) (hcom : t.committed = s.committed)
    (hmint : t.minted = s.minted) (hmgr : t.mgr.nextId = s.mgr.nextId) : Ids t := by
  constructor
  · rw [hcom]
    exact h.distinct
  · rw [hcom, hmgr]
    exact h.old
  · rw [hmint, hmgr]
    exact h.minted_old
  · rw [hmint]
    exact h.minted_distinct
  · rw [hmint, hcom]
    exact h.minted_unused

theorem ids_step {n : Nat} {s t : State n} {a : Action n} (h : Ids s) (hstep : Step s a t) :
    Ids t := by
  cases hstep with
  | mint =>
      refine ⟨h.distinct, fun sub hsub => Nat.lt_succ_of_lt (h.old sub hsub), ?_, ?_, ?_⟩
      · intro id hid
        rcases List.mem_cons.mp hid with rfl | hid
        · exact Nat.lt_succ_self _
        · exact Nat.lt_succ_of_lt (h.minted_old id hid)
      · exact List.nodup_cons.mpr
          ⟨fun hmem => Nat.lt_irrefl _ (h.minted_old _ hmem), h.minted_distinct⟩
      · intro id hid sub hsub
        rcases List.mem_cons.mp hid with rfl | hid
        · exact Nat.ne_of_lt (h.old sub hsub)
        · exact h.minted_unused id hid sub hsub
  | submit sub mgr hid hadd =>
      have hnext := add_nextId hadd
      refine ⟨?_, ?_, ?_, h.minted_distinct.erase _, ?_⟩
      · rw [State.commit, List.map_append, List.nodup_append]
        refine ⟨h.distinct, by simp, ?_⟩
        -- an id is committed only after it was minted, and only once
        intro a ha b hb
        simp only [List.map_cons, List.map_nil, List.mem_singleton] at hb
        obtain ⟨sub', hsub', rfl⟩ := List.mem_map.mp ha
        rw [hb]
        exact h.minted_unused _ hid _ hsub'
      · intro sub' hsub'
        show sub'.id < mgr.nextId
        rw [hnext]
        rcases List.mem_append.mp hsub' with hsub' | hsub'
        · exact h.old _ hsub'
        · rw [List.mem_singleton.mp hsub']
          exact h.minted_old _ hid
      · intro id hmem
        show id < mgr.nextId
        rw [hnext]
        exact h.minted_old id (List.mem_of_mem_erase hmem)
      · intro id hmem sub' hsub'
        rcases List.mem_append.mp hsub' with hsub' | hsub'
        · exact h.minted_unused id (List.mem_of_mem_erase hmem) sub' hsub'
        · rw [List.mem_singleton.mp hsub']
          rintro rfl
          exact h.minted_distinct.not_mem_erase hmem
  | take => exact h.same rfl rfl rfl
  | store => exact h.same rfl rfl rfl
  | sub => exact h.same rfl rfl rfl
  | answer => exact h.same rfl rfl rfl
  | push => exact h.same rfl rfl rfl
  | pop r q done mgr hpop haccount => exact h.same rfl rfl (accountResponse_nextId haccount)
  | popFailed => exact h.same rfl rfl rfl
  | bare code done mgr hcode haccount => exact h.same rfl rfl (accountResponse_nextId haccount)
  | stop => exact h.same rfl rfl rfl

/-! ## §4. Requests count what is outstanding. -/

/-- The range belongs to a committed submission. -/
def Known {n : Nat} (s : State n) (k : RangeId) : Prop :=
  ∃ sub ∈ s.committed, k ∈ sub.ranges

/-- The tickets for a range. -/
def ticketsOf (k : RangeId) (tickets : Multiset Ticket) : Nat :=
  tickets.countP (fun t => t.range = k)

theorem ticketsOf_add (k : RangeId) (a b : Multiset Ticket) :
    ticketsOf k (a + b) = ticketsOf k a + ticketsOf k b := Multiset.countP_add _ _ _

theorem ticketsOf_call (k : RangeId) (e : Event) :
    ticketsOf k {e.ticket} = if e.range = k then 1 else 0 := by
  rw [ticketsOf, Multiset.countP_eq_card_filter, Multiset.filter_singleton]
  by_cases hk : e.range = k
  · rw [if_pos hk, if_pos (show e.ticket.range = k from hk), Multiset.card_singleton]
  · rw [if_neg hk, if_neg (show ¬ e.ticket.range = k from hk)]
    rfl

/-- The `Request` of a range counts the tickets not counted yet. -/
def Left {n : Nat} (s : State n) : Prop :=
  ∀ k, Known s k → (s.requests k).tasks = ticketsOf k (outstanding s)

/-- The submission of a range is unique. -/
theorem known_submission {n : Nat} {s : State n} {k : RangeId} (h : Known s k) :
    ∃ sub ∈ s.committed, k ∈ sub.ranges ∧ k.submission = sub.id := by
  obtain ⟨sub, hsub, hk⟩ := h
  exact ⟨sub, hsub, hk, range_submission hk⟩

/-- Every ticket there is, is for a known range. -/
theorem known_of_issued {n : Nat} {s : State n} {t : Ticket} (h : t ∈ issued s) :
    Known s t.range := by
  rw [issued, Multiset.mem_coe, List.mem_flatMap] at h
  obtain ⟨sub, hsub, ht⟩ := h
  exact ⟨sub, hsub, mem_ranges_of_ticket ht⟩

theorem Conserved.known_outstanding {n : Nat} {s : State n} (h : Conserved s) {t : Ticket}
    (ht : t ∈ outstanding s) : Known s t.range :=
  known_of_issued (by rw [← h]; exact Multiset.mem_add.mpr (.inl ht))

theorem Conserved.known_counted {n : Nat} {s : State n} (h : Conserved s) {e : Event}
    (he : e ∈ s.finished) : Known s e.range := by
  refine known_of_issued (t := e.ticket) ?_
  rw [← h]
  exact Multiset.mem_add.mpr (.inr (List.mem_map_of_mem he))

/-- The call a thread has under way, if it is not counted yet. -/
def Thread.current (th : Thread) : Option Event :=
  match th.pc with
  | .store => th.todo.head?
  | .sub => th.todo.head?
  | _ => none

theorem current_outstanding {n : Nat} {s : State n} {i : Fin n} {e : Event}
    (h : (s.threads i).current = some e) : e.ticket ∈ outstanding s := by
  have hrest : e ∈ (s.threads i).rest := by
    unfold Thread.current at h
    unfold Thread.rest
    generalize (s.threads i).pc = pc at h ⊢
    cases pc with
    | store => exact List.mem_of_mem_head? h
    | sub => exact List.mem_of_mem_head? h
    | answer => simp at h
    | push r => simp at h
  refine Multiset.mem_add.mpr (.inr (Multiset.mem_sum.mpr ⟨i, Finset.mem_univ i, ?_⟩))
  exact List.mem_map_of_mem hrest

/-- No ticket of an unknown range is out. -/
theorem Conserved.unknown {n : Nat} {s : State n} (h : Conserved s) {k : RangeId}
    (hk : ¬ Known s k) : ticketsOf k (outstanding s) = 0 := by
  rw [ticketsOf, Multiset.countP_eq_zero]
  intro t ht hrange
  exact hk (hrange ▸ h.known_outstanding ht)

/-- Ranges of a submission that is being committed are new. -/
theorem Ids.fresh {n : Nat} {s : State n} (h : Ids s) {sub : Submission}
    (hid : sub.id ∈ s.minted) {k : RangeId} (hk : k.submission = sub.id) : ¬ Known s k := by
  intro hknown
  obtain ⟨sub', hsub', -, hk'⟩ := known_submission hknown
  exact h.minted_unused _ hid _ hsub' (by rw [← hk', hk])

theorem left_init {n : Nat} {s : State n} (h : Init s) : Left s := by
  rintro k ⟨sub, hsub, -⟩
  simp [h.committed_eq] at hsub

/-- A step that changes no count. -/
theorem Left.same {n : Nat} {s t : State n} (h : Left s)
    (hout : outstanding t = outstanding s)
    (hreq : ∀ k, (t.requests k).tasks = (s.requests k).tasks)
    (hcom : t.committed = s.committed) : Left t := by
  rintro k ⟨sub, hsub, hk⟩
  rw [hcom] at hsub
  rw [hreq, hout]
  exact h k ⟨sub, hsub, hk⟩

theorem left_step {n : Nat} {s t : State n} {a : Action n} (h : Left s) (hids : Ids s)
    (hcons : Conserved s) (hstep : Step s a t) : Left t := by
  cases hstep with
  | mint => exact h.same rfl (fun _ => rfl) rfl
  | submit sub mgr hid hadd =>
      rintro k ⟨sub', hsub', hk⟩
      -- the only step that adds tickets
      have hout : ticketsOf k (outstanding (s.commit sub mgr))
          = ticketsOf k (outstanding s)
            + sub.tickets.countP (fun t => decide (t.range = k)) := by
        rw [outstanding_commit, ticketsOf_add]
        rfl
      rw [hout]
      show (sub.requests s.requests k).tasks = _
      rcases List.mem_append.mp hsub' with hsub' | hsub'
      · -- an older range: its tickets are none of the new ones
        have hne : k.submission ≠ sub.id := by
          rw [range_submission hk]
          exact hids.minted_unused _ hid _ hsub'
        have hzero : sub.tickets.countP (fun t => decide (t.range = k)) = 0 := by
          rw [List.countP_eq_zero]
          intro t ht hrange
          simp only [decide_eq_true_eq] at hrange
          exact hne (hrange ▸ (ticket_submission ht).2)
        rw [requests_other sub _ hne, hzero, h k ⟨sub', hsub', hk⟩, Nat.add_zero]
      · rw [List.mem_singleton.mp hsub'] at hk
        rw [(requests_of_range sub s.requests hk).1,
          hcons.unknown (hids.fresh hid (range_submission hk)), Nat.zero_add]
  | take i job x todo hjob hpc htodo =>
      exact h.same (outstanding_take hjob hpc htodo rfl rfl) (fun _ => rfl) rfl
  | store i e todo hthread =>
      refine h.same (outstanding_store hthread) (fun k => ?_) rfl
      -- a failed task writes the code of its range, never the count
      simp only [State.storeRet]
      split
      · rfl
      · by_cases hk : k = e.range
        · subst hk
          simp
        · simp [Function.update_of_ne hk]
  | sub i e todo hthread =>
      -- the ticket goes when the count goes
      intro k hk
      have hleft := h k hk
      rw [← outstanding_count hthread, ticketsOf_add, ticketsOf_call] at hleft
      by_cases hke : e.range = k
      · subst hke
        have htasks : ((s.count i e todo).requests e.range).tasks
            = (s.requests e.range).tasks - 1 := by
          simp only [State.count, Function.update_self]
        rw [if_pos rfl] at hleft
        rw [htasks]
        omega
      · rw [if_neg hke, Nat.add_zero] at hleft
        rw [← hleft]
        simp only [State.count, Function.update_of_ne (Ne.symm hke)]
  -- from here on no ticket is touched
  | answer i e todo hthread =>
      exact h.same (outstanding_same (i := i) rfl rfl (by rw [hthread]; rfl)) (fun _ => rfl) rfl
  | push i e todo r hthread =>
      exact h.same (outstanding_same (i := i) rfl rfl (by rw [hthread]; rfl)) (fun _ => rfl) rfl
  | pop => exact h.same rfl (fun _ => rfl) rfl
  | popFailed => exact h.same rfl (fun _ => rfl) rfl
  | bare => exact h.same rfl (fun _ => rfl) rfl
  | stop => exact h.same rfl (fun _ => rfl) rfl

/-! ## §5. What `ret()` returns. -/

/-- The call a thread has stored and not counted. -/
def Thread.stored (th : Thread) : Option Event :=
  match th.pc with
  | .sub => th.todo.head?
  | _ => none

/-- The result of the call has been stored. -/
def Noted {n : Nat} (s : State n) (e : Event) : Prop :=
  e ∈ s.finished ∨ ∃ i, (s.threads i).stored = some e

/-- Every stored call of the range was a Success. -/
def AllGood {n : Nat} (s : State n) (k : RangeId) : Prop :=
  ∀ e, Noted s e → e.range = k → e.ret = .success

/-- `_ret` is Success while every stored call was. -/
def Rets {n : Nat} (s : State n) : Prop :=
  ∀ k, Known s k → ((s.requests k).ret = .success ↔ AllGood s k)

theorem stored_current {th : Thread} {e : Event} (h : th.stored = some e) :
    th.current = some e := by
  unfold Thread.stored at h
  unfold Thread.current
  generalize th.pc = pc at h ⊢
  cases pc with
  | sub => exact h
  | _ => simp at h

/-- A stored call is for a known range. -/
theorem Conserved.known_noted {n : Nat} {s : State n} (h : Conserved s) {e : Event}
    (he : Noted s e) : Known s e.range := by
  rcases he with he | ⟨i, hi⟩
  · exact h.known_counted he
  · exact h.known_outstanding (current_outstanding (stored_current hi))

/-- A thread moves without storing or counting. -/
theorem noted_update {n : Nat} {s t : State n} {i : Fin n} {th : Thread}
    (hfin : t.finished = s.finished) (hthreads : t.threads = Function.update s.threads i th)
    (hstored : th.stored = (s.threads i).stored) (e : Event) : Noted t e ↔ Noted s e := by
  have hthread : ∀ j, (t.threads j).stored = (s.threads j).stored := by
    intro j
    rw [hthreads]
    by_cases hj : j = i
    · subst hj
      rw [Function.update_self, hstored]
    · rw [Function.update_of_ne hj]
  simp only [Noted, hfin, hthread]

/-- Storing notes one more call. -/
theorem noted_store {n : Nat} {s : State n} {i : Fin n} {e : Event} {todo : List Event}
    (hthread : s.threads i = ⟨e :: todo, .store⟩) (e' : Event) :
    Noted (s.storeRet i e todo) e' ↔ Noted s e' ∨ e' = e := by
  constructor
  · rintro (h | ⟨j, hj⟩)
    · exact .inl (.inl h)
    · by_cases hji : j = i
      · subst hji
        right
        simpa [State.storeRet, Thread.stored, eq_comm] using hj
      · left
        right
        refine ⟨j, ?_⟩
        simpa [State.storeRet, Function.update_of_ne hji] using hj
  · rintro ((h | ⟨j, hj⟩) | rfl)
    · exact .inl h
    · right
      refine ⟨j, ?_⟩
      have hji : j ≠ i := by
        rintro rfl
        simp [hthread, Thread.stored] at hj
      simpa [State.storeRet, Function.update_of_ne hji] using hj
    · right
      exact ⟨i, by simp [State.storeRet, Thread.stored]⟩

/-- A call that is counted stays noted. -/
theorem noted_count {n : Nat} {s : State n} {i : Fin n} {e : Event} {todo : List Event}
    (hthread : s.threads i = ⟨e :: todo, .sub⟩) (e' : Event) :
    Noted (s.count i e todo) e' ↔ Noted s e' := by
  have hnew : ((s.count i e todo).threads i).stored = none := by
    simp only [State.count, Function.update_self]
    split <;> rfl
  constructor
  · rintro (h | ⟨j, hj⟩)
    · rcases List.mem_append.mp h with h | h
      · exact .inl h
      · rw [List.mem_singleton.mp h]
        exact .inr ⟨i, by simp [hthread, Thread.stored]⟩
    · have hji : j ≠ i := by
        rintro rfl
        rw [hnew] at hj
        simp at hj
      exact .inr ⟨j, by simpa [State.count, Function.update_of_ne hji] using hj⟩
  · rintro (h | ⟨j, hj⟩)
    · exact .inl (List.mem_append.mpr (.inl h))
    · by_cases hji : j = i
      · subst hji
        left
        obtain rfl : e = e' := by simpa [hthread, Thread.stored] using hj
        exact List.mem_append.mpr (.inr (List.mem_singleton.mpr rfl))
      · exact .inr ⟨j, by simpa [State.count, Function.update_of_ne hji] using hj⟩

theorem rets_init {n : Nat} {s : State n} (h : Init s) : Rets s := by
  rintro k ⟨sub, hsub, -⟩
  simp [h.committed_eq] at hsub

theorem Rets.same {n : Nat} {s t : State n} (h : Rets s)
    (hreq : ∀ k, (t.requests k).ret = (s.requests k).ret) (hnoted : ∀ e, Noted t e ↔ Noted s e)
    (hcom : t.committed = s.committed) : Rets t := by
  rintro k ⟨sub, hsub, hk⟩
  rw [hcom] at hsub
  rw [hreq, h k ⟨sub, hsub, hk⟩]
  simp only [AllGood, hnoted]

theorem rets_step {n : Nat} {s t : State n} {a : Action n} (h : Rets s) (hids : Ids s)
    (hcons : Conserved s) (hstep : Step s a t) : Rets t := by
  cases hstep with
  | mint => exact h.same (fun _ => rfl) (fun _ => Iff.rfl) rfl
  | submit sub mgr hid hadd =>
      rintro k ⟨sub', hsub', hk⟩
      have hnoted : AllGood (s.commit sub mgr) k ↔ AllGood s k := Iff.rfl
      rw [hnoted]
      show (sub.requests s.requests k).ret = .success ↔ _
      rcases List.mem_append.mp hsub' with hsub' | hsub'
      · -- an older range: its request is as it was
        have hne : k.submission ≠ sub.id := by
          rw [range_submission hk]
          exact hids.minted_unused _ hid _ hsub'
        rw [requests_other sub _ hne]
        exact h k ⟨sub', hsub', hk⟩
      · -- nothing has been stored for a new range
        rw [List.mem_singleton.mp hsub'] at hk
        rw [(requests_of_range sub s.requests hk).1]
        refine ⟨fun _ e he hrange => ?_, fun _ => rfl⟩
        exact absurd (hrange ▸ hcons.known_noted he) (hids.fresh hid (range_submission hk))
  | take i job x todo hjob hpc htodo =>
      refine h.same (fun _ => rfl) (noted_update (i := i) rfl rfl ?_) rfl
      rw [Thread.stored, Thread.stored, hpc]
  | store i e todo hthread =>
      rintro k hk
      have hold := h k hk
      -- one more task is noted, with its code
      have hgood : AllGood (s.storeRet i e todo) k
          ↔ AllGood s k ∧ (e.range = k → e.ret = .success) := by
        simp only [AllGood, noted_store hthread]
        constructor
        · intro h'
          exact ⟨fun e' he' => h' e' (.inl he'), h' e (.inr rfl)⟩
        · rintro ⟨h₁, h₂⟩ e' (he' | rfl)
          · exact h₁ e' he'
          · exact h₂
      rw [hgood, ← hold]
      simp only [State.storeRet]
      by_cases hret : e.ret = .success
      · -- a task that went well leaves the code of its range alone
        simp [hret]
      · rw [if_neg hret]
        by_cases hke : e.range = k
        · subst hke
          simp [hret]
        · simp [Function.update_of_ne (Ne.symm hke), hke]
  | sub i e todo hthread =>
      refine h.same (fun k => ?_) (noted_count hthread) rfl
      by_cases hke : k = e.range
      · subst hke
        simp [State.count]
      · simp [State.count, Function.update_of_ne hke]
  | answer i e todo hthread =>
      refine h.same (fun _ => rfl) (noted_update (i := i) rfl rfl ?_) rfl
      rw [hthread]
      rfl
  | push i e todo r hthread =>
      refine h.same (fun _ => rfl) (noted_update (i := i) rfl rfl ?_) rfl
      rw [hthread]
      rfl
  | pop => exact h.same (fun _ => rfl) (fun _ => Iff.rfl) rfl
  | popFailed => exact h.same (fun _ => rfl) (fun _ => Iff.rfl) rfl
  | bare => exact h.same (fun _ => rfl) (fun _ => Iff.rfl) rfl
  | stop => exact h.same (fun _ => rfl) (fun _ => Iff.rfl) rfl

/-! ## §6. One response per range. -/

/-- The range a response answers for. -/
def Response.range (r : Response) : RangeId := ⟨r.submissionId, r.fileIndex, r.index⟩

@[simp] theorem answerTo_range {n : Nat} (s : State n) (k : RangeId) :
    (s.answerTo k).range = k := rfl

/-- Is the thread on its way to push a response for the range? -/
def Thread.answering (k : RangeId) (th : Thread) : Nat :=
  match th.pc with
  | .answer => if th.todo.head?.map Event.range = some k then 1 else 0
  | .push r => if r.range = k then 1 else 0
  | _ => 0

/-- The responses made for a range. -/
def responses {n : Nat} (s : State n) (k : RangeId) : Nat :=
  s.pushed.countP (fun r => decide (r.range = k)) + ∑ i, (s.threads i).answering k

/-- A range is answered when, and only when, its count has reached 0. -/
def Answered {n : Nat} (s : State n) : Prop :=
  ∀ k, (¬ Known s k → responses s k = 0) ∧
    (Known s k → responses s k = if (s.requests k).tasks = 0 then 1 else 0)

theorem answered_init {n : Nat} {s : State n} (h : Init s) : Answered s := by
  intro k
  refine ⟨fun _ => ?_, ?_⟩
  · simp [responses, h.pushed_eq, h.threads_eq, Thread.answering]
  · rintro ⟨sub, hsub, -⟩
    simp [h.committed_eq] at hsub

/-- A step that makes no response and counts nothing. -/
theorem Answered.same {n : Nat} {s t : State n} (h : Answered s)
    (hresp : ∀ k, responses t k = responses s k)
    (hreq : ∀ k, (t.requests k).tasks = (s.requests k).tasks)
    (hcom : t.committed = s.committed) : Answered t := by
  intro k
  have hknown : Known t k ↔ Known s k := by rw [Known, Known, hcom]
  rw [hknown, hresp, hreq]
  exact h k

/-- A thread moves, and nothing is pushed. -/
theorem responses_update {n : Nat} {s t : State n} {i : Fin n} {th : Thread}
    (hpush : t.pushed = s.pushed) (hthreads : t.threads = Function.update s.threads i th)
    (k : RangeId) :
    responses t k + (s.threads i).answering k = responses s k + th.answering k := by
  have hsum := sum_update_add s.threads (Thread.answering k) i th
  rw [responses, responses, hpush, hthreads]
  omega

/-- **A submission**: its ranges have all their tasks to go, and the older ones
keep their counts. -/
theorem Answered.commit {n : Nat} {s : State n} (h : Answered s) (hids : Ids s)
    {sub : Submission} {mgr : SubmissionsMgr} (hid : sub.id ∈ s.minted) :
    Answered (s.commit sub mgr) := by
  intro k
  have hknown : Known (s.commit sub mgr) k ↔ Known s k ∨ k ∈ sub.ranges := by
    simp only [Known, State.commit, List.mem_append, List.mem_singleton, or_and_right,
      exists_or, exists_eq_left]
  have hsame : responses (s.commit sub mgr) k = responses s k := rfl
  rw [hknown, hsame]
  refine ⟨fun hnot => (h k).1 (fun hk => hnot (.inl hk)), ?_⟩
  show _ → responses s k = if (sub.requests s.requests k).tasks = 0 then 1 else 0
  rintro (hk | hk)
  · -- an older range: its count is as it was
    have hne : k.submission ≠ sub.id := by
      obtain ⟨sub', hsub', -, hk'⟩ := known_submission hk
      rw [hk']
      exact hids.minted_unused _ hid _ hsub'
    rw [requests_other sub _ hne]
    exact (h k).2 hk
  · -- a new range has at least one task to go
    obtain ⟨hreq, hpos⟩ := requests_of_range sub s.requests hk
    rw [(h k).1 (hids.fresh hid (range_submission hk)), hreq, if_neg]
    simp only
    omega

/-- **A task is counted down**: whoever takes the count of its range to 0 owes
the answer. -/
theorem Answered.count {n : Nat} {s : State n} (h : Answered s) (hcons : Conserved s)
    (hleft : Left s) {i : Fin n} {e : Event} {todo : List Event}
    (hthread : s.threads i = ⟨e :: todo, .sub⟩) : Answered (s.count i e todo) := by
  intro k
  have hknown : Known (s.count i e todo) k ↔ Known s k := Iff.rfl
  have hupd := responses_update (s := s) (t := s.count i e todo) rfl rfl k
  have hold : (s.threads i).answering k = 0 := by
    rw [hthread]
    rfl
  rw [hold, Nat.add_zero] at hupd
  -- the ticket of the task at hand is still out, so the count is not 0 before
  have hcur : e.ticket ∈ outstanding s :=
    current_outstanding (i := i) (by rw [hthread]; rfl)
  have hke := hcons.known_outstanding hcur
  have hpos : 1 ≤ (s.requests e.range).tasks := by
    rw [hleft e.range hke]
    exact Multiset.countP_pos_of_mem hcur rfl
  rw [hknown, hupd]
  by_cases hk : e.range = k
  · subst hk
    refine ⟨fun hnot => absurd hke hnot, fun _ => ?_⟩
    rw [(h e.range).2 hke, if_neg (by omega)]
    have htasks : ((s.count i e todo).requests e.range).tasks
        = (s.requests e.range).tasks - 1 := by
      simp only [State.count, Function.update_self]
    rw [htasks]
    by_cases hlast : (s.requests e.range).tasks = 1
    · rw [if_pos hlast, if_pos (by omega)]
      simp [Thread.answering]
    · rw [if_neg hlast, if_neg (by omega)]
      rfl
  · -- another range: the thread answers for `e.range` or for none
    have hnew : Thread.answering k (if (s.requests e.range).tasks = 1
        then ⟨e :: todo, .answer⟩ else ⟨todo, .store⟩) = 0 := by
      split
      · simp [Thread.answering, hk]
      · rfl
    have hreq : (s.count i e todo).requests k = s.requests k := by
      simp only [State.count, Function.update_of_ne (Ne.symm hk)]
    rw [hnew, hreq, Nat.add_zero]
    exact h k

theorem answered_step {n : Nat} {s t : State n} {a : Action n} (h : Answered s) (hids : Ids s)
    (hcons : Conserved s) (hleft : Left s) (hstep : Step s a t) : Answered t := by
  cases hstep with
  | mint => exact h.same (fun _ => rfl) (fun _ => rfl) rfl
  | submit sub mgr hid hadd => exact h.commit hids hid
  | take i job x todo hjob hpc htodo =>
      refine h.same (fun k => ?_) (fun _ => rfl) rfl
      -- the thread goes on to store: it does not answer yet
      have hupd := responses_update (s := s) (t := { s with
        queue := s.queue.erase job
        threads := Function.update s.threads i ⟨todo, .store⟩ }) rfl rfl k
      have hold : (s.threads i).answering k = 0 := by rw [Thread.answering, hpc]
      have hnew : (⟨todo, .store⟩ : Thread).answering k = 0 := rfl
      omega
  | store i e todo hthread =>
      refine h.same (fun k => ?_) (fun k => ?_) rfl
      · have hupd := responses_update (s := s) (t := s.storeRet i e todo) rfl rfl k
        rw [hthread] at hupd
        exact hupd
      · simp only [State.storeRet]
        split
        · rfl
        · by_cases hk : k = e.range
          · subst hk
            simp
          · simp [Function.update_of_ne hk]
  | sub i e todo hthread => exact h.count hcons hleft hthread
  | answer i e todo hthread =>
      refine h.same (fun k => ?_) (fun _ => rfl) rfl
      have hupd := responses_update (s := s) (t := { s with
        threads := Function.update s.threads i ⟨e :: todo, .push (s.answerTo e.range)⟩ })
        rfl rfl k
      rw [hthread] at hupd
      have hsame : (⟨e :: todo, .push (s.answerTo e.range)⟩ : Thread).answering k
          = (⟨e :: todo, .answer⟩ : Thread).answering k := by
        by_cases hk : e.range = k <;> simp [Thread.answering, hk]
      omega
  | push i e todo r hthread =>
      refine h.same (fun k => ?_) (fun _ => rfl) rfl
      have hsum := sum_update_add s.threads (Thread.answering k) i ⟨todo, .store⟩
      -- the answer moves from the thread to the queue
      have hold : (s.threads i).answering k = if r.range = k then 1 else 0 := by
        rw [hthread]
        rfl
      have hnew : (⟨todo, .store⟩ : Thread).answering k = 0 := rfl
      simp only [responses, List.countP_append, List.countP_singleton, decide_eq_true_eq]
      omega
  | pop => exact h.same (fun _ => rfl) (fun _ => rfl) rfl
  | popFailed => exact h.same (fun _ => rfl) (fun _ => rfl) rfl
  | bare => exact h.same (fun _ => rfl) (fun _ => rfl) rfl
  | stop => exact h.same (fun _ => rfl) (fun _ => rfl) rfl

/-! ## §7. Responses are final. -/

/-- The range is counted down, and the response says how its calls ended. -/
structure Settled {n : Nat} (s : State n) (r : Response) : Prop where
  known : Known s r.range
  counted_down : (s.requests r.range).tasks = 0
  ret_eq : r.ret = .success ↔ ∀ e ∈ s.finished, e.range = r.range → e.ret = .success

/-- Every response made is final; a thread about to answer has counted its
range down. -/
structure Final {n : Nat} (s : State n) : Prop where
  pushed : ∀ r ∈ s.pushed, Settled s r
  pushing : ∀ i r, (s.threads i).pc = .push r → Settled s r
  answering : ∀ i, (s.threads i).pc = .answer → ∀ e ∈ (s.threads i).todo.head?,
    Known s e.range ∧ (s.requests e.range).tasks = 0

theorem final_init {n : Nat} {s : State n} (h : Init s) : Final s := by
  constructor <;> simp [h.pushed_eq, h.threads_eq]

/-- A call that can still be counted keeps its range's count up. -/
theorem current_left {n : Nat} {s : State n} (hcons : Conserved s) (hleft : Left s) {i : Fin n}
    {e : Event} (h : (s.threads i).current = some e) : (s.requests e.range).tasks ≠ 0 := by
  have hout := current_outstanding h
  have hpos : 1 ≤ ticketsOf e.range (outstanding s) := Multiset.countP_pos_of_mem hout rfl
  have hcount := hleft e.range (hcons.known_outstanding hout)
  omega

/-- What a step leaves of the ranges that are counted down. -/
structure Stable {n : Nat} (s t : State n) : Prop where
  known : ∀ k, Known s k → Known t k
  tasks : ∀ k, Known s k → (s.requests k).tasks = 0 → (t.requests k).tasks = 0
  finished : ∀ k, Known s k → (s.requests k).tasks = 0 →
    ∀ e, e.range = k → (e ∈ t.finished ↔ e ∈ s.finished)

theorem stable_of_same {n : Nat} {s t : State n} (hcom : t.committed = s.committed)
    (hreq : ∀ k, (t.requests k).tasks = (s.requests k).tasks)
    (hfin : t.finished = s.finished) : Stable s t := by
  refine ⟨fun k hk => ?_, fun k _ hzero => ?_, fun k _ _ e _ => by rw [hfin]⟩
  · rwa [Known, hcom]
  · rwa [hreq]

theorem stable_step {n : Nat} {s t : State n} {a : Action n} (hids : Ids s)
    (hcons : Conserved s) (hleft : Left s) (hstep : Step s a t) : Stable s t := by
  cases hstep with
  | mint => exact stable_of_same rfl (fun _ => rfl) rfl
  | submit sub mgr hid hadd =>
      refine ⟨?_, fun k hk hzero => ?_, fun _ _ _ _ _ => Iff.rfl⟩
      · rintro k ⟨sub', hsub', hk⟩
        exact ⟨sub', List.mem_append.mpr (.inl hsub'), hk⟩
      · -- a new submission has an id of its own
        have hne : k.submission ≠ sub.id := by
          obtain ⟨sub', hsub', -, hk'⟩ := known_submission hk
          rw [hk']
          exact hids.minted_unused _ hid _ hsub'
        show (sub.requests s.requests k).tasks = 0
        rw [requests_other sub _ hne]
        exact hzero
  | store i e todo hthread =>
      refine stable_of_same rfl (fun k => ?_) rfl
      simp only [State.storeRet]
      split
      · rfl
      · by_cases hk : k = e.range
        · subst hk
          simp
        · simp [Function.update_of_ne hk]
  | sub i e todo hthread =>
      have hcur : (s.threads i).current = some e := by
        rw [hthread]
        rfl
      -- a range at 0 has no ticket out, so it is not the one counted
      have hne := current_left hcons hleft hcur
      refine ⟨fun _ hk => hk, fun k _ hzero => ?_, fun k _ hzero e' he' => ?_⟩
      · have hke : k ≠ e.range := by
          rintro rfl
          exact hne hzero
        simpa only [State.count, Function.update_of_ne hke] using hzero
      · simp only [State.count, List.mem_append, List.mem_singleton]
        refine ⟨fun h => h.resolve_right ?_, .inl⟩
        rintro rfl
        exact hne (he' ▸ hzero)
  | take => exact stable_of_same rfl (fun _ => rfl) rfl
  | answer => exact stable_of_same rfl (fun _ => rfl) rfl
  | push => exact stable_of_same rfl (fun _ => rfl) rfl
  | pop => exact stable_of_same rfl (fun _ => rfl) rfl
  | popFailed => exact stable_of_same rfl (fun _ => rfl) rfl
  | bare => exact stable_of_same rfl (fun _ => rfl) rfl
  | stop => exact stable_of_same rfl (fun _ => rfl) rfl

theorem Settled.step {n : Nat} {s t : State n} {r : Response} (h : Settled s r)
    (hstable : Stable s t) : Settled t r where
  known := hstable.known _ h.known
  counted_down := hstable.tasks _ h.known h.counted_down
  ret_eq := by
    rw [h.ret_eq]
    refine forall_congr' (fun e => ?_)
    constructor
    · intro h' he hrange
      exact h' ((hstable.finished _ h.known h.counted_down e hrange).mp he) hrange
    · intro h' he hrange
      exact h' ((hstable.finished _ h.known h.counted_down e hrange).mpr he) hrange

/-- The step of one thread. -/
theorem Final.update {n : Nat} {s t : State n} (h : Final s) (hstable : Stable s t)
    {i : Fin n} {th : Thread} (hthreads : t.threads = Function.update s.threads i th)
    (hpushed : ∀ r ∈ t.pushed, r ∈ s.pushed ∨ Settled t r)
    (hpushing : ∀ r, th.pc = .push r → Settled t r)
    (hanswering : th.pc = .answer → ∀ e ∈ th.todo.head?,
      Known t e.range ∧ (t.requests e.range).tasks = 0) : Final t where
  pushed r hr := (hpushed r hr).elim (fun hr => (h.pushed r hr).step hstable) id
  pushing j r hpc := by
    rw [hthreads] at hpc
    by_cases hj : j = i
    · subst hj
      rw [Function.update_self] at hpc
      exact hpushing r hpc
    · rw [Function.update_of_ne hj] at hpc
      exact (h.pushing j r hpc).step hstable
  answering j hpc e he := by
    rw [hthreads] at hpc he
    by_cases hj : j = i
    · subst hj
      rw [Function.update_self] at hpc he
      exact hanswering hpc e he
    · rw [Function.update_of_ne hj] at hpc he
      obtain ⟨hk, hzero⟩ := h.answering j hpc e he
      exact ⟨hstable.known _ hk, hstable.tasks _ hk hzero⟩

/-- A step that moves no thread and pushes nothing. -/
theorem Final.same {n : Nat} {s t : State n} (h : Final s) (hstable : Stable s t)
    (hthreads : t.threads = s.threads) (hpushed : t.pushed = s.pushed) : Final t where
  pushed r hr := (h.pushed r (hpushed ▸ hr)).step hstable
  pushing j r hpc := (h.pushing j r (hthreads ▸ hpc)).step hstable
  answering j hpc e he := by
    obtain ⟨hk, hzero⟩ := h.answering j (hthreads ▸ hpc) e (hthreads ▸ he)
    exact ⟨hstable.known _ hk, hstable.tasks _ hk hzero⟩

theorem final_step {n : Nat} {s t : State n} {a : Action n} (h : Final s) (hids : Ids s)
    (hcons : Conserved s) (hleft : Left s) (hrets : Rets s) (hstep : Step s a t) :
    Final t := by
  have hstable := stable_step hids hcons hleft hstep
  cases hstep with
  | mint => exact h.same hstable rfl rfl
  | submit => exact h.same hstable rfl rfl
  | take i => exact h.update hstable (i := i) rfl (fun r hr => .inl hr) (by simp) (by simp)
  | store i => exact h.update hstable (i := i) rfl (fun r hr => .inl hr) (by simp) (by simp)
  | sub i e todo hthread =>
      have hcur : e.ticket ∈ outstanding s :=
        current_outstanding (i := i) (by rw [hthread]; rfl)
      refine h.update hstable (i := i) rfl (fun r hr => .inl hr) ?_ ?_
      · intro r hpc
        split at hpc <;> simp at hpc
      · intro hpc e' he'
        split at hpc
        next hone =>
          rw [if_pos hone] at he'
          obtain rfl : e = e' := by simpa using he'
          refine ⟨hcons.known_outstanding hcur, ?_⟩
          simp [State.count, hone]
        next => simp at hpc
  | answer i e todo hthread =>
      refine h.update hstable (i := i) rfl (fun r hr => .inl hr) ?_ (by simp)
      intro r hpc
      simp only [Pc.push.injEq] at hpc
      subst hpc
      obtain ⟨hk, hzero⟩ := h.answering i (by rw [hthread]) e (by rw [hthread]; rfl)
      refine ⟨hk, hzero, ?_⟩
      -- with the count at 0, what is stored is counted
      show (s.requests e.range).ret = .success ↔ _
      rw [hrets e.range hk]
      constructor
      · exact fun hgood e' he' hrange => hgood e' (.inl he') hrange
      · rintro hgood e' (he' | ⟨j, hj⟩) hrange
        · exact hgood e' he' hrange
        · exact absurd (hrange ▸ hzero) (current_left hcons hleft (stored_current hj))
  | push i e todo r hthread =>
      refine h.update hstable (i := i) rfl ?_ (by simp) (by simp)
      intro r' hr'
      rcases List.mem_append.mp hr' with hr' | hr'
      · exact .inl hr'
      · rw [List.mem_singleton.mp hr']
        exact .inr ((h.pushing i r (by rw [hthread])).step hstable)
  | pop => exact h.same hstable rfl rfl
  | popFailed => exact h.same hstable rfl rfl
  | bare => exact h.same hstable rfl rfl
  | stop => exact h.same hstable rfl rfl

/-! ## §8. Every reachable state. -/

/-- A thread that is in the middle of a call has one. -/
def Busy {n : Nat} (s : State n) : Prop :=
  ∀ i, (s.threads i).pc ≠ .store → (s.threads i).todo ≠ []

theorem busy_update {n : Nat} {s t : State n} (h : Busy s) {i : Fin n} {th : Thread}
    (hthreads : t.threads = Function.update s.threads i th)
    (hth : th.pc ≠ .store → th.todo ≠ []) : Busy t := by
  intro j
  rw [hthreads]
  by_cases hj : j = i
  · subst hj
    rwa [Function.update_self]
  · rw [Function.update_of_ne hj]
    exact h j

theorem busy_step {n : Nat} {s t : State n} {a : Action n} (h : Busy s) (hstep : Step s a t) :
    Busy t := by
  cases hstep with
  | take i => exact busy_update h (i := i) rfl (by simp)
  | store i => exact busy_update h (i := i) rfl (by simp)
  | sub i =>
      refine busy_update h (i := i) rfl ?_
      split <;> simp
  | answer i => exact busy_update h (i := i) rfl (by simp)
  | push i => exact busy_update h (i := i) rfl (by simp)
  | _ => exact h

/-- Every queued job is one of a committed submission. -/
def Queued {n : Nat} (s : State n) : Prop := ∀ job ∈ s.queue, ∃ sub ∈ s.committed, job ∈ sub.jobs

theorem queued_step {n : Nat} {s t : State n} {a : Action n} (h : Queued s)
    (hstep : Step s a t) : Queued t := by
  cases hstep with
  | submit sub mgr hid hadd =>
      intro job hjob
      rcases List.mem_append.mp hjob with hjob | hjob
      · obtain ⟨sub', hsub', hmem⟩ := h job hjob
        exact ⟨sub', List.mem_append.mpr (.inl hsub'), hmem⟩
      · exact ⟨sub, List.mem_append.mpr (.inr (List.mem_singleton.mpr rfl)), hjob⟩
  | take i job x todo hjob hpc htodo =>
      exact fun job' hjob' => h job' (List.mem_of_mem_erase hjob')
  | _ => exact h

/-- **The invariant of the streamer**. -/
structure Inv {n : Nat} (s : State n) : Prop where
  conserved : Conserved s
  ids : Ids s
  left : Left s
  rets : Rets s
  answered : Answered s
  final : Final s
  busy : Busy s
  queued : Queued s

theorem inv_step {n : Nat} {s t : State n} {a : Action n} (h : Inv s) (hstep : Step s a t) :
    Inv t where
  conserved := conserved_step h.conserved hstep
  ids := ids_step h.ids hstep
  left := left_step h.left h.ids h.conserved hstep
  rets := rets_step h.rets h.ids h.conserved hstep
  answered := answered_step h.answered h.ids h.conserved h.left hstep
  final := final_step h.final h.ids h.conserved h.left h.rets hstep
  busy := busy_step h.busy hstep
  queued := queued_step h.queued hstep

theorem reachable_inv {n : Nat} : ∀ s, (streamer n).Reachable s → Inv s := by
  apply System.Reachable.invariant
  · intro s hinit
    exact ⟨conserved_init hinit, ids_init hinit, left_init hinit, rets_init hinit,
      answered_init hinit, final_init hinit, fun i => by simp [hinit.threads_eq i],
      fun job hjob => by simp [hinit.queue_eq] at hjob⟩
  · intro s a t _ hinv hstep
    exact inv_step hinv hstep

end ModelStreamer.Delivery
