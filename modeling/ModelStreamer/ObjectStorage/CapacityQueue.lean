/-
  ModelStreamer.ObjectStorage.CapacityQueue
  ─────────────────────────────────────────
  **THE WINDOW OF A `CapacityQueue`.**

  The owner of a queue enqueues, takes, completes each item it has taken once
  and with the item's own cost, and clears; clearing abandons what it has
  taken.  Costs and the capacity are any words.

    • `InOrder`, `HeadTaken` — items come out in the order they went in, and
      with nothing in flight the head always comes,
    • `Exact`, `Oversized` — `_inflight` is what is in flight, and passes the
      capacity by one oversized item only,
    • `Wraps` — the take that ends this: `_inflight + cost` is a `size_t`, and
      the sum may come back under the capacity,
    • `window` — the first two hold in every run, the other two as long as no
      take wraps; one that does breaks them.
-/
import ModelStreamer.ObjectStorage.Worker
import ModelStreamer.Lib.TransitionSystem

namespace ModelStreamer.ObjectStorage

open ModelStreamer.Lib

/-! ## §1. The owner's runs. -/

/-- How an item leaves the queue. -/
inductive Fate where
  | taken
  | dropped
  deriving DecidableEq, Repr

/-- A queue and its owner: the items in flight; all that were enqueued, all
that left and all that `try_take` returned, in order. -/
structure Owner (α : Type) where
  queue : CapacityQueue α
  flying : List (Entry α)
  enqueued : List (Entry α)
  gone : List (Entry α × Fate)
  returned : List α
  deriving DecidableEq, Repr

namespace Owner

variable {α : Type}

/-- What the owner calls; it completes one of the items in flight. -/
inductive Op (α : Type) where
  | enqueue (item : α) (cost : Nat)
  | tryTake
  | complete (i : Nat)
  | clear

def new (capacity : Nat) : Owner α := ⟨.new capacity, [], [], [], []⟩

/-- One call.  A cost is a `size_t`. -/
def next (o : Owner α) : Op α → Option (Owner α)
  | .enqueue item cost =>
      if cost < 2 ^ 64 then
        some { o with
          queue := o.queue.enqueue item cost
          enqueued := o.enqueued ++ [⟨item, cost⟩] }
      else none
  | .tryTake =>
      match o.queue.tryTake, o.queue.pending with
      | some (item, queue), entry :: _ =>
          some { o with
            queue := queue
            flying := o.flying ++ [entry]
            gone := o.gone ++ [(entry, .taken)]
            returned := o.returned ++ [item] }
      | _, _ => some o
  | .complete i =>
      (o.flying[i]?).map fun entry =>
        { o with queue := o.queue.complete entry.cost, flying := o.flying.eraseIdx i }
  | .clear =>
      some { o with
        queue := o.queue.clear
        flying := []
        gone := o.gone ++ o.queue.pending.map (fun entry => (entry, .dropped)) }

/-- A capacity is a `size_t`. -/
def system (α : Type) : System (Owner α) (Op α) where
  init o := ∃ capacity, capacity < 2 ^ 64 ∧ o = new capacity
  step o op o' := next o op = some o'

/-- The true sum of the costs of the items taken and not completed. -/
def load (o : Owner α) : Nat := (o.flying.map Entry.cost).sum

/-! ## §2. What is said of it. -/

/-- Items leave from the front, each once, and those taken are returned. -/
structure InOrder (o : Owner α) : Prop where
  split : o.enqueued = o.gone.map Prod.fst ++ o.queue.pending
  items : o.returned = (o.gone.filter (fun left => left.2 = .taken)).map (fun left => left.1.item)

/-- With nothing in flight, or nothing that costs, the head is taken. -/
def HeadTaken (o : Owner α) : Prop :=
  o.load = 0 → ∀ entry rest, o.queue.pending = entry :: rest →
    ∃ queue, o.queue.tryTake = some (entry.item, queue) ∧ queue.pending = rest

/-- `_inflight` is the true sum. -/
def Exact (o : Owner α) : Prop := o.queue.inflight = o.load

/-- Above the capacity, one item alone has all the cost in flight, and it is
larger than the window. -/
def Oversized (o : Owner α) : Prop :=
  o.queue.capacity < o.queue.inflight →
    ∃ big, o.flying.filter (fun entry => entry.cost ≠ 0) = [big] ∧ o.queue.capacity < big.cost

/-- The call is a `try_take` whose sum leaves the `size_t` and comes back
within the capacity. -/
def Wraps (o : Owner α) : Op α → Prop
  | .tryTake =>
      ∃ entry ∈ o.queue.pending.head?,
        2 ^ 64 ≤ o.load + entry.cost ∧ o.load + entry.cost ≤ 2 ^ 64 + o.queue.capacity
  | _ => False

instance (o : Owner α) : (op : Op α) → Decidable (Wraps o op)
  | .tryTake => inferInstanceAs (Decidable (∃ entry ∈ o.queue.pending.head?, _))
  | .enqueue _ _ => inferInstanceAs (Decidable False)
  | .complete _ => inferInstanceAs (Decidable False)
  | .clear => inferInstanceAs (Decidable False)

/-! ## §3. One call. -/

theorem load_eq_filter (l : List (Entry α)) :
    (l.map Entry.cost).sum = ((l.filter (fun entry => entry.cost ≠ 0)).map Entry.cost).sum := by
  induction l with
  | nil => rfl
  | cons entry l ih =>
      by_cases hcost : entry.cost = 0
      · simp [hcost, ih]
      · simp [hcost, ih]

/-- The cost of one item in flight, and that of the others. -/
theorem load_eraseIdx {l : List (Entry α)} {i : Nat} {entry : Entry α} (h : l[i]? = some entry) :
    (l.map Entry.cost).sum = entry.cost + ((l.eraseIdx i).map Entry.cost).sum := by
  obtain ⟨hi, rfl⟩ := List.getElem?_eq_some_iff.mp h
  have hperm := (List.getElem_cons_eraseIdx_perm hi).map Entry.cost
  rw [← hperm.sum_eq]
  rfl

/-- **What `try_take` does**: nothing, if nothing is pending or the window is
full; or else the head goes. -/
theorem next_tryTake {o o' : Owner α} (h : next o .tryTake = some o') :
    (o' = o ∧ ∀ entry rest, o.queue.pending = entry :: rest →
        o.queue.inflight ≠ 0 ∧ o.queue.capacity < wrap (o.queue.inflight + entry.cost)) ∨
      ∃ entry rest, o.queue.pending = entry :: rest ∧
        (o.queue.inflight = 0 ∨ wrap (o.queue.inflight + entry.cost) ≤ o.queue.capacity) ∧
        o' = { o with
          queue := ⟨o.queue.capacity, wrap (o.queue.inflight + entry.cost), rest⟩
          flying := o.flying ++ [entry]
          gone := o.gone ++ [(entry, .taken)]
          returned := o.returned ++ [entry.item] } := by
  rcases o.queue.tryTake_cases with ⟨htake, hfull⟩ | ⟨entry, rest, hpending, hroom, htake⟩
  · rw [next, htake] at h
    exact Or.inl ⟨(Option.some.inj h).symm, hfull⟩
  · simp only [next, htake, hpending, Option.some.injEq] at h
    exact Or.inr ⟨entry, rest, hpending, hroom, h.symm⟩

/-! ## §4. Every run. -/

/-- What every call keeps: the order, and no more in `_inflight` than there
is. -/
structure Ordered (o : Owner α) : Prop where
  order : InOrder o
  le : o.queue.inflight ≤ o.load

theorem Ordered.step {o o' : Owner α} {op : Op α} (h : Ordered o) (hnext : next o op = some o') :
    Ordered o' := by
  obtain ⟨⟨hsplit, hitems⟩, hle⟩ := h
  cases op with
  | enqueue item cost =>
      simp only [Owner.next, Option.ite_none_right_eq_some, Option.some.injEq] at hnext
      obtain ⟨-, rfl⟩ := hnext
      refine ⟨⟨?_, hitems⟩, hle⟩
      show o.enqueued ++ [_] = _ ++ (o.queue.pending ++ [_])
      rw [hsplit, List.append_assoc]
  | tryTake =>
      obtain ⟨rfl, -⟩ | ⟨entry, rest, hpending, -, rfl⟩ := next_tryTake hnext
      · exact ⟨⟨hsplit, hitems⟩, hle⟩
      · refine ⟨⟨?_, ?_⟩, ?_⟩
        · show o.enqueued = (o.gone ++ [_]).map Prod.fst ++ rest
          rw [hsplit, hpending]
          simp
        · show o.returned ++ [_] = _
          rw [hitems]
          simp
        · -- a sum that wraps only loses cost
          show wrap (o.queue.inflight + entry.cost) ≤ ((o.flying ++ [entry]).map Entry.cost).sum
          have hwrap : wrap (o.queue.inflight + entry.cost) ≤ o.queue.inflight + entry.cost :=
            Nat.mod_le _ _
          rw [List.map_append, List.sum_append]
          show _ ≤ o.load + (entry.cost + 0)
          omega
  | complete i =>
      obtain ⟨entry, hentry, rfl⟩ := Option.map_eq_some_iff.mp hnext
      refine ⟨⟨hsplit, hitems⟩, ?_⟩
      have hload : o.load = _ := load_eraseIdx hentry
      show (if entry.cost ≤ o.queue.inflight then o.queue.inflight - entry.cost else 0)
        ≤ ((o.flying.eraseIdx i).map Entry.cost).sum
      split <;> omega
  | clear =>
      obtain rfl := Option.some.inj hnext
      refine ⟨⟨?_, ?_⟩, Nat.le_refl 0⟩
      · show o.enqueued = (o.gone ++ o.queue.pending.map _).map Prod.fst ++ []
        rw [hsplit]
        simp [Function.comp_def]
      · show o.returned = _
        rw [hitems]
        simp

theorem ordered {o : Owner α} (h : (system α).Reachable o) : Ordered o := by
  refine System.Reachable.invariant ?_ (fun _ _ _ _ hs hnext => hs.step hnext) o h
  rintro _ ⟨capacity, -, rfl⟩
  exact ⟨⟨rfl, rfl⟩, Nat.le_refl 0⟩

theorem Ordered.headTaken {o : Owner α} (h : Ordered o) : HeadTaken o := by
  intro hload entry rest hpending
  have hidle : o.queue.inflight = 0 := by
    have hle := h.le
    omega
  rcases o.queue.tryTake_cases with ⟨-, hfull⟩ | ⟨head, tail, hhead, -, htake⟩
  · exact absurd hidle (hfull entry rest hpending).1
  · obtain ⟨rfl, rfl⟩ := List.cons.inj (hpending.symm.trans hhead)
    exact ⟨_, htake, rfl⟩

/-! ## §5. Runs without a take that wraps. -/

/-- What holds until a take wraps. -/
structure Bounded (o : Owner α) : Prop where
  capacity_lt : o.queue.capacity < 2 ^ 64
  cost_lt : ∀ entry ∈ o.queue.pending, entry.cost < 2 ^ 64
  load_lt : o.load < 2 ^ 64
  exact : Exact o
  oversized : Oversized o

theorem Bounded.new {capacity : Nat} (h : capacity < 2 ^ 64) : Bounded (new capacity : Owner α) :=
  ⟨h, by simp [Owner.new, CapacityQueue.new], zero_lt_word, rfl, fun habove => by
    simp [Owner.new, CapacityQueue.new] at habove⟩

/-- **The head is taken**, and its sum does not wrap. -/
theorem Bounded.taken {o : Owner α} (h : Bounded o) {entry : Entry α} {rest : List (Entry α)}
    (hpending : o.queue.pending = entry :: rest)
    (hroom : o.queue.inflight = 0 ∨ wrap (o.queue.inflight + entry.cost) ≤ o.queue.capacity)
    (hwraps : ¬ Wraps o .tryTake) {gone : List (Entry α × Fate)} {returned : List α} :
    Bounded { o with
      queue := ⟨o.queue.capacity, wrap (o.queue.inflight + entry.cost), rest⟩
      flying := o.flying ++ [entry]
      gone := gone
      returned := returned } := by
  have hcost : entry.cost < 2 ^ 64 := h.cost_lt entry (by simp [hpending])
  have hexact : o.queue.inflight = o.load := h.exact
  have hload := h.load_lt
  have hcapacity := h.capacity_lt
  -- the word would come back within the capacity only at a take that wraps
  have hlt : o.load + entry.cost < 2 ^ 64 := by
    by_contra hge
    refine hwraps ⟨entry, by simp [hpending], by omega, ?_⟩
    rcases hroom with hidle | hroom
    · omega
    · unfold wrap at hroom
      omega
  have hwrap : wrap (o.queue.inflight + entry.cost) = o.load + entry.cost := by
    rw [hexact, wrap_of_lt hlt]
  have hsum : ((o.flying ++ [entry]).map Entry.cost).sum = o.load + entry.cost := by
    rw [List.map_append, List.sum_append]
    rfl
  refine ⟨hcapacity, fun e he => h.cost_lt e ?_, ?_, ?_, ?_⟩
  · rw [hpending]
    exact List.mem_cons_of_mem _ he
  · show ((o.flying ++ [entry]).map Entry.cost).sum < 2 ^ 64
    omega
  · show wrap (o.queue.inflight + entry.cost) = ((o.flying ++ [entry]).map Entry.cost).sum
    omega
  · intro habove
    replace habove : o.queue.capacity < wrap (o.queue.inflight + entry.cost) := habove
    -- so nothing was in flight, but items without a cost
    have hidle : o.load = 0 := by omega
    have hnone : o.flying.filter (fun e => e.cost ≠ 0) = [] := by
      rw [List.filter_eq_nil_iff]
      intro e he
      have hzero := List.sum_eq_zero_iff_forall_eq_nat.mp hidle e.cost (List.mem_map_of_mem he)
      simp [hzero]
    refine ⟨entry, ?_, ?_⟩
    · show (o.flying ++ [entry]).filter _ = [entry]
      have hpos : entry.cost ≠ 0 := by omega
      rw [List.filter_append, hnone]
      simp [hpos]
    · show o.queue.capacity < entry.cost
      omega

/-- **An item completes**.  Were the rest still above the capacity, the one
that completes would have had no cost. -/
theorem Bounded.completed {o : Owner α} (h : Bounded o) {i : Nat} {entry : Entry α}
    (hentry : o.flying[i]? = some entry) :
    Bounded { o with
      queue := o.queue.complete entry.cost
      flying := o.flying.eraseIdx i } := by
  have hexact : o.queue.inflight = o.load := h.exact
  have hload : o.load = entry.cost + ((o.flying.eraseIdx i).map Entry.cost).sum :=
    load_eraseIdx hentry
  have hlt := h.load_lt
  have hcomplete : (o.queue.complete entry.cost).inflight
      = ((o.flying.eraseIdx i).map Entry.cost).sum := by
    show (if entry.cost ≤ o.queue.inflight then _ else 0) = _
    rw [if_pos (by omega)]
    omega
  refine ⟨h.capacity_lt, h.cost_lt, ?_, hcomplete, ?_⟩
  · show ((o.flying.eraseIdx i).map Entry.cost).sum < 2 ^ 64
    omega
  · intro habove
    replace habove : o.queue.capacity < (o.queue.complete entry.cost).inflight := habove
    obtain ⟨big, hbig, hlarge⟩ := h.oversized (by omega)
    refine ⟨big, ?_, hlarge⟩
    have hsub := (o.flying.eraseIdx_sublist i).filter (fun e => e.cost ≠ 0)
    rw [hbig] at hsub
    rcases List.sublist_singleton.mp hsub with hnil | hone
    · rw [hcomplete, load_eq_filter, hnil] at habove
      exact absurd habove (Nat.not_lt_zero _)
    · exact hone

theorem Bounded.step {o o' : Owner α} {op : Op α} (h : Bounded o) (hwraps : ¬ Wraps o op)
    (hnext : next o op = some o') : Bounded o' := by
  cases op with
  | enqueue item cost =>
      simp only [Owner.next, Option.ite_none_right_eq_some, Option.some.injEq] at hnext
      obtain ⟨hcost, rfl⟩ := hnext
      refine ⟨h.capacity_lt, fun e he => ?_, h.load_lt, h.exact, h.oversized⟩
      rcases List.mem_append.mp he with he | he
      · exact h.cost_lt e he
      · obtain rfl := List.mem_singleton.mp he
        exact hcost
  | tryTake =>
      obtain ⟨rfl, -⟩ | ⟨entry, rest, hpending, hroom, rfl⟩ := next_tryTake hnext
      · exact h
      · exact h.taken hpending hroom hwraps
  | complete i =>
      obtain ⟨entry, hentry, rfl⟩ := Option.map_eq_some_iff.mp hnext
      exact h.completed hentry
  | clear =>
      obtain rfl := Option.some.inj hnext
      refine ⟨h.capacity_lt, by simp [CapacityQueue.clear], zero_lt_word, rfl, fun habove => ?_⟩
      exact absurd habove (Nat.not_lt_zero _)

theorem bounded {o : Owner α}
    (h : ((system α).restrict (fun o op => ¬ Wraps o op)).Reachable o) : Bounded o := by
  refine System.Reachable.invariant ?_ (fun _ _ _ _ hs hnext => hs.step hnext.1 hnext.2) o h
  rintro _ ⟨capacity, hcapacity, rfl⟩
  exact .new hcapacity

/-- **A take that wraps** is let through, and leaves `_inflight` short. -/
theorem Bounded.wraps {o o' : Owner α} {op : Op α} (h : Bounded o) (hwraps : Wraps o op)
    (hnext : next o op = some o') : ¬ Exact o' := by
  cases op with
  | enqueue item cost => exact hwraps.elim
  | complete i => exact hwraps.elim
  | clear => exact hwraps.elim
  | tryTake =>
      obtain ⟨head, hhead, hlow, hhigh⟩ := hwraps
      obtain ⟨rest, hpending⟩ := List.head?_eq_some_iff.mp hhead
      have hexact : o.queue.inflight = o.load := h.exact
      have hload := h.load_lt
      have hcost : head.cost < 2 ^ 64 := h.cost_lt head (by simp [hpending])
      have hwrap : wrap (o.queue.inflight + head.cost) = o.load + head.cost - 2 ^ 64 := by
        unfold wrap
        omega
      obtain ⟨-, hfull⟩ | ⟨entry, rest', hpending', -, rfl⟩ := next_tryTake hnext
      · have hover := (hfull head rest hpending).2
        omega
      · obtain ⟨rfl, rfl⟩ := List.cons.inj (hpending.symm.trans hpending')
        intro hsum
        replace hsum : wrap (o.queue.inflight + head.cost)
          = ((o.flying ++ [head]).map Entry.cost).sum := hsum
        rw [List.map_append, List.sum_append] at hsum
        replace hsum : wrap (o.queue.inflight + head.cost) = o.load + (head.cost + 0) := hsum
        omega

/-! ## §6. The window. -/

/-- **The window of a `CapacityQueue`.**  In every run items come out in the
order they went in, each once, and with nothing in flight the head comes.  Up
to the first take that wraps, `_inflight` is the true sum, and passes the
capacity by one oversized item only; that take makes it wrong. -/
theorem window (α : Type) :
    (∀ o : Owner α, (system α).Reachable o → InOrder o ∧ HeadTaken o) ∧
    ∀ o : Owner α, ((system α).restrict (fun o op => ¬ Wraps o op)).Reachable o →
      Exact o ∧ Oversized o ∧
      ∀ op o', next o op = some o' → ((Exact o' ∧ Oversized o') ↔ ¬ Wraps o op) := by
  refine ⟨fun o ho => ⟨(ordered ho).order, (ordered ho).headTaken⟩, fun o ho => ?_⟩
  have h := bounded ho
  refine ⟨h.exact, h.oversized, fun op o' hnext => ⟨fun hkept hwraps => ?_, fun hwraps => ?_⟩⟩
  · exact h.wraps hwraps hnext hkept.1
  · exact ⟨(h.step hwraps hnext).exact, (h.step hwraps hnext).oversized⟩

/-- An oversized item goes out alone, behind one that costs nothing. -/
theorem window_oversized :
    let o : Owner Nat := ⟨⟨100, 250, [⟨3, 1⟩]⟩, [⟨1, 0⟩, ⟨2, 250⟩], [⟨1, 0⟩, ⟨2, 250⟩, ⟨3, 1⟩],
      [(⟨1, 0⟩, .taken), (⟨2, 250⟩, .taken)], [1, 2]⟩
    o.queue.capacity < o.queue.inflight ∧ Exact o ∧ Oversized o := by
  intro o
  have hrun : System.follow next (fun o op => ¬ Wraps o op) (new 100)
      [.enqueue 1 0, .enqueue 2 250, .enqueue 3 1, .tryTake, .tryTake, .tryTake] = some o := by
    decide
  have hreach : ((system Nat).restrict (fun o op => ¬ Wraps o op)).Reachable (new 100) :=
    .init ⟨100, by decide, rfl⟩
  have hwindow := (window Nat).2 o
    (System.Reachable.follow (fun _ _ _ hnext => hnext) hreach hrun)
  exact ⟨by decide, hwindow.1, hwindow.2.1⟩

/-- An item of one word less one is in flight, far above the capacity of 100.
One more unit brings the `size_t` back to zero: a second item is let through,
and nothing seems to be in flight. -/
theorem wrapped_window_admits :
    ¬ ∀ o : Owner Nat, (system Nat).Reachable o →
      InOrder o ∧ Exact o ∧ Oversized o ∧ HeadTaken o := by
  intro h
  have hrun : System.follow next (fun _ _ => True) (new 100)
      [.enqueue 1 (2 ^ 64 - 1), .enqueue 2 1, .tryTake, .tryTake]
      = some ⟨⟨100, 0, []⟩, [⟨1, 2 ^ 64 - 1⟩, ⟨2, 1⟩], [⟨1, 2 ^ 64 - 1⟩, ⟨2, 1⟩],
          [(⟨1, 2 ^ 64 - 1⟩, .taken), (⟨2, 1⟩, .taken)], [1, 2]⟩ := by
    decide
  have hreach : ((system Nat).restrict (fun _ _ => True)).Reachable (new 100) :=
    .init ⟨100, by decide, rfl⟩
  have hlast := (System.Reachable.follow (fun _ _ _ hnext => hnext) hreach hrun).of_restrict
  have hexact : 0 = 2 ^ 64 - 1 + (1 + 0) := (h _ hlast).2.1
  omega

end Owner

end ModelStreamer.ObjectStorage
