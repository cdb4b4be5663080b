/-
  ModelStreamer.Delivery.Ledger
  ─────────────────────────────
  **THREE COUNTERS OF ONE SUBMISSION** — the registry's `remaining`, the
  responder's expected count, and the ranges the workers still answer.

  They are updated one after the other, by different threads: `async_request`
  mints an id, registers the submission, raises the responder's count and
  only then dispatches; workers push; one consumer pops and accounts.  Here
  each of these is a step of its own, and `generate` is the source's loop
  over a 64-bit counter.

    • `search_isSome` — the loop of `generate` ends,
    • `ledger_step` — one step keeps the three counters together,
    • `submissions_accounted` — what that says of `consume`, of the ids and
      of a streamer that owes nothing.
-/
import ModelStreamer.Common.SharedQueue
import ModelStreamer.Delivery.Accounting

namespace ModelStreamer.Delivery

open ModelStreamer.Lib

/-! ## §1. Minting an id. -/

/-- One round of the loop of `generate`: the id tried, and `_next_id` after
it; 0 is passed over. -/
def candidate (nextId : Nat) : Nat × Nat :=
  if nextId = 0 then (wrap (nextId + 1), wrap (wrap (nextId + 1) + 1))
  else (nextId, wrap (nextId + 1))

/-- The loop of `generate`, for at most `fuel` rounds. -/
def SubmissionsMgr.search (mgr : SubmissionsMgr) : Nat → Option (Nat × SubmissionsMgr)
  | 0 => none
  | fuel + 1 =>
      let (id, next) := candidate mgr.nextId
      match mgr.submissions id with
      | none => some (id, { mgr with nextId := next })
      | some _ => SubmissionsMgr.search { mgr with nextId := next } fuel

/-- `generate`: the loop, run until it ends. -/
def SubmissionsMgr.Generates (mgr : SubmissionsMgr) (id : Nat) (mgr' : SubmissionsMgr) : Prop :=
  ∃ fuel, mgr.search fuel = some (id, mgr')

/-- The place of a counter in the cycle of the 2^64 - 1 ids. -/
def slot (nextId : Nat) : Nat := nextId - 1

theorem candidate_spec {nextId : Nat} (h : nextId < 2 ^ 64) :
    (candidate nextId).1 = slot nextId + 1 ∧ (candidate nextId).2 < 2 ^ 64 ∧
      slot (candidate nextId).2 = (slot nextId + 1) % (2 ^ 64 - 1) := by
  unfold candidate slot wrap
  split
  · omega
  · refine ⟨by omega, by omega, ?_⟩
    show (nextId + 1) % 2 ^ 64 - 1 = (nextId - 1 + 1) % (2 ^ 64 - 1)
    omega

/-- What the loop returns was not live. -/
theorem search_spec {mgr mgr' : SubmissionsMgr} {fuel id : Nat} (hnext : mgr.nextId < 2 ^ 64)
    (h : mgr.search fuel = some (id, mgr')) :
    id ≠ 0 ∧ mgr.submissions id = none ∧ mgr'.submissions = mgr.submissions ∧
      mgr'.nextId < 2 ^ 64 := by
  induction fuel generalizing mgr with
  | zero => simp [SubmissionsMgr.search] at h
  | succ fuel ih =>
      obtain ⟨hid, hlt, -⟩ := candidate_spec hnext
      unfold SubmissionsMgr.search at h
      simp only at h
      cases hfree : mgr.submissions (candidate mgr.nextId).1 with
      | none =>
          rw [hfree] at h
          obtain ⟨rfl, rfl⟩ : (candidate mgr.nextId).1 = id ∧ _ = mgr' := by simpa using h
          exact ⟨by omega, hfree, rfl, hlt⟩
      | some record =>
          rw [hfree] at h
          obtain ⟨hne, hnone, hsame, hbound⟩ := ih hlt h
          exact ⟨hne, hnone, hsame, hbound⟩

/-- The ids a failing loop has tried are all live. -/
theorem search_none {mgr : SubmissionsMgr} {fuel : Nat} (hnext : mgr.nextId < 2 ^ 64)
    (h : mgr.search fuel = none) :
    ∀ k < fuel, mgr.submissions ((slot mgr.nextId + k) % (2 ^ 64 - 1) + 1) ≠ none := by
  induction fuel generalizing mgr with
  | zero => intro k hk; omega
  | succ fuel ih =>
      obtain ⟨hid, hlt, hslot⟩ := candidate_spec hnext
      unfold SubmissionsMgr.search at h
      simp only at h
      intro k hk
      cases hfree : mgr.submissions (candidate mgr.nextId).1 with
      | none =>
          rw [hfree] at h
          simp at h
      | some record =>
          rw [hfree] at h
          have hbound : slot mgr.nextId < 2 ^ 64 - 1 := by
            unfold slot
            omega
          cases k with
          | zero =>
              show mgr.submissions (slot mgr.nextId % (2 ^ 64 - 1) + 1) ≠ none
              rw [Nat.mod_eq_of_lt hbound, ← hid, hfree]
              simp
          | succ k =>
              have hnext' := ih hlt h k (by omega)
              rw [hslot, Nat.mod_add_mod] at hnext'
              rw [show slot mgr.nextId + (k + 1) = slot mgr.nextId + 1 + k by omega]
              exact hnext'

/-- **The loop of `generate` ends**: a cycle of ids has one that is free. -/
theorem search_isSome {mgr : SubmissionsMgr} {fuel : Nat} {live : List Nat}
    (hnext : mgr.nextId < 2 ^ 64) (hfuel : fuel ≤ 2 ^ 64 - 1) (hlen : live.length < fuel)
    (hlive : ∀ id, mgr.submissions id ≠ none → id ∈ live) : ∃ r, mgr.search fuel = some r := by
  cases hsearch : mgr.search fuel with
  | some r => exact ⟨r, rfl⟩
  | none =>
      exfalso
      have htried := search_none hnext hsearch
      -- `fuel` distinct ids, all of them in `live`
      set tried := (List.range fuel).map
        (fun k => (slot mgr.nextId + k) % (2 ^ 64 - 1) + 1) with htriedEq
      have hnodup : tried.Nodup := by
        apply List.Nodup.map_on _ List.nodup_range
        intro a ha b hb hab
        rw [List.mem_range] at ha hb
        omega
      have hsub : tried ⊆ live := by
        intro id hid
        obtain ⟨k, hk, rfl⟩ := List.mem_map.mp hid
        exact hlive _ (htried k (List.mem_range.mp hk))
      have hle := (hnodup.subperm hsub).length_le
      rw [htriedEq, List.length_map, List.length_range] at hle
      omega

/-! ## §2. The steps. -/

/-- The streamer's accounting: the registry, the ids of calls that have not
registered, the submissions registered that the responder does not expect
yet (with their number of ranges), the submission of every range a worker
still has to answer, and the responder. -/
structure Ledger where
  mgr : SubmissionsMgr
  minted : List Nat
  entering : List (Nat × Nat)
  working : List Nat
  responder : SharedQueue Response

/-- Nothing has been submitted. -/
def Ledger.new : Ledger := ⟨.new, [], [], [], .new .persistent 0⟩

/-- The responses owed by submissions that are entering. -/
def enteringFor (id : Nat) (entering : List (Nat × Nat)) : Nat :=
  (entering.map (fun e => if e.1 = id then e.2 else 0)).sum

/-- **The responses of a submission that have not been consumed.** -/
def Ledger.outstanding (s : Ledger) (id : Nat) : Nat :=
  enteringFor id s.entering + s.working.count id
    + s.responder.responses.countP (ofSubmission id)

/-- All responses that have not been consumed. -/
def Ledger.total (s : Ledger) : Nat :=
  (s.entering.map Prod.snd).sum + s.working.length + s.responder.responses.length

/-- Who moves. -/
inductive Move where
  | generate
  | add (id expected totalBytes : Nat)
  | abandon (id : Nat)
  | increment (id expected : Nat)
  | push (r : Response)
  | pop

/-- The steps.  Dispatching hands the ranges of a submission to workers that
answer them whenever they like, so it is part of the step before it. -/
inductive Moves : Ledger → Move → Ledger → Prop
  /-- `async_request` mints an id. -/
  | generate {s : Ledger} (id : Nat) (mgr : SubmissionsMgr) (h : s.mgr.Generates id mgr) :
      Moves s .generate { s with mgr := mgr, minted := id :: s.minted }
  /-- It registers the submission; one without ranges is not registered. -/
  | add {s : Ledger} (id expected totalBytes : Nat) (mgr : SubmissionsMgr) (hid : id ∈ s.minted)
      (hexpected : 0 < expected) (h : s.mgr.add id expected totalBytes = .ok mgr) :
      Moves s (.add id expected totalBytes)
        { s with
          mgr := mgr
          minted := s.minted.erase id
          entering := (id, expected) :: s.entering }
  /-- It fails before, or finds nothing to read. -/
  | abandon {s : Ledger} (id : Nat) (hid : id ∈ s.minted) :
      Moves s (.abandon id) { s with minted := s.minted.erase id }
  /-- It raises the responder's count, and dispatches. -/
  | increment {s : Ledger} (id expected : Nat) (h : (id, expected) ∈ s.entering) :
      Moves s (.increment id expected)
        { s with
          entering := s.entering.erase (id, expected)
          working := List.replicate expected id ++ s.working
          responder := s.responder.increment expected }
  /-- A worker pushes the response of a range, with a code of its own. -/
  | push {s : Ledger} (r : Response) (h : r.submissionId ∈ s.working) (hcode : Accountable r) :
      Moves s (.push r)
        { s with
          working := s.working.erase r.submissionId
          responder := s.responder.push r }
  /-- The consumer pops a response and accounts for it. -/
  | pop {s : Ledger} (r : Response) (q : SharedQueue Response) (done : Bool)
      (mgr : SubmissionsMgr) (hpop : s.responder.pop = .response r q)
      (haccount : accountResponse s.mgr r = .ok (done, mgr)) :
      Moves s .pop { s with mgr := mgr, responder := q }
  /-- The same, where the accounting fails an `ASSERT`. -/
  | popFailed {s : Ledger} (r : Response) (q : SharedQueue Response) (e : Failure)
      (hpop : s.responder.pop = .response r q) (haccount : accountResponse s.mgr r = .error e) :
      Moves s .pop { s with responder := q }

/-- The accounting of a streamer. -/
def ledger : System Ledger Move := ⟨(· = Ledger.new), Moves⟩

/-- A submission is only added while all responses fit an `unsigned`. -/
def Bounded (s : Ledger) : Move → Prop
  | .add _ expected _ => s.total + expected < 2 ^ 32
  | _ => True

/-! ## §3. The counters agree. -/

/-- **The registry and the responder count what is outstanding.** -/
structure Agrees (s : Ledger) : Prop where
  next : s.mgr.nextId < 2 ^ 64
  minted : ∀ id ∈ s.minted, id ≠ 0
  total : s.total < 2 ^ 32
  entering : ∀ e ∈ s.entering, 0 < e.2
  open_ : s.responder.stopped = false ∧ s.responder.mode = .persistent
  running : s.responder.running = s.working.length
  codes : ∀ r ∈ s.responder.responses, Accountable r
  registry : ∀ id, (s.mgr.submissions id).map Record.remaining
    = if s.outstanding id = 0 then none else some (s.outstanding id)
  nonzero : ∀ id, s.outstanding id ≠ 0 → id ≠ 0

/-- A submission with something outstanding is registered. -/
theorem Agrees.live {s : Ledger} (h : Agrees s) {id : Nat} (hout : s.outstanding id ≠ 0) :
    ∃ record, s.mgr.submissions id = some record ∧ record.remaining = s.outstanding id := by
  have hreg := h.registry id
  rw [if_neg hout] at hreg
  obtain ⟨record, hrecord, hremaining⟩ := Option.map_eq_some_iff.mp hreg
  exact ⟨record, hrecord, hremaining⟩

/-- One with nothing outstanding is not. -/
theorem Agrees.gone {s : Ledger} (h : Agrees s) {id : Nat} (hout : s.outstanding id = 0) :
    s.mgr.submissions id = none := by
  have hreg := h.registry id
  rw [if_pos hout] at hreg
  exact Option.map_eq_none_iff.mp hreg

theorem Agrees.free {s : Ledger} (h : Agrees s) {id : Nat} (hnone : s.mgr.submissions id = none) :
    s.outstanding id = 0 := by
  by_contra hout
  obtain ⟨record, hrecord, -⟩ := h.live hout
  rw [hnone] at hrecord
  simp at hrecord

/-- The share of one submission is part of the total. -/
theorem outstanding_le_total (s : Ledger) (id : Nat) : s.outstanding id ≤ s.total := by
  have h₁ : enteringFor id s.entering ≤ (s.entering.map Prod.snd).sum := by
    apply List.sum_le_sum
    intro e _
    split
    · exact Nat.le_refl _
    · exact Nat.zero_le _
  have h₂ := List.count_le_length (a := id) (l := s.working)
  have h₃ := List.countP_le_length (p := ofSubmission id) (l := s.responder.responses)
  unfold Ledger.outstanding Ledger.total
  omega

theorem enteringFor_erase {id : Nat} {entering : List (Nat × Nat)} {e : Nat × Nat}
    (h : e ∈ entering) :
    enteringFor id entering = (if e.1 = id then e.2 else 0) + enteringFor id (entering.erase e) := by
  unfold enteringFor
  rw [((List.perm_cons_erase h).map _).sum_eq, List.map_cons, List.sum_cons]

theorem entering_sum_erase {entering : List (Nat × Nat)} {e : Nat × Nat} (h : e ∈ entering) :
    (entering.map Prod.snd).sum = e.2 + ((entering.erase e).map Prod.snd).sum := by
  rw [((List.perm_cons_erase h).map _).sum_eq, List.map_cons, List.sum_cons]

/-- A step of the registry alone that changes no entry. -/
theorem Agrees.same {s t : Ledger} (h : Agrees s) (hnext : t.mgr.nextId < 2 ^ 64)
    (hmgr : t.mgr.submissions = s.mgr.submissions) (hminted : ∀ id ∈ t.minted, id ≠ 0)
    (hentering : t.entering = s.entering) (hworking : t.working = s.working)
    (hresponder : t.responder = s.responder) : Agrees t := by
  have hout : ∀ id, t.outstanding id = s.outstanding id := by
    intro id
    unfold Ledger.outstanding
    rw [hentering, hworking, hresponder]
  have htotal : t.total = s.total := by
    unfold Ledger.total
    rw [hentering, hworking, hresponder]
  refine ⟨hnext, hminted, by rw [htotal]; exact h.total, by rw [hentering]; exact h.entering,
    by rw [hresponder]; exact h.open_, by rw [hresponder, hworking]; exact h.running,
    by rw [hresponder]; exact h.codes, fun id => ?_, fun id => ?_⟩
  · rw [hmgr, hout]
    exact h.registry id
  · rw [hout]
    exact h.nonzero id

theorem agrees_new : Agrees Ledger.new := by
  refine ⟨by decide, by simp [Ledger.new], by decide, by simp [Ledger.new], ⟨rfl, rfl⟩, rfl,
    by simp [Ledger.new, SharedQueue.new], fun id => ?_, fun id hid => ?_⟩
  · rfl
  · exact absurd rfl hid

theorem agrees_add {s : Ledger} (h : Agrees s) {id expected totalBytes : Nat}
    {mgr : SubmissionsMgr} (hid : id ∈ s.minted) (hexpected : 0 < expected)
    (hbound : s.total + expected < 2 ^ 32) (hadd : s.mgr.add id expected totalBytes = .ok mgr) :
    Agrees { s with
      mgr := mgr, minted := s.minted.erase id, entering := (id, expected) :: s.entering } := by
  have hnext := add_nextId hadd
  have hfree : s.mgr.submissions id = none := by
    cases hget : s.mgr.submissions id with
    | none => rfl
    | some record =>
        rw [SubmissionsMgr.add, hget] at hadd
        simp at hadd
  rw [SubmissionsMgr.add, hfree] at hadd
  simp only [Except.ok.injEq] at hadd
  subst hadd
  have hzero := h.free hfree
  have hout : ∀ k, enteringFor k ((id, expected) :: s.entering) + s.working.count k
      + s.responder.responses.countP (ofSubmission k)
        -- the submission owes what is expected of it, the others what they did
        = (if id = k then expected else 0) + s.outstanding k := by
    intro k
    unfold enteringFor Ledger.outstanding enteringFor
    simp only [List.map_cons, List.sum_cons]
    omega
  constructor
  case next => exact h.next
  case minted =>
    intro k hk
    exact h.minted k (List.mem_of_mem_erase hk)
  case total =>
    show ((((id, expected) :: s.entering).map Prod.snd).sum + s.working.length
      + s.responder.responses.length) < 2 ^ 32
    unfold Ledger.total at hbound
    rw [List.map_cons, List.sum_cons]
    omega
  case entering =>
    intro e he
    rcases List.mem_cons.mp he with rfl | he
    · exact hexpected
    · exact h.entering e he
  case open_ => exact h.open_
  case running => exact h.running
  case codes => exact h.codes
  case registry =>
    intro k
    show (Function.update s.mgr.submissions id _ k).map Record.remaining
      = if enteringFor k ((id, expected) :: s.entering) + s.working.count k
          + s.responder.responses.countP (ofSubmission k) = 0 then none
        else some (enteringFor k ((id, expected) :: s.entering) + s.working.count k
          + s.responder.responses.countP (ofSubmission k))
    rw [hout k]
    by_cases hk : id = k
    · -- the id was free, so nothing was owed for it
      subst hk
      rw [Function.update_self, hzero, if_pos rfl, Nat.add_zero, if_neg (by omega)]
      rfl
    · rw [Function.update_of_ne (Ne.symm hk), if_neg hk, Nat.zero_add]
      exact h.registry k
  case nonzero =>
    intro k hk
    by_cases hkid : id = k
    · subst hkid
      exact h.minted id hid
    · have hk' : (if id = k then expected else 0) + s.outstanding k ≠ 0 := by
        rw [← hout k]
        exact hk
      rw [if_neg hkid, Nat.zero_add] at hk'
      exact h.nonzero k hk'

/-- A step that moves responses from one place to the next. -/
theorem Agrees.moved {s t : Ledger} (h : Agrees s) (hmgr : t.mgr = s.mgr)
    (hminted : t.minted = s.minted) (hout : ∀ id, t.outstanding id = s.outstanding id)
    (htotal : t.total = s.total) (hentering : ∀ e ∈ t.entering, 0 < e.2)
    (hopen : t.responder.stopped = false ∧ t.responder.mode = .persistent)
    (hrunning : t.responder.running = t.working.length)
    (hcodes : ∀ r ∈ t.responder.responses, Accountable r) : Agrees t := by
  refine ⟨by rw [hmgr]; exact h.next, by rw [hminted]; exact h.minted, by rw [htotal]; exact h.total,
    hentering, hopen, hrunning, hcodes, fun id => ?_, fun id => ?_⟩
  · rw [hmgr, hout]
    exact h.registry id
  · rw [hout]
    exact h.nonzero id

theorem agrees_increment {s : Ledger} (h : Agrees s) {id expected : Nat}
    (hmem : (id, expected) ∈ s.entering) :
    Agrees { s with
      entering := s.entering.erase (id, expected)
      working := List.replicate expected id ++ s.working
      responder := s.responder.increment expected } := by
  have htotal := h.total
  have hsum := entering_sum_erase hmem
  apply h.moved
  case hmgr => rfl
  case hminted => rfl
  case hout =>
    intro k
    show enteringFor k (s.entering.erase (id, expected))
        + (List.replicate expected id ++ s.working).count k
        + s.responder.responses.countP (ofSubmission k) = _
    have hthis := @enteringFor_erase k _ _ hmem
    rw [List.count_append, List.count_replicate]
    unfold Ledger.outstanding
    simp only [beq_iff_eq] at hthis ⊢
    omega
  case htotal =>
    show ((s.entering.erase (id, expected)).map Prod.snd).sum
        + (List.replicate expected id ++ s.working).length + s.responder.responses.length = _
    rw [List.length_append, List.length_replicate]
    unfold Ledger.total
    simp only at hsum
    omega
  case hentering =>
    intro e he
    exact h.entering e (List.mem_of_mem_erase he)
  case hopen => exact h.open_
  case hrunning =>
    show (s.responder.running + expected) % 2 ^ 32
      = (List.replicate expected id ++ s.working).length
    -- the sum is part of the total, so it does not wrap
    unfold Ledger.total at htotal
    simp only at hsum
    rw [h.running, List.length_append, List.length_replicate, Nat.mod_eq_of_lt (by omega)]
    omega
  case hcodes => exact h.codes

theorem agrees_push {s : Ledger} (h : Agrees s) {r : Response} (hmem : r.submissionId ∈ s.working)
    (hcode : Accountable r) :
    Agrees { s with
      working := s.working.erase r.submissionId
      responder := s.responder.push r } := by
  have hpos : 0 < s.working.length := List.length_pos_of_mem hmem
  have hlen := List.length_erase_of_mem hmem
  -- the responder is open and expects a response, so it takes this one
  have hpush : s.responder.push r
      = { s.responder with
          responses := s.responder.responses ++ [r]
          running := s.responder.running - 1 } := by
    unfold SharedQueue.push
    rw [if_neg (by simp [h.open_.1]), if_pos (by rw [h.running]; exact hpos)]
  apply h.moved
  case hmgr => rfl
  case hminted => rfl
  case hout =>
    intro k
    show enteringFor k s.entering + (s.working.erase r.submissionId).count k
      + (s.responder.push r).responses.countP (ofSubmission k) = _
    have hcount := List.count_erase (a := k) (b := r.submissionId) (l := s.working)
    rw [hpush]
    unfold Ledger.outstanding
    rw [List.countP_append, List.countP_singleton]
    by_cases hk : r.submissionId = k
    · subst hk
      have hone : 0 < s.working.count r.submissionId := List.count_pos_iff.mpr hmem
      simp only [beq_self_eq_true, if_true] at hcount
      simp only [ofSubmission, decide_true, if_true]
      omega
    · simp only [beq_iff_eq, hk, if_false] at hcount
      simp only [ofSubmission, hk, decide_false, Bool.false_eq_true, if_false]
      omega
  case htotal =>
    show (s.entering.map Prod.snd).sum + (s.working.erase r.submissionId).length
      + (s.responder.push r).responses.length = _
    rw [hpush]
    unfold Ledger.total
    rw [List.length_append, List.length_singleton]
    omega
  case hentering => exact h.entering
  case hopen =>
    rw [hpush]
    exact h.open_
  case hrunning =>
    show (s.responder.push r).running = (s.working.erase r.submissionId).length
    rw [hpush, hlen, ← h.running]
  case hcodes =>
    intro r' hr'
    have hr' : r' ∈ (s.responder.push r).responses := hr'
    rw [hpush] at hr'
    rcases List.mem_append.mp hr' with hr' | hr'
    · exact h.codes r' hr'
    · rw [List.mem_singleton.mp hr']
      exact hcode

/-- What `consume` makes of a live submission. -/
theorem consume_cases {mgr : SubmissionsMgr} {id : Nat} {record : Record}
    (h : mgr.submissions id = some record) :
    ∃ outcome mgr', mgr.consume id = .ok (outcome, mgr') ∧
      ((∃ bytes, outcome = .completed bytes) ↔ record.remaining = 1) := by
  unfold SubmissionsMgr.consume
  rw [h]
  by_cases hlast : record.remaining = 1
  · simp only [if_pos hlast]
    exact ⟨_, _, rfl, by simp [hlast]⟩
  · simp only [if_neg hlast]
    exact ⟨_, _, rfl, by simp [hlast]⟩

/-- The response at the front of the queue is outstanding. -/
theorem Agrees.popped {s : Ledger} (h : Agrees s) {r : Response} {q : SharedQueue Response}
    (hpop : s.responder.pop = .response r q) :
    Accountable r ∧ ∃ record, s.mgr.submissions r.submissionId = some record ∧
      record.remaining = s.outstanding r.submissionId ∧ 0 < record.remaining := by
  have hq := (SharedQueue.pop_response hpop).2.1
  have hpos : 0 < s.outstanding r.submissionId := by
    unfold Ledger.outstanding
    rw [hq, List.countP_cons_of_pos (by simp [ofSubmission])]
    omega
  obtain ⟨record, hrecord, hremaining⟩ := h.live (by omega : s.outstanding r.submissionId ≠ 0)
  exact ⟨h.codes r (by rw [hq]; exact List.mem_cons_self), record, hrecord, hremaining, by omega⟩

theorem agrees_pop {s : Ledger} (h : Agrees s) {r : Response} {q : SharedQueue Response}
    {done : Bool} {mgr : SubmissionsMgr} (hpop : s.responder.pop = .response r q)
    (haccount : accountResponse s.mgr r = .ok (done, mgr)) :
    Agrees { s with mgr := mgr, responder := q } := by
  obtain ⟨hcode, record, hrecord, hremaining, hpos⟩ := h.popped hpop
  obtain ⟨-, hq, hrest⟩ := SharedQueue.pop_response hpop
  have hle := outstanding_le_total s r.submissionId
  have htotal := h.total
  rw [account_accountable hcode, consume_live hrecord] at haccount
  simp only [Except.ok.injEq, Prod.mk.injEq] at haccount
  obtain ⟨-, rfl⟩ := haccount
  -- one response fewer is owed, by the submission of the one popped
  have hout : ∀ k, enteringFor k s.entering + s.working.count k
      + q.responses.countP (ofSubmission k) + (if r.submissionId = k then 1 else 0)
        = s.outstanding k := by
    intro k
    unfold Ledger.outstanding
    rw [hq, List.countP_cons]
    simp only [ofSubmission, decide_eq_true_eq]
    omega
  constructor
  case next => exact h.next
  case minted => exact h.minted
  case total =>
    show (s.entering.map Prod.snd).sum + s.working.length + q.responses.length < 2 ^ 32
    unfold Ledger.total at htotal
    rw [hq, List.length_cons] at htotal
    omega
  case entering => exact h.entering
  case open_ =>
    show q.stopped = false ∧ q.mode = .persistent
    rw [hrest]
    exact h.open_
  case running =>
    show q.running = s.working.length
    rw [hrest]
    exact h.running
  case codes =>
    intro r' hr'
    exact h.codes r' (by rw [hq]; exact List.mem_cons_of_mem _ hr')
  case registry =>
    intro k
    have hk := hout k
    set left := enteringFor k s.entering + s.working.count k
      + q.responses.countP (ofSubmission k) with hleft
    show (Function.update s.mgr.submissions r.submissionId _ k).map Record.remaining
      = if left = 0 then none else some left
    by_cases hid : r.submissionId = k
    · subst hid
      rw [if_pos rfl] at hk
      rw [Function.update_self]
      -- the last one removes the record
      by_cases hlast : record.remaining = 1
      · rw [if_pos hlast, if_pos (by omega)]
        rfl
      · rw [if_neg hlast, if_neg (by omega), decremented_eq (by omega) (by omega)]
        simp only [Option.map_some, Option.some.injEq]
        omega
    · rw [if_neg hid, Nat.add_zero] at hk
      rw [Function.update_of_ne (Ne.symm hid), hk]
      exact h.registry k
  case nonzero =>
    intro k hk
    apply h.nonzero k
    have hk' : enteringFor k s.entering + s.working.count k
      + q.responses.countP (ofSubmission k) ≠ 0 := hk
    rw [← hout k]
    omega

/-- **One step keeps the three counters together.** -/
theorem ledger_step {s t : Ledger} {a : Move} (h : Agrees s) (hok : Bounded s a)
    (hstep : Moves s a t) : Agrees t := by
  cases hstep with
  | generate id mgr hgen =>
      obtain ⟨fuel, hsearch⟩ := hgen
      obtain ⟨hne, -, hsame, hnext⟩ := search_spec h.next hsearch
      refine h.same hnext hsame ?_ rfl rfl rfl
      intro k hk
      rcases List.mem_cons.mp hk with rfl | hk
      · exact hne
      · exact h.minted k hk
  | add id expected totalBytes mgr hid hexpected hadd =>
      exact agrees_add h hid hexpected hok hadd
  | abandon id hid =>
      exact h.same h.next rfl (fun k hk => h.minted k (List.mem_of_mem_erase hk)) rfl rfl rfl
  | increment id expected hmem => exact agrees_increment h hmem
  | push r hmem hcode => exact agrees_push h hmem hcode
  | pop r q done mgr hpop haccount => exact agrees_pop h hpop haccount
  | popFailed r q e hpop haccount =>
      -- the accounting of an outstanding response does not fail
      obtain ⟨hcode, record, hrecord, -, -⟩ := h.popped hpop
      rw [account_accountable hcode, consume_live hrecord] at haccount
      simp at haccount

theorem reachable_agrees : ∀ s, (ledger.restrict Bounded).Reachable s → Agrees s := by
  apply System.Reachable.invariant
  · intro s hinit
    rw [show s = Ledger.new from hinit]
    exact agrees_new
  · intro s a t _ h hstep
    exact ledger_step h hstep.1 hstep.2

/-! ## §4. The accounting of submissions. -/

/-- Every id of the registry has something outstanding, one entry each. -/
theorem live_bounded {s : Ledger} (h : Agrees s) :
    ∃ live : List Nat, live.length < 2 ^ 32 ∧ ∀ id, s.mgr.submissions id ≠ none → id ∈ live := by
  refine ⟨s.entering.map Prod.fst ++ s.working
    ++ s.responder.responses.map Response.submissionId, ?_, fun id hid => ?_⟩
  · have htotal := h.total
    have hentering : s.entering.length ≤ (s.entering.map Prod.snd).sum := by
      have hsum := List.length_le_sum_of_one_le (s.entering.map Prod.snd)
        (List.forall_mem_map.mpr (fun e he => h.entering e he))
      rwa [List.length_map] at hsum
    unfold Ledger.total at htotal
    rw [List.length_append, List.length_append, List.length_map, List.length_map]
    omega
  · have hout : s.outstanding id ≠ 0 := fun hzero => hid (h.gone hzero)
    by_contra hmem
    simp only [List.mem_append, List.mem_map, not_or, not_exists, not_and] at hmem
    apply hout
    have h₁ : enteringFor id s.entering = 0 := by
      unfold enteringFor
      rw [List.sum_eq_zero_iff]
      intro n hn
      obtain ⟨e, he, rfl⟩ := List.mem_map.mp hn
      exact if_neg (hmem.1.1 e he)
    have h₂ : s.working.count id = 0 := List.count_eq_zero.mpr hmem.1.2
    have h₃ : s.responder.responses.countP (ofSubmission id) = 0 := by
      rw [List.countP_eq_zero]
      intro r hr hid'
      exact hmem.2 r hr (by simpa [ofSubmission] using hid')
    unfold Ledger.outstanding
    omega

/-- **Submission accounting.** -/
theorem submissions_accounted {s : Ledger} (h : (ledger.restrict Bounded).Reachable s) :
    (∀ r q, s.responder.pop = .response r q →
      ∃ outcome mgr, s.mgr.consume r.submissionId = .ok (outcome, mgr) ∧
        ((∃ bytes, outcome = .completed bytes) ↔ s.outstanding r.submissionId = 1)) ∧
    (∃ id mgr, s.mgr.Generates id mgr) ∧
    (∀ id mgr, s.mgr.Generates id mgr → id ≠ 0 ∧ s.outstanding id = 0) ∧
    (∀ id expected totalBytes mgr, s.mgr.add id expected totalBytes = .ok mgr →
      s.outstanding id = 0) ∧
    (∀ id, s.outstanding id ≠ 0 → id ≠ 0) ∧
    ((∀ id, s.outstanding id = 0) →
      (∀ id, s.mgr.submissions id = none) ∧ s.responder.running = 0) := by
  have hagrees := reachable_agrees s h
  refine ⟨?_, ?_, ?_, ?_, hagrees.nonzero, ?_⟩
  · intro r q hpop
    obtain ⟨-, record, hrecord, hremaining, -⟩ := hagrees.popped hpop
    rw [← hremaining]
    exact consume_cases hrecord
  · -- fewer ids are live than there are, so the search ends
    obtain ⟨live, hlen, hlive⟩ := live_bounded hagrees
    obtain ⟨⟨id, mgr⟩, hsearch⟩ :=
      search_isSome hagrees.next (by omega : 2 ^ 32 ≤ 2 ^ 64 - 1) hlen hlive
    exact ⟨id, mgr, 2 ^ 32, hsearch⟩
  · intro id mgr hgen
    obtain ⟨fuel, hsearch⟩ := hgen
    obtain ⟨hne, hfree, -, -⟩ := search_spec hagrees.next hsearch
    exact ⟨hne, hagrees.free hfree⟩
  · intro id expected totalBytes mgr hadd
    apply hagrees.free
    cases hget : s.mgr.submissions id with
    | none => rfl
    | some record =>
        rw [SubmissionsMgr.add, hget] at hadd
        simp at hadd
  · intro hnothing
    refine ⟨fun id => hagrees.gone (hnothing id), ?_⟩
    rw [hagrees.running]
    cases hworking : s.working with
    | nil => rfl
    | cons id rest =>
        have hzero := hnothing id
        unfold Ledger.outstanding at hzero
        rw [hworking, List.count_cons_self] at hzero
        omega

/-- A submission of two ranges, one of them answered before the call that
submitted it returns. -/
def halfAnswered : Ledger :=
  ⟨⟨2, Function.update (fun _ => none) 1 (some ⟨2, 10⟩)⟩, [], [], [1],
    ⟨.persistent, 1, [⟨1, 0, 1, .success⟩], false, false⟩⟩

theorem halfAnswered_reachable : (ledger.restrict Bounded).Reachable halfAnswered := by
  have h₀ : (ledger.restrict Bounded).Reachable Ledger.new := .init rfl
  have h₁ : Moves Ledger.new .generate ⟨⟨2, fun _ => none⟩, [1], [], [], .new .persistent 0⟩ :=
    Moves.generate 1 _ ⟨1, rfl⟩
  have h₂ : Moves ⟨⟨2, fun _ => none⟩, [1], [], [], .new .persistent 0⟩ (.add 1 2 10)
      ⟨⟨2, Function.update (fun _ => none) 1 (some ⟨2, 10⟩)⟩, [], [(1, 2)], [],
        .new .persistent 0⟩ :=
    Moves.add 1 2 10 _ (by decide) (by omega) rfl
  have h₃ : Moves ⟨⟨2, Function.update (fun _ => none) 1 (some ⟨2, 10⟩)⟩, [], [(1, 2)], [],
        .new .persistent 0⟩ (.increment 1 2)
      ⟨⟨2, Function.update (fun _ => none) 1 (some ⟨2, 10⟩)⟩, [], [], [1, 1],
        ⟨.persistent, 2, [], false, false⟩⟩ :=
    Moves.increment 1 2 (by decide)
  have h₄ : Moves ⟨⟨2, Function.update (fun _ => none) 1 (some ⟨2, 10⟩)⟩, [], [], [1, 1],
      ⟨.persistent, 2, [], false, false⟩⟩ (.push ⟨1, 0, 1, .success⟩) halfAnswered :=
    Moves.push ⟨1, 0, 1, .success⟩ (by decide) (by decide)
  have hbound : Bounded ⟨⟨2, fun _ => none⟩, [1], [], [], .new .persistent 0⟩ (.add 1 2 10) := by
    show (0 : Nat) + 2 < 2 ^ 32
    omega
  have hany : ∀ s : Ledger, Bounded s .generate ∧ Bounded s (.increment 1 2) ∧
      Bounded s (.push ⟨1, 0, 1, .success⟩) := fun _ => ⟨trivial, trivial, trivial⟩
  exact (((h₀.step ⟨(hany _).1, h₁⟩).step ⟨hbound, h₂⟩).step ⟨(hany _).2.1, h₃⟩).step
    ⟨(hany _).2.2, h₄⟩

theorem submissions_accounted_half : (ledger.restrict Bounded).Reachable halfAnswered ∧
    ∃ outcome mgr, halfAnswered.mgr.consume 1 = .ok (outcome, mgr) ∧
      ((∃ bytes, outcome = .completed bytes) ↔ halfAnswered.outstanding 1 = 1) :=
  ⟨halfAnswered_reachable,
    (submissions_accounted halfAnswered_reachable).1 ⟨1, 0, 1, .success⟩
      ⟨.persistent, 1, [], false, false⟩ rfl⟩

end ModelStreamer.Delivery
