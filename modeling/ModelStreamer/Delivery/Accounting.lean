/-
  ModelStreamer.Delivery.Accounting
  ─────────────────────────────────
  **WHAT `Streamer::response` ACCOUNTS FOR.**

  `Streamer::response` leaves every response that carries FinishedError or
  TimedOut out of the accounting: these are the codes of a stopped and of an
  empty responder.  A worker that aborts reports its ranges with the same
  codes.

    • `Registry` — what the registry holds in every run: the ranges of a
      submission less its responses popped with an ACCOUNTED code,
    • `accounted_iff` — the registry follows the responses popped exactly
      as long as none of them carries one of the two codes,
    • `abort_unaccounted` — a run where a range's only response carries
      FinishedError, and its submission stays live forever.
-/
import ModelStreamer.Delivery.ExactlyOnce

namespace ModelStreamer.Delivery

open ModelStreamer.Lib ModelStreamer.Planning

/-! ## §1. Responses come from pushes. -/

/-- Queued and popped responses have been pushed, in this order. -/
def Flow {n : Nat} (s : State n) : Prop :=
  (s.popped.map Popped.response ++ s.responder.responses).Sublist s.pushed

theorem Flow.same {n : Nat} {s t : State n} (h : Flow s) (hpop : t.popped = s.popped)
    (hresp : t.responder.responses = s.responder.responses) (hpush : t.pushed = s.pushed) :
    Flow t := by
  rw [Flow, hpop, hresp, hpush]
  exact h

theorem flow_step {n : Nat} {s t : State n} {a : Action n} (h : Flow s) (hstep : Step s a t) :
    Flow t := by
  cases hstep with
  | push i e todo r hthread =>
      show (s.popped.map Popped.response ++ (s.responder.push r).responses).Sublist
        (s.pushed ++ [r])
      rcases s.responder.push_responses r with heq | heq
      · rw [heq]
        exact h.trans (List.sublist_append_left _ _)
      · rw [heq, ← List.append_assoc]
        exact h.append_right [r]
  | pop r q done mgr hpop haccount =>
      have hq := (SharedQueue.pop_response hpop).2.1
      rw [Flow, hq] at h
      simpa [Flow] using h
  | popFailed r q e hpop haccount =>
      have hq := (SharedQueue.pop_response hpop).2.1
      rw [Flow, hq] at h
      refine List.Sublist.trans ?_ h
      exact (List.sublist_cons_self r q.responses).append_left _
  | _ => exact h.same rfl rfl rfl

/-- The responses of one submission. -/
def ofSubmission (id : Nat) (r : Response) : Bool := decide (r.submissionId = id)

/-- No range is answered twice. -/
theorem pushed_nodup {n : Nat} {s : State n} (h : Inv s) :
    (s.pushed.map Response.range).Nodup := by
  rw [List.nodup_iff_count_le_one]
  intro k
  have hcount : (s.pushed.map Response.range).count k
      = s.pushed.countP (fun r => decide (r.range = k)) := by
    rw [List.count, List.countP_map]
    rfl
  rw [hcount]
  by_cases hk : Known s k
  · have := (h.answered k).2 hk
    rw [responses] at this
    split at this <;> omega
  · have := (h.answered k).1 hk
    rw [responses] at this
    omega

/-- A submission never gets more responses than it has ranges. -/
theorem pushed_bound {n : Nat} {s : State n} (hinv : Inv s) {sub : Submission}
    (hsub : sub ∈ s.committed) :
    s.pushed.countP (ofSubmission sub.id) ≤ totalRanges sub.request := by
  have hsubset : ((s.pushed.filter (ofSubmission sub.id)).map Response.range) ⊆ sub.ranges := by
    intro k hk
    obtain ⟨r, hr, rfl⟩ := List.mem_map.mp hk
    obtain ⟨hr, hid⟩ := List.mem_filter.mp hr
    obtain ⟨sub', hsub', hmem, hk'⟩ := known_submission (hinv.final.pushed r hr).known
    have hid' : r.submissionId = sub.id := by simpa [ofSubmission] using hid
    -- ids are distinct, so the range's submission is `sub`
    obtain rfl : sub' = sub :=
      List.inj_on_of_nodup_map hinv.ids.distinct hsub' hsub (by rw [← hk', ← hid']; rfl)
    exact hmem
  have hlen := (((pushed_nodup hinv).sublist ((List.filter_sublist).map _)).subperm hsubset).length_le
  rw [List.length_map, ranges_length, ← List.countP_eq_length_filter] at hlen
  exact hlen

theorem flow_bound {n : Nat} {s : State n} (hinv : Inv s) (hflow : Flow s) {sub : Submission}
    (hsub : sub ∈ s.committed) :
    (s.popped.map Popped.response).countP (ofSubmission sub.id)
      + s.responder.responses.countP (ofSubmission sub.id) ≤ totalRanges sub.request := by
  have hle := hflow.countP_le (p := ofSubmission sub.id)
  rw [List.countP_append] at hle
  exact hle.trans (pushed_bound hinv hsub)

/-- Every response popped or queued answers a known range. -/
theorem flow_known {n : Nat} {s : State n} (hinv : Inv s) (hflow : Flow s) {r : Response}
    (hr : r ∈ s.popped.map Popped.response ++ s.responder.responses) :
    ∃ sub ∈ s.committed, r.submissionId = sub.id := by
  obtain ⟨sub, hsub, -, hk⟩ := known_submission (hinv.final.pushed r (hflow.subset hr)).known
  exact ⟨sub, hsub, hk⟩

/-! ## §2. The registry. -/

/-- The code lets the response through the filter of `Streamer::response`. -/
def Accountable (r : Response) : Prop := r.ret ≠ .finishedError ∧ r.ret ≠ .timedOut

instance (r : Response) : Decidable (Accountable r) := inferInstanceAs (Decidable (_ ∧ _))

theorem account_accountable {mgr : SubmissionsMgr} {r : Response} (h : Accountable r) :
    accountResponse mgr r = consumeSubmissionResponse mgr r.submissionId := if_pos h

theorem account_filtered {mgr : SubmissionsMgr} {r : Response} (h : ¬ Accountable r) :
    accountResponse mgr r = .ok (false, mgr) := if_neg h

/-- The responses of a submission popped with an accounted code. -/
def accountedFor (id : Nat) (popped : List Popped) : Nat :=
  popped.countP (fun p => ofSubmission id p.response && decide (Accountable p.response))

/-- The responses of a submission popped. -/
def poppedFor (id : Nat) (popped : List Popped) : Nat :=
  popped.countP (fun p => ofSubmission id p.response)

/-- The registry entry of a submission with `consumed` of its responses
consumed. -/
def Submission.entry (sub : Submission) (consumed : Nat) : Option Record :=
  if consumed < totalRanges sub.request then
    some ⟨totalRanges sub.request - consumed, sub.totalBytes⟩
  else none

/-- What the registry holds, and what `submission_done` was. -/
structure Registry {n : Nat} (s : State n) : Prop where
  live : ∀ sub ∈ s.committed,
    s.mgr.submissions sub.id = sub.entry (accountedFor sub.id s.popped)
  unknown : ∀ id, (∀ sub ∈ s.committed, sub.id ≠ id) → s.mgr.submissions id = none
  done : ∀ before p after, s.popped = before ++ p :: after →
    ∀ sub ∈ s.committed, p.response.submissionId = sub.id →
      (p.done = true ↔
        Accountable p.response ∧ accountedFor sub.id before + 1 = totalRanges sub.request)

theorem registry_init {n : Nat} {s : State n} (h : Init s) : Registry s := by
  constructor
  · simp [h.committed_eq]
  · simp [h.mgr_eq, SubmissionsMgr.new]
  · simp [h.popped_eq]

/-- A step that leaves the registry alone. -/
theorem Registry.same {n : Nat} {s t : State n} (h : Registry s)
    (hmgr : t.mgr.submissions = s.mgr.submissions) (hcom : t.committed = s.committed)
    (hpop : t.popped = s.popped) : Registry t := by
  constructor
  · rw [hmgr, hcom, hpop]
    exact h.live
  · rw [hmgr, hcom]
    exact h.unknown
  · rw [hcom, hpop]
    exact h.done

/-- A bare code is never accounted for. -/
theorem account_bare {mgr mgr' : SubmissionsMgr} {code : ResponseCode} {done : Bool}
    (hcode : code = .finishedError ∨ code = .timedOut)
    (h : accountResponse mgr (.ofCode code) = .ok (done, mgr')) : mgr' = mgr ∧ done = false := by
  rw [account_filtered (fun hr => hcode.elim hr.1 hr.2)] at h
  simp only [Except.ok.injEq, Prod.mk.injEq] at h
  exact ⟨h.2.symm, h.1.symm⟩

theorem accountedFor_le {n : Nat} {s : State n} (id : Nat) :
    accountedFor id s.popped ≤ (s.popped.map Popped.response).countP (ofSubmission id) := by
  rw [List.countP_map, accountedFor]
  refine List.countP_mono_left (fun p _ hp => ?_)
  simp only [Bool.and_eq_true] at hp
  exact hp.1

/-- The submissions committed have distinct ids. -/
theorem Ids.eq_of_id {n : Nat} {s : State n} (h : Ids s) {a b : Submission}
    (ha : a ∈ s.committed) (hb : b ∈ s.committed) (hid : a.id = b.id) : a = b :=
  List.inj_on_of_nodup_map h.distinct ha hb hid

/-- The flags of the responses popped before stay. -/
theorem done_snoc {popped : List Popped} {new : Popped} (property : List Popped → Popped → Prop)
    (hold : ∀ before p after, popped = before ++ p :: after → property before p)
    (hnew : property popped new) :
    ∀ before p after, popped ++ [new] = before ++ p :: after → property before p := by
  intro before p after heq
  rcases List.eq_nil_or_concat after with rfl | ⟨after, last, rfl⟩
  · obtain ⟨rfl, hp⟩ := List.append_inj' heq rfl
    simp only [List.cons.injEq, and_true] at hp
    exact hp ▸ hnew
  · rw [List.concat_eq_append, ← List.cons_append, ← List.append_assoc] at heq
    exact hold before p after (List.append_inj' heq rfl).1

/-- An accounted response of a live submission. -/
theorem account_live {n : Nat} {s : State n} (h : Registry s) (hinv : Inv s) (hflow : Flow s)
    {r : Response} {q : SharedQueue Response} (hpop : s.responder.pop = .response r q) :
    ∃ sub ∈ s.committed, r.submissionId = sub.id ∧
      accountedFor sub.id s.popped < totalRanges sub.request ∧
      s.mgr.submissions sub.id
        = some ⟨totalRanges sub.request - accountedFor sub.id s.popped, sub.totalBytes⟩ := by
  have hq := (SharedQueue.pop_response hpop).2.1
  obtain ⟨sub, hsub, hid⟩ := flow_known hinv hflow (r := r)
    (List.mem_append.mpr (.inr (by rw [hq]; exact List.mem_cons_self)))
  have hbound := flow_bound hinv hflow hsub
  rw [hq, List.countP_cons_of_pos (by simp [ofSubmission, hid])] at hbound
  have hle := accountedFor_le (s := s) sub.id
  have hlt : accountedFor sub.id s.popped < totalRanges sub.request := by omega
  refine ⟨sub, hsub, hid, hlt, ?_⟩
  rw [h.live sub hsub, Submission.entry, if_pos hlt]

theorem accountedFor_snoc (id : Nat) (popped : List Popped) (new : Popped) :
    accountedFor id (popped ++ [new]) = accountedFor id popped
      + if new.response.submissionId = id ∧ Accountable new.response then 1 else 0 := by
  rw [accountedFor, accountedFor, List.countP_append, List.countP_singleton]
  simp [ofSubmission]

theorem registry_pop {n : Nat} {s : State n} (h : Registry s) (hinv : Inv s) (hflow : Flow s)
    {r : Response} {q : SharedQueue Response} {done : Bool} {mgr : SubmissionsMgr}
    (hpop : s.responder.pop = .response r q)
    (haccount : accountResponse s.mgr r = .ok (done, mgr)) :
    Registry { s with responder := q, mgr := mgr, popped := s.popped ++ [⟨r, done⟩] } := by
  by_cases hr : Accountable r
  · obtain ⟨sub, hsub, hid, hlt, hentry⟩ := account_live h hinv hflow hpop
    have hranges := sub.ranges_lt
    rw [account_accountable hr, hid, consume_live hentry] at haccount
    simp only [Except.ok.injEq, Prod.mk.injEq] at haccount
    obtain ⟨rfl, rfl⟩ := haccount
    refine ⟨fun sub' hsub' => ?_, fun id hne => ?_, ?_⟩
    · show Function.update s.mgr.submissions sub.id _ sub'.id
        = sub'.entry (accountedFor sub'.id (s.popped ++ [_]))
      rw [accountedFor_snoc]
      by_cases hsame : sub'.id = sub.id
      · -- its own entry goes down by one
        obtain rfl := hinv.ids.eq_of_id hsub' hsub hsame
        rw [Function.update_self, if_pos (show r.submissionId = sub'.id ∧ Accountable r from
          ⟨hid, hr⟩), Submission.entry]
        by_cases hlast : totalRanges sub'.request - accountedFor sub'.id s.popped = 1
        · rw [if_pos hlast, if_neg (by omega)]
        · rw [if_neg hlast, if_pos (by omega), decremented_eq (by omega) (by omega),
            Nat.sub_sub]
      · rw [Function.update_of_ne hsame, if_neg, Nat.add_zero]
        · exact h.live sub' hsub'
        · rintro ⟨hid', -⟩
          exact hsame (by rw [← hid', hid])
    · show Function.update s.mgr.submissions sub.id _ id = none
      rw [Function.update_of_ne (Ne.symm (hne sub hsub))]
      exact h.unknown id hne
    · refine done_snoc (fun before p => ∀ sub ∈ s.committed,
        p.response.submissionId = sub.id → (p.done = true ↔ Accountable p.response ∧
          accountedFor sub.id before + 1 = totalRanges sub.request)) h.done ?_
      intro sub' hsub' hid'
      obtain rfl := hinv.ids.eq_of_id hsub' hsub (by rw [← hid', hid])
      simp only [decide_eq_true_eq, hr, true_and]
      omega
  · rw [account_filtered hr] at haccount
    simp only [Except.ok.injEq, Prod.mk.injEq] at haccount
    obtain ⟨rfl, rfl⟩ := haccount
    refine ⟨fun sub' hsub' => ?_, h.unknown, ?_⟩
    · show s.mgr.submissions sub'.id = sub'.entry (accountedFor sub'.id (s.popped ++ [_]))
      rw [accountedFor_snoc, if_neg (fun hand => hr hand.2), Nat.add_zero]
      exact h.live sub' hsub'
    · refine done_snoc (fun before p => ∀ sub ∈ s.committed,
        p.response.submissionId = sub.id → (p.done = true ↔ Accountable p.response ∧
          accountedFor sub.id before + 1 = totalRanges sub.request)) h.done ?_
      intro sub' _ _
      simp [hr]

theorem registry_step {n : Nat} {s t : State n} {a : Action n} (h : Registry s) (hinv : Inv s)
    (hflow : Flow s) (hstep : Step s a t) : Registry t := by
  cases hstep with
  | mint => exact h.same rfl rfl rfl
  | submit sub mgr hid hadd =>
      have hfree : s.mgr.submissions sub.id = none :=
        h.unknown sub.id (fun sub' hsub' => hinv.ids.minted_unused _ hid _ hsub')
      rw [SubmissionsMgr.add, hfree] at hadd
      simp only [Except.ok.injEq] at hadd
      subst hadd
      -- nothing of the new submission has been popped
      have hnone : accountedFor sub.id s.popped = 0 := by
        rw [accountedFor, List.countP_eq_zero]
        intro p hp hand
        simp only [ofSubmission, Bool.and_eq_true, decide_eq_true_eq] at hand
        obtain ⟨sub', hsub', hid'⟩ := flow_known hinv hflow (r := p.response)
          (List.mem_append.mpr (.inl (List.mem_map_of_mem hp)))
        exact hinv.ids.minted_unused _ hid _ hsub' (by rw [← hid', hand.1])
      refine ⟨fun sub' hsub' => ?_, fun id hne => ?_, fun before p after heq sub' hsub' hid' => ?_⟩
      · show Function.update s.mgr.submissions sub.id _ sub'.id
          = sub'.entry (accountedFor sub'.id s.popped)
        rcases List.mem_append.mp hsub' with hsub' | hsub'
        · rw [Function.update_of_ne (hinv.ids.minted_unused _ hid _ hsub')]
          exact h.live sub' hsub'
        · obtain rfl := List.mem_singleton.mp hsub'
          rw [Function.update_self, hnone, Submission.entry, if_pos sub'.ranges_pos, Nat.sub_zero]
      · show Function.update s.mgr.submissions sub.id _ id = none
        rw [Function.update_of_ne]
        · exact h.unknown id (fun sub' hsub' => hne sub' (List.mem_append.mpr (.inl hsub')))
        · exact Ne.symm (hne sub (List.mem_append.mpr (.inr (List.mem_singleton.mpr rfl))))
      · rcases List.mem_append.mp hsub' with hsub' | hsub'
        · exact h.done before p after heq sub' hsub' hid'
        · obtain rfl := List.mem_singleton.mp hsub'
          have hp : p ∈ s.popped := by
            rw [show s.popped = before ++ p :: after from heq]
            simp
          obtain ⟨sub'', hsub'', hid''⟩ := flow_known hinv hflow (r := p.response)
            (List.mem_append.mpr (.inl (List.mem_map_of_mem hp)))
          exact absurd (by rw [← hid'', hid']) (hinv.ids.minted_unused _ hid _ hsub'')
  | pop r q done mgr hpop haccount => exact registry_pop h hinv hflow hpop haccount
  | popFailed => exact h.same rfl rfl rfl
  | bare code done mgr hcode haccount =>
      obtain ⟨rfl, -⟩ := account_bare (hcode.imp And.left And.left) haccount
      exact h.same rfl rfl rfl
  | _ => exact h.same rfl rfl rfl

/-- The registry, in every reachable state. -/
theorem reachable_registry {n : Nat} :
    ∀ s, (streamer n).Reachable s → Inv s ∧ Flow s ∧ Registry s := by
  apply System.Reachable.invariant
  · intro s hinit
    refine ⟨reachable_inv s (.init hinit), ?_, registry_init hinit⟩
    rw [Flow, hinit.popped_eq, hinit.responder_eq]
    exact List.nil_sublist _
  · intro s a t hreach h hstep
    exact ⟨inv_step h.1 hstep, flow_step h.2.1 hstep, registry_step h.2.2 h.1 h.2.1 hstep⟩

/-! ## §3. When the registry follows the responses. -/

/-- Every response popped has been accounted to its submission: the
submission is removed with its last response, and that one is marked. -/
structure Accounted {n : Nat} (s : State n) : Prop where
  outstanding : ∀ sub ∈ s.committed,
    s.mgr.submissions sub.id = sub.entry (poppedFor sub.id s.popped)
  done : ∀ before p after, s.popped = before ++ p :: after →
    ∀ sub ∈ s.committed, p.response.submissionId = sub.id →
      (p.done = true ↔ poppedFor sub.id before + 1 = totalRanges sub.request)

theorem poppedFor_eq {id : Nat} {popped : List Popped}
    (h : ∀ p ∈ popped, Accountable p.response) : accountedFor id popped = poppedFor id popped := by
  refine List.countP_congr (fun p hp => ?_)
  simp [h p hp]

/-- One unaccounted response, and the two counts differ. -/
theorem accountedFor_lt {id : Nat} {popped : List Popped} {p : Popped} (hp : p ∈ popped)
    (hid : p.response.submissionId = id) (hcode : ¬ Accountable p.response) :
    accountedFor id popped < poppedFor id popped := by
  obtain ⟨before, after, rfl⟩ := List.append_of_mem hp
  have hmono : ∀ l : List Popped, accountedFor id l ≤ poppedFor id l := by
    intro l
    refine List.countP_mono_left (fun p _ hp => ?_)
    simp only [Bool.and_eq_true] at hp
    exact hp.1
  have h₁ := hmono before
  have h₂ := hmono after
  have hleft : accountedFor id (before ++ p :: after)
      = accountedFor id before + accountedFor id after := by
    rw [accountedFor, List.countP_append, List.countP_cons_of_neg (by simp [hcode])]
    rfl
  have hright : poppedFor id (before ++ p :: after)
      = poppedFor id before + poppedFor id after + 1 := by
    rw [poppedFor, List.countP_append, List.countP_cons_of_pos (by simp [ofSubmission, hid])]
    rfl
  omega

/-- **Accounted exactly when no range response popped carries FinishedError
or TimedOut**; and a bare code changes no registry entry. -/
theorem accounted_iff {n : Nat} {s : State n} (h : (streamer n).Reachable s) :
    (Accounted s ↔ ∀ p ∈ s.popped, Accountable p.response) ∧
      ∀ code t, Step s (.bare code) t → t.mgr = s.mgr := by
  obtain ⟨hinv, hflow, hreg⟩ := reachable_registry s h
  refine ⟨⟨fun hacc p hp => ?_, fun hall => ⟨fun sub hsub => ?_, ?_⟩⟩, ?_⟩
  · by_contra hcode
    obtain ⟨sub, hsub, hid⟩ := flow_known hinv hflow (r := p.response)
      (List.mem_append.mpr (.inl (List.mem_map_of_mem hp)))
    have hlt := accountedFor_lt hp hid hcode
    have hbound := flow_bound hinv hflow hsub
    have hpopped : poppedFor sub.id s.popped
        = (s.popped.map Popped.response).countP (ofSubmission sub.id) := by
      rw [List.countP_map]
      rfl
    -- the registry is still waiting for the response that was left out
    have heq := (hreg.live sub hsub).symm.trans (hacc.outstanding sub hsub)
    rw [Submission.entry, Submission.entry, if_pos (by omega)] at heq
    split at heq
    · simp only [Option.some.injEq, Record.mk.injEq, and_true] at heq
      omega
    · simp at heq
  · rw [hreg.live sub hsub, poppedFor_eq hall]
  · intro before p after heq sub hsub hid
    have hp : ∀ q ∈ before, Accountable q.response := by
      intro q hq
      exact hall q (by rw [heq]; simp [hq])
    rw [hreg.done before p after heq sub hsub hid, poppedFor_eq hp]
    simp [hall p (by rw [heq]; simp)]
  · intro code t hstep
    cases hstep with
    | bare code done mgr hcode haccount =>
        exact (account_bare (hcode.imp And.left And.left) haccount).1

/-- The aborted range is never accounted for: its submission stays live. -/
theorem abort_unaccounted : ∃ s : State 1, (streamer 1).Reachable s ∧ AtRest s ∧
    s.popped ≠ [] ∧ ¬ Accounted s := by
  obtain ⟨s, hreach, hcom, hrest, hpopped⟩ := aborted_run
  refine ⟨s, hreach, hrest, by simp [hpopped], fun hacc => ?_⟩
  have hsub : oneSubmission ∈ s.committed := by simp [hcom]
  have hdone := (hacc.done [] _ [] hpopped oneSubmission hsub rfl).mpr rfl
  simp at hdone

/-- The run of the aborted range, on both sides of the equivalence. -/
theorem accounted_iff_aborted : ∃ s : State 1, (streamer 1).Reachable s ∧ s.popped ≠ [] ∧
    (Accounted s ↔ ∀ p ∈ s.popped, Accountable p.response) := by
  obtain ⟨s, hreach, -, -, hpopped⟩ := aborted_run
  exact ⟨s, hreach, by simp [hpopped], (accounted_iff hreach).1⟩

end ModelStreamer.Delivery
