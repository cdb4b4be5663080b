/-
  ModelStreamer.Delivery.Expected
  ───────────────────────────────
  **THE RESPONDER'S COUNT OF EXPECTED RESPONSES** is one `unsigned` for all
  submissions together; `async_request` checks the ranges of one.

    • `owed_pushed` — every range is owed or answered,
    • `counted_step` — the count follows what is owed while it fits,
    • `expected_count` — it does so in every run whose submissions fit, and
      the first that does not breaks it,
    • `two_wide` — two submissions that the check lets through.
-/
import ModelStreamer.Delivery.Submit
import ModelStreamer.Planning.Lossless

namespace ModelStreamer.Delivery

open ModelStreamer.Lib ModelStreamer.Planning

/-! ## §1. What is owed. -/

/-- All ranges of accepted submissions. -/
def accepted {n : Nat} (s : State n) : List RangeId := s.committed.flatMap Submission.ranges

/-- **The responses still owed**, over all submissions: the ranges for which
no response has been pushed. -/
def owed {n : Nat} (s : State n) : Nat :=
  (accepted s).countP (fun k => decide (k ∉ s.pushed.map Response.range))

/-- The ranges of different submissions are different. -/
theorem accepted_nodup {n : Nat} {s : State n} (h : Inv s) : (accepted s).Nodup := by
  rw [accepted, List.nodup_flatMap]
  refine ⟨fun sub _ => ranges_nodup sub, ?_⟩
  refine (List.pairwise_map.mp h.ids.distinct).imp (fun {a b} hne => ?_)
  intro k ha hb
  apply hne
  rw [← range_submission ha, ← range_submission hb]

/-- Only ranges of accepted submissions are answered. -/
theorem pushed_accepted {n : Nat} {s : State n} (h : Inv s) :
    s.pushed.map Response.range ⊆ accepted s := by
  intro k hk
  obtain ⟨r, hr, rfl⟩ := List.mem_map.mp hk
  obtain ⟨sub, hsub, hmem, -⟩ := known_submission (h.final.pushed r hr).known
  exact List.mem_flatMap.mpr ⟨sub, hsub, hmem⟩

/-- **Every range is owed or answered.** -/
theorem owed_pushed {n : Nat} {s : State n} (h : Inv s) :
    owed s + s.pushed.length = (accepted s).length := by
  have hanswered : (accepted s).countP (fun k => decide (k ∈ s.pushed.map Response.range))
      = s.pushed.length := by
    have hlen : (s.pushed.map Response.range).length = s.pushed.length := List.length_map _
    rw [List.countP_eq_length_filter, ← hlen]
    apply List.Perm.length_eq
    rw [List.perm_ext_iff_of_nodup ((accepted_nodup h).filter _) (pushed_nodup h)]
    intro k
    rw [List.mem_filter, decide_eq_true_eq]
    exact ⟨fun hk => hk.2, fun hk => ⟨pushed_accepted h hk, hk⟩⟩
  have hsplit := List.length_eq_countP_add_countP
    (fun k => decide (k ∈ s.pushed.map Response.range)) (l := accepted s)
  rw [hanswered] at hsplit
  have howed : owed s = (accepted s).countP
      (fun k => decide ¬ decide (k ∈ s.pushed.map Response.range) = true) := by
    unfold owed
    simp only [decide_eq_true_eq]
  omega

/-! ## §2. What the responder expects. -/

/-- **The count is the number of responses owed**, until the responder is
stopped, and no push has come unexpected. -/
def Counted {n : Nat} (s : State n) : Prop :=
  (s.responder.stopped = false → s.responder.running = owed s) ∧ s.responder.unexpected = false

/-- What a submission adds to the responses owed still fits an `unsigned`. -/
def Fits {n : Nat} (s : State n) : Action n → Prop
  | .submit sub => s.responder.stopped = false → owed s + totalRanges sub.request < 2 ^ 32
  | _ => True

theorem accepted_commit {n : Nat} (s : State n) (sub : Submission) (mgr : SubmissionsMgr) :
    (accepted (s.commit sub mgr)).length = (accepted s).length + totalRanges sub.request := by
  show ((s.committed ++ [sub]).flatMap Submission.ranges).length = _
  rw [List.flatMap_append, List.length_append, List.flatMap_singleton, ranges_length]
  rfl

/-- A submission is owed all its responses. -/
theorem owed_commit {n : Nat} {s : State n} {sub : Submission} {mgr : SubmissionsMgr}
    (h : Inv s) (ht : Inv (s.commit sub mgr)) :
    owed (s.commit sub mgr) = owed s + totalRanges sub.request := by
  have hbefore := owed_pushed h
  have hafter := owed_pushed ht
  rw [accepted_commit] at hafter
  have : (s.commit sub mgr).pushed.length = s.pushed.length := rfl
  omega

/-- A response pushed is no longer owed. -/
theorem owed_answer {n : Nat} {s t : State n} {r : Response} (h : Inv s) (ht : Inv t)
    (hcommitted : t.committed = s.committed) (hpushed : t.pushed = s.pushed ++ [r]) :
    owed t + 1 = owed s := by
  have hbefore := owed_pushed h
  have hafter := owed_pushed ht
  have hsame : accepted t = accepted s := by rw [accepted, hcommitted, accepted]
  rw [hsame, hpushed, List.length_append, List.length_singleton] at hafter
  omega

/-- **Whether a submission leaves the count right**: exactly when it fits. -/
theorem counted_commit {n : Nat} {s : State n} {sub : Submission} {mgr : SubmissionsMgr}
    (h : Inv s) (ht : Inv (s.commit sub mgr)) (hcount : Counted s) :
    Counted (s.commit sub mgr) ↔ Fits s (.submit sub) := by
  obtain ⟨hrunning, hunexpected⟩ := hcount
  constructor
  · rintro ⟨hafter, -⟩ hopen
    have hafter : (s.responder.running + totalRanges sub.request) % 2 ^ 32 = _ := hafter hopen
    rw [owed_commit h ht, hrunning hopen] at hafter
    omega
  · intro hfits
    refine ⟨fun hopen => ?_, hunexpected⟩
    have hlt := hfits hopen
    show (s.responder.running + totalRanges sub.request) % 2 ^ 32 = _
    rw [owed_commit h ht, hrunning hopen]
    omega

/-- **One step keeps the count.** -/
theorem counted_step {n : Nat} {s t : State n} {a : Action n} (h : Inv s) (hcount : Counted s)
    (hfits : Fits s a) (hstep : Step s a t) : Counted t := by
  have ht := inv_step h hstep
  have hrunning := hcount.1
  have hunexpected := hcount.2
  cases hstep with
  | submit sub mgr hid hadd => exact (counted_commit h ht hcount).mpr hfits
  | push i e todo r hthread =>
      have hless := owed_answer h ht rfl rfl
      by_cases hstopped : s.responder.stopped = true
      · have hpush : s.responder.push r = s.responder := by
          unfold SharedQueue.push
          rw [if_pos hstopped]
        refine ⟨fun hopen => ?_, (congrArg SharedQueue.unexpected hpush).trans hunexpected⟩
        have hopen : s.responder.stopped = false :=
          (congrArg SharedQueue.stopped hpush).symm.trans hopen
        rw [hstopped] at hopen
        simp at hopen
      · -- a response about to be pushed is owed, so it is expected
        have hcounts := hrunning (by simpa using hstopped)
        have hpush : s.responder.push r
            = ⟨s.responder.mode, s.responder.running - 1, s.responder.responses ++ [r],
                s.responder.stopped, s.responder.unexpected⟩ := by
          unfold SharedQueue.push
          rw [if_neg hstopped, if_pos (by omega)]
        refine ⟨fun _ => (congrArg SharedQueue.running hpush).trans ?_,
          (congrArg SharedQueue.unexpected hpush).trans hunexpected⟩
        show s.responder.running - 1 = _
        omega
  | pop r q done mgr hpop haccount =>
      obtain ⟨-, -, hq⟩ := SharedQueue.pop_response hpop
      rw [Counted, hq]
      exact hcount
  | popFailed r q e hpop haccount =>
      obtain ⟨-, -, hq⟩ := SharedQueue.pop_response hpop
      rw [Counted, hq]
      exact hcount
  | stop => exact ⟨fun hopen => by simp [SharedQueue.stop] at hopen, hunexpected⟩
  | mint => exact hcount
  | take i job x todo hjob hpc htodo => exact hcount
  | store i e todo hthread => exact hcount
  | sub i e todo hthread => exact hcount
  | answer i e todo hthread => exact hcount
  | bare code done mgr hcode haccount => exact hcount

theorem counted_init {n : Nat} {s : State n} (h : Init s) : Counted s := by
  refine ⟨fun _ => ?_, by rw [h.responder_eq]; rfl⟩
  rw [h.responder_eq, owed, accepted, h.committed_eq]
  rfl

theorem reachable_counted {n : Nat} :
    ∀ s, ((streamer n).restrict Fits).Reachable s → Counted s := by
  apply System.Reachable.invariant
  · intro s hinit
    exact counted_init hinit
  · intro s a t hreach h hstep
    exact counted_step (reachable_inv s (.of_restrict hreach)) h hstep.1 hstep.2

/-- **The count never wraps in a run whose submissions fit**; the first one
that does not fit is accepted all the same, and the count is wrong from
there. -/
theorem expected_count {n : Nat} (s : State n)
    (h : ((streamer n).restrict Fits).Reachable s) :
    Counted s ∧ ∀ sub t, Step s (.submit sub) t → (Counted t ↔ Fits s (.submit sub)) := by
  have hcount := reachable_counted s h
  refine ⟨hcount, fun sub t hstep => ?_⟩
  have hinv := reachable_inv s (.of_restrict h)
  have ht := inv_step hinv hstep
  cases hstep with
  | submit sub mgr hid hadd => exact counted_commit hinv ht hcount

/-! ## §3. Two submissions that do not fit. -/

/-- An empty range. -/
def emptyRange : ReadRange := ⟨0, 0, 1, zero_lt_word, zero_lt_word, one_lt_word⟩

/-- One file, of which `k` empty ranges are asked for. -/
def empties (k : Nat) : List FileRanges := [⟨"model", List.replicate k emptyRange⟩]

theorem empties_ranges (k : Nat) : totalRanges (empties k) = k := by
  simp [totalRanges, empties]

theorem empties_planned (id k : Nat) : ∃ p, plan oneWorker.config id (empties k) = .ok p := by
  refine plan_total id (oneWorker.workers _) ?_ ?_
  · intro file hfile range hrange
    obtain rfl : file = ⟨"model", List.replicate k emptyRange⟩ := by simpa [empties] using hfile
    rw [List.eq_of_mem_replicate hrange]
    decide
  · have hbytes : requestBytes (empties k) = 0 := by
      simp [requestBytes, empties, rangeBytes, emptyRange]
    omega

/-- Empty ranges can be submitted, as many as the check lets through. -/
theorem empties_submission (id k : Nat) (hpos : 0 < k) (hlt : k < 2 ^ 32) :
    ∃ sub : Submission, sub.id = id ∧ totalRanges sub.request = k := by
  obtain ⟨p, hp⟩ := empties_planned id k
  have hk := empties_ranges k
  exact ⟨⟨id, oneWorker.config, empties k, p, oneWorker.workers _, by omega, by omega, hp⟩, rfl, hk⟩

/-- A submission with the next id is minted and accepted. -/
theorem submission_accepted {n : Nat} {s : State n} (hreach : (streamer n).Reachable s)
    {sub : Submission} (hid : sub.id = s.mgr.nextId) (hfree : s.mgr.submissions sub.id = none) :
    ∃ m t, Step s .mint m ∧ Step m (.submit sub) t ∧ m.responder = s.responder ∧ owed m = owed s ∧
      t.responder = s.responder.increment (totalRanges sub.request) ∧
      owed t = owed s + totalRanges sub.request ∧ t.mgr.nextId = s.mgr.nextId + 1 ∧
      ∀ id, id ≠ sub.id → t.mgr.submissions id = s.mgr.submissions id := by
  have hmint := hreach.step Step.mint
  have hadd : s.mgr.generate.2.add sub.id (totalRanges sub.request) sub.totalBytes
      = .ok ⟨s.mgr.nextId + 1, Function.update s.mgr.submissions sub.id
          (some ⟨totalRanges sub.request, sub.totalBytes⟩)⟩ := by
    unfold SubmissionsMgr.add SubmissionsMgr.generate
    simp only
    rw [hfree]
  have hmem : sub.id ∈ s.mgr.generate.1 :: s.minted := by
    rw [hid]
    exact List.mem_cons_self
  have hstep := Step.submit
    (s := { s with mgr := s.mgr.generate.2, minted := s.mgr.generate.1 :: s.minted })
    sub _ hmem hadd
  have hsubmit := hmint.step hstep
  refine ⟨_, _, Step.mint, hstep, rfl, rfl, rfl, ?_, rfl,
    fun id hne => Function.update_of_ne hne ..⟩
  exact owed_commit (reachable_inv _ hmint) (reachable_inv _ hsubmit)

/-- From a fresh streamer, two submissions of 2^31 ranges each: nothing is
expected, and 2^32 responses are owed. -/
theorem two_wide : ∃ s : State 1, (streamer 1).Reachable s ∧ s.responder.stopped = false ∧
    s.responder.running = 0 ∧ owed s = 2 ^ 32 := by
  obtain ⟨a, ha, hawide⟩ := empties_submission 1 (2 ^ 31) (by omega) (by omega)
  obtain ⟨b, hb, hbwide⟩ := empties_submission 2 (2 ^ 31) (by omega) (by omega)
  have h₀ : (streamer 1).Reachable idle := .init idle_init
  obtain ⟨m, s, hmint, hsubmit, -, -, hresponder, howed, hnext, hothers⟩ :=
    submission_accepted h₀ (s := idle) ha rfl
  have hs := (h₀.step hmint).step hsubmit
  have hnext : s.mgr.nextId = 2 := hnext
  have hfree : s.mgr.submissions b.id = none := hothers b.id (by omega)
  obtain ⟨m', t, hmint', hsubmit', -, -, hresponder', howed', -, -⟩ :=
    submission_accepted hs (hb.trans hnext.symm) hfree
  have hnone : owed idle = 0 := rfl
  refine ⟨t, (hs.step hmint').step hsubmit', ?_, ?_, by omega⟩
  · rw [hresponder', hresponder]
    rfl
  · rw [hresponder', hresponder, hawide, hbwide]
    rfl

/-- The count of `two_wide` is wrong. -/
theorem two_wide_uncounted : ¬ ∀ s, (streamer 1).Reachable s → Counted s := by
  intro hall
  obtain ⟨s, hs, hopen, hrunning, howed⟩ := two_wide
  have := (hall s hs).1 hopen
  omega

/-- With 2^31 responses owed, one more range may be submitted and the count is
right; with 2^31 more it is wrong. -/
theorem expected_count_wide : ∃ s t u : State 1, ∃ narrow wide : Submission,
    ((streamer 1).restrict Fits).Reachable s ∧ owed s = 2 ^ 31 ∧ s.responder.running = 2 ^ 31 ∧
      Step s (.submit narrow) t ∧ Counted t ∧ Step s (.submit wide) u ∧ ¬ Counted u := by
  obtain ⟨first, hfirst, hfirstWide⟩ := empties_submission 1 (2 ^ 31) (by omega) (by omega)
  obtain ⟨narrow, hnarrow, hnarrowWide⟩ := empties_submission 2 1 (by omega) (by omega)
  obtain ⟨wide, hwide, hwideWide⟩ := empties_submission 2 (2 ^ 31) (by omega) (by omega)
  have hnone : owed idle = 0 := rfl
  have h₀ : ((streamer 1).restrict Fits).Reachable idle := .init idle_init
  obtain ⟨m₁, s₁, hmint₁, hsubmit₁, -, howedM₁, hresponder₁, howed₁, hnext₁, hothers₁⟩ :=
    submission_accepted h₀.of_restrict (s := idle) hfirst rfl
  have hs₁ := (h₀.restrict_step hmint₁ trivial).restrict_step hsubmit₁ (fun _ => by omega)
  have hnext₁ : s₁.mgr.nextId = 2 := hnext₁
  have hfree : s₁.mgr.submissions 2 = none := hothers₁ 2 (by omega)
  obtain ⟨s, t, hmint, hnarrowStep, hresponder, howed, -⟩ :=
    submission_accepted hs₁.of_restrict (hnarrow.trans hnext₁.symm) (by rw [hnarrow]; exact hfree)
  obtain ⟨s', u, hmint', hwideStep, -⟩ :=
    submission_accepted hs₁.of_restrict (hwide.trans hnext₁.symm) (by rw [hwide]; exact hfree)
  have hsame : s' = s := by
    cases hmint
    cases hmint'
    rfl
  rw [hsame] at hwideStep
  have hs := hs₁.restrict_step hmint trivial
  have hrunning : s.responder.running = 2 ^ 31 := by
    rw [hresponder, hresponder₁, hfirstWide]
    rfl
  have hopen : s.responder.stopped = false := by
    rw [hresponder, hresponder₁]
    rfl
  obtain ⟨-, hexact⟩ := expected_count s hs
  refine ⟨s, t, u, narrow, wide, hs, by omega, hrunning, hnarrowStep, ?_, hwideStep, ?_⟩
  · exact (hexact narrow t hnarrowStep).mpr (fun _ => by omega)
  · intro hcounted
    have hfits := (hexact wide u hwideStep).mp hcounted hopen
    omega

end ModelStreamer.Delivery
