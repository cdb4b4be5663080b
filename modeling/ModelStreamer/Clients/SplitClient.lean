/-
  ModelStreamer.Clients.SplitClient
  ─────────────────────────────────
  **THE GCS AND AZURE CLIENTS, AND THEIR RESPONDER** (`gcs/client/client.cc`
  and `azure/client/client.cc`).

  A client's calls of `async_read` share one responder.  Each call makes it
  expect one more response, and their callbacks push to it, in any order.

    • `SplitClient.Inv.step` — one step of the client keeps its calls and its
      responder in step,
    • `split_read` — over all runs: the sub-reads tile the range, the
      request gets exactly one completion, and the responder expects as many
      responses as there are unanswered requests.
-/
import ModelStreamer.Clients.SplitRead
import ModelStreamer.Common.SharedQueue
import ModelStreamer.Lib.TransitionSystem
import ModelStreamer.ObjectStorage.Worker

namespace ModelStreamer.Clients

open ModelStreamer.Lib ModelStreamer.ObjectStorage

/-! ## §1. The client. -/

/-- The client, whatever its kind: its responder and its calls of
`async_read`.  History: the responses that were popped. -/
structure SplitClient where
  stop : Bool
  responder : Option (SharedQueue Completion)
  reads : List AsyncRead
  popped : List Completion

/-- A new client. -/
def SplitClient.new : SplitClient := ⟨false, none, [], []⟩

inductive ClientAction where
  /-- `async_read`, up to its loop. -/
  | asyncRead (requestId offset length destination : Nat)
  /-- An iteration of call `j`. -/
  | issue (j : Nat)
  /-- The callback of sub-read `k` of call `j` is called. -/
  | called (j k : Nat) (code : ResponseCode)
  /-- It pushes. -/
  | push (j k : Nat)
  /-- `async_read_response`. -/
  | pop
  | stop
  deriving DecidableEq, Repr

/-- One more response is expected. -/
def SplitClient.expect (s : SplitClient) : SharedQueue Completion :=
  match s.responder with
  | none => .new .finishOnDrain 1
  | some responder => responder.increment 1

def clientStep (sdk : Sdk) (chunkBytesize : Nat) (s : SplitClient) :
    ClientAction → Option SplitClient
  | .asyncRead requestId offset length destination =>
      -- `_responder->increment(1)`, or a new responder
      some { s with
        responder := some s.expect
        reads := s.reads ++ [.start sdk chunkBytesize requestId offset length destination] }
  | .issue j =>
      match s.reads[j]? with
      | none => none
      | some r =>
          -- the loop looks at `_stop` before each chunk
          if r.i < r.numChunks ∧ s.stop = false then
            some { s with reads := s.reads.set j (r.issue chunkBytesize) }
          else none
  | .called j k code =>
      match s.reads[j]? with
      | none => none
      | some r =>
          if r.callbacks[k]? = some .waiting then
            some { s with reads := s.reads.set j (r.called k code) }
          else none
  | .push j k =>
      match s.reads[j]? with
      | none => none
      | some r =>
          match r.callbacks[k]? with
          | some (.pushing code) =>
              -- only the callback that counted down to zero, or failed first, pushes
              some { s with
                responder := s.responder.map (·.push ⟨r.requestId, code⟩)
                reads := s.reads.set j (r.pushed k code) }
          | _ => none
  | .pop =>
      match s.responder.map SharedQueue.pop with
      | some (.response c rest) =>
          some { s with responder := some rest, popped := s.popped ++ [c] }
      | _ => none
  | .stop => some { s with stop := true, responder := s.responder.map SharedQueue.stop }

/-- The runs of a client. -/
def splitReads (sdk : Sdk) (chunkBytesize : Nat) : System SplitClient ClientAction where
  init s := s = .new
  step s a t := clientStep sdk chunkBytesize s a = some t

/-- **The condition**: the arguments are words, the range is not empty, the
counters hold the sub-reads and the unanswered requests, and nobody calls
`stop`. -/
def ReadFits (sdk : Sdk) (chunkBytesize : Nat) (s : SplitClient) : ClientAction → Prop
  | .asyncRead _ offset length destination =>
      1 ≤ length ∧ length < 2 ^ 64 ∧ offset < 2 ^ 64 ∧ destination < 2 ^ 64 ∧
        sdk.numChunks chunkBytesize length < 2 ^ 32 ∧
        s.reads.countP AsyncRead.unanswered + 1 < 2 ^ 32
  | .stop => False
  | _ => True

instance (sdk : Sdk) (chunkBytesize : Nat) (s : SplitClient) (a : ClientAction) :
    Decidable (ReadFits sdk chunkBytesize s a) :=
  match a with
  | .asyncRead _ offset length destination =>
      inferInstanceAs (Decidable (1 ≤ length ∧ length < 2 ^ 64 ∧ offset < 2 ^ 64 ∧
        destination < 2 ^ 64 ∧ sdk.numChunks chunkBytesize length < 2 ^ 32 ∧
        s.reads.countP AsyncRead.unanswered + 1 < 2 ^ 32))
  | .issue _ => isTrue trivial
  | .called _ _ _ => isTrue trivial
  | .push _ _ => isTrue trivial
  | .pop => isTrue trivial
  | .stop => isFalse id

/-- What a call has pushed. -/
def AsyncRead.completions (r : AsyncRead) : List Completion :=
  r.answers.map (fun code => ⟨r.requestId, code⟩)

/-- The responder expects an answer for each unanswered request, has refused
none, and every completion is in it or was popped. -/
structure Expects (s : SplitClient) (q : SharedQueue Completion) : Prop where
  live : q.stopped = false
  expected : q.unexpected = false
  running : q.running = s.reads.countP AsyncRead.unanswered
  pushed : (s.popped ++ q.responses).Perm (s.reads.flatMap AsyncRead.completions)

structure SplitClient.Inv (chunkBytesize : Nat) (s : SplitClient) : Prop where
  live : s.stop = false
  laid : ∀ r ∈ s.reads, Laid chunkBytesize r
  counted : ∀ r ∈ s.reads, Counted r
  callbacks : ∀ r ∈ s.reads, r.callbacks.length = r.pieces.length
  responder : match s.responder with
    | none => s.reads = [] ∧ s.popped = []
    | some q => Expects s q

section Change

variable {reads : List AsyncRead} {j : Nat} {r r' : AsyncRead}

/-- A call that answers nothing keeps the number of unanswered requests. -/
theorem unanswered_set (hj : reads[j]? = some r) (hanswers : r'.answers = r.answers) :
    (reads.set j r').countP AsyncRead.unanswered = reads.countP AsyncRead.unanswered := by
  have h := countP_set_eq (p := AsyncRead.unanswered) hj r'
  unfold AsyncRead.unanswered at h ⊢
  rw [hanswers] at h
  exact Nat.add_right_cancel h

theorem completions_set (hj : reads[j]? = some r) (hsame : r'.completions = r.completions) :
    (reads.set j r').flatMap AsyncRead.completions = reads.flatMap AsyncRead.completions := by
  induction reads generalizing j with
  | nil => rfl
  | cons first reads ih =>
      cases j with
      | zero =>
          obtain rfl : first = r := by simpa using hj
          show r'.completions ++ _ = first.completions ++ _
          rw [hsame]
      | succ j =>
          rw [List.set_cons_succ, List.flatMap_cons, List.flatMap_cons, ih (by simpa using hj)]

/-- A push adds one completion to all. -/
theorem completions_push (hj : reads[j]? = some r) {c : Completion}
    (hpush : r'.completions = r.completions ++ [c]) :
    ((reads.set j r').flatMap AsyncRead.completions).Perm
      (reads.flatMap AsyncRead.completions ++ [c]) := by
  induction reads generalizing j with
  | nil => simp at hj
  | cons first reads ih =>
      cases j with
      | zero =>
          obtain rfl : first = r := by simpa using hj
          show (r'.completions ++ reads.flatMap AsyncRead.completions).Perm
            (first.completions ++ reads.flatMap AsyncRead.completions ++ [c])
          rw [hpush, List.append_assoc, List.append_assoc]
          exact (List.perm_append_comm).append_left _
      | succ j =>
          show (first.completions ++ (reads.set j r').flatMap AsyncRead.completions).Perm
            (first.completions ++ reads.flatMap AsyncRead.completions ++ [c])
          rw [List.append_assoc]
          exact (ih (by simpa using hj)).append_left _

end Change

section Steps

variable {sdk : Sdk} {chunkBytesize : Nat} {s : SplitClient}

/-- What holds of all calls still does, when one of them changes. -/
theorem forall_set {p : AsyncRead → Prop} {reads : List AsyncRead} (h : ∀ r ∈ reads, p r) {j : Nat}
    {r' : AsyncRead} (hr : p r') : ∀ r ∈ reads.set j r', p r := by
  intro r hmem
  rcases List.mem_or_eq_of_mem_set hmem with hold | rfl
  · exact h r hold
  · exact hr

/-- **A call moves on without a push.** -/
theorem SplitClient.Inv.move (h : s.Inv chunkBytesize) {j : Nat} {r r' : AsyncRead}
    (hj : s.reads[j]? = some r) (hlaid : Laid chunkBytesize r') (hcounted : Counted r')
    (hcallbacks : r'.callbacks.length = r'.pieces.length) (hid : r'.requestId = r.requestId)
    (hanswers : r'.answers = r.answers) :
    SplitClient.Inv chunkBytesize { s with reads := s.reads.set j r' } := by
  refine ⟨h.live, forall_set h.laid hlaid, forall_set h.counted hcounted,
    forall_set h.callbacks hcallbacks, ?_⟩
  have hresponder := h.responder
  show match s.responder with
    | none => s.reads.set j r' = [] ∧ s.popped = []
    | some q => Expects { s with reads := s.reads.set j r' } q
  cases hq : s.responder with
  | none =>
      rw [hq] at hresponder
      rw [hresponder.1] at hj
      simp at hj
  | some q =>
      rw [hq] at hresponder
      refine ⟨hresponder.live, hresponder.expected, ?_, ?_⟩
      · rw [hresponder.running]
        exact (unanswered_set hj hanswers).symm
      · have hsame : r'.completions = r.completions := by
          unfold AsyncRead.completions
          rw [hanswers, hid]
        show (s.popped ++ q.responses).Perm ((s.reads.set j r').flatMap AsyncRead.completions)
        rw [completions_set hj hsame]
        exact hresponder.pushed

/-- **A request comes in.** -/
theorem SplitClient.Inv.asyncRead (h : s.Inv chunkBytesize) {requestId offset length destination : Nat}
    (hfits : ReadFits sdk chunkBytesize s (.asyncRead requestId offset length destination)) :
    SplitClient.Inv chunkBytesize { s with
      responder := some s.expect
      reads := s.reads ++ [.start sdk chunkBytesize requestId offset length destination] } := by
  obtain ⟨hlength, hword, hoffset, hdestination, hchunks, hcount⟩ := hfits
  have hlaid : Laid chunkBytesize (.start sdk chunkBytesize requestId offset length destination) :=
    start_laid sdk hlength hword hoffset hdestination
  have hresponder := h.responder
  -- what holds of the reads there are and of the new one holds of all
  have hall : ∀ {p : AsyncRead → Prop}, (∀ r ∈ s.reads, p r) →
      p (.start sdk chunkBytesize requestId offset length destination) →
      ∀ r ∈ s.reads ++ [.start sdk chunkBytesize requestId offset length destination], p r := by
    intro p hold hnew r hr
    rcases List.mem_append.mp hr with hr | hr
    · exact hold r hr
    · rw [List.mem_singleton.mp hr]
      exact hnew
  refine ⟨h.live, hall h.laid hlaid, hall h.counted (start_counted sdk hlaid.one_le hchunks),
    hall h.callbacks rfl, ?_⟩
  show Expects _ s.expect
  -- the new read has no answer yet, and one is expected for it
  have hnone : ∀ r : List AsyncRead, (r ++ [AsyncRead.start sdk chunkBytesize requestId offset length
      destination]).flatMap AsyncRead.completions = r.flatMap AsyncRead.completions := by
    intro r
    rw [List.flatMap_append]
    exact List.append_nil _
  have hone : ∀ r : List AsyncRead, (r ++ [AsyncRead.start sdk chunkBytesize requestId offset length
      destination]).countP AsyncRead.unanswered = r.countP AsyncRead.unanswered + 1 := by
    intro r
    rw [List.countP_append]
    rfl
  unfold SplitClient.expect
  cases hq : s.responder with
  | none =>
      rw [hq] at hresponder
      refine ⟨rfl, rfl, ?_, ?_⟩
      · show 1 = _
        rw [hone, hresponder.1]
        rfl
      · show (s.popped ++ []).Perm _
        rw [hnone, hresponder.1, hresponder.2]
        exact List.Perm.refl _
  | some q =>
      rw [hq] at hresponder
      refine ⟨hresponder.live, hresponder.expected, ?_, ?_⟩
      · show (q.running + 1) % 2 ^ 32 = _
        rw [hone, hresponder.running]
        omega
      · show (s.popped ++ q.responses).Perm _
        rw [hnone]
        exact hresponder.pushed

/-- **A callback pushes**: the responder still expects the answer. -/
theorem SplitClient.Inv.push (h : s.Inv chunkBytesize) {j k : Nat} {r : AsyncRead}
    {code : ResponseCode} (hj : s.reads[j]? = some r)
    (hk : r.callbacks[k]? = some (.pushing code)) :
    SplitClient.Inv chunkBytesize { s with
      responder := s.responder.map (·.push ⟨r.requestId, code⟩)
      reads := s.reads.set j (r.pushed k code) } := by
  have hr := List.mem_of_getElem? hj
  obtain ⟨hcounted, hnone⟩ := pushed_counted (h.counted r hr) hk
  have hlaid : Laid chunkBytesize (r.pushed k code) := (h.laid r hr).callback _ _ _ _
  have hcallbacks : (r.pushed k code).callbacks.length = (r.pushed k code).pieces.length := by
    show (r.callbacks.set k _).length = r.pieces.length
    rw [List.length_set]
    exact h.callbacks r hr
  have hresponder := h.responder
  refine ⟨h.live, forall_set h.laid hlaid, forall_set h.counted hcounted,
    forall_set h.callbacks hcallbacks, ?_⟩
  dsimp only
  cases hq : s.responder with
  | none =>
      rw [hq] at hresponder
      -- no responder, no reads
      rw [hresponder.1] at hj
      simp at hj
  | some q =>
      rw [hq] at hresponder
      obtain ⟨hlive, hexpected, hrunning, hpushed⟩ := hresponder
      -- the read had no answer before and has one now
      have hcount := countP_set_eq (p := AsyncRead.unanswered) hj (r.pushed k code)
      have hbefore : r.unanswered = true := by
        unfold AsyncRead.unanswered
        rw [hnone]
        rfl
      have hafter : (r.pushed k code).unanswered = false := by
        show (r.answers ++ [code]).isEmpty = false
        rw [hnone]
        rfl
      rw [hbefore, hafter] at hcount
      have hcount : (s.reads.set j (r.pushed k code)).countP AsyncRead.unanswered + 1
          = s.reads.countP AsyncRead.unanswered := hcount
      -- one was expected, so the push is not refused and counts down
      have hpush : q.push ⟨r.requestId, code⟩
          = { q with responses := q.responses ++ [⟨r.requestId, code⟩], running := q.running - 1 } := by
        unfold SharedQueue.push
        rw [hlive, if_neg (by simp), if_pos (by omega)]
      rw [Option.map_some]
      dsimp only
      rw [hpush]
      refine ⟨hlive, hexpected, ?_, ?_⟩
      · show q.running - 1 = (s.reads.set j (r.pushed k code)).countP AsyncRead.unanswered
        omega
      · have hcompletions : (r.pushed k code).completions = r.completions ++ [⟨r.requestId, code⟩] := by
          show (r.answers ++ [code]).map _ = _
          rw [List.map_append]
          rfl
        show (s.popped ++ (q.responses ++ [_])).Perm _
        rw [← List.append_assoc]
        exact (hpushed.append_right _).trans (completions_push hj hcompletions).symm

/-- **The loop issues a sub-read.** -/
theorem SplitClient.Inv.issued (hchunk : 1 ≤ chunkBytesize) (h : s.Inv chunkBytesize) {j : Nat}
    {r : AsyncRead} (hj : s.reads[j]? = some r) (hi : r.i < r.numChunks) :
    SplitClient.Inv chunkBytesize { s with reads := s.reads.set j (r.issue chunkBytesize) } := by
  have hr := List.mem_of_getElem? hj
  have hcount := (h.laid r hr).count
  have hcallbacks := h.callbacks r hr
  refine h.move hj (issue_laid hchunk (h.laid r hr) hi)
    (issue_counted (h.counted r hr) (by omega)) ?_ rfl rfl
  show (r.callbacks ++ [_]).length = (r.pieces ++ [_]).length
  rw [List.length_append, List.length_append, hcallbacks]
  rfl

/-- **A callback is called**: it has not pushed yet. -/
theorem SplitClient.Inv.called (h : s.Inv chunkBytesize) {j k : Nat} {r : AsyncRead}
    (code : ResponseCode) (hj : s.reads[j]? = some r) (hk : r.callbacks[k]? = some .waiting) :
    SplitClient.Inv chunkBytesize { s with reads := s.reads.set j (r.called k code) } := by
  have hr := List.mem_of_getElem? hj
  obtain ⟨counter, flag, new, hcalled, -⟩ := called_eq r k code
  refine h.move hj ?_ (called_counted (h.counted r hr) code hk) ?_ ?_ ?_
  · rw [hcalled]
    exact (h.laid r hr).callback _ _ _ _
  · rw [hcalled]
    show (r.callbacks.set k _).length = r.pieces.length
    rw [List.length_set]
    exact h.callbacks r hr
  · rw [hcalled]
  · rw [hcalled]

/-- **A completion is popped.** -/
theorem SplitClient.Inv.popped (h : s.Inv chunkBytesize) {q rest : SharedQueue Completion}
    {c : Completion} (hq : s.responder = some q) (hpop : q.pop = .response c rest) :
    SplitClient.Inv chunkBytesize { s with
      responder := some rest, popped := s.popped ++ [c] } := by
  have hresponder := h.responder
  rw [hq] at hresponder
  obtain ⟨-, hfront, hrest⟩ := SharedQueue.pop_response hpop
  refine ⟨h.live, h.laid, h.counted, h.callbacks, ?_⟩
  show Expects _ rest
  rw [hrest]
  refine ⟨hresponder.live, hresponder.expected, hresponder.running, ?_⟩
  show ((s.popped ++ [c]) ++ rest.responses).Perm _
  rw [List.append_assoc, List.singleton_append, ← hfront]
  exact hresponder.pushed

/-- **One step** keeps the invariant. -/
theorem SplitClient.Inv.step (hchunk : 1 ≤ chunkBytesize) (h : s.Inv chunkBytesize)
    {a : ClientAction} {t : SplitClient} (hfits : ReadFits sdk chunkBytesize s a)
    (hstep : clientStep sdk chunkBytesize s a = some t) : t.Inv chunkBytesize := by
  cases a with
  | asyncRead requestId offset length destination =>
      rw [← Option.some.inj hstep]
      exact h.asyncRead hfits
  | issue j =>
      rw [clientStep] at hstep
      split at hstep
      next => simp at hstep
      next r hj =>
        split at hstep
        next hi =>
          rw [← Option.some.inj hstep]
          exact h.issued hchunk hj hi.1
        next => simp at hstep
  | called j k code =>
      rw [clientStep] at hstep
      split at hstep
      next => simp at hstep
      next r hj =>
        split at hstep
        next hk =>
          rw [← Option.some.inj hstep]
          exact h.called code hj hk
        next => simp at hstep
  | push j k =>
      rw [clientStep] at hstep
      split at hstep
      next => simp at hstep
      next r hj =>
        split at hstep
        next code hk =>
          rw [← Option.some.inj hstep]
          exact h.push hj hk
        next => simp at hstep
  | pop =>
      rw [clientStep] at hstep
      cases hq : s.responder with
      | none =>
          rw [hq] at hstep
          simp at hstep
      | some q =>
          rw [hq, Option.map_some] at hstep
          split at hstep
          next c rest hpop =>
            rw [← Option.some.inj hstep]
            exact h.popped hq (Option.some.inj hpop)
          next => simp at hstep
  -- a stopped client is outside the runs considered
  | stop => exact absurd hfits id

end Steps

/-! ## §2. Whole runs. -/

theorem new_inv (chunkBytesize : Nat) : SplitClient.new.Inv chunkBytesize :=
  ⟨rfl, fun _ h => absurd h List.not_mem_nil, fun _ h => absurd h List.not_mem_nil,
    fun _ h => absurd h List.not_mem_nil, ⟨rfl, rfl⟩⟩

theorem reachable_split {sdk : Sdk} {chunkBytesize : Nat} (hchunk : 1 ≤ chunkBytesize)
    {s : SplitClient}
    (hs : ((splitReads sdk chunkBytesize).restrict (ReadFits sdk chunkBytesize)).Reachable s) :
    s.Inv chunkBytesize :=
  System.Reachable.invariant (fun _ hinit => hinit ▸ new_inv chunkBytesize)
    (fun _ _ _ _ hinv hstep => hinv.step hchunk hstep.1 hstep.2) s hs

/-- **SPLIT READS ANSWER ONCE.**  In every run of a client that nobody stops,
whatever the order and the outcomes of the callbacks: each call of
`async_read` is answered once, as `AnsweredOnce` says; and the responder
expects as many responses as there are unanswered requests, has refused none,
and holds, or has given out, exactly the completions pushed. -/
theorem split_read (sdk : Sdk) {chunkBytesize : Nat} (hchunk : 1 ≤ chunkBytesize) (s : SplitClient)
    (hs : ((splitReads sdk chunkBytesize).restrict (ReadFits sdk chunkBytesize)).Reachable s) :
    (∀ r ∈ s.reads, AnsweredOnce r) ∧
    (s.reads ≠ [] → ∃ q, s.responder = some q) ∧
    ∀ q, s.responder = some q → q.running = s.reads.countP AsyncRead.unanswered ∧
      q.unexpected = false ∧
      (s.popped ++ q.responses).Perm (s.reads.flatMap AsyncRead.completions) := by
  have hinv := reachable_split hchunk hs
  have hresponder := hinv.responder
  refine ⟨fun r hr => answeredOnce (hinv.laid r hr) (hinv.counted r hr) (hinv.callbacks r hr),
    fun hne => ?_, fun q hq => ?_⟩
  · cases hq : s.responder with
    | none =>
        rw [hq] at hresponder
        exact absurd hresponder.1 hne
    | some q => exact ⟨q, rfl⟩
  · rw [hq] at hresponder
    exact ⟨hresponder.running, hresponder.expected, hresponder.pushed⟩

/-- Five bytes in chunks of two, of which the second, of three bytes, is
answered first. -/
def fiveBytes : Option SplitClient :=
  System.follow (clientStep .gcs 2) (ReadFits .gcs 2) .new
    [.asyncRead 7 100 5 4096, .issue 0, .issue 0, .called 0 1 .success, .called 0 0 .success,
      .push 0 0]

theorem split_read_five :
    ∃ s, fiveBytes = some s ∧ (∀ r ∈ s.reads, AnsweredOnce r) ∧
      (s.reads ≠ [] → ∃ q, s.responder = some q) ∧
      ∀ q, s.responder = some q → q.running = s.reads.countP AsyncRead.unanswered ∧
        q.unexpected = false ∧
        (s.popped ++ q.responses).Perm (s.reads.flatMap AsyncRead.completions) := by
  have hsome : fiveBytes.isSome = true := by decide +kernel
  obtain ⟨s, hs⟩ := Option.isSome_iff_exists.mp hsome
  exact ⟨s, hs, split_read .gcs (by omega) s
    (System.Reachable.follow (fun _ _ _ h => h) (.init rfl) hs)⟩

end ModelStreamer.Clients
