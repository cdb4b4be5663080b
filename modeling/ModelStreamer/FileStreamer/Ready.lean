/-
  ModelStreamer.FileStreamer.Ready
  ────────────────────────────────
  **THE GENERATOR AND ITS CONSUMER** (`request_ready_chunks`).

  The generator stands at a `yield` until its consumer goes on, closes it or
  throws into it; the attributes it reads after that may be others, since
  `stream_files` and `__exit__` may have been called.  However it ends, its
  `finally` drains what is left.

    • `requestReadyChunks` — the generator, with its consumer,
    • `requestReadyChunks_readyLoop` — with a consumer that goes on it is
      `readyLoop`,
    • `requestReadyChunks_takes` — it takes as many responses as there are
      ranges,
    • `left_is_foreign` — of its own it leaves as many as it took of others,
    • `received_exactly` — it receives its own exactly, if and only if none
      it is given is another's.
-/
import ModelStreamer.FileStreamer.Stream

namespace ModelStreamer.FileStreamer.Ready

open ModelStreamer.FileStreamer

/-! ## §1. The generator. -/

/-- The attributes of a `FileStreamer` that the generator reads. -/
structure Attributes where
  /-- `self.streamer` is set -/
  streamer : Bool
  requestsIterator : FilesRequestsIteratorWithBuffer
  submissionId : Nat

/-- What the consumer does at a `yield`, and the attributes when it does. -/
inductive Resumption where
  | next (self : Attributes)
  /-- An exception thrown in; that of `close` is `GeneratorExit`. -/
  | throw (e : String) (self : Attributes)

def Resumption.self : Resumption → Attributes
  | .next self => self
  | .throw _ self => self

/-- What `fn_runai_response` returns for a null handle. -/
def nullResponse : NativeResponse := ⟨.invalidParameterError, 0, 0, 0, fun _ => 0⟩

/-- `fn_runai_response(self.streamer)`, on the responses still to come. -/
def Attributes.response (self : Attributes) (script : List NativeResponse) :
    Option (NativeResponse × List NativeResponse) :=
  if self.streamer then
    match script with
    | [] => none
    | r :: script => some (r, script)
  else some (nullResponse, script)

/-- The `finally`, with the test of `drain_active_submission`. -/
def Attributes.finallyDrain (self : Attributes) (ended : Ended) (remaining : Nat)
    (script : List NativeResponse) : Ended × List NativeResponse :=
  if self.streamer then FileStreamer.finallyDrain ended remaining script else (ended, script)

section Generator

variable (responseStr : ResponseCode → String) (toDevice : Chunk → Except String Chunk)
  (consumer : Nat → Resumption)

/-- `request_ready_chunks` after `yields` yields, with `left` responses to
go.  `consumer k` is what follows the `k`-th yield. -/
def requestReadyChunks (yields : Nat) (self : Attributes) :
    Nat → List NativeResponse → List Chunk × Ended × List NativeResponse
  -- the `finally` runs here too, with nothing to drain
  | 0, script => ([], self.finallyDrain .returned 0 script)
  | left + 1, script =>
      match self.response script with
      | none => ([], .blocked, [])
      | some (r, script) =>
          match runaiResponse r with
          | .error e => ([], self.finallyDrain (.raised e) (left + 1) script)
          -- teardown: `consumed` is not raised
          | .ok none => ([], self.finallyDrain .returned (left + 1) script)
          | .ok (some r) =>
              -- `consumed` is raised here, before the submission is compared
              match handleResponse responseStr self.requestsIterator self.submissionId r with
              | .error e => ([], self.finallyDrain (.raised e) left script)
              | .ok chunk =>
                  match toDevice chunk with
                  | .error e => ([], self.finallyDrain (.raised e) left script)
                  | .ok tensor =>
                      -- the generator stands at its `yield` until it is resumed
                      match consumer yields with
                      | .throw e self => ([tensor], self.finallyDrain (.raised e) left script)
                      | .next self =>
                          let (chunks, ended) := requestReadyChunks (yields + 1) self left script
                          (tensor :: chunks, ended)

end Generator

/-! ## §2. A consumer that goes on. -/

variable {responseStr : ResponseCode → String} {toDevice : Chunk → Except String Chunk}
  {consumer : Nat → Resumption}

theorem Attributes.finallyDrain_open {self : Attributes} (h : self.streamer = true) (ended : Ended)
    (remaining : Nat) (script : List NativeResponse) :
    self.finallyDrain ended remaining script = FileStreamer.finallyDrain ended remaining script :=
  if_pos h

/-- The loop that `get_chunks` runs to its end is this generator, with a
consumer that always goes on. -/
theorem requestReadyChunks_readyLoop {self : Attributes} (hopen : self.streamer = true)
    (left yields : Nat) (script : List NativeResponse) :
    requestReadyChunks responseStr .ok (fun _ => .next self) yields self left script
      = readyLoop responseStr self.requestsIterator self.submissionId left script := by
  induction left generalizing yields script with
  | zero =>
      unfold requestReadyChunks readyLoop
      rw [Attributes.finallyDrain_open hopen]
      rfl
  | succ left ih =>
      unfold requestReadyChunks readyLoop Attributes.response
      rw [if_pos hopen]
      cases script with
      | nil => rfl
      | cons r script =>
          simp only
          cases runaiResponse r with
          | error e => simp only [Attributes.finallyDrain_open hopen]
          | ok response =>
              cases response with
              | none => simp only [Attributes.finallyDrain_open hopen]
              | some r =>
                  simp only
                  cases handleResponse responseStr self.requestsIterator self.submissionId r with
                  | error e => simp only [Attributes.finallyDrain_open hopen]
                  | ok chunk => simp only [ih]

/-! ## §3. How many it takes. -/

/-- A response that is a range's result; the other two codes are those of a
teardown and of a timeout. -/
def InBand (r : NativeResponse) : Prop := r.code ≠ .finishedError ∧ r.code ≠ .timedOut

theorem InBand.runaiResponse {r : NativeResponse} (h : InBand r) :
    runaiResponse r = .ok (some r) := by
  unfold FileStreamer.runaiResponse
  rw [if_neg h.1, if_neg h.2]

/-- The drain takes as many as it is told to. -/
theorem drain_takes {remaining : Nat} {script : List NativeResponse}
    (hlen : remaining ≤ script.length) (hband : ∀ r ∈ script.take remaining, InBand r) :
    drainActiveSubmission remaining script = (.returned, script.drop remaining) := by
  induction remaining generalizing script with
  | zero => rfl
  | succ remaining ih =>
      cases script with
      | nil => simp at hlen
      | cons r script =>
          rw [List.take_succ_cons, List.forall_mem_cons] at hband
          unfold drainActiveSubmission
          rw [hband.1.runaiResponse]
          show drainActiveSubmission remaining script = _
          rw [ih (by simpa using hlen) hband.2, List.drop_succ_cons]

theorem finallyDrain_takes {self : Attributes} (hopen : self.streamer = true) (ended : Ended)
    {remaining : Nat} {script : List NativeResponse} (hlen : remaining ≤ script.length)
    (hband : ∀ r ∈ script.take remaining, InBand r) :
    self.finallyDrain ended remaining script = (ended, script.drop remaining) := by
  rw [Attributes.finallyDrain_open hopen]
  unfold FileStreamer.finallyDrain
  rw [drain_takes hlen hband]

/-- **It takes as many responses as there are ranges left**, at whichever
`yield` it is ended and whatever the responses are. -/
theorem requestReadyChunks_takes {self : Attributes} (hopen : self.streamer = true)
    (hstays : ∀ k, (consumer k).self.streamer = true) {left : Nat} (yields : Nat)
    {script : List NativeResponse} (hlen : left ≤ script.length)
    (hband : ∀ r ∈ script.take left, InBand r) :
    ∃ chunks ended,
      requestReadyChunks responseStr toDevice consumer yields self left script
        = (chunks, ended, script.drop left) ∧ ended ≠ .blocked := by
  induction left generalizing yields self script with
  | zero =>
      refine ⟨[], .returned, ?_, by simp⟩
      unfold requestReadyChunks
      rw [finallyDrain_takes hopen .returned hlen hband]
  | succ left ih =>
      cases script with
      | nil => simp at hlen
      | cons r script =>
          rw [List.take_succ_cons, List.forall_mem_cons] at hband
          have hrest : left ≤ script.length := by simpa using hlen
          -- this response counts, so that `left` of them are drained from here
          have hdrain : ∀ (self : Attributes) (e : String), self.streamer = true →
              self.finallyDrain (.raised e) left script = (.raised e, script.drop left) :=
            fun self e hself => finallyDrain_takes hself (.raised e) hrest hband.2
          unfold requestReadyChunks Attributes.response
          rw [if_pos hopen]
          simp only [hband.1.runaiResponse]
          rw [List.drop_succ_cons]
          cases handleResponse responseStr self.requestsIterator self.submissionId r with
          | error e => exact ⟨[], .raised e, by simp only [hdrain self e hopen], by simp⟩
          | ok chunk =>
              simp only
              cases toDevice chunk with
              | error e => exact ⟨[], .raised e, by simp only [hdrain self e hopen], by simp⟩
              | ok tensor =>
                  have hself := hstays yields
                  cases hconsumer : consumer yields with
                  | throw e self' =>
                      rw [hconsumer] at hself
                      exact ⟨[tensor], .raised e, by simp only [hdrain self' e hself], by simp⟩
                  | next self' =>
                      rw [hconsumer] at hself
                      obtain ⟨chunks, ended, hrun, hended⟩ :=
                        @ih self' hself (yields + 1) script hrest hband.2
                      exact ⟨tensor :: chunks, ended, by simp only [hrun], hended⟩

/-! ## §4. Whose they are. -/

/-- A response of the submission. -/
def isOwn (submissionId : Nat) (r : NativeResponse) : Bool :=
  decide (r.submissionId = submissionId)

theorem filter_own_eq_nil {submissionId : Nat} {responses : List NativeResponse} :
    (responses.filter (isOwn submissionId)).length = 0 ↔
      ∀ r ∈ responses, r.submissionId ≠ submissionId := by
  rw [List.length_eq_zero_iff, List.filter_eq_nil_iff]
  simp [isOwn]

/-- **Of its own it leaves as many as it took of others**, the submission
having as many responses to come as it takes. -/
theorem left_is_foreign {submissionId : Nat} {received rest : List NativeResponse}
    (hranges : ((received ++ rest).filter (isOwn submissionId)).length = received.length) :
    (rest.filter (isOwn submissionId)).length
      = (received.filter (fun r => !isOwn submissionId r)).length := by
  have hsplit : received.length = _ := List.length_eq_length_filter_add (isOwn submissionId)
  rw [List.filter_append, List.length_append] at hranges
  omega

/-- **Exact receipt**: the generator, however its consumer ends it, takes as
many responses as its submission has ranges.  None of its own is left and
none of a later submission is taken, if and only if no response it is given
until then is another submission's. -/
theorem received_exactly (responseStr : ResponseCode → String)
    (toDevice : Chunk → Except String Chunk) (consumer : Nat → Resumption) (self : Attributes)
    (numRanges : Nat) (script : List NativeResponse) (hopen : self.streamer = true)
    (hstays : ∀ k, (consumer k).self.streamer = true)
    (hband : ∀ r ∈ script.take numRanges, InBand r)
    (hranges : (script.filter (isOwn self.submissionId)).length = numRanges) :
    ∃ chunks ended received rest,
      requestReadyChunks responseStr toDevice consumer 0 self numRanges script
        = (chunks, ended, rest) ∧
      ended ≠ .blocked ∧ script = received ++ rest ∧ received.length = numRanges ∧
      (((∀ r ∈ rest, r.submissionId ≠ self.submissionId) ∧
          ∀ r ∈ received, r.submissionId ≤ self.submissionId) ↔
        ∀ r ∈ script.take numRanges, r.submissionId = self.submissionId) := by
  have hlen : numRanges ≤ script.length := by
    rw [← hranges]
    exact List.length_filter_le _ script
  obtain ⟨chunks, ended, hrun, hended⟩ :=
    @requestReadyChunks_takes responseStr toDevice consumer self hopen hstays numRanges 0 script
      hlen hband
  have htaken : (script.take numRanges).length = numRanges := by
    rw [List.length_take]
    omega
  refine ⟨chunks, ended, script.take numRanges, script.drop numRanges, hrun, hended,
    (List.take_append_drop numRanges script).symm, htaken, ?_⟩
  have hleft := @left_is_foreign self.submissionId (script.take numRanges)
    (script.drop numRanges) (by rw [List.take_append_drop, hranges, htaken])
  constructor
  · intro hexact r hr
    -- nothing of its own is left, so that it took nothing of another
    rw [filter_own_eq_nil.mpr hexact.1] at hleft
    have hnone := List.length_eq_zero_iff.mp hleft.symm
    rw [List.filter_eq_nil_iff] at hnone
    simpa [isOwn] using hnone r hr
  · intro hown
    refine ⟨filter_own_eq_nil.mp ?_, fun r hr => (hown r hr).le⟩
    rw [hleft, List.length_eq_zero_iff, List.filter_eq_nil_iff]
    intro r hr
    simp [isOwn, hown r hr]

/-- The attributes while submission 2 is current. -/
def second : Attributes := ⟨true, .new 100 3 twoFiles, 2⟩

/-- A Success response for range 0 of a file. -/
def success (submissionId file : Nat) : NativeResponse :=
  ⟨.success, submissionId, file, 0, fun _ => 7⟩

/-- The witness: submission 2 is closed early, and submission 3 comes after
it. -/
theorem received_exactly_closed :
    ∃ chunks ended received rest,
      requestReadyChunks (fun _ => "") .ok (fun _ => .throw "GeneratorExit" second) 0 second 2
        [success 2 1, success 2 0, success 3 0] = (chunks, ended, rest) ∧
      ended ≠ .blocked ∧ [success 2 1, success 2 0, success 3 0] = received ++ rest ∧
      received.length = 2 ∧
      (((∀ r ∈ rest, r.submissionId ≠ 2) ∧ ∀ r ∈ received, r.submissionId ≤ 2) ↔
        ∀ r ∈ [success 2 1, success 2 0, success 3 0].take 2, r.submissionId = 2) :=
  received_exactly (fun _ => "") .ok (fun _ => .throw "GeneratorExit" second) second 2
    [success 2 1, success 2 0, success 3 0] rfl (fun _ => rfl)
    (by simp [success, InBand]) (by decide)

/-- **An own response is left**: submission 1 was abandoned and answers late.
The generator of submission 2 raises on that response and drains one more,
so that one of its own two reaches the submission after it. -/
theorem own_response_left :
    (∀ r ∈ [success 1 0, success 2 0, success 2 1], InBand r) ∧
      ([success 1 0, success 2 0, success 2 1].filter (isOwn 2)).length = 2 ∧
      (requestReadyChunks (fun _ => "") .ok (fun _ => .next second) 0 second 2
        [success 1 0, success 2 0, success 2 1]).2.2.map NativeResponse.submissionId = [2] :=
  ⟨by simp [success, InBand], by decide, by decide +kernel⟩

end ModelStreamer.FileStreamer.Ready
