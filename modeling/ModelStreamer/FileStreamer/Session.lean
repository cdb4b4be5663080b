/-
  ModelStreamer.FileStreamer.Session
  ──────────────────────────────────
  **THE BUFFER AND ITS SUBMISSION** (`file_streamer.py`), over every order of
  calls.

  `stream_files` replaces `self.requests_iterator`, and with it the buffer.
  The native library keeps writing into the buffer of a submission until all
  its responses are taken.  A generator of `get_chunks` takes them, when it
  is advanced, and drains what is left when it ends.

    • `step` — the calls of the caller (any number of generators, advanced,
      closed or left alone), and the library's responses,
    • `Outcome` — a submission the library refuses may have been committed:
      its ranges are read into the buffer all the same,
    • `Safe` — only the last submission owes responses, and it writes into
      the buffer at hand,
    • `Permitted` — the steps that go on from a submission do so when it is
      served, and no drain is cut short.
-/
import ModelStreamer.Lib.TransitionSystem
import ModelStreamer.FileStreamer.Stream

namespace ModelStreamer.FileStreamer.Lifetime

open ModelStreamer.Lib ModelStreamer.FileStreamer

/-! ## §1. States. -/

/-- A submission the library has committed: the buffer it writes into, by the
number of the allocation, the responses it owes, and whether `runai_request`
has returned its id. -/
structure Submission where
  id : Nat
  buffer : Nat
  owed : Nat
  accepted : Bool
  deriving DecidableEq, Repr

/-- What comes of `runai_request`. -/
inductive Outcome where
  | accepted
  /-- An error before the commit; an id may have been minted. -/
  | refused (minted : Bool)
  /-- `UnknownError`, out of the dispatch: the submission is registered and
  its responses are counted, those of ranges that were not dispatched too. -/
  | dispatchFailed
  deriving DecidableEq, Repr

/-- A generator of `get_chunks`. -/
inductive Generator where
  | created
  /-- At the `yield` of `request_ready_chunks`; `left` is
  `num_ranges - consumed`. -/
  | suspended (left : Nat)
  | running
  | finished
  deriving DecidableEq, Repr

/-- Who runs, and where; `g` is the generator. -/
inductive Control where
  /-- The caller does. -/
  | idle
  /-- The loop of `request_ready_chunks`. -/
  | ready (g left : Nat)
  /-- `drain_active_submission`; `returning` tells a return from an
  exception. -/
  | draining (g remaining : Nat) (returning : Bool)
  /-- `get_chunks`, after `request_ready_chunks`. -/
  | advancing (g : Nat)
  deriving DecidableEq, Repr

/-- The attributes of a `FileStreamer`, its generators, and the library. -/
structure State where
  /-- `self.streamer` is set -/
  streamer : Bool
  /-- with the number of its buffer -/
  requestsIterator : Option (Nat × FilesRequestsIteratorWithBuffer)
  activeRequest : Option FilesRequest
  submissionId : Option Nat
  generators : List Generator
  control : Control
  native : List Submission
  nextBuffer : Nat
  nextId : Nat
  /-- history: a submission was made that waits for its first generator -/
  unserved : Bool

/-- After `__enter__`. -/
def State.entered : State where
  streamer := true
  requestsIterator := none
  activeRequest := none
  submissionId := none
  generators := []
  control := .idle
  native := []
  nextBuffer := 0
  nextId := 1
  unserved := false

/-! ## §2. Steps. -/

inductive Action where
  /-- `stream_files`; `outcome` is what will come of `runai_request`. -/
  | streamFiles (env : Option String) (bufferAddress : Nat) (files : List FileChunks)
      (outcome : Outcome)
  /-- The call `get_chunks()`. -/
  | getChunks
  /-- `next` of a generator. -/
  | next (g : Nat)
  /-- `close`, or an exception thrown in at the `yield`. -/
  | close (g : Nat)
  /-- `__exit__`. -/
  | exit
  /-- The library answers: `ofRange` tells the result of a range from an
  answer without one; `converted` is whether torch takes the chunk. -/
  | respond (r : NativeResponse) (ofRange converted : Bool)
  /-- The running generator goes on where it needs no response. -/
  | run (outcome : Outcome)

/-- Replace a generator. -/
def State.put (s : State) (g : Nat) (generator : Generator) : State :=
  { s with generators := s.generators.set g generator }

/-- The library commits `request`, a request of buffer `buffer`; its id is
returned if it is `accepted`. -/
def State.commit (s : State) (buffer : Nat) (request : FilesRequest) (accepted : Bool)
    (control : Control) (unserved : Bool) : State :=
  { s with
    native := s.native ++ [⟨s.nextId, buffer, request.flatSizes.length, accepted⟩]
    submissionId := if accepted then some s.nextId else s.submissionId
    nextId := s.nextId + 1
    control := control
    unserved := unserved }

/-- `submit_active_request`.  `control` and `unserved` are what follows an
accepted request, `raised` is where an exception leads: past a submission
that was committed no generator has been started. -/
def State.submitActiveRequest (s : State) (buffer : Nat) (request : FilesRequest)
    (control : Control) (unserved : Bool) (raised : State) : Outcome → State
  | .accepted => s.commit buffer request true control unserved
  | .dispatchFailed => raised.commit buffer request false raised.control true
  | .refused minted => { raised with nextId := if minted then s.nextId + 1 else s.nextId }

/-- What `runai_request` can say: without a handle, `InvalidParameterError`. -/
def State.canSubmit (s : State) (outcome : Outcome) : Bool :=
  s.streamer || decide (outcome = .refused false)

/-- The library has returned a result of a range of submission `id`. -/
def answered (native : List Submission) (id : Nat) : List Submission :=
  native.map (fun sub => if sub.id = id then { sub with owed := sub.owed - 1 } else sub)

/-- An answer the library can give: the result of a range that is owed, a
FinishedError or a timeout; on a null handle, `InvalidParameterError`. -/
def State.canRespond (s : State) (r : NativeResponse) (ofRange : Bool) : Bool :=
  if s.streamer then
    if ofRange then s.native.any (fun sub => decide (sub.id = r.submissionId ∧ 0 < sub.owed))
    else decide (r.code = .finishedError ∨ r.code = .timedOut)
  else !ofRange && decide (r.code = .invalidParameterError ∧ r.submissionId = 0)

/-- The native side of a response. -/
def State.responded (s : State) (r : NativeResponse) (ofRange : Bool) : State :=
  if ofRange then { s with native := answered s.native r.submissionId } else s

section Step

variable (int : String → Except String Int)

/-- `stream_files`, after the sources were found to be of one type. -/
def State.streamFiles (s : State) (env : Option String) (bufferAddress : Nat)
    (files : List FileChunks) (outcome : Outcome) : State :=
  match FilesRequestsIteratorWithBuffer.withMemoryMode int env bufferAddress files with
  | .error _ => s
  | .ok it =>
      let (request, it) := it.nextRequest
      let s' := { s with
        requestsIterator := some (s.nextBuffer, it)
        nextBuffer := s.nextBuffer + 1
        activeRequest := request }
      match request with
      | none => s'
      | some request =>
          s'.submitActiveRequest s.nextBuffer request .idle true s' outcome

/-- The loop body of `request_ready_chunks`, on a response. -/
def State.handle (s : State) (g left : Nat) (r : NativeResponse) (converted : Bool) : State :=
  match runaiResponse r with
  | .error _ => { s with control := .draining g left false }
  | .ok none => { s with control := .draining g left true }
  | .ok (some r) =>
      match s.requestsIterator, s.submissionId with
      | some (_, it), some id =>
          match handleResponse (fun _ => "") it id r, converted with
          | .ok _, true => { s.put g (.suspended (left - 1)) with control := .idle }
          | _, _ => { s with control := .draining g (left - 1) false }
      -- `submission_id` is `None`: no response is for it
      | _, _ => { s with control := .draining g (left - 1) false }

/-- The end of `request_ready_chunks`. -/
def State.drained (s : State) (g : Nat) (returning : Bool) : State :=
  if returning then { s with control := .advancing g }
  else { s.put g .finished with control := .idle }

/-- A response in the drain. -/
def State.drain (s : State) (g remaining : Nat) (returning : Bool) (r : NativeResponse) : State :=
  match runaiResponse r with
  | .error _ => s.drained g false
  | .ok none => s.drained g returning
  | .ok (some _) => { s with control := .draining g (remaining - 1) returning }

/-- `get_chunks`, on to the next request. -/
def State.advance (s : State) (g : Nat) (outcome : Outcome) : State :=
  match s.requestsIterator with
  | none => { s.put g .finished with control := .idle }
  | some (buffer, it) =>
      let (request, it) := it.nextRequest
      let s' := { s with requestsIterator := some (buffer, it), activeRequest := request }
      match request with
      | none => { s'.put g .finished with control := .idle }
      | some request =>
          s'.submitActiveRequest buffer request (.ready g request.numRanges) s.unserved
            { s'.put g .finished with control := .idle } outcome

/-- The step an action makes, where it is one that can be made. -/
def step (s : State) : Action → Option State
  | .streamFiles env bufferAddress files outcome =>
      if s.control = .idle ∧ s.canSubmit outcome then
        if homogeneousPaths (files.map FileChunks.path) then
          some (s.streamFiles int env bufferAddress files outcome)
        else some s
      else none
  | .getChunks =>
      if s.control = .idle then some { s with generators := s.generators ++ [.created] } else none
  | .next g =>
      if s.control = .idle then
        match s.generators[g]? with
        | none => none
        | some .created =>
            match s.streamer, s.activeRequest with
            | true, some request =>
                some { s.put g .running with
                  control := .ready g request.numRanges, unserved := false }
            | _, _ => some (s.put g .finished)
        | some (.suspended left) => some { s.put g .running with control := .ready g left }
        | some .running => none
        | some .finished => some s
      else none
  | .close g =>
      if s.control = .idle then
        match s.generators[g]? with
        | none => none
        | some .created => some (s.put g .finished)
        | some (.suspended left) =>
            some { s.put g .running with control := .draining g left false }
        | some .running => none
        | some .finished => some s
      else none
  | .exit =>
      -- `runai_end` joins the workers: nothing is written after it
      if s.control = .idle then some { s with streamer := false, native := [] } else none
  | .respond r ofRange converted =>
      if s.canRespond r ofRange then
        match s.control with
        | .ready g (left + 1) => some ((s.responded r ofRange).handle g (left + 1) r converted)
        | .draining g (remaining + 1) returning =>
            if s.streamer then
              some ((s.responded r ofRange).drain g (remaining + 1) returning r)
            else none
        | _ => none
      else none
  | .run outcome =>
      match s.control with
      | .ready g 0 => some { s with control := .draining g 0 true }
      | .draining g remaining returning =>
          if remaining = 0 ∨ s.streamer = false then some (s.drained g returning) else none
      | .advancing g => if s.canSubmit outcome then some (s.advance g outcome) else none
      | _ => none

/-- A `FileStreamer` in use. -/
def streamer : System State Action where
  init s := s = State.entered
  step s a t := step int s a = some t

end Step

/-! ## §3. What is to hold, and when. -/

/-- The submission is the last one made, and the one that `self.submission_id`
names if its id was returned. -/
def Latest (s : State) (sub : Submission) : Prop :=
  (∀ other ∈ s.native, other.id ≤ sub.id) ∧
    (sub.accepted = true → s.submissionId = some sub.id)

/-- **Safe**: a submission that owes responses is the last one made, and
writes into the buffer of the requests iterator at hand. -/
def Safe (s : State) : Prop :=
  ∀ sub ∈ s.native, 0 < sub.owed →
    Latest s sub ∧ s.requestsIterator.map Prod.fst = some sub.buffer

/-- At the `yield`, with ranges left to take. -/
def Generator.waits : Generator → Bool
  | .suspended left => decide (0 < left)
  | _ => false

/-- The submission is served, as its caller can see it: a generator was
started for it, also where its dispatch had failed, and none stands at a
`yield` with ranges left. -/
def Settled (s : State) : Prop :=
  s.unserved = false ∧ ∀ generator ∈ s.generators, generator.waits = false

instance (s : State) : Decidable (Settled s) := inferInstanceAs (Decidable (_ ∧ _))

/-- Nothing is owed. -/
def Quiet (native : List Submission) : Prop := ∀ sub ∈ native, sub.owed = 0

instance (native : List Submission) : Decidable (Quiet native) :=
  inferInstanceAs (Decidable (∀ _ ∈ _, _))

def Control.isDraining : Control → Bool
  | .draining _ _ _ => true
  | _ => false

def Control.isAdvancing : Control → Bool
  | .advancing _ => true
  | _ => false

/-- **The condition**: `stream_files` replaces the iterator, and a generator
goes on to the next request, only when the submission is settled; and what
ends a drain early (FinishedError, a timeout) leaves nothing owed. -/
def Permitted (int : String → Except String Int) (s : State) : Action → Prop
  | .streamFiles env bufferAddress files _ =>
      homogeneousPaths (files.map FileChunks.path) = true →
      (FilesRequestsIteratorWithBuffer.withMemoryMode int env bufferAddress files).isOk = true →
      Settled s
  | .respond r ofRange _ => s.control.isDraining = true →
      r.code = .finishedError ∨ r.code = .timedOut → Quiet (s.responded r ofRange).native
  | .run _ => s.control.isAdvancing = true → Settled s
  | _ => True

instance (int : String → Except String Int) (s : State) (a : Action) :
    Decidable (Permitted int s a) := by
  cases a <;> unfold Permitted <;> infer_instance

end ModelStreamer.FileStreamer.Lifetime
