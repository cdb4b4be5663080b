/-
  ModelStreamer.Clients.SplitRead
  ───────────────────────────────
  **READS SPLIT OVER A THREAD POOL** (`async_read` in `gcs/client/client.cc`
  and `azure/client/client.cc`).

  Both clients cut a range into sub-reads of the chunk size, and answer the
  request from the callbacks of these: the last success pushes `Success`, as
  a counter tells, and the first failure pushes its code, as a flag tells.
  Callbacks run in any order, also while later sub-reads are still being
  issued, and each stops between its atomic operation and its push.

    • `issue_laid` — the loop lays the sub-reads out back to back, in the
      object and in the destination,
    • `called_counted` — a callback keeps the counter, the flag and what is
      pushed in step,
    • `pushed_counted` — and nothing has been pushed before a push,
    • `answeredOnce` — so a call is answered once, and truthfully.
-/
import ModelStreamer.Common.Word

namespace ModelStreamer.Clients

/-! ## §1. The calls. -/

/-- The client at hand; only Azure's may have a cache provider. -/
inductive Sdk where
  | gcs
  | azure (cacheEnabled : Bool)
  deriving DecidableEq, Repr

/-- How many sub-reads a range is read with: `size` there, `num_chunks`
here. -/
def Sdk.numChunks (chunkBytesize length : Nat) : Sdk → Nat
  | .gcs => max 1 (length / chunkBytesize)
  -- the cache provider takes the range as a whole
  | .azure true => 1
  | .azure false => max 1 (length / chunkBytesize)

/-- What the SDK is asked for. -/
structure Piece where
  offset : Nat
  bytesize : Nat
  buffer : Nat
  deriving DecidableEq, Repr

/-- `ReadRange(offset_, offset_ + bytesize_)`, in GCS. -/
def Piece.readRange (p : Piece) : Nat × Nat := (p.offset, wrap (p.offset + p.bytesize))

/-- How far the callback of a sub-read is. -/
inductive Callback where
  | waiting
  /-- The response is its own to push. -/
  | pushing (code : ResponseCode)
  | returned (code : ResponseCode)
  deriving DecidableEq, Repr

/-- The code the callback was called with. -/
def Callback.code : Callback → Option ResponseCode
  | .waiting => none
  | .pushing code => some code
  | .returned code => some code

def Callback.succeeded (c : Callback) : Bool := decide (c.code = some .success)

def Callback.failed (c : Callback) : Bool :=
  match c.code with
  | none => false
  | some code => decide (code ≠ .success)

def Callback.isPushing : Callback → Bool
  | .pushing _ => true
  | _ => false

/-- A call of `async_read`: its arguments, its variables, the sub-reads it
has issued and their callbacks.  History: the codes that were pushed. -/
structure AsyncRead where
  requestId : Nat
  offset : Nat
  length : Nat
  destination : Nat
  numChunks : Nat
  i : Nat
  total_ : Nat
  offset_ : Nat
  buffer_ : Nat
  counter : Nat
  isSuccess : Bool
  pieces : List Piece
  callbacks : List Callback
  answers : List ResponseCode
  deriving DecidableEq, Repr

/-- Up to the loop. -/
def AsyncRead.start (sdk : Sdk) (chunkBytesize requestId offset length destination : Nat) :
    AsyncRead where
  requestId := requestId
  offset := offset
  length := length
  destination := destination
  numChunks := sdk.numChunks chunkBytesize length
  i := 0
  total_ := length
  offset_ := offset
  buffer_ := destination
  counter := sdk.numChunks chunkBytesize length
  isSuccess := true
  pieces := []
  callbacks := []
  answers := []

/-- The body of the loop. -/
def AsyncRead.issue (chunkBytesize : Nat) (r : AsyncRead) : AsyncRead :=
  -- the last sub-read takes what the others leave
  let bytesize_ := if r.i = r.numChunks - 1 then r.total_ else chunkBytesize
  { r with
    i := r.i + 1
    total_ := r.total_ - bytesize_
    offset_ := wrap (r.offset_ + bytesize_)
    buffer_ := wrap (r.buffer_ + bytesize_)
    pieces := r.pieces ++ [⟨r.offset_, bytesize_, r.buffer_⟩]
    callbacks := r.callbacks ++ [.waiting] }

/-- A callback, up to its push: `fetch_sub` on the counter after a success,
`exchange` on the flag after a failure. -/
def AsyncRead.called (r : AsyncRead) (k : Nat) (code : ResponseCode) : AsyncRead :=
  if code = .success then
    -- `fetch_sub` returns what was there: 1 to the last success
    { r with
      counter := decremented r.counter
      callbacks := r.callbacks.set k (if r.counter = 1 then .pushing code else .returned code) }
  else
    -- `exchange` too: true to the first failure
    { r with
      isSuccess := false
      callbacks := r.callbacks.set k (if r.isSuccess then .pushing code else .returned code) }

/-- The push, and the rest of the callback. -/
def AsyncRead.pushed (r : AsyncRead) (k : Nat) (code : ResponseCode) : AsyncRead :=
  { r with
    callbacks := r.callbacks.set k (.returned code)
    answers := r.answers ++ [code] }

/-- The loop is over. -/
def AsyncRead.issued (r : AsyncRead) : Prop := r.i = r.numChunks

/-- So are all callbacks. -/
def AsyncRead.finished (r : AsyncRead) : Prop :=
  r.issued ∧ ∀ c ∈ r.callbacks, ∃ code, c = .returned code

def AsyncRead.unanswered (r : AsyncRead) : Bool := r.answers.isEmpty

/-! ## §2. The layout. -/

/-- The bytes of some sub-reads. -/
def bytesOf (pieces : List Piece) : Nat := (pieces.map Piece.bytesize).sum

/-- **The sub-reads lie back to back**, from the start of the range on in the
object and from the destination on in memory. -/
def Placed (offset destination : Nat) (pieces : List Piece) : Prop :=
  ∀ k p, pieces[k]? = some p → 1 ≤ p.bytesize ∧
    p.offset = wrap (offset + bytesOf (pieces.take k)) ∧
    p.buffer = wrap (destination + bytesOf (pieces.take k)) ∧
    p.readRange.2 = wrap (offset + bytesOf (pieces.take (k + 1)))

theorem bytesOf_append (xs ys : List Piece) : bytesOf (xs ++ ys) = bytesOf xs + bytesOf ys := by
  unfold bytesOf
  rw [List.map_append, List.sum_append]

theorem bytesOf_snoc (pieces : List Piece) (p : Piece) :
    bytesOf (pieces ++ [p]) = bytesOf pieces + p.bytesize := by
  rw [bytesOf_append]
  rfl

theorem Placed.snoc {offset destination : Nat} {pieces : List Piece}
    (h : Placed offset destination pieces) {p : Piece} (hpos : 1 ≤ p.bytesize)
    (hoffset : p.offset = wrap (offset + bytesOf pieces))
    (hbuffer : p.buffer = wrap (destination + bytesOf pieces)) :
    Placed offset destination (pieces ++ [p]) := by
  intro k q hk
  rcases Nat.lt_trichotomy k pieces.length with hlt | rfl | hgt
  · rw [List.getElem?_append_left hlt] at hk
    obtain ⟨hq, hqo, hqb, hqe⟩ := h k q hk
    rw [List.take_append_of_le_length (by omega), List.take_append_of_le_length (by omega)]
    exact ⟨hq, hqo, hqb, hqe⟩
  · rw [List.getElem?_append_right (Nat.le_refl _), Nat.sub_self] at hk
    obtain rfl : p = q := by simpa using hk
    rw [List.take_append_of_le_length (Nat.le_refl _), List.take_length,
      List.take_of_length_le (by simp), bytesOf_snoc]
    refine ⟨hpos, hoffset, hbuffer, ?_⟩
    show wrap (p.offset + p.bytesize) = _
    rw [hoffset, wrap_wrap_add, Nat.add_assoc]
  · rw [List.getElem?_eq_none (by simp; omega)] at hk
    simp at hk

/-- Where the loop stands. -/
structure Laid (chunkBytesize : Nat) (r : AsyncRead) : Prop where
  one_le : 1 ≤ r.numChunks
  i_le : r.i ≤ r.numChunks
  before_last : (r.numChunks - 1) * chunkBytesize < r.length
  length_lt : r.length < 2 ^ 64
  count : r.pieces.length = r.i
  placed : Placed r.offset r.destination r.pieces
  running : r.i < r.numChunks → bytesOf r.pieces = r.i * chunkBytesize ∧
    r.total_ = r.length - r.i * chunkBytesize ∧
    r.offset_ = wrap (r.offset + bytesOf r.pieces) ∧
    r.buffer_ = wrap (r.destination + bytesOf r.pieces)
  complete : r.issued → bytesOf r.pieces = r.length

/-- Callbacks do not touch what is laid out. -/
theorem Laid.callback {chunkBytesize : Nat} {r : AsyncRead} (h : Laid chunkBytesize r)
    (counter : Nat) (flag : Bool) (callbacks : List Callback) (answers : List ResponseCode) :
    Laid chunkBytesize { r with
      counter := counter, isSuccess := flag, callbacks := callbacks, answers := answers } :=
  ⟨h.one_le, h.i_le, h.before_last, h.length_lt, h.count, h.placed, h.running, h.complete⟩

theorem start_laid (sdk : Sdk) {chunkBytesize requestId offset length destination : Nat}
    (hlength : 1 ≤ length) (hword : length < 2 ^ 64) (hoffset : offset < 2 ^ 64)
    (hdestination : destination < 2 ^ 64) :
    Laid chunkBytesize (.start sdk chunkBytesize requestId offset length destination) := by
  -- all but the last chunk are shorter than the range
  have hmax : (max 1 (length / chunkBytesize) - 1) * chunkBytesize < length := by
    have hdiv := Nat.div_mul_le_self length chunkBytesize
    rcases Nat.lt_or_ge (length / chunkBytesize) 2 with hlt | hge
    · rw [show max 1 (length / chunkBytesize) - 1 = 0 by omega]
      omega
    · rw [show max 1 (length / chunkBytesize) - 1 = length / chunkBytesize - 1 by omega,
        Nat.sub_mul]
      have hpos : 0 < chunkBytesize := by
        rcases Nat.eq_zero_or_pos chunkBytesize with rfl | hpos
        · simp at hge
        · exact hpos
      omega
  have hcut : 1 ≤ sdk.numChunks chunkBytesize length ∧
      (sdk.numChunks chunkBytesize length - 1) * chunkBytesize < length := by
    cases sdk with
    | gcs => exact ⟨Nat.le_max_left _ _, hmax⟩
    | azure cacheEnabled =>
        cases cacheEnabled with
        | true => exact ⟨Nat.le_refl 1, by show 0 * chunkBytesize < length; omega⟩
        | false => exact ⟨Nat.le_max_left _ _, hmax⟩
  refine ⟨hcut.1, Nat.zero_le _, hcut.2, hword, rfl, ?_, fun _ => ⟨?_, ?_, ?_, ?_⟩, fun h => ?_⟩
  · intro k p hk
    simp [AsyncRead.start] at hk
  · show 0 = 0 * chunkBytesize
    omega
  · show length = length - 0 * chunkBytesize
    omega
  · exact (wrap_of_lt hoffset).symm
  · exact (wrap_of_lt hdestination).symm
  · have hzero : 0 = sdk.numChunks chunkBytesize length := h
    omega

/-- **One iteration** lays one more sub-read. -/
theorem issue_laid {chunkBytesize : Nat} (hchunk : 1 ≤ chunkBytesize) {r : AsyncRead}
    (h : Laid chunkBytesize r) (hi : r.i < r.numChunks) : Laid chunkBytesize (r.issue chunkBytesize) := by
  obtain ⟨hbytes, htotal, hoffset, hbuffer⟩ := h.running hi
  have hlength := h.before_last
  -- the last sub-read takes the rest, and there is some
  have hsplit : 1 ≤ (if r.i = r.numChunks - 1 then r.total_ else chunkBytesize) ∧
      (r.i + 1 = r.numChunks →
        bytesOf r.pieces + (if r.i = r.numChunks - 1 then r.total_ else chunkBytesize) = r.length) ∧
      (r.i + 1 < r.numChunks →
        (if r.i = r.numChunks - 1 then r.total_ else chunkBytesize) = chunkBytesize) := by
    by_cases hlast : r.i = r.numChunks - 1
    · rw [if_pos hlast]
      rw [← hlast] at hlength
      exact ⟨by omega, fun _ => by omega, fun hlt => by omega⟩
    · rw [if_neg hlast]
      exact ⟨hchunk, fun heq => by omega, fun _ => rfl⟩
  obtain ⟨hpos, hfull, hmiddle⟩ := hsplit
  refine ⟨h.one_le, hi, h.before_last, h.length_lt, ?_, ?_, fun hlt => ?_, fun hdone => ?_⟩
  · show (r.pieces ++ [_]).length = r.i + 1
    rw [List.length_append, h.count]
    rfl
  · exact h.placed.snoc hpos hoffset hbuffer
  · have hlt : r.i + 1 < r.numChunks := hlt
    have hsum : bytesOf r.pieces + chunkBytesize = (r.i + 1) * chunkBytesize := by
      rw [hbytes, Nat.add_mul, Nat.one_mul]
    show bytesOf (r.pieces ++ [_]) = (r.i + 1) * chunkBytesize ∧
      r.total_ - _ = r.length - (r.i + 1) * chunkBytesize ∧
      wrap (r.offset_ + _) = wrap (r.offset + bytesOf (r.pieces ++ [_])) ∧
      wrap (r.buffer_ + _) = wrap (r.destination + bytesOf (r.pieces ++ [_]))
    rw [bytesOf_snoc, hmiddle hlt, hoffset, hbuffer, wrap_wrap_add, wrap_wrap_add, Nat.add_assoc,
      Nat.add_assoc]
    exact ⟨hsum, by rw [htotal, ← hsum, hbytes]; omega, rfl, rfl⟩
  · show bytesOf (r.pieces ++ [_]) = r.length
    rw [bytesOf_snoc]
    exact hfull hdone

/-! ## §3. The callbacks. -/

def AsyncRead.successes (r : AsyncRead) : Nat := r.callbacks.countP Callback.succeeded

def AsyncRead.failures (r : AsyncRead) : Nat := r.callbacks.countP Callback.failed

def AsyncRead.pushes (r : AsyncRead) : Nat := r.callbacks.countP Callback.isPushing

/-- What the request is answered with, or will be. -/
def AsyncRead.Owes (r : AsyncRead) (code : ResponseCode) : Prop :=
  code ∈ r.answers ∨ .pushing code ∈ r.callbacks

/-- Where the callbacks stand: the counter counts the successes down, the
flag tells of failures, and one response is pushed or owed as soon as there
is a failure, or nothing but successes. -/
structure Counted (r : AsyncRead) : Prop where
  one_le : 1 ≤ r.numChunks
  lt : r.numChunks < 2 ^ 32
  count : r.callbacks.length ≤ r.numChunks
  counter : r.counter + r.successes = r.numChunks
  flag : r.isSuccess = true ↔ r.failures = 0
  none_yet : r.failures = 0 → r.successes < r.numChunks → r.pushes + r.answers.length = 0
  one : r.failures ≠ 0 ∨ r.successes = r.numChunks → r.pushes + r.answers.length = 1
  success : r.Owes .success → r.successes = r.numChunks
  failure : ∀ code, r.Owes code → code ≠ .success → ∃ c ∈ r.callbacks, c.code = some code

theorem start_counted (sdk : Sdk) {chunkBytesize requestId offset length destination : Nat}
    (hone : 1 ≤ sdk.numChunks chunkBytesize length)
    (hlt : sdk.numChunks chunkBytesize length < 2 ^ 32) :
    Counted (.start sdk chunkBytesize requestId offset length destination) := by
  refine ⟨hone, hlt, Nat.zero_le _, rfl, ⟨fun _ => rfl, fun _ => rfl⟩, fun _ _ => rfl, ?_, ?_, ?_⟩
  · rintro (h | h)
    · exact absurd rfl h
    · have hzero : 0 = sdk.numChunks chunkBytesize length := h
      omega
  · rintro (h | h) <;> exact absurd h List.not_mem_nil
  · rintro code (h | h) _ <;> exact absurd h List.not_mem_nil

/-- A callback that still waits counts for nothing. -/
theorem countP_waiting {p : Callback → Bool} (hp : p .waiting = false) (callbacks : List Callback) :
    (callbacks ++ [Callback.waiting]).countP p = callbacks.countP p := by
  rw [List.countP_append, List.countP_singleton, hp]
  rfl

theorem issue_counted {chunkBytesize : Nat} {r : AsyncRead} (h : Counted r)
    (hcount : r.callbacks.length < r.numChunks) : Counted (r.issue chunkBytesize) := by
  have hsuccesses : (r.issue chunkBytesize).successes = r.successes := countP_waiting rfl _
  have hfailures : (r.issue chunkBytesize).failures = r.failures := countP_waiting rfl _
  have hpushes : (r.issue chunkBytesize).pushes = r.pushes := countP_waiting rfl _
  have howes : ∀ {code}, (r.issue chunkBytesize).Owes code → r.Owes code := by
    rintro code (hanswer | hpush)
    · exact .inl hanswer
    · rcases List.mem_append.mp hpush with hpush | hwait
      · exact .inr hpush
      · simp at hwait
  refine ⟨h.one_le, h.lt, ?_, ?_, ?_, ?_, ?_, fun hs => ?_, fun code hs hne => ?_⟩
  · show (r.callbacks ++ [Callback.waiting]).length ≤ r.numChunks
    rw [List.length_append]
    exact hcount
  · rw [hsuccesses]
    exact h.counter
  · rw [hfailures]
    exact h.flag
  · rw [hpushes, hfailures, hsuccesses]
    exact h.none_yet
  · rw [hpushes, hfailures, hsuccesses]
    exact h.one
  · rw [hsuccesses]
    exact h.success (howes hs)
  · obtain ⟨c, hc, hcode⟩ := h.failure code (howes hs) hne
    exact ⟨c, List.mem_append_left _ hc, hcode⟩

/-- One element of a list changes. -/
theorem countP_set_eq {α : Type} {xs : List α} {k : Nat} {old : α} {p : α → Bool}
    (hk : xs[k]? = some old) (new : α) :
    (xs.set k new).countP p + (if p old then 1 else 0)
      = xs.countP p + (if p new then 1 else 0) := by
  obtain ⟨hlt, hat⟩ := List.getElem?_eq_some_iff.mp hk
  have hle : (if p old then 1 else 0) ≤ xs.countP p := by
    split
    next hp => exact List.countP_pos_iff.mpr ⟨old, List.mem_of_getElem? hk, hp⟩
    next => exact Nat.zero_le _
  rw [List.countP_set hlt, hat]
  omega

section SetCallback

variable {callbacks : List Callback} {k : Nat} {old : Callback}

/-- A callback that waited counts for what it does now. -/
theorem countP_set_waiting {p : Callback → Bool} (hp : p .waiting = false)
    (hk : callbacks[k]? = some .waiting) (new : Callback) :
    (callbacks.set k new).countP p = callbacks.countP p + (if p new then 1 else 0) := by
  have h := countP_set_eq (p := p) hk new
  rw [hp] at h
  exact h

/-- The callbacks that succeeded, that failed, and at least one that waits. -/
theorem counts_lt (hk : callbacks[k]? = some .waiting) :
    callbacks.countP Callback.succeeded + callbacks.countP Callback.failed < callbacks.length := by
  have hall : ∀ cs : List Callback,
      cs.countP Callback.succeeded + cs.countP Callback.failed
        + cs.countP (fun c => decide (c = .waiting)) = cs.length := by
    intro cs
    induction cs with
    | nil => rfl
    | cons c cs ih =>
        simp only [List.countP_cons, List.length_cons]
        cases c with
        | waiting => simp [Callback.succeeded, Callback.failed, Callback.code]; omega
        | pushing code =>
            by_cases hcode : code = .success <;>
              simp [Callback.succeeded, Callback.failed, Callback.code, hcode] <;> omega
        | returned code =>
            by_cases hcode : code = .success <;>
              simp [Callback.succeeded, Callback.failed, Callback.code, hcode] <;> omega
  have hwait : 0 < callbacks.countP (fun c => decide (c = .waiting)) :=
    List.countP_pos_iff.mpr ⟨.waiting, List.mem_of_getElem? hk, by simp⟩
  have := hall callbacks
  omega

/-- A callback keeps the code it was called with. -/
theorem code_mem_set (hk : callbacks[k]? = some old) {new : Callback} {code : ResponseCode}
    (hcode : old.code = none ∨ new.code = old.code)
    (h : ∃ c ∈ callbacks, c.code = some code) : ∃ c ∈ callbacks.set k new, c.code = some code := by
  obtain ⟨c, hc, hcc⟩ := h
  obtain ⟨j, hj⟩ := List.getElem?_of_mem hc
  obtain ⟨hlt, -⟩ := List.getElem?_eq_some_iff.mp hk
  by_cases hjk : j = k
  · subst hjk
    obtain rfl : old = c := Option.some.inj (hk.symm.trans hj)
    rcases hcode with hnone | hsame
    · rw [hnone] at hcc
      simp at hcc
    · exact ⟨new, List.mem_set hlt new, hsame.trans hcc⟩
  · refine ⟨c, List.mem_of_getElem? (i := j) ?_, hcc⟩
    rw [List.getElem?_set_ne (Ne.symm hjk)]
    exact hj

end SetCallback

/-- The callback finds that the response is its own to push. -/
def AsyncRead.Chosen (r : AsyncRead) (code : ResponseCode) : Prop :=
  if code = .success then r.counter = 1 else r.isSuccess = true

section Called

variable {r : AsyncRead} {k : Nat} {code : ResponseCode}

/-- **What a callback does**: it leaves the layout and the answers alone, and
goes on to push if it is chosen. -/
theorem called_eq (r : AsyncRead) (k : Nat) (code : ResponseCode) :
    ∃ counter flag new, r.called k code = { r with
        counter := counter
        isSuccess := flag
        callbacks := r.callbacks.set k new } ∧
      (r.Chosen code ∧ new = .pushing code ∨ ¬ r.Chosen code ∧ new = .returned code) := by
  unfold AsyncRead.called AsyncRead.Chosen
  by_cases hcode : code = .success
  · simp only [if_pos hcode]
    refine ⟨_, _, _, rfl, ?_⟩
    by_cases hlast : r.counter = 1
    · exact .inl ⟨hlast, if_pos hlast⟩
    · exact .inr ⟨hlast, if_neg hlast⟩
  · simp only [if_neg hcode]
    refine ⟨_, _, _, rfl, ?_⟩
    by_cases hflag : r.isSuccess = true
    · exact .inl ⟨hflag, if_pos hflag⟩
    · exact .inr ⟨hflag, if_neg hflag⟩

/-- How the counts change. -/
theorem called_counts (hk : r.callbacks[k]? = some .waiting) :
    (r.called k code).successes = r.successes + (if code = .success then 1 else 0) ∧
      (r.called k code).failures = r.failures + (if code = .success then 0 else 1) ∧
      (r.Chosen code → (r.called k code).pushes = r.pushes + 1) ∧
      (¬ r.Chosen code → (r.called k code).pushes = r.pushes) := by
  obtain ⟨counter, flag, new, hcalled, hnew⟩ := called_eq r k code
  have hcode : new.code = some code := by
    rcases hnew with ⟨-, rfl⟩ | ⟨-, rfl⟩ <;> rfl
  rw [hcalled]
  refine ⟨?_, ?_, fun hchosen => ?_, fun hnot => ?_⟩
  · show (r.callbacks.set k new).countP Callback.succeeded = _
    rw [countP_set_waiting (by rfl) hk, Callback.succeeded, hcode]
    simp [AsyncRead.successes]
  · show (r.callbacks.set k new).countP Callback.failed = _
    rw [countP_set_waiting (by rfl) hk]
    simp [AsyncRead.failures, Callback.failed, hcode]
  · show (r.callbacks.set k new).countP Callback.isPushing = _
    obtain ⟨-, rfl⟩ := hnew.resolve_right (fun h => h.1 hchosen)
    exact countP_set_waiting (by rfl) hk _
  · show (r.callbacks.set k new).countP Callback.isPushing = _
    obtain ⟨-, rfl⟩ := hnew.resolve_left (fun h => hnot h.1)
    exact countP_set_waiting (by rfl) hk _

/-- A chosen callback owes its own code. -/
theorem called_owes {other : ResponseCode} (h : (r.called k code).Owes other) :
    r.Owes other ∨ (other = code ∧ r.Chosen code) := by
  obtain ⟨counter, flag, new, hcalled, hnew⟩ := called_eq r k code
  rw [hcalled] at h
  rcases h with hanswer | hpush
  · exact .inl (.inl hanswer)
  · rcases List.mem_or_eq_of_mem_set hpush with hold | heq
    · exact .inl (.inr hold)
    · rcases hnew with ⟨hchosen, rfl⟩ | ⟨-, rfl⟩
      · exact .inr ⟨by simpa using heq, hchosen⟩
      · simp at heq

/-- The codes the callbacks were called with, and the new one. -/
theorem called_codes (hk : r.callbacks[k]? = some .waiting) :
    (∃ c ∈ (r.called k code).callbacks, c.code = some code) ∧
      ∀ other, (∃ c ∈ r.callbacks, c.code = some other) →
        ∃ c ∈ (r.called k code).callbacks, c.code = some other := by
  obtain ⟨counter, flag, new, hcalled, hnew⟩ := called_eq r k code
  obtain ⟨hlt, -⟩ := List.getElem?_eq_some_iff.mp hk
  have hcode : new.code = some code := by
    rcases hnew with ⟨-, rfl⟩ | ⟨-, rfl⟩ <;> rfl
  rw [hcalled]
  exact ⟨⟨new, List.mem_set hlt new, hcode⟩, fun other => code_mem_set hk (.inl rfl)⟩

theorem called_length : (r.called k code).callbacks.length = r.callbacks.length := by
  obtain ⟨counter, flag, new, hcalled, -⟩ := called_eq r k code
  rw [hcalled]
  exact List.length_set

/-- **A sub-read succeeds**: the one that takes the counter down from 1 is
the last of all. -/
theorem called_success_counted (h : Counted r) (hk : r.callbacks[k]? = some .waiting) :
    Counted (r.called k .success) := by
  have hcalled : r.called k .success = { r with
      counter := decremented r.counter
      callbacks := r.callbacks.set k (if r.counter = 1 then .pushing .success
        else .returned .success) } := if_pos rfl
  obtain ⟨hsuccesses, hfailures, hchosen, hnot⟩ := @called_counts r k .success hk
  have hchosen : r.counter = 1 → (r.called k .success).pushes = r.pushes + 1 := hchosen
  have hnot : r.counter ≠ 1 → (r.called k .success).pushes = r.pushes := hnot
  rw [if_pos rfl] at hsuccesses hfailures
  have hsum : r.successes + r.failures < r.numChunks :=
    Nat.lt_of_lt_of_le (counts_lt hk) h.count
  have hcounter := h.counter
  have hword := h.lt
  have hsize : (r.called k .success).numChunks = r.numChunks := by rw [hcalled]
  have hanswers : (r.called k .success).answers = r.answers := by rw [hcalled]
  refine ⟨by rw [hsize]; exact h.one_le, by rw [hsize]; exact h.lt, ?_, ?_, ?_,
    fun hnone hmore => ?_, fun howed => ?_, fun howes => ?_, fun other howes hne => ?_⟩
  · rw [called_length, hsize]
    exact h.count
  · rw [hsuccesses, hcalled]
    show decremented r.counter + (r.successes + 1) = r.numChunks
    rw [decremented_eq (by omega) (by omega)]
    omega
  · rw [hfailures, hcalled]
    exact h.flag
  · have hyet := h.none_yet (by omega) (by omega)
    rw [hanswers, hnot (by omega)]
    exact hyet
  · rw [hanswers]
    by_cases hlast : r.counter = 1
    · -- all the others have succeeded, so nothing has been pushed
      have hyet := h.none_yet (by omega) (by omega)
      rw [hchosen hlast]
      omega
    · have hone := h.one (.inl (by omega))
      rw [hnot hlast]
      exact hone
  · rcases called_owes howes with hold | ⟨-, hlast⟩
    · have := h.success hold
      omega
    · have hlast : r.counter = 1 := hlast
      omega
  · rcases called_owes howes with hold | ⟨heq, -⟩
    · exact (called_codes hk).2 other (h.failure other hold hne)
    · exact absurd heq hne

/-- **A sub-read fails**: the one that lowers the flag is the first. -/
theorem called_failure_counted (h : Counted r) (hcode : code ≠ .success)
    (hk : r.callbacks[k]? = some .waiting) : Counted (r.called k code) := by
  have hcalled : r.called k code = { r with
      isSuccess := false
      callbacks := r.callbacks.set k (if r.isSuccess then .pushing code else .returned code) } :=
    if_neg hcode
  obtain ⟨hsuccesses, hfailures, hchosen, hnot⟩ := @called_counts r k code hk
  unfold AsyncRead.Chosen at hchosen hnot
  rw [if_neg hcode] at hsuccesses hfailures hchosen hnot
  have hsum : r.successes + r.failures < r.numChunks :=
    Nat.lt_of_lt_of_le (counts_lt hk) h.count
  have hrest : r.successes < r.numChunks := by omega
  have hsize : (r.called k code).numChunks = r.numChunks := by rw [hcalled]
  have hanswers : (r.called k code).answers = r.answers := by rw [hcalled]
  refine ⟨by rw [hsize]; exact h.one_le, by rw [hsize]; exact h.lt, ?_, ?_, ?_,
    fun hnone => ?_, fun _ => ?_, fun howes => ?_, fun other howes hne => ?_⟩
  · rw [called_length, hsize]
    exact h.count
  · rw [hsuccesses, hcalled]
    exact h.counter
  · rw [hfailures, hcalled]
    exact ⟨fun hs => by simp at hs, fun hs => by omega⟩
  · omega
  · rw [hanswers]
    by_cases hflag : r.isSuccess = true
    · have hyet := h.none_yet (h.flag.mp hflag) hrest
      rw [hchosen hflag]
      omega
    · -- an earlier failure answers for the request
      have hone := h.one (.inl (fun hzero => hflag (h.flag.mpr hzero)))
      rw [hnot hflag]
      exact hone
  · rcases called_owes howes with hold | ⟨heq, -⟩
    · have := h.success hold
      omega
    · exact absurd heq.symm hcode
  · rcases called_owes howes with hold | ⟨rfl, -⟩
    · exact (called_codes hk).2 other (h.failure other hold hne)
    · exact (called_codes hk).1

end Called

theorem called_counted {r : AsyncRead} (h : Counted r) {k : Nat} (code : ResponseCode)
    (hk : r.callbacks[k]? = some .waiting) : Counted (r.called k code) := by
  by_cases hcode : code = .success
  · subst hcode
    exact called_success_counted h hk
  · exact called_failure_counted h hcode hk

/-- **The push**: nothing has been pushed before. -/
theorem pushed_counted {r : AsyncRead} (h : Counted r) {k : Nat} {code : ResponseCode}
    (hk : r.callbacks[k]? = some (.pushing code)) :
    Counted (r.pushed k code) ∧ r.answers = [] := by
  have hsuccesses : (r.pushed k code).successes = r.successes := by
    have := countP_set_eq (p := Callback.succeeded) hk (.returned code)
    exact Nat.add_right_cancel this
  have hfailures : (r.pushed k code).failures = r.failures := by
    have := countP_set_eq (p := Callback.failed) hk (.returned code)
    exact Nat.add_right_cancel this
  have hpushes : (r.pushed k code).pushes + 1 = r.pushes :=
    countP_set_eq (p := Callback.isPushing) hk (.returned code)
  have howes : ∀ {other}, (r.pushed k code).Owes other → r.Owes other := by
    rintro other (hanswer | hpush)
    · rcases List.mem_append.mp hanswer with hanswer | hnew
      · exact .inl hanswer
      · obtain rfl := List.mem_singleton.mp hnew
        exact .inr (List.mem_of_getElem? hk)
    · rcases List.mem_or_eq_of_mem_set hpush with hold | heq
      · exact .inr hold
      · simp at heq
  have hpushing : 1 ≤ r.pushes := by omega
  have hanswers : r.answers.length = 0 := by
    by_cases howed : r.failures ≠ 0 ∨ r.successes = r.numChunks
    · have := h.one howed
      omega
    · have hcounter := h.counter
      have := h.none_yet (by omega) (by omega)
      omega
  refine ⟨⟨h.one_le, h.lt, ?_, ?_, ?_, ?_, ?_, fun hs => ?_, fun other hs hne => ?_⟩, ?_⟩
  · show (r.callbacks.set k _).length ≤ r.numChunks
    rw [List.length_set]
    exact h.count
  · rw [hsuccesses]
    exact h.counter
  · rw [hfailures]
    exact h.flag
  · rw [hfailures, hsuccesses]
    intro hnone hmore
    have := h.none_yet hnone hmore
    omega
  · rw [hfailures, hsuccesses]
    intro howed
    have hone := h.one howed
    show _ + (r.answers ++ [code]).length = 1
    rw [List.length_append, List.length_singleton]
    omega
  · rw [hsuccesses]
    exact h.success (howes hs)
  · exact code_mem_set hk (.inr rfl) (h.failure other (howes hs) hne)
  · exact List.length_eq_zero_iff.mp hanswers

/-! ## §4. One call. -/

/-- **What comes of one call**: its sub-reads lie back to back and, once all
are issued, make up the range; it is answered at most once, and just once
when all callbacks have returned; with `Success` only after every sub-read
has succeeded, and with the code of a failed one otherwise. -/
structure AnsweredOnce (r : AsyncRead) : Prop where
  placed : Placed r.offset r.destination r.pieces
  tiles : r.issued → bytesOf r.pieces = r.length
  callbacks : r.callbacks.length = r.pieces.length
  at_most_once : r.answers.length ≤ 1
  exactly_once : r.finished → r.answers.length = 1
  success : .success ∈ r.answers → r.issued ∧ ∀ c ∈ r.callbacks, c.code = some .success
  success_iff : r.finished →
    (r.answers = [.success] ↔ ∀ c ∈ r.callbacks, c.code = some .success)
  failure : ∀ code ∈ r.answers, code ≠ .success → ∃ c ∈ r.callbacks, c.code = some code

section Answered

variable {chunkBytesize : Nat} {r : AsyncRead}

/-- All succeeded when as many did as there are to be. -/
theorem all_succeeded (hlaid : Laid chunkBytesize r) (hlen : r.callbacks.length = r.pieces.length)
    (hall : r.successes = r.numChunks) :
    r.issued ∧ ∀ c ∈ r.callbacks, c.code = some .success := by
  have hle : r.successes ≤ r.callbacks.length := List.countP_le_length
  have hcount := hlaid.count
  have hi := hlaid.i_le
  have hfull : r.callbacks.countP Callback.succeeded = r.callbacks.length := by
    show r.successes = _
    omega
  refine ⟨by show r.i = r.numChunks; omega, fun c hc => ?_⟩
  simpa [Callback.succeeded] using List.countP_eq_length.mp hfull c hc

/-- Every callback that has returned counts as a success or as a failure. -/
theorem settled {callbacks : List Callback} (h : ∀ c ∈ callbacks, ∃ code, c = .returned code) :
    callbacks.countP Callback.succeeded + callbacks.countP Callback.failed = callbacks.length ∧
      callbacks.countP Callback.isPushing = 0 := by
  induction callbacks with
  | nil => exact ⟨rfl, rfl⟩
  | cons c callbacks ih =>
      obtain ⟨hsum, hnone⟩ := ih (fun c hc => h c (List.mem_cons_of_mem _ hc))
      obtain ⟨code, rfl⟩ := h c List.mem_cons_self
      simp only [List.countP_cons, List.length_cons]
      by_cases hcode : code = .success <;>
        simp [Callback.succeeded, Callback.failed, Callback.isPushing, Callback.code, hcode, hnone]
          <;> omega

theorem answeredOnce (hlaid : Laid chunkBytesize r) (hcounted : Counted r)
    (hlen : r.callbacks.length = r.pieces.length) : AnsweredOnce r := by
  have hcount := hlaid.count
  have hcounter := hcounted.counter
  have hmost : r.pushes + r.answers.length ≤ 1 := by
    by_cases howed : r.failures ≠ 0 ∨ r.successes = r.numChunks
    · exact Nat.le_of_eq (hcounted.one howed)
    · have := hcounted.none_yet (by omega) (by omega)
      omega
  have hsuccess : .success ∈ r.answers → r.issued ∧ ∀ c ∈ r.callbacks, c.code = some .success :=
    fun hmem => all_succeeded hlaid hlen (hcounted.success (.inl hmem))
  have hfinished : r.finished → r.answers.length = 1 := by
    rintro ⟨hissued, hreturned⟩
    obtain ⟨hsum, hnone⟩ := settled hreturned
    have hissued : r.i = r.numChunks := hissued
    have hsum : r.successes + r.failures = r.callbacks.length := hsum
    have hnone : r.pushes = 0 := hnone
    have hone := hcounted.one (by omega)
    omega
  refine ⟨hlaid.placed, hlaid.complete, hlen, by omega, hfinished, hsuccess, fun hdone => ?_,
    fun code hcode hne => hcounted.failure code (.inl hcode) hne⟩
  obtain ⟨code, hanswers⟩ := List.length_eq_one_iff.mp (hfinished hdone)
  constructor
  · intro heq
    exact (hsuccess (by rw [heq]; exact List.mem_singleton.mpr rfl)).2
  · intro hall
    rw [hanswers]
    by_contra hne
    -- a failure would have to be one of some sub-read
    have hmem : code ∈ r.answers := by
      rw [hanswers]
      exact List.mem_singleton.mpr rfl
    obtain ⟨c, hc, hcode⟩ := hcounted.failure code (.inl hmem) (fun heq => hne (by rw [heq]))
    rw [hall c hc] at hcode
    exact hne (by rw [Option.some.inj hcode])

end Answered

end ModelStreamer.Clients
