/-
  ModelStreamer.Delivery.Submissions
  ──────────────────────────────────
  **THE REGISTRY OF SUBMISSIONS** (`impl/submissions/submissions_mgr.cc`) and
  the filter `Streamer::response` puts in front of it.

  The ids are 64-bit, so the space is effectively unbounded: `nextId` is a
  `Nat` here, and the search for an id that is free again after a wrap is
  left out.  The clock, used for logging a throughput, is left out too.
-/
import ModelStreamer.Common.Word
import Mathlib.Logic.Function.Basic

namespace ModelStreamer.Delivery

/-! ## §1. `SubmissionsMgr`. -/

/-- What the registry keeps of a live submission. -/
structure Record where
  remaining : Nat
  totalBytes : Nat
  deriving DecidableEq, Repr

/-- `SubmissionsMgr`: the next id, and the live submissions by id. -/
structure SubmissionsMgr where
  nextId : Nat
  submissions : Nat → Option Record

/-- No submission yet; 0 is reserved. -/
def SubmissionsMgr.new : SubmissionsMgr := ⟨1, fun _ => none⟩

/-- `generate`, its first round.  The ids do not wrap here, so it finds an id
that is neither 0 nor live; the loop that passes these over is
`SubmissionsMgr.search`. -/
def SubmissionsMgr.generate (mgr : SubmissionsMgr) : Nat × SubmissionsMgr :=
  (mgr.nextId, { mgr with nextId := mgr.nextId + 1 })

/-- `add`; a colliding id is a failed `ASSERT`. -/
def SubmissionsMgr.add (mgr : SubmissionsMgr) (submissionId expected totalBytes : Nat) :
    Except Failure SubmissionsMgr :=
  match mgr.submissions submissionId with
  | some _ => .error .assertion
  | none =>
      .ok { mgr with
        submissions := Function.update mgr.submissions submissionId (some ⟨expected, totalBytes⟩) }

/-- `Result::Outcome`, with the bytes of a completed submission. -/
inductive Outcome where
  | pending
  | completed (totalBytes : Nat)
  deriving DecidableEq, Repr

/-- `consume`; an unknown id is a failed `ASSERT`. -/
def SubmissionsMgr.consume (mgr : SubmissionsMgr) (submissionId : Nat) :
    Except Failure (Outcome × SubmissionsMgr) :=
  match mgr.submissions submissionId with
  | none => .error .assertion
  | some record =>
      -- `--remaining == 0`
      if record.remaining = 1 then
        .ok (.completed record.totalBytes,
          { mgr with submissions := Function.update mgr.submissions submissionId none })
      else
        .ok (.pending,
          { mgr with
            submissions := Function.update mgr.submissions submissionId
              (some { record with remaining := decremented record.remaining }) })

/-! ## §2. `Streamer::response`. -/

/-- `common::Response`. -/
structure Response where
  submissionId : Nat
  fileIndex : Nat
  index : Nat
  ret : ResponseCode
  deriving DecidableEq, Repr

/-- The response a queue makes of a bare code. -/
def Response.ofCode (ret : ResponseCode) : Response := ⟨0, 0, 0, ret⟩

/-- `Streamer::consume_submission_response`: was it the last one? -/
def consumeSubmissionResponse (mgr : SubmissionsMgr) (submissionId : Nat) :
    Except Failure (Bool × SubmissionsMgr) :=
  match mgr.consume submissionId with
  | .error e => .error e
  | .ok (.completed _, mgr) => .ok (true, mgr)
  | .ok (.pending, mgr) => .ok (false, mgr)

/-- What consuming a response of a live submission does. -/
theorem consume_live {mgr : SubmissionsMgr} {id : Nat} {record : Record}
    (h : mgr.submissions id = some record) :
    consumeSubmissionResponse mgr id
      = .ok (decide (record.remaining = 1),
          { mgr with
            submissions := Function.update mgr.submissions id
              (if record.remaining = 1 then none
                else some { record with remaining := decremented record.remaining }) }) := by
  rw [consumeSubmissionResponse, SubmissionsMgr.consume, h]
  by_cases hlast : record.remaining = 1
  · simp only [if_pos hlast, decide_eq_true hlast]
  · simp only [if_neg hlast, decide_eq_false hlast]

theorem consume_unknown {mgr : SubmissionsMgr} {id : Nat} (h : mgr.submissions id = none) :
    consumeSubmissionResponse mgr id = .error .assertion := by
  rw [consumeSubmissionResponse, SubmissionsMgr.consume, h]

/-- `Streamer::response`, after its `pop` returned `r`: the value of
`submission_done`. -/
def accountResponse (mgr : SubmissionsMgr) (r : Response) :
    Except Failure (Bool × SubmissionsMgr) :=
  if r.ret ≠ .finishedError ∧ r.ret ≠ .timedOut then consumeSubmissionResponse mgr r.submissionId
  else .ok (false, mgr)

theorem accountResponse_nextId {mgr mgr' : SubmissionsMgr} {r : Response} {done : Bool}
    (h : accountResponse mgr r = .ok (done, mgr')) : mgr'.nextId = mgr.nextId := by
  rw [accountResponse] at h
  split at h
  · cases hget : mgr.submissions r.submissionId with
    | none => simp [consume_unknown hget] at h
    | some record =>
        simp only [consume_live hget, Except.ok.injEq, Prod.mk.injEq] at h
        rw [← h.2]
  · simp only [Except.ok.injEq, Prod.mk.injEq] at h
    rw [h.2]

theorem add_nextId {mgr mgr' : SubmissionsMgr} {id expected bytes : Nat}
    (h : mgr.add id expected bytes = .ok mgr') : mgr'.nextId = mgr.nextId := by
  rw [SubmissionsMgr.add] at h
  split at h
  · simp at h
  · simp only [Except.ok.injEq] at h
    rw [← h]

end ModelStreamer.Delivery
