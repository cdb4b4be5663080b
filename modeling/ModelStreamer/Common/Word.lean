/-
  ModelStreamer.Common.Word
  ─────────────────────────
  **`size_t` ARITHMETIC AND ERROR CODES.**

  File offsets, sizes and addresses are 64-bit words.  They are `Nat`s
  below `2 ^ 64` here, and `wrap` is applied wherever the C++ addition can
  leave that range (file offsets and pointers, which the caller chooses).
  Counters bounded by an input word or by a container's length stay
  plain `Nat`s.

  `ResponseCode` is `common::ResponseCode`; `Failure` is what escapes a C++
  function: a typed `common::Exception`, or a failed `ASSERT`.
-/
import Mathlib.Algebra.Ring.Nat

namespace ModelStreamer

/-! ## §1. Wrapping words. -/

/-- Reduce to a 64-bit word. -/
def wrap (n : Nat) : Nat := n % 2 ^ 64

theorem zero_lt_word : 0 < 2 ^ 64 := by omega

theorem one_lt_word : 1 < 2 ^ 64 := by omega

theorem two_lt_word : 2 < 2 ^ 64 := by omega

/-- The last word is one. -/
theorem last_lt_word : 2 ^ 64 - 1 < 2 ^ 64 := by omega

theorem wrap_lt (n : Nat) : wrap n < 2 ^ 64 := by
  unfold wrap
  omega

theorem wrap_of_lt {n : Nat} (h : n < 2 ^ 64) : wrap n = n := by
  unfold wrap
  omega

@[simp] theorem wrap_wrap_add (a b : Nat) : wrap (wrap a + b) = wrap (a + b) := by
  unfold wrap
  omega

/-- Wrapping subtraction of words. -/
def wrapSub (a b : Nat) : Nat := (a + 2 ^ 64 - b) % 2 ^ 64

/-- Moving a word forward by `d` is at wrapping distance `d`. -/
theorem wrapSub_wrap_add {a d : Nat} (ha : a < 2 ^ 64) (hd : d < 2 ^ 64) :
    wrapSub (wrap (a + d)) a = d := by
  unfold wrapSub wrap
  omega

/-- `--n`, on an `unsigned`. -/
def decremented (n : Nat) : Nat := (n + (2 ^ 32 - 1)) % 2 ^ 32

theorem decremented_eq {n : Nat} (hpos : 0 < n) (hlt : n < 2 ^ 32) : decremented n = n - 1 := by
  unfold decremented
  omega

/-! ## §2. Response codes. -/

/-- `common::ResponseCode`. -/
inductive ResponseCode where
  | success
  | finishedError
  | fileAccessError
  | eofError
  | s3NotSupported
  | glibcPrerequisite
  | insufficientFdLimit
  | invalidParameterError
  | emptyRequestError
  | busyError
  | caFileNotFound
  | unknownError
  | objPluginLoadError
  | gcsNotSupported
  | azureBlobNotSupported
  | fileTruncatedError
  | timedOut
  | unsupportedBackendMix
  | credentialsAlreadySet
  deriving DecidableEq, Repr, Inhabited

/-- What escapes a C++ function that does not return. -/
inductive Failure where
  /-- A `common::Exception` carrying its code. -/
  | exception (code : ResponseCode)
  /-- A failed `ASSERT`; the C layer's `catch (...)` reports it as
  `UnknownError`. -/
  | assertion
  deriving DecidableEq, Repr

/-- The code a `catch (const common::Exception &)` / `catch (...)` pair
turns a failure into. -/
def Failure.code : Failure → ResponseCode
  | .exception code => code
  | .assertion => .unknownError

end ModelStreamer
