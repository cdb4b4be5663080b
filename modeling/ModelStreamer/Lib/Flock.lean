/-
  ModelStreamer.Lib.Flock
  ───────────────────────
  **ADVISORY LOCKS ON ONE FILE** (`flock`).

  A lock has any number of shared holders or one exclusive holder.  It is
  granted when no other holder stands against it; converting a lock is not
  atomic, the one that is held goes first.  That the holders never stand
  against each other is part of the lock itself.

    • `Flock.acquire`, `Flock.release` — the operations, with what each one
      leaves of the holders,
    • `Flock.exclusive_alone` — whoever holds it exclusively holds it alone.
-/
import Mathlib.Logic.Function.Basic

namespace ModelStreamer.Lib

/-- How a lock is held. -/
inductive LockMode where
  | shared
  | exclusive
  deriving DecidableEq, Repr

/-- The holders of a lock. -/
structure Flock (ι : Type) where
  holder : ι → Option LockMode
  exclusion : ∀ i j, i ≠ j → holder i = some .exclusive → holder j = none

namespace Flock

variable {ι : Type}

/-- Nobody holds the lock. -/
def free : Flock ι := ⟨fun _ => none, fun _ _ _ h => by simp at h⟩

/-- Nobody else stands against `i` holding the lock. -/
def Grants (l : Flock ι) (i : ι) : LockMode → Prop
  | .shared => ∀ j, j ≠ i → l.holder j ≠ some .exclusive
  | .exclusive => ∀ j, j ≠ i → l.holder j = none

/-- Whoever holds the lock exclusively holds it alone. -/
theorem exclusive_alone (l : Flock ι) {i j : ι} (hi : l.holder i = some .exclusive)
    (hj : l.holder j ≠ none) : i = j := by
  by_contra hne
  exact hj (l.exclusion i j hne hi)

/-- A lock that nobody else holds is granted. -/
theorem grants_of_free {l : Flock ι} {i : ι} (h : ∀ j, j ≠ i → l.holder j = none)
    (mode : LockMode) : l.Grants i mode := by
  cases mode with
  | shared =>
      intro j hj
      simp [h j hj]
  | exclusive => exact h

variable [DecidableEq ι]

/-- `i` gets the lock. -/
def acquire (l : Flock ι) (i : ι) (mode : LockMode) (h : l.Grants i mode) : Flock ι where
  holder := Function.update l.holder i (some mode)
  exclusion a b hab ha := by
    by_cases hai : a = i
    · subst hai
      rw [Function.update_self] at ha
      obtain rfl := Option.some.inj ha
      rw [Function.update_of_ne (Ne.symm hab)]
      exact h b (Ne.symm hab)
    · rw [Function.update_of_ne hai] at ha
      by_cases hbi : b = i
      · -- `a` holds it exclusively, so it was not granted
        subst hbi
        cases mode with
        | shared => exact absurd ha (h a hai)
        | exclusive =>
            rw [h a hai] at ha
            simp at ha
      · rw [Function.update_of_ne hbi]
        exact l.exclusion a b hab ha

/-- `i` has not the lock any more. -/
def release (l : Flock ι) (i : ι) : Flock ι where
  holder := Function.update l.holder i none
  exclusion a b hab ha := by
    by_cases hai : a = i
    · subst hai
      simp at ha
    · rw [Function.update_of_ne hai] at ha
      by_cases hbi : b = i
      · subst hbi
        exact Function.update_self ..
      · rw [Function.update_of_ne hbi]
        exact l.exclusion a b hab ha

variable (l : Flock ι) (i : ι)

@[simp] theorem acquire_self (mode : LockMode) (h : l.Grants i mode) :
    (l.acquire i mode h).holder i = some mode := Function.update_self ..

@[simp] theorem release_self : (l.release i).holder i = none := Function.update_self ..

theorem acquire_other {mode : LockMode} (h : l.Grants i mode) {j : ι} (hj : j ≠ i) :
    (l.acquire i mode h).holder j = l.holder j := Function.update_of_ne hj ..

theorem release_other {j : ι} (hj : j ≠ i) : (l.release i).holder j = l.holder j :=
  Function.update_of_ne hj ..

end Flock

end ModelStreamer.Lib
