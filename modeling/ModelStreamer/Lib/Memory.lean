/-
  ModelStreamer.Lib.Memory
  ────────────────────────
  **A MEMORY WITH WRAPPING ADDRESSES.**

  A memory maps addresses below `size` to cells; the address after the last
  one is the first.  `store` writes cells one after the other from an address
  on, whatever number stands for it.

    • `store_append` — two stores back to back are one,
    • `store_inside`, `store_outside` — what is at an address afterwards,
    • `window` — some cells of a list, from a position on; `window_append`.
-/
import Mathlib.Data.List.Basic
import Mathlib.Logic.Function.Basic

namespace ModelStreamer.Lib

variable {β : Type}

/-! ## §1. Windows. -/

/-- At most `count` cells, from `position` on. -/
def window (cells : List β) (position count : Nat) : List β := (cells.drop position).take count

theorem window_length (cells : List β) (position count : Nat) :
    (window cells position count).length = min count (cells.length - position) := by
  unfold window
  rw [List.length_take, List.length_drop]

theorem window_zero (cells : List β) (position : Nat) : window cells position 0 = [] := by
  unfold window
  rw [List.take_zero]

/-- Two windows back to back are one. -/
theorem window_append (cells : List β) (position a b : Nat) :
    window cells position a ++ window cells (position + a) b = window cells position (a + b) := by
  unfold window
  rw [List.take_add, List.drop_drop]

/-- A window of a window. -/
theorem window_window (cells : List β) {position width k count : Nat} (h : k + count ≤ width) :
    window (window cells position width) k count = window cells (position + k) count := by
  unfold window
  rw [List.drop_take, List.drop_drop, List.take_take, Nat.min_eq_left (by omega)]

theorem window_get {cells : List β} {position count k : Nat}
    (hk : k < (window cells position count).length) :
    (window cells position count)[k]? = cells[position + k]? := by
  rw [window_length] at hk
  unfold window
  rw [List.getElem?_take_of_lt (by omega), List.getElem?_drop]

/-! ## §2. Stores. -/

/-- Write the cells one after the other. -/
def store (size : Nat) (memory : Nat → β) (address : Nat) : List β → Nat → β
  | [] => memory
  | cell :: cells => store size (Function.update memory (address % size) cell) (address + 1) cells

variable {size : Nat}

theorem store_cons (memory : Nat → β) (address : Nat) (cell : β) (cells : List β) :
    store size memory address (cell :: cells)
      = store size (Function.update memory (address % size) cell) (address + 1) cells := rfl

/-- **Two stores back to back are one.** -/
theorem store_append (memory : Nat → β) (address : Nat) (xs ys : List β) :
    store size (store size memory address xs) (address + xs.length) ys
      = store size memory address (xs ++ ys) := by
  induction xs generalizing memory address with
  | nil => rfl
  | cons x xs ih =>
      rw [List.cons_append, store_cons, store_cons, ← ih, List.length_cons, Nat.add_assoc,
        Nat.add_comm 1]

/-- Any number that stands for the address will do. -/
theorem store_congr (memory : Nat → β) {a b : Nat} (h : a % size = b % size) (cells : List β) :
    store size memory a cells = store size memory b cells := by
  induction cells generalizing memory a b with
  | nil => rfl
  | cons cell cells ih =>
      rw [store_cons, store_cons, h]
      exact ih _ (by rw [Nat.add_mod, h, ← Nat.add_mod])

/-- **Outside the store** nothing changes. -/
theorem store_outside {memory : Nat → β} {address : Nat} {cells : List β} {a : Nat}
    (h : ∀ k, k < cells.length → (address + k) % size ≠ a) :
    store size memory address cells a = memory a := by
  induction cells generalizing memory address with
  | nil => rfl
  | cons cell cells ih =>
      have hfirst : a ≠ address % size := fun heq => h 0 (by simp) heq.symm
      rw [store_cons, ih (fun k hk => ?_), Function.update_of_ne hfirst]
      rw [Nat.add_assoc, Nat.add_comm 1]
      exact h (k + 1) (by simpa using hk)

/-- **Inside the store** are its cells, where they do not run into each
other. -/
theorem store_inside {memory : Nat → β} {address : Nat} {cells : List β} {k : Nat}
    (hk : k < cells.length) (hsize : cells.length ≤ size) :
    some (store size memory address cells ((address + k) % size)) = cells[k]? := by
  induction cells generalizing memory address k with
  | nil => simp at hk
  | cons cell cells ih =>
      rw [store_cons]
      rw [List.length_cons] at hk hsize
      cases k with
      | zero =>
          -- the later cells are elsewhere
          have hlater : ∀ j, j < cells.length →
              (address + 1 + j) % size ≠ (address + 0) % size := by
            intro j hj heq
            have hzero := Nat.sub_mod_eq_zero_of_mod_eq heq
            rw [show address + 1 + j - (address + 0) = j + 1 by omega,
              Nat.mod_eq_of_lt (by omega)] at hzero
            omega
          rw [store_outside hlater, Nat.add_zero, Function.update_self]
          rfl
      | succ k =>
          rw [List.getElem?_cons_succ, ← @ih (Function.update memory (address % size) cell)
            (address + 1) k (by omega) (by omega), Nat.add_assoc, Nat.add_comm 1]

end ModelStreamer.Lib
