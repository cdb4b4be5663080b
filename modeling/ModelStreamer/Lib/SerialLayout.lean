/-
  ModelStreamer.Lib.SerialLayout
  ──────────────────────────────
  **ONE AFTER THE OTHER.**

  Items are laid out by a cursor: each is placed at or after the end of the
  one before, where a placement puts it (the next aligned address, say).

    • `Serial` — the items and offsets such a layout has,
    • `Serial.ge`, `Serial.apart` — under a placement that never goes back,
      the items follow the cursor and no address is covered twice,
    • `Serial.forall` — what holds of every place holds of every offset.
-/
import Mathlib.Data.List.Pairwise

namespace ModelStreamer.Lib

variable {α : Type*}

/-- Items placed one after the other, from `cursor` on. -/
def Serial (size : α → Nat) (place : Nat → Nat) : Nat → List (α × Nat) → Prop
  | _, [] => True
  | cursor, p :: rest => p.2 = place cursor ∧ Serial size place (p.2 + size p.1) rest

/-- An item lies over an address. -/
def Covers (size : α → Nat) (p : α × Nat) (address : Nat) : Prop :=
  p.2 ≤ address ∧ address < p.2 + size p.1

section Serial

variable {size : α → Nat} {place : Nat → Nat} {cursor : Nat} {placed : List (α × Nat)}

theorem Serial.ge (hplace : ∀ c, c ≤ place c) (h : Serial size place cursor placed) :
    ∀ p ∈ placed, cursor ≤ p.2 := by
  induction placed generalizing cursor with
  | nil => simp
  | cons p rest ih =>
      obtain ⟨hp, hrest⟩ := h
      have hcursor : cursor ≤ p.2 := hp ▸ hplace cursor
      rw [List.forall_mem_cons]
      refine ⟨hcursor, fun q hq => ?_⟩
      have := ih hrest q hq
      omega

/-- An item ends where the later ones have not begun. -/
theorem Serial.ordered (hplace : ∀ c, c ≤ place c) (h : Serial size place cursor placed) :
    placed.Pairwise (fun p q => p.2 + size p.1 ≤ q.2) := by
  induction placed generalizing cursor with
  | nil => exact List.Pairwise.nil
  | cons p rest ih => exact List.Pairwise.cons (Serial.ge hplace h.2) (ih h.2)

/-- **No two items overlap.** -/
theorem Serial.apart (hplace : ∀ c, c ≤ place c) (h : Serial size place cursor placed) :
    placed.Pairwise (fun p q => ∀ address, Covers size p address → ¬ Covers size q address) := by
  apply (Serial.ordered hplace h).imp
  intro p q hle address hp hq
  unfold Covers at hp hq
  omega

theorem Serial.forall {P : Nat → Prop} (hplace : ∀ c, P (place c))
    (h : Serial size place cursor placed) : ∀ p ∈ placed, P p.2 := by
  induction placed generalizing cursor with
  | nil => simp
  | cons p rest ih =>
      rw [List.forall_mem_cons]
      exact ⟨h.1 ▸ hplace cursor, ih h.2⟩

end Serial

end ModelStreamer.Lib
