/-
  ModelStreamer.Lib.Writer
  ────────────────────────
  **A WRITER AND ITS MARKS.**

  A writer of a shared memory goes through a list of acts: it writes cells to
  an address, or it leaves a mark, which tells the others that some cells are
  in place.

    • `replay`, `marks` — the memory after the acts, and the marks they leave,
    • `replay_agree` — at an address the acts either decide the cell or pass
      on what was there, whatever the memory they start from,
    • `Lays` — acts that write a list of cells one after the other to one
      place, each mark where it is allowed; `Lays.replay` says what is in
      place after any front part of them.
-/
import ModelStreamer.Lib.Memory
import Mathlib.Data.List.Induction

namespace ModelStreamer.Lib

variable {β μ : Type}

/-! ## §1. Acts. -/

/-- What a writer does next. -/
inductive Effect (β μ : Type) where
  | write (address : Nat) (cells : List β)
  | mark (m : μ)

/-- The memory after the acts. -/
def replay (size : Nat) (memory : Nat → β) : List (Effect β μ) → Nat → β
  | [] => memory
  | .write address cells :: acts => replay size (store size memory address cells) acts
  | .mark _ :: acts => replay size memory acts

/-- The marks left, in order. -/
def marks : List (Effect β μ) → List μ
  | [] => []
  | .write _ _ :: acts => marks acts
  | .mark m :: acts => m :: marks acts

variable {size : Nat}

theorem replay_append (xs ys : List (Effect β μ)) (memory : Nat → β) :
    replay size memory (xs ++ ys) = replay size (replay size memory xs) ys := by
  induction xs generalizing memory with
  | nil => rfl
  | cons act xs ih =>
      cases act with
      | write address cells => exact ih _
      | mark m => exact ih _

theorem marks_append (xs ys : List (Effect β μ)) : marks (xs ++ ys) = marks xs ++ marks ys := by
  induction xs with
  | nil => rfl
  | cons act xs ih =>
      cases act with
      | write address cells => exact ih
      | mark m => exact congrArg (m :: ·) ih

/-- Acts that are all marks. -/
theorem marks_map (ms : List μ) : marks (ms.map (Effect.mark (β := β))) = ms := by
  induction ms with
  | nil => rfl
  | cons m ms ih => exact congrArg (m :: ·) ih

theorem replay_marks (ms : List μ) (memory : Nat → β) :
    replay size memory (ms.map Effect.mark) = memory := by
  induction ms with
  | nil => rfl
  | cons m ms ih => exact ih

theorem mem_marks {acts : List (Effect β μ)} {m : μ} : m ∈ marks acts ↔ Effect.mark m ∈ acts := by
  induction acts with
  | nil => simp [marks]
  | cons act acts ih =>
      cases act with
      | write address cells => simpa [marks] using ih
      | mark m' => simp [marks, ih]

/-! ## §2. One cell. -/

/-- **A store decides a cell or passes it on.** -/
theorem store_cases (memory : Nat → β) (address : Nat) (cells : List β) (a : Nat) :
    store size memory address cells a = memory a ∨
      ∃ k v, cells[k]? = some v ∧ (address + k) % size = a ∧
        store size memory address cells a = v := by
  induction cells generalizing memory address with
  | nil => exact .inl rfl
  | cons cell cells ih =>
      rw [store_cons]
      rcases ih (Function.update memory (address % size) cell) (address + 1) with
        hsame | ⟨k, v, hget, haddress, hval⟩
      · by_cases ha : a = address % size
        · -- the first cell went here, and no later one
          subst ha
          rw [Function.update_self] at hsame
          exact .inr ⟨0, cell, rfl, rfl, hsame⟩
        · rw [Function.update_of_ne ha] at hsame
          exact .inl hsame
      · refine .inr ⟨k + 1, v, hget, ?_, hval⟩
        rw [← haddress]
        congr 1
        omega

/-- Two memories under the same store. -/
theorem store_agree (memory memory' : Nat → β) (address : Nat) (cells : List β) (a : Nat) :
    store size memory address cells a = store size memory' address cells a ∨
      store size memory address cells a = memory a ∧
        store size memory' address cells a = memory' a := by
  induction cells generalizing memory memory' address with
  | nil => exact .inr ⟨rfl, rfl⟩
  | cons cell cells ih =>
      rw [store_cons, store_cons]
      rcases ih (Function.update memory (address % size) cell)
        (Function.update memory' (address % size) cell) (address + 1) with hsame | ⟨hleft, hright⟩
      · exact .inl hsame
      · by_cases ha : a = address % size
        · subst ha
          rw [Function.update_self] at hleft hright
          exact .inl (hleft.trans hright.symm)
        · rw [Function.update_of_ne ha] at hleft hright
          exact .inr ⟨hleft, hright⟩

/-- **Two memories under the same acts**: a cell is decided by the acts, or
passed on in both. -/
theorem replay_agree (acts : List (Effect β μ)) (memory memory' : Nat → β) (a : Nat) :
    replay size memory acts a = replay size memory' acts a ∨
      replay size memory acts a = memory a ∧ replay size memory' acts a = memory' a := by
  induction acts generalizing memory memory' with
  | nil => exact .inr ⟨rfl, rfl⟩
  | cons act acts ih =>
      cases act with
      | mark m => exact ih memory memory'
      | write address cells =>
          show replay size (store size memory address cells) acts a
              = replay size (store size memory' address cells) acts a ∨ _
          rcases ih (store size memory address cells) (store size memory' address cells) with
            hsame | ⟨hleft, hright⟩
          · exact .inl hsame
          · rcases @store_agree _ size memory memory' address cells a with hsame | ⟨h₁, h₂⟩
            · exact .inl (hleft.trans (hsame.trans hright.symm))
            · exact .inr ⟨hleft.trans h₁, hright.trans h₂⟩

/-! ## §3. Acts that lay down a list of cells. -/

/-- The acts write `cells` to the place `base`, from the `i`-th to before the
`j`-th, and leave a mark only where `ok` allows it. -/
inductive Lays (size base : Nat) (cells : List β) (ok : μ → Nat → Prop) :
    Nat → List (Effect β μ) → Nat → Prop
  | nil (i : Nat) : Lays size base cells ok i [] i
  | write {i j address : Nat} {part : List β} {acts : List (Effect β μ)} :
      address % size = (base + i) % size → part = window cells i part.length →
      Lays size base cells ok (i + part.length) acts j →
      Lays size base cells ok i (.write address part :: acts) j
  | mark {i j : Nat} {m : μ} {acts : List (Effect β μ)} :
      ok m i → Lays size base cells ok i acts j → Lays size base cells ok i (.mark m :: acts) j

section Lays

variable {base : Nat} {cells : List β} {ok : μ → Nat → Prop} {i j k : Nat}
  {acts xs ys : List (Effect β μ)}

theorem Lays.append (h : Lays size base cells ok i xs j) (h' : Lays size base cells ok j ys k) :
    Lays size base cells ok i (xs ++ ys) k := by
  induction h with
  | nil i => exact h'
  | write haddress hpart _ ih => exact .write haddress hpart (ih h')
  | mark hok _ ih => exact .mark hok (ih h')

/-- Marks alone. -/
theorem Lays.marks {ms : List μ} (h : ∀ m ∈ ms, ok m i) :
    Lays size base cells ok i (ms.map .mark) i := by
  induction ms with
  | nil => exact .nil i
  | cons m ms ih =>
      exact .mark (h m (List.mem_cons_self ..)) (ih (fun m' hm' => h m' (List.mem_cons_of_mem m hm')))

/-- Where a front part of the acts ends, the rest begins. -/
theorem Lays.split (h : Lays size base cells ok i (xs ++ ys) k) :
    ∃ j, Lays size base cells ok i xs j ∧ Lays size base cells ok j ys k := by
  induction xs generalizing i with
  | nil => exact ⟨i, .nil i, h⟩
  | cons act xs ih =>
      cases h with
      | write haddress hpart hrest =>
          obtain ⟨j, hfront, hback⟩ := ih hrest
          exact ⟨j, .write haddress hpart hfront, hback⟩
      | mark hok hrest =>
          obtain ⟨j, hfront, hback⟩ := ih hrest
          exact ⟨j, .mark hok hfront, hback⟩

theorem Lays.le (h : Lays size base cells ok i acts j) : i ≤ j := by
  induction h with
  | nil i => exact Nat.le_refl i
  | write _ _ _ ih => omega
  | mark _ _ ih => exact ih

/-- Only cells that exist are written. -/
theorem Lays.le_length (h : Lays size base cells ok i acts j) (hi : i ≤ cells.length) :
    j ≤ cells.length := by
  induction h with
  | nil i => exact hi
  | @write i j address part acts _ hpart _ ih =>
      have hlength := congrArg List.length hpart
      rw [window_length] at hlength
      exact ih (by omega)
  | mark _ _ ih => exact ih hi

/-- **What is in place after the acts.** -/
theorem Lays.replay (h : Lays size base cells ok i acts j) (memory : Nat → β) :
    replay size memory acts = store size memory (base + i) (window cells i (j - i)) := by
  induction h generalizing memory with
  | nil i =>
      rw [Nat.sub_self, window_zero]
      rfl
  | @write i j address part acts haddress hpart hrest ih =>
      have hle := hrest.le
      have hboth : part ++ window cells (i + part.length) (j - (i + part.length))
          = window cells i (j - i) := by
        have happend := window_append cells i part.length (j - (i + part.length))
        rwa [← hpart, show part.length + (j - (i + part.length)) = j - i by omega] at happend
      show Lib.replay size (store size memory address part) acts = _
      rw [ih, store_congr memory haddress, ← Nat.add_assoc, store_append, hboth]
  | mark _ _ ih => exact ih memory

/-- A mark among the acts was allowed where it stands. -/
theorem Lays.mark_ok {m : μ} (h : Lays size base cells ok i (xs ++ .mark m :: ys) k) :
    ∃ j, Lays size base cells ok i xs j ∧ ok m j := by
  obtain ⟨j, hfront, hback⟩ := h.split
  cases hback with
  | mark hok _ => exact ⟨j, hfront, hok⟩

/-- A write among the acts goes on where the front part ends. -/
theorem Lays.write_at {address : Nat} {part : List β}
    (h : Lays size base cells ok i (xs ++ .write address part :: ys) k) :
    ∃ j, Lays size base cells ok i xs j ∧ address % size = (base + j) % size ∧
      part = window cells j part.length := by
  obtain ⟨j, hfront, hback⟩ := h.split
  cases hback with
  | write haddress hpart _ => exact ⟨j, hfront, haddress, hpart⟩

/-- A mark among the acts was allowed at some point on the way. -/
theorem Lays.mark_mem {m : μ} (h : Lays size base cells ok i acts j) (hm : m ∈ Lib.marks acts) :
    ∃ k, i ≤ k ∧ k ≤ j ∧ ok m k := by
  obtain ⟨xs, ys, rfl⟩ := List.append_of_mem (mem_marks.mp hm)
  obtain ⟨k, hfront, hback⟩ := h.split
  have hle := hback.le
  cases hback with
  | mark hok _ => exact ⟨k, hfront.le, hle, hok⟩

end Lays

end ModelStreamer.Lib
