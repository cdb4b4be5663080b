/-
  ModelStreamer.Lib.Block
  ───────────────────────
  **WHAT IS WRITTEN PIECE BY PIECE AND READ BACK.**

  Several stores after each other, to places that are apart, leave all of
  their cells in place.  Numbers are stored as bytes, the lowest first, and a
  string ends at its first zero.

    • `bytesToNat_natToBytes` — a number that fits comes back,
    • `fetch_storeAll` — every piece is in place after all stores,
    • `storeAll_outside` — and nothing else has changed,
    • `readString_eq` — a string is read up to its first zero.
-/
import Mathlib.Algebra.Group.Nat.Defs
import Mathlib.Data.List.Pairwise
import ModelStreamer.Lib.Memory

namespace ModelStreamer.Lib

variable {β : Type} {size : Nat}

/-! ## §1. Numbers as bytes. -/

/-- The lowest `count` bytes of a number, the lowest first. -/
def natToBytes : Nat → Nat → List UInt8
  | 0, _ => []
  | count + 1, n => UInt8.ofNat n :: natToBytes count (n / 256)

def bytesToNat : List UInt8 → Nat
  | [] => 0
  | byte :: bytes => byte.toNat + 256 * bytesToNat bytes

@[simp] theorem natToBytes_length (count n : Nat) : (natToBytes count n).length = count := by
  induction count generalizing n with
  | zero => rfl
  | succ count ih => exact congrArg (· + 1) (ih (n / 256))

/-- **A number that fits comes back.** -/
theorem bytesToNat_natToBytes {count n : Nat} (h : n < 256 ^ count) :
    bytesToNat (natToBytes count n) = n := by
  induction count generalizing n with
  | zero =>
      show 0 = n
      omega
  | succ count ih =>
      have hrest : n / 256 < 256 ^ count := by
        rw [Nat.pow_succ] at h
        omega
      show (UInt8.ofNat n).toNat + 256 * bytesToNat (natToBytes count (n / 256)) = n
      rw [ih hrest, UInt8.toNat_ofNat']
      omega

/-! ## §2. Reading cells. -/

/-- `count` cells from an address on. -/
def fetch (size : Nat) (memory : Nat → β) (address : Nat) : Nat → List β
  | 0 => []
  | count + 1 => memory (address % size) :: fetch size memory (address + 1) count

@[simp] theorem fetch_length (memory : Nat → β) (address count : Nat) :
    (fetch size memory address count).length = count := by
  induction count generalizing address with
  | zero => rfl
  | succ count ih => exact congrArg (· + 1) (ih (address + 1))

theorem fetch_add (memory : Nat → β) (address m n : Nat) :
    fetch size memory address (m + n)
      = fetch size memory address m ++ fetch size memory (address + m) n := by
  induction m generalizing address with
  | zero =>
      rw [Nat.zero_add]
      rfl
  | succ m ih =>
      rw [Nat.add_right_comm]
      show _ :: _ = _ :: _
      rw [ih, Nat.add_assoc, Nat.add_comm 1]
      rfl

theorem fetch_get {memory : Nat → β} {address count k : Nat} (hk : k < count) :
    (fetch size memory address count)[k]? = some (memory ((address + k) % size)) := by
  induction count generalizing address k with
  | zero => omega
  | succ count ih =>
      cases k with
      | zero => rfl
      | succ k =>
          show (fetch size memory (address + 1) count)[k]? = _
          rw [ih (by omega), Nat.add_assoc, Nat.add_comm 1]

theorem fetch_congr {memory memory' : Nat → β} {address count : Nat}
    (h : ∀ k, k < count → memory ((address + k) % size) = memory' ((address + k) % size)) :
    fetch size memory address count = fetch size memory' address count := by
  induction count generalizing address with
  | zero => rfl
  | succ count ih =>
      have hrest : fetch size memory (address + 1) count = fetch size memory' (address + 1) count :=
        ih (fun k hk => by
          have hnext := h (k + 1) (by omega)
          rwa [Nat.add_comm k, ← Nat.add_assoc] at hnext)
      show _ :: _ = _ :: _
      rw [hrest]
      exact congrArg (· :: _) (h 0 (by omega))

/-- **A store is read back.** -/
theorem fetch_store (memory : Nat → β) (address : Nat) {cells : List β}
    (hsize : cells.length ≤ size) :
    fetch size (store size memory address cells) address cells.length = cells := by
  apply List.ext_getElem?
  intro k
  by_cases hk : k < cells.length
  · rw [fetch_get hk, store_inside hk hsize]
  · rw [List.getElem?_eq_none (by simp; omega), List.getElem?_eq_none (by omega)]

/-! ## §3. Several stores. -/

/-- No address of one piece is one of the other. -/
def Apart (size : Nat) (p q : Nat × List β) : Prop :=
  ∀ i, i < p.2.length → ∀ j, j < q.2.length → (p.1 + i) % size ≠ (q.1 + j) % size

/-- Store the pieces, in order. -/
def storeAll (size : Nat) (memory : Nat → β) : List (Nat × List β) → Nat → β
  | [] => memory
  | (address, cells) :: pieces => storeAll size (store size memory address cells) pieces

/-- **Outside all pieces** nothing changes. -/
theorem storeAll_outside {memory : Nat → β} {pieces : List (Nat × List β)} {a : Nat}
    (h : ∀ p ∈ pieces, ∀ k, k < p.2.length → (p.1 + k) % size ≠ a) :
    storeAll size memory pieces a = memory a := by
  induction pieces generalizing memory with
  | nil => rfl
  | cons p pieces ih =>
      rw [List.forall_mem_cons] at h
      show storeAll size (store size memory p.1 p.2) pieces a = memory a
      rw [ih h.2, store_outside h.1]

/-- **Each piece is in place** after all stores. -/
theorem fetch_storeAll {memory : Nat → β} {pieces : List (Nat × List β)}
    (hapart : pieces.Pairwise (Apart size)) (hsize : ∀ p ∈ pieces, p.2.length ≤ size) :
    ∀ p ∈ pieces, fetch size (storeAll size memory pieces) p.1 p.2.length = p.2 := by
  induction pieces generalizing memory with
  | nil => simp
  | cons p pieces ih =>
      rw [List.pairwise_cons] at hapart
      rw [List.forall_mem_cons] at hsize ⊢
      refine ⟨?_, ih hapart.2 hsize.2⟩
      -- the later pieces do not touch the first one
      have hkept : ∀ k, k < p.2.length →
          storeAll size (store size memory p.1 p.2) pieces ((p.1 + k) % size)
            = store size memory p.1 p.2 ((p.1 + k) % size) := by
        intro k hk
        apply storeAll_outside
        intro q hq j hj heq
        exact hapart.1 q hq k hk j hj heq.symm
      show fetch size (storeAll size (store size memory p.1 p.2) pieces) p.1 p.2.length = p.2
      rw [fetch_congr hkept, fetch_store memory p.1 hsize.1]

/-- Pieces that do not go over the end of the memory and lie one behind the
other are apart. -/
theorem apart_of_le {p q : Nat × List β} (hp : p.1 + p.2.length ≤ q.1)
    (hq : q.1 + q.2.length ≤ size) : Apart size p q := by
  intro i hi j hj
  rw [Nat.mod_eq_of_lt (by omega), Nat.mod_eq_of_lt (by omega)]
  omega

theorem Apart.symm {p q : Nat × List β} (h : Apart size p q) : Apart size q p :=
  fun j hj i hi heq => h i hi j hj heq.symm

/-! ## §4. Strings. -/

/-- The cells from an address on, up to the first zero; none if the cells run
out before. -/
def readString [DecidableEq β] (zero : β) (size : Nat) (memory : Nat → β) :
    Nat → Nat → Option (List β)
  | 0, _ => none
  | fuel + 1, address =>
      if memory (address % size) = zero then some []
      else (readString zero size memory fuel (address + 1)).map
        (fun rest => memory (address % size) :: rest)

/-- **A string is read up to its first zero.** -/
theorem readString_eq [DecidableEq β] {zero : β} {memory : Nat → β} {cells : List β}
    {address fuel : Nat} (hload : fetch size memory address (cells.length + 1) = cells ++ [zero])
    (hfuel : cells.length < fuel) :
    readString zero size memory fuel address = some (cells.takeWhile (fun c => c ≠ zero)) := by
  induction cells generalizing address fuel with
  | nil =>
      obtain ⟨fuel, rfl⟩ := Nat.exists_eq_succ_of_ne_zero (Nat.ne_of_gt hfuel)
      have hzero : memory (address % size) = zero := (List.cons.inj hload).1
      unfold readString
      rw [if_pos hzero]
      rfl
  | cons cell cells ih =>
      obtain ⟨fuel, rfl⟩ := Nat.exists_eq_succ_of_ne_zero (Nat.ne_of_gt (Nat.zero_lt_of_lt hfuel))
      obtain ⟨hcell, hrest⟩ := List.cons.inj hload
      unfold readString
      rw [hcell]
      by_cases hzero : cell = zero
      · rw [if_pos hzero, List.takeWhile_cons_of_neg (by simpa using hzero)]
      · rw [if_neg hzero, ih hrest (by simpa using hfuel),
          List.takeWhile_cons_of_pos (by simpa using hzero)]
        rfl

end ModelStreamer.Lib
