/-
  ModelStreamer.Lib.KeySort
  ─────────────────────────
  **STABLE SORTING BY A KEY** — Python's `list.sort(key=...)`.

    • `sortBy_perm` — a permutation,
    • `sortBy_pairwise` — in the order of the keys,
    • `sortBy_keys_perm` — the keys of the result do not depend on the order
      of the list.

  The key may be of any linearly ordered type; tuples are ordered
  lexicographically (`toLex`).
-/
import Mathlib.Data.List.Sort
import Mathlib.Data.Prod.Lex

namespace ModelStreamer.Lib

variable {α κ : Type*} [LinearOrder κ]

/-- Sort by a key, keeping the order of elements with equal keys. -/
def sortBy (key : α → κ) (xs : List α) : List α :=
  xs.insertionSort (fun a b => key a ≤ key b)

theorem sortBy_perm (key : α → κ) (xs : List α) : (sortBy key xs).Perm xs :=
  List.perm_insertionSort _ xs

theorem mem_sortBy (key : α → κ) (xs : List α) (a : α) : a ∈ sortBy key xs ↔ a ∈ xs :=
  (sortBy_perm key xs).mem_iff

@[simp] theorem sortBy_length (key : α → κ) (xs : List α) : (sortBy key xs).length = xs.length :=
  (sortBy_perm key xs).length_eq

instance keyTotal (key : α → κ) : Std.Total (fun a b => key a ≤ key b) := ⟨fun _ _ => le_total _ _⟩

instance keyTrans (key : α → κ) : IsTrans α (fun a b => key a ≤ key b) := ⟨fun _ _ _ => le_trans⟩

/-- **The result is in the order of the keys.** -/
theorem sortBy_pairwise (key : α → κ) (xs : List α) :
    (sortBy key xs).Pairwise (fun a b => key a ≤ key b) :=
  List.pairwise_insertionSort _ xs

/-- **Any order of the list gives the same keys**, though not the same
elements where keys are equal. -/
theorem sortBy_keys_perm {key : α → κ} {xs ys : List α} (h : xs.Perm ys) :
    (sortBy key xs).map key = (sortBy key ys).map key := by
  have hsorted : ∀ zs : List α, ((sortBy key zs).map key).Pairwise (· ≤ ·) := by
    intro zs
    rw [List.pairwise_map]
    exact sortBy_pairwise key zs
  have hperm : (sortBy key xs).Perm (sortBy key ys) :=
    (sortBy_perm key xs).trans (h.trans (sortBy_perm key ys).symm)
  exact (hperm.map key).eq_of_pairwise (fun a b _ _ hab hba => le_antisymm hab hba)
    (hsorted xs) (hsorted ys)

/-- The first element has the smallest key. -/
theorem sortBy_head_le {key : α → κ} {xs rest : List α} {a : α} (h : sortBy key xs = a :: rest) :
    ∀ b ∈ xs, key a ≤ key b := by
  intro b hb
  have hmem : b ∈ sortBy key xs := (mem_sortBy key xs b).mpr hb
  have hsorted := sortBy_pairwise key xs
  rw [h] at hmem hsorted
  rcases List.mem_cons.mp hmem with rfl | hrest
  · exact le_refl _
  · exact (List.pairwise_cons.mp hsorted).1 b hrest

end ModelStreamer.Lib
