/-
  ModelStreamer.Lib.SortedMap
  ───────────────────────────
  **A MAP THAT IS KEPT SORTED BY ITS KEYS**, as a list of entries.

  The order is part of the structure, so two maps with the same entries under
  their keys are equal, and a walk over a map meets every key once.

    • `SortedMap.get_set` — what is under a key after an assignment,
    • `SortedMap.ext_get` — a map is what is under its keys,
    • `SortedMap.mem_entries` — an entry is what is under its key.
-/
import Mathlib.Data.List.Pairwise
import Mathlib.Order.Lattice
import ModelStreamer.Lib.OrderedDict

namespace ModelStreamer.Lib

/-- Entries by ascending key. -/
structure SortedMap (κ α : Type) [LinearOrder κ] where
  entries : List (κ × α)
  sorted : entries.Pairwise (fun a b => a.1 < b.1)

variable {κ α : Type} [LinearOrder κ]

/-- Put an entry where its key belongs, or over the one there is. -/
def putSorted (key : κ) (value : α) : List (κ × α) → List (κ × α)
  | [] => [(key, value)]
  | item :: items =>
      if key < item.1 then (key, value) :: item :: items
      else if key = item.1 then (key, value) :: items
      else item :: putSorted key value items

theorem mem_putSorted {key : κ} {value : α} {items : List (κ × α)} {e : κ × α}
    (h : e ∈ putSorted key value items) : e = (key, value) ∨ e ∈ items := by
  induction items with
  | nil => exact Or.inl (List.mem_singleton.mp h)
  | cons item items ih =>
      unfold putSorted at h
      split at h
      · exact List.mem_cons.mp h
      split at h
      · rcases List.mem_cons.mp h with heq | hmem
        · exact Or.inl heq
        · exact Or.inr (List.mem_cons_of_mem _ hmem)
      · rcases List.mem_cons.mp h with heq | hmem
        · exact Or.inr (heq ▸ List.mem_cons_self)
        · rcases ih hmem with heq | hmem
          · exact Or.inl heq
          · exact Or.inr (List.mem_cons_of_mem _ hmem)

theorem putSorted_sorted {items : List (κ × α)} (key : κ) (value : α)
    (h : items.Pairwise (fun a b => a.1 < b.1)) :
    (putSorted key value items).Pairwise (fun a b => a.1 < b.1) := by
  induction items with
  | nil => exact List.pairwise_singleton _ _
  | cons item items ih =>
      have hparts := List.pairwise_cons.mp h
      unfold putSorted
      split
      next hlt =>
        rw [List.pairwise_cons, List.forall_mem_cons]
        exact ⟨⟨hlt, fun e he => lt_trans hlt (hparts.1 e he)⟩, h⟩
      split
      next heq =>
        rw [List.pairwise_cons]
        exact ⟨fun e he => heq ▸ hparts.1 e he, hparts.2⟩
      next hge hne =>
        rw [List.pairwise_cons]
        refine ⟨fun e he => ?_, ih hparts.2⟩
        rcases mem_putSorted he with rfl | hmem
        · exact lt_of_le_of_ne (not_lt.mp hge) (Ne.symm hne)
        · exact hparts.1 e hmem

theorem lookup_putSorted (key k : κ) (value : α) (items : List (κ × α)) :
    (putSorted key value items).lookup k = if k = key then some value else items.lookup k := by
  induction items with
  | nil =>
      unfold putSorted
      rw [lookup_cons_eq]
  | cons item items ih =>
      unfold putSorted
      split
      · rw [lookup_cons_eq]
      split
      next heq =>
        rw [lookup_cons_eq, lookup_cons_eq, ← heq]
        split <;> rfl
      next hne =>
        rw [lookup_cons_eq, lookup_cons_eq, ih]
        by_cases hk : k = item.1
        · rw [if_pos hk, if_pos hk, if_neg (hk ▸ Ne.symm hne)]
        · rw [if_neg hk, if_neg hk]

namespace SortedMap

theorem ext_entries {m m' : SortedMap κ α} (h : m.entries = m'.entries) : m = m' := by
  obtain ⟨entries, _⟩ := m
  obtain ⟨entries', _⟩ := m'
  obtain rfl : entries = entries' := h
  rfl

instance [DecidableEq α] : DecidableEq (SortedMap κ α) := fun m m' =>
  decidable_of_iff (m.entries = m'.entries) ⟨ext_entries, congrArg entries⟩

/-- No entries. -/
def empty : SortedMap κ α := ⟨[], List.Pairwise.nil⟩

/-- `m[key] = value`. -/
def set (m : SortedMap κ α) (key : κ) (value : α) : SortedMap κ α :=
  ⟨putSorted key value m.entries, putSorted_sorted key value m.sorted⟩

/-- What is under a key. -/
def get (m : SortedMap κ α) (key : κ) : Option α := m.entries.lookup key

@[simp] theorem get_empty (k : κ) : (empty : SortedMap κ α).get k = none := rfl

/-- **After an assignment.** -/
@[simp] theorem get_set (m : SortedMap κ α) (key k : κ) (value : α) :
    (m.set key value).get k = if k = key then some value else m.get k :=
  lookup_putSorted key k value m.entries

/-- **An entry is what is under its key.** -/
theorem mem_entries {m : SortedMap κ α} {key : κ} {value : α} :
    (key, value) ∈ m.entries ↔ m.get key = some value := by
  obtain ⟨entries, sorted⟩ := m
  show (key, value) ∈ entries ↔ entries.lookup key = some value
  induction entries with
  | nil => simp
  | cons item entries ih =>
      obtain ⟨hlt, hrest⟩ := List.pairwise_cons.mp sorted
      rw [List.mem_cons, ih hrest, lookup_cons_eq]
      constructor
      · rintro (heq | hfound)
        · rw [← heq, if_pos rfl]
        · have hmem := (ih hrest).mpr hfound
          rw [if_neg (ne_of_gt (hlt _ hmem)), hfound]
      · intro h
        split at h
        next heq => exact Or.inl (Prod.ext heq (Option.some.inj h).symm)
        · exact Or.inr h

/-- **A map is what is under its keys.** -/
theorem ext_get {m m' : SortedMap κ α} (h : ∀ k, m.get k = m'.get k) : m = m' := by
  have hnodup : ∀ m : SortedMap κ α, m.entries.Nodup := fun m =>
    List.nodup_iff_pairwise_ne.mpr (m.sorted.imp fun hlt heq => absurd (heq ▸ hlt) (lt_irrefl _))
  have hperm : m.entries.Perm m'.entries := by
    rw [List.perm_ext_iff_of_nodup (hnodup m) (hnodup m')]
    rintro ⟨k, v⟩
    rw [mem_entries, mem_entries, h k]
  apply ext_entries
  refine hperm.eq_of_pairwise (fun a b _ _ hab hba => ?_) m.sorted m'.sorted
  exact absurd hba (not_lt_of_gt hab)

end SortedMap

end ModelStreamer.Lib
