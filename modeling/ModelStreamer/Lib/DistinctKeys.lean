/-
  ModelStreamer.Lib.DistinctKeys
  ──────────────────────────────
  **KEYED LISTS WITH DISTINCT KEYS.**  The order of the entries does not
  matter: a list stands for a map, and its keys are followed up to a
  permutation.

    • `find_of_mem`, `mem_of_find` — looking up is membership,
    • `remove_perm` — removing one key,
    • `gone_perm` — what a smaller map keeps, and what is gone from it.
-/
import Mathlib.Data.List.Perm.Basic
import ModelStreamer.Lib.KeyedList

namespace ModelStreamer.Lib

variable {α : Type}

/-! ## §1. Looking up. -/

theorem find_of_mem {entries : List (Nat × α)} (hnodup : (entries.map Prod.fst).Nodup)
    {e : Nat × α} (he : e ∈ entries) : find entries e.1 = some e.2 := by
  induction entries with
  | nil => simp at he
  | cons first entries ih =>
      obtain ⟨key, value⟩ := first
      rw [List.map_cons, List.nodup_cons] at hnodup
      rw [find_cons]
      rcases List.mem_cons.mp he with rfl | hmem
      · exact if_pos rfl
      · rw [if_neg, ih hnodup.2 hmem]
        intro hkey
        apply hnodup.1
        rw [hkey]
        exact List.mem_map.mpr ⟨e, hmem, rfl⟩

theorem mem_of_find {entries : List (Nat × α)} {key : Nat} {value : α}
    (h : find entries key = some value) : (key, value) ∈ entries := by
  unfold find at h
  obtain ⟨e, he, rfl⟩ := Option.map_eq_some_iff.mp h
  have hkey : e.1 = key := by simpa using List.find?_some he
  rw [← hkey]
  exact List.mem_of_find?_eq_some he

theorem find_of_sublist {entries entries' : List (Nat × α)} (h : entries'.Sublist entries)
    (hnodup : (entries.map Prod.fst).Nodup) {key : Nat} {value : α}
    (hfind : find entries' key = some value) : find entries key = some value :=
  find_of_mem hnodup (h.subset (mem_of_find hfind))

/-! ## §2. Removing. -/

theorem remove_sublist (entries : List (Nat × α)) (key : Nat) :
    (remove entries key).Sublist entries :=
  List.filter_sublist

theorem keys_nodup {entries entries' : List (Nat × α)} (h : entries'.Sublist entries)
    (hnodup : (entries.map Prod.fst).Nodup) : (entries'.map Prod.fst).Nodup :=
  (h.map Prod.fst).nodup hnodup

theorem remove_keys (entries : List (Nat × α)) (key : Nat) :
    (remove entries key).map Prod.fst
      = (entries.map Prod.fst).filter (fun k => decide (k ≠ key)) := by
  unfold remove
  rw [List.filter_map]
  rfl

/-- **One key less.** -/
theorem remove_perm {entries : List (Nat × α)} {key : Nat} {others : List Nat}
    (hkeys : (entries.map Prod.fst).Perm (key :: others))
    (hnodup : (entries.map Prod.fst).Nodup) : ((remove entries key).map Prod.fst).Perm others := by
  obtain ⟨hnot, -⟩ := List.nodup_cons.mp (hkeys.nodup_iff.mp hnodup)
  have hothers : others.filter (fun k => decide (k ≠ key)) = others := by
    rw [List.filter_eq_self]
    intro k hk
    rw [decide_eq_true_eq]
    rintro rfl
    exact hnot hk
  have hfilter := hkeys.filter (fun k => decide (k ≠ key))
  rw [List.filter_cons_of_neg (by simp), hothers] at hfilter
  rw [remove_keys]
  exact hfilter

/-! ## §3. What is gone. -/

/-- The entries of `before` that are not in `after`. -/
def gone (before after : List (Nat × α)) : List (Nat × α) :=
  before.filter (fun e => !decide (e.1 ∈ after.map Prod.fst))

theorem filter_kept {before after : List (Nat × α)} (h : after.Sublist before)
    (hnodup : (before.map Prod.fst).Nodup) :
    before.filter (fun e => decide (e.1 ∈ after.map Prod.fst)) = after := by
  induction h with
  | slnil => rfl
  | @cons after before first hsub ih =>
      rw [List.map_cons, List.nodup_cons] at hnodup
      rw [List.filter_cons_of_neg, ih hnodup.2]
      rw [decide_eq_true_eq]
      exact fun hmem => hnodup.1 ((hsub.map Prod.fst).subset hmem)
  | @cons_cons after before first hsub ih =>
      rw [List.map_cons, List.nodup_cons] at hnodup
      rw [List.filter_cons_of_pos (by simp)]
      congr 1
      refine Eq.trans (List.filter_congr (fun e he => ?_)) (ih hnodup.2)
      have hne : e.1 ≠ first.1 := by
        intro heq
        apply hnodup.1
        rw [← heq]
        exact List.mem_map_of_mem he
      rw [List.map_cons, decide_eq_decide, List.mem_cons]
      exact ⟨fun hor => hor.resolve_left hne, Or.inr⟩

/-- **What stays and what is gone** is what there was. -/
theorem gone_perm {before after : List (Nat × α)} (h : after.Sublist before)
    (hnodup : (before.map Prod.fst).Nodup) : before.Perm (after ++ gone before after) := by
  have hperm := List.filter_append_perm (fun e => decide (e.1 ∈ after.map Prod.fst)) before
  rw [filter_kept h hnodup] at hperm
  exact hperm.symm

end ModelStreamer.Lib
