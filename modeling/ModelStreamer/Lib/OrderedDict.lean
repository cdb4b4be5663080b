/-
  ModelStreamer.Lib.OrderedDict
  ─────────────────────────────
  **A DICTIONARY THAT KEEPS THE ORDER OF ITS INSERTIONS**, as a list of
  items, and a loop that fills one from items that may each be refused.

    • `setItem` — an item keeps its place when its value changes,
    • `setItem_keys_nodup` — one item a key,
    • `fill` — one item after the other, up to the first that is refused,
    • `fill_lookup` — what is under a key was put there, or made of an item,
    • `fill_length_le` — never more items than were put in, so a dictionary
      with as many has them all.
-/
import Mathlib.Data.List.Nodup

namespace ModelStreamer.Lib

variable {κ α β ε : Type} [DecidableEq κ]

/-- `d[key] = value`. -/
def setItem (d : List (κ × α)) (key : κ) (value : α) : List (κ × α) :=
  match d with
  | [] => [(key, value)]
  | item :: d => if item.1 = key then (key, value) :: d else item :: setItem d key value

/-- What is found behind an item. -/
theorem lookup_cons_eq (item : κ × α) (d : List (κ × α)) (k : κ) :
    (item :: d).lookup k = if k = item.1 then some item.2 else d.lookup k := by
  rw [List.lookup_cons]
  by_cases h : k = item.1
  · rw [if_pos h, h, beq_self_eq_true]
  · rw [if_neg h, beq_false_of_ne h]

theorem setItem_lookup (d : List (κ × α)) (key k : κ) (value : α) :
    (setItem d key value).lookup k = if k = key then some value else d.lookup k := by
  induction d with
  | nil =>
      unfold setItem
      rw [lookup_cons_eq]
  | cons item d ih =>
      unfold setItem
      by_cases hfirst : item.1 = key
      · rw [if_pos hfirst, lookup_cons_eq, lookup_cons_eq, hfirst]
        split <;> rfl
      · rw [if_neg hfirst, lookup_cons_eq, lookup_cons_eq, ih]
        by_cases h : k = item.1
        · rw [if_pos h, if_pos h, if_neg (h ▸ hfirst)]
        · rw [if_neg h, if_neg h]

theorem setItem_keys (d : List (κ × α)) (key : κ) (value : α) :
    (setItem d key value).map Prod.fst
      = if key ∈ d.map Prod.fst then d.map Prod.fst else d.map Prod.fst ++ [key] := by
  induction d with
  | nil => rfl
  | cons item d ih =>
      unfold setItem
      by_cases hfirst : item.1 = key
      · rw [if_pos hfirst, List.map_cons, List.map_cons, hfirst, if_pos List.mem_cons_self]
      · rw [if_neg hfirst, List.map_cons, List.map_cons, ih]
        by_cases hmem : key ∈ d.map Prod.fst
        · rw [if_pos hmem, if_pos (List.mem_cons_of_mem _ hmem)]
        · rw [if_neg hmem, if_neg (by simp [Ne.symm hfirst, hmem])]
          rfl

/-- **One item a key.** -/
theorem setItem_keys_nodup {d : List (κ × α)} (h : (d.map Prod.fst).Nodup) (key : κ) (value : α) :
    ((setItem d key value).map Prod.fst).Nodup := by
  rw [setItem_keys]
  split
  · exact h
  next hmem => exact List.nodup_append.mpr ⟨h, List.nodup_singleton _, by
      intro k hk k' hk' heq
      rw [List.mem_singleton.mp hk'] at heq
      exact hmem (heq ▸ hk)⟩

theorem setItem_length_le (d : List (κ × α)) (key : κ) (value : α) :
    (setItem d key value).length ≤ d.length + 1 := by
  have h := congrArg List.length (setItem_keys d key value)
  rw [List.length_map] at h
  split at h <;> simp at h <;> omega

/-- `for x in items: d[key(x)] = value(x)`, where the value may be refused. -/
def fill (key : β → κ) (value : β → Except ε α) : List β → List (κ × α) →
    Except ε (List (κ × α))
  | [], d => .ok d
  | x :: items, d =>
      match value x with
      | .error e => .error e
      | .ok v => fill key value items (setItem d (key x) v)

section Fill

variable {key : β → κ} {value : β → Except ε α} {items : List β} {d d' : List (κ × α)}

/-- **What is under a key** was there before, or was made of an item. -/
theorem fill_lookup (h : fill key value items d = .ok d') {k : κ} {v : α}
    (hk : d'.lookup k = some v) :
    d.lookup k = some v ∨ ∃ x ∈ items, key x = k ∧ value x = .ok v := by
  induction items generalizing d with
  | nil =>
      obtain rfl : d = d' := Except.ok.inj h
      exact .inl hk
  | cons x items ih =>
      unfold fill at h
      split at h
      · simp at h
      next v' hvalue =>
        rcases ih h with hd | ⟨y, hy, hkey, hvalue'⟩
        · rw [setItem_lookup] at hd
          split at hd
          next heq =>
            obtain rfl := Option.some.inj hd
            exact .inr ⟨x, List.mem_cons_self, heq.symm, hvalue⟩
          next => exact .inl hd
        · exact .inr ⟨y, List.mem_cons_of_mem _ hy, hkey, hvalue'⟩

theorem fill_keys_nodup (h : fill key value items d = .ok d') (hd : (d.map Prod.fst).Nodup) :
    (d'.map Prod.fst).Nodup := by
  induction items generalizing d with
  | nil =>
      obtain rfl : d = d' := Except.ok.inj h
      exact hd
  | cons x items ih =>
      unfold fill at h
      split at h
      · simp at h
      · exact ih h (setItem_keys_nodup hd _ _)

/-- **Never more items than were put in.** -/
theorem fill_length_le (h : fill key value items d = .ok d') :
    d'.length ≤ d.length + items.length := by
  induction items generalizing d with
  | nil =>
      obtain rfl : d = d' := Except.ok.inj h
      exact Nat.le_refl _
  | cons x items ih =>
      unfold fill at h
      split at h
      · simp at h
      next v _ =>
        have hle := ih h
        have hset := setItem_length_le d (key x) v
        rw [List.length_cons]
        omega

end Fill

/-- An item of the list is under its key. -/
theorem lookup_of_mem {d : List (κ × α)} (h : (d.map Prod.fst).Nodup) {item : κ × α}
    (hitem : item ∈ d) : d.lookup item.1 = some item.2 := by
  induction d with
  | nil => simp at hitem
  | cons first d ih =>
      rw [List.map_cons, List.nodup_cons] at h
      rw [lookup_cons_eq]
      rcases List.mem_cons.mp hitem with rfl | hitem
      · exact if_pos rfl
      · have hne : item.1 ≠ first.1 := fun heq => h.1 (heq ▸ List.mem_map_of_mem hitem)
        rw [if_neg hne]
        exact ih h.2 hitem

theorem mem_of_lookup {d : List (κ × α)} {k : κ} {v : α} (h : d.lookup k = some v) :
    (k, v) ∈ d := by
  induction d with
  | nil => simp at h
  | cons first d ih =>
      rw [lookup_cons_eq] at h
      by_cases hk : k = first.1
      · rw [if_pos hk] at h
        obtain rfl := Option.some.inj h
        rw [hk]
        exact List.mem_cons_self
      · rw [if_neg hk] at h
        exact List.mem_cons_of_mem _ (ih h)

end ModelStreamer.Lib
