/-
  ModelStreamer.Lib.KeyedList
  ───────────────────────────
  **AN ORDERED MAP AS A LIST OF ENTRIES IN KEY ORDER.**

  What a C++ `std::map` with integer keys does, on the list of its entries.

    • `floorEntry` — `upper_bound`, and one step back: the last entry whose
      key is not above a key,
    • `blocks` — entries that stand for disjoint blocks `[key, key + size)`:
      the floor entry of a member of a block is the block's entry
      (`floorEntry_block`),
    • `replace`, `remove` — by key; on distinct keys they touch one entry,
    • `find_cons`, `find_remove`, `find_mapValues`, `find_replace` — what is
      found after an update, whatever the order of the entries,
    • `lookup_perm` — with distinct keys of any type, the order of the entries
      does not matter.
-/
import Mathlib.Data.List.Basic
import Mathlib.Data.List.Nodup
import Mathlib.Data.List.Pairwise
import Mathlib.Data.List.TakeWhile

namespace ModelStreamer.Lib

variable {α : Type}

/-! ## §1. Access. -/

/-- The last entry whose key is at most `key`. -/
def floorEntry (entries : List (Nat × α)) (key : Nat) : Option (Nat × α) :=
  (entries.takeWhile (fun e => decide (e.1 ≤ key))).getLast?

/-- The entry under `key`. -/
def find (entries : List (Nat × α)) (key : Nat) : Option α :=
  (entries.find? (fun e => decide (e.1 = key))).map Prod.snd

/-- Store `value` under `key`, where there is an entry. -/
def replace (entries : List (Nat × α)) (key : Nat) (value : α) : List (Nat × α) :=
  entries.map (fun e => if e.1 = key then (key, value) else e)

/-- `erase` by key. -/
def remove (entries : List (Nat × α)) (key : Nat) : List (Nat × α) :=
  entries.filter (fun e => decide (e.1 ≠ key))

/-- The keys ascend. -/
def Ascending (entries : List (Nat × α)) : Prop := entries.Pairwise (fun a b => a.1 < b.1)

theorem Ascending.eq_of_key {entries : List (Nat × α)} (h : Ascending entries) {a b : Nat × α}
    (ha : a ∈ entries) (hb : b ∈ entries) (hkey : a.1 = b.1) : a = b := by
  induction entries with
  | nil => simp at ha
  | cons e entries ih =>
      obtain ⟨hhead, htail⟩ := List.pairwise_cons.mp h
      rcases List.mem_cons.mp ha with rfl | ha'
      · rcases List.mem_cons.mp hb with rfl | hb'
        · rfl
        · have := hhead b hb'
          omega
      · rcases List.mem_cons.mp hb with rfl | hb'
        · have := hhead a ha'
          omega
        · exact ih htail ha' hb'

theorem find_mem {entries : List (Nat × α)} (h : Ascending entries) {e : Nat × α}
    (he : e ∈ entries) : find entries e.1 = some e.2 := by
  rw [find]
  cases hfind : entries.find? (fun e' => decide (e'.1 = e.1)) with
  | none =>
      have := List.find?_eq_none.mp hfind e he
      simp at this
  | some e' =>
      have hkey : e'.1 = e.1 := by simpa using List.find?_some hfind
      rw [h.eq_of_key (List.mem_of_find?_eq_some hfind) he hkey]
      rfl

/-! ## §2. One entry changes or goes. -/

/-- An ascending list, opened at one of its entries. -/
theorem Ascending.split {entries : List (Nat × α)} (h : Ascending entries) {e : Nat × α}
    (he : e ∈ entries) :
    ∃ before after, entries = before ++ e :: after ∧
      (∀ value, replace entries e.1 value = before ++ (e.1, value) :: after) ∧
      ∀ value, remove (before ++ (e.1, value) :: after) e.1 = before ++ after := by
  obtain ⟨before, after, rfl⟩ := List.append_of_mem he
  obtain ⟨-, hright, hcross⟩ := List.pairwise_append.mp h
  have hbefore : ∀ x ∈ before, x.1 ≠ e.1 := by
    intro x hx
    have := hcross x hx e List.mem_cons_self
    omega
  have hafter : ∀ x ∈ after, x.1 ≠ e.1 := by
    intro x hx
    have := (List.pairwise_cons.mp hright).1 x hx
    omega
  have hmap : ∀ (l : List (Nat × α)) (value : α), (∀ x ∈ l, x.1 ≠ e.1) →
      l.map (fun x => if x.1 = e.1 then (e.1, value) else x) = l := by
    intro l value hl
    conv_rhs => rw [← List.map_id l]
    exact List.map_congr_left (fun x hx => if_neg (hl x hx))
  have hfilter : ∀ l : List (Nat × α), (∀ x ∈ l, x.1 ≠ e.1) →
      l.filter (fun x => decide (x.1 ≠ e.1)) = l := by
    intro l hl
    exact List.filter_eq_self.mpr (fun x hx => by simpa using hl x hx)
  refine ⟨before, after, rfl, fun value => ?_, fun value => ?_⟩
  · rw [replace, List.map_append, List.map_cons, hmap before value hbefore,
      hmap after value hafter, if_pos rfl]
  · rw [remove, List.filter_append, List.filter_cons_of_neg (by simp), hfilter before hbefore,
      hfilter after hafter]

/-! ## §3. Entries that stand for blocks. -/

/-- `e` stands for the keys `[e.1, e.1 + size e.2)`. -/
def InBlock (size : α → Nat) (e : Nat × α) (key : Nat) : Prop :=
  e.1 ≤ key ∧ key < e.1 + size e.2

/-- Every block ends before the next begins. -/
def Blocks (size : α → Nat) (entries : List (Nat × α)) : Prop :=
  entries.Pairwise (fun a b => a.1 + size a.2 ≤ b.1)

/-- The floor entry is the last one not above the key. -/
theorem floorEntry_eq {before after : List (Nat × α)} {e : Nat × α} {key : Nat}
    (hbefore : ∀ x ∈ before, x.1 ≤ key) (he : e.1 ≤ key) (hafter : ∀ x ∈ after, key < x.1) :
    floorEntry (before ++ e :: after) key = some e := by
  have hstop : after.takeWhile (fun x => decide (x.1 ≤ key)) = [] := by
    cases after with
    | nil => rfl
    | cons x after => simp [hafter x List.mem_cons_self]
  rw [floorEntry, List.takeWhile_append_of_pos (by simpa using hbefore),
    List.takeWhile_cons_of_pos (by simpa using he), hstop]
  simp

/-- The floor entry of a member of a block is the block's entry. -/
theorem floorEntry_block {size : α → Nat} {entries : List (Nat × α)} (h : Blocks size entries)
    {e : Nat × α} (he : e ∈ entries) {key : Nat} (hkey : InBlock size e key) :
    floorEntry entries key = some e := by
  obtain ⟨before, after, rfl⟩ := List.append_of_mem he
  obtain ⟨-, hright, hcross⟩ := List.pairwise_append.mp h
  refine floorEntry_eq (fun x hx => ?_) hkey.1 (fun x hx => ?_)
  · have := hcross x hx e List.mem_cons_self
    have := hkey.1
    omega
  · have := (List.pairwise_cons.mp hright).1 x hx
    have := hkey.2
    omega

theorem floorEntry_mem {entries : List (Nat × α)} {key : Nat} {e : Nat × α}
    (h : floorEntry entries key = some e) : e ∈ entries ∧ e.1 ≤ key := by
  have hmem := List.mem_of_getLast? h
  exact ⟨(List.takeWhile_sublist _).subset hmem, by simpa using List.mem_takeWhile_imp hmem⟩

/-! ## §4. What is found after an update. -/

theorem find_cons (key k : Nat) (value : α) (entries : List (Nat × α)) :
    find ((key, value) :: entries) k = if key = k then some value else find entries k := by
  unfold find
  rw [List.find?_cons]
  by_cases h : key = k
  · simp [h]
  · simp [h]

theorem find_remove (entries : List (Nat × α)) (key k : Nat) :
    find (remove entries key) k = if k = key then none else find entries k := by
  unfold find remove
  rw [List.find?_filter]
  by_cases h : k = key
  · subst h
    rw [if_pos rfl, List.find?_eq_none.mpr (by simp)]
    rfl
  · rw [if_neg h]
    apply congrArg
    apply congrArg (fun p => List.find? p entries)
    funext e
    by_cases hk : e.1 = k
    · simp [hk, h]
    · simp [hk]

theorem find_mapValues {β : Type} (f : α → β) (entries : List (Nat × α)) (k : Nat) :
    find (entries.map (fun e => (e.1, f e.2))) k = (find entries k).map f := by
  induction entries with
  | nil => rfl
  | cons e entries ih =>
      rw [List.map_cons, find_cons, ih, show e :: entries = (e.1, e.2) :: entries from rfl,
        find_cons]
      split <;> rfl

theorem find_replace (entries : List (Nat × α)) (key : Nat) (value : α) (k : Nat) :
    find (replace entries key value) k
      = if k = key then (find entries k).map (fun _ => value) else find entries k := by
  induction entries with
  | nil =>
      unfold replace find
      simp
  | cons e entries ih =>
      rw [show e :: entries = (e.1, e.2) :: entries from rfl, find_cons,
        show replace ((e.1, e.2) :: entries) key value
          = (if e.1 = key then (key, value) else (e.1, e.2)) :: replace entries key value from rfl]
      by_cases hkey : e.1 = key
      · rw [if_pos hkey, find_cons, ih, hkey]
        by_cases hk : k = key
        · subst hk
          simp
        · rw [if_neg (Ne.symm hk), if_neg hk, if_neg (Ne.symm hk), if_neg hk]
      · rw [if_neg hkey, find_cons, ih]
        by_cases hk : e.1 = k
        · have hne : k ≠ key := fun h => hkey (hk.trans h)
          simp [hk, hne]
        · simp [hk]

theorem mem_replace {entries : List (Nat × α)} {key : Nat} {value : α} {e : Nat × α}
    (h : e ∈ replace entries key value) : e.2 = value ∨ e ∈ entries := by
  obtain ⟨e₀, he₀, heq⟩ := List.mem_map.mp h
  split at heq
  · exact .inl (by rw [← heq])
  · exact .inr (heq ▸ he₀)

theorem find_some_mem {entries : List (Nat × α)} {key : Nat} {value : α}
    (h : find entries key = some value) : ∃ e ∈ entries, e.2 = value := by
  obtain ⟨e, he, heq⟩ := Option.map_eq_some_iff.mp h
  exact ⟨e, List.mem_of_find?_eq_some he, heq⟩

/-- **Entries under distinct keys are found in any order.** -/
theorem lookup_perm {κ β : Type} [BEq κ] [LawfulBEq κ] {xs ys : List (κ × β)} (h : xs.Perm ys)
    (hnodup : (xs.map Prod.fst).Nodup) (key : κ) : xs.lookup key = ys.lookup key := by
  induction h with
  | nil => rfl
  | cons e _ ih =>
      rw [List.map_cons, List.nodup_cons] at hnodup
      rw [List.lookup_cons, List.lookup_cons, ih hnodup.2]
  | swap a b xs =>
      rw [List.map_cons, List.nodup_cons] at hnodup
      have hne : b.1 ≠ a.1 := fun heq => hnodup.1 (by rw [heq]; exact List.mem_cons_self)
      rw [List.lookup_cons, List.lookup_cons, List.lookup_cons, List.lookup_cons]
      by_cases ha : key = a.1
      · rw [ha, beq_self_eq_true, beq_eq_false_iff_ne.mpr hne.symm]
      · rw [beq_eq_false_iff_ne.mpr ha]
  | trans h₁ _ ih₁ ih₂ => rw [ih₁ hnodup, ih₂ ((h₁.map Prod.fst).nodup_iff.mp hnodup)]

end ModelStreamer.Lib
