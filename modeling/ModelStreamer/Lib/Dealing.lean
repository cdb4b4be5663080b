/-
  ModelStreamer.Lib.Dealing
  ─────────────────────────
  **DEALING AND GROUPING LOSE NOTHING.**

    • `dealAll` — each element goes to the hand with the least weight so
      far; together the hands are a permutation of what was dealt
      (`dealAll_perm`), and no two of them differ by more than the weight
      of one element (`dealAll_balanced`),
    • `groupBy` — elements collected by a key, in the order their keys
      first appear: a permutation again (`groupBy_perm`), each group under
      its own key (`groupBy_key`),
    • `flatMap_filter_perm` — elements picked up key by key, below a bound.
-/
import Mathlib.Data.List.Perm.Basic
import Mathlib.Data.List.Nodup
import Mathlib.Data.List.MinMax
import Mathlib.Algebra.Ring.Nat

namespace ModelStreamer.Lib

variable {α κ : Type*}

/-! ## §1. One list of lists changes in one place. -/

theorem modify_length (hands : List (List α)) (i : Nat) (a : α) :
    (hands.modify i (· ++ [a])).length = hands.length := List.length_modify _ _ _

theorem modify_flatten_perm {hands : List (List α)} {i : Nat} (h : i < hands.length) (a : α) :
    ((hands.modify i (· ++ [a])).flatten).Perm (a :: hands.flatten) := by
  induction hands generalizing i with
  | nil => simp at h
  | cons hand hands ih =>
      cases i with
      | zero =>
          rw [List.modify_zero_cons, List.flatten_cons, List.flatten_cons, List.append_assoc]
          exact List.perm_middle
      | succ i =>
          rw [List.modify_succ_cons, List.flatten_cons, List.flatten_cons]
          exact ((ih (by simpa using h)).append_left hand).trans List.perm_middle

/-! ## §2. Dealing. -/

/-- `weights.index(min(weights))`. -/
def minIndex (weights : List Nat) : Nat := weights.idxOf (weights.min?.getD 0)

theorem minIndex_lt {weights : List Nat} (h : weights ≠ []) : minIndex weights < weights.length := by
  obtain ⟨m, hm⟩ : ∃ m, weights.min? = some m := by
    cases hmin : weights.min? with
    | none => exact absurd (List.min?_eq_none_iff.mp hmin) h
    | some m => exact ⟨m, rfl⟩
  unfold minIndex
  rw [hm, Option.getD_some]
  exact List.idxOf_lt_length_of_mem (List.min?_mem hm)

/-- The dealing loop: the hands, and their weights. -/
def deal (weight : α → Nat) : List (List α) → List Nat → List α → List (List α)
  | hands, _, [] => hands
  | hands, weights, x :: xs =>
      let i := minIndex weights
      deal weight (hands.modify i (· ++ [x])) (weights.modify i (· + weight x)) xs

theorem deal_spec (weight : α → Nat) (xs : List α) {hands : List (List α)} {weights : List Nat}
    (hlen : weights.length = hands.length) (hne : hands ≠ []) :
    (deal weight hands weights xs).length = hands.length ∧
      ((deal weight hands weights xs).flatten).Perm (hands.flatten ++ xs) := by
  induction xs generalizing hands weights with
  | nil => exact ⟨rfl, by rw [List.append_nil]; exact List.Perm.refl _⟩
  | cons x xs ih =>
      have hpos : 0 < hands.length := List.length_pos_of_ne_nil hne
      have hi : minIndex weights < hands.length := by
        rw [← hlen]
        apply minIndex_lt
        intro hnil
        rw [hnil] at hlen
        simp only [List.length_nil] at hlen
        omega
      obtain ⟨hlength, hperm⟩ := @ih (hands.modify (minIndex weights) (· ++ [x]))
        (weights.modify (minIndex weights) (· + weight x))
        (by rw [List.length_modify, List.length_modify]; exact hlen)
        (by
          intro hnil
          have := modify_length hands (minIndex weights) x
          rw [hnil, List.length_nil] at this
          omega)
      unfold deal
      refine ⟨by rw [hlength, modify_length], hperm.trans ?_⟩
      have hmod := (modify_flatten_perm hi x).append_right xs
      rw [List.cons_append] at hmod
      exact hmod.trans List.perm_middle.symm

/-- Deal to `n` hands. -/
def dealAll (weight : α → Nat) (n : Nat) (xs : List α) : List (List α) :=
  deal weight (List.replicate n []) (List.replicate n 0) xs

theorem dealAll_length (weight : α → Nat) {n : Nat} (hn : 0 < n) (xs : List α) :
    (dealAll weight n xs).length = n := by
  have h := (@deal_spec α weight xs (List.replicate n []) (List.replicate n 0)
    (by simp) (by simp; omega)).1
  rw [List.length_replicate] at h
  exact h

/-- **The hands together are what was dealt.** -/
theorem dealAll_perm (weight : α → Nat) {n : Nat} (hn : 0 < n) (xs : List α) :
    ((dealAll weight n xs).flatten).Perm xs := by
  have h := (@deal_spec α weight xs (List.replicate n []) (List.replicate n 0)
    (by simp) (by simp; omega)).2
  rw [List.flatten_replicate_nil, List.nil_append] at h
  exact h

/-! ## §3. Balance. -/

/-- The weight of a hand. -/
def load (weight : α → Nat) (hand : List α) : Nat := (hand.map weight).sum

/-- No two of the weights are further apart than `bound`. -/
def Balanced (bound : Nat) (weights : List Nat) : Prop :=
  ∀ a ∈ weights, ∀ b ∈ weights, a ≤ b + bound

theorem load_snoc (weight : α → Nat) (hand : List α) (a : α) :
    load weight (hand ++ [a]) = load weight hand + weight a := by
  unfold load
  rw [List.map_append, List.sum_append, List.map_singleton, List.sum_singleton]

theorem loads_modify (weight : α → Nat) (hands : List (List α)) (i : Nat) (a : α) :
    (hands.modify i (· ++ [a])).map (load weight)
      = (hands.map (load weight)).modify i (· + weight a) := by
  induction hands generalizing i with
  | nil => cases i <;> rfl
  | cons hand hands ih =>
      cases i with
      | zero =>
          show load weight (hand ++ [a]) :: _ = (load weight hand + weight a) :: _
          rw [load_snoc]
      | succ i =>
          show load weight hand :: (hands.modify i (· ++ [a])).map (load weight) = _
          rw [ih]
          rfl

/-- Nothing weighs less than the hand that is dealt to. -/
theorem minIndex_le {weights : List Nat} (h : weights ≠ []) :
    ∃ least, weights[minIndex weights]? = some least ∧ ∀ b ∈ weights, least ≤ b := by
  have hlt := minIndex_lt h
  unfold minIndex at hlt ⊢
  cases hmin : weights.min? with
  | none => exact absurd (List.min?_eq_none_iff.mp hmin) h
  | some least =>
      rw [hmin, Option.getD_some] at hlt
      rw [Option.getD_some, List.getElem?_eq_getElem hlt, List.getElem_idxOf hlt]
      exact ⟨least, rfl, fun b hb => (List.min?_eq_some_iff.mp hmin).2 b hb⟩

theorem mem_modify {weights : List Nat} {i : Nat} {f : Nat → Nat} {a : Nat}
    (h : a ∈ weights.modify i f) : a ∈ weights ∨ ∃ b, weights[i]? = some b ∧ a = f b := by
  obtain ⟨j, hj⟩ := List.getElem?_of_mem h
  rw [List.getElem?_modify, Option.map_eq_map, Option.map_eq_some_iff] at hj
  obtain ⟨b, hb, hab⟩ := hj
  by_cases hij : i = j
  · rw [if_pos hij] at hab
    exact .inr ⟨b, by rw [hij]; exact hb, hab.symm⟩
  · rw [if_neg hij] at hab
    exact .inl (hab ▸ List.mem_of_getElem? hb)

/-- **One element keeps the balance**: the hand it goes to was the lightest. -/
theorem Balanced.deal {bound : Nat} {weights : List Nat} (h : Balanced bound weights)
    (hne : weights ≠ []) {x : Nat} (hx : x ≤ bound) :
    Balanced bound (weights.modify (minIndex weights) (· + x)) := by
  obtain ⟨least, hleast, hle⟩ := minIndex_le hne
  have hmem := List.mem_of_getElem? hleast
  have hcases : ∀ {a}, a ∈ weights.modify (minIndex weights) (· + x) →
      a ∈ weights ∨ a = least + x := by
    intro a ha
    refine (mem_modify ha).imp_right ?_
    rintro ⟨b, hb, rfl⟩
    rw [Option.some.inj (hb.symm.trans hleast)]
  intro a ha b hb
  rcases hcases ha with ha | rfl
  · rcases hcases hb with hb | rfl
    · exact h a ha b hb
    · have := h a ha least hmem
      omega
  · rcases hcases hb with hb | rfl
    · have := hle b hb
      omega
    · omega

theorem deal_balanced (weight : α → Nat) {bound : Nat} {xs : List α}
    (hxs : ∀ x ∈ xs, weight x ≤ bound) {hands : List (List α)} (hne : hands ≠ [])
    (h : Balanced bound (hands.map (load weight))) :
    Balanced bound ((deal weight hands (hands.map (load weight)) xs).map (load weight)) := by
  induction xs generalizing hands with
  | nil => exact h
  | cons x xs ih =>
      have hweights : hands.map (load weight) ≠ [] := by simpa using hne
      unfold deal
      dsimp only
      rw [← loads_modify]
      apply ih
      · exact fun y hy => hxs y (List.mem_cons_of_mem x hy)
      · intro hnil
        apply hne
        rw [← List.length_eq_zero_iff] at hnil ⊢
        rw [modify_length] at hnil
        exact hnil
      · rw [loads_modify]
        exact h.deal hweights (hxs x List.mem_cons_self)

/-- **No two hands differ by more than the weight of one element.** -/
theorem dealAll_balanced (weight : α → Nat) {bound n : Nat} (hn : 0 < n) {xs : List α}
    (hxs : ∀ x ∈ xs, weight x ≤ bound) :
    Balanced bound ((dealAll weight n xs).map (load weight)) := by
  have hstart : (List.replicate n ([] : List α)).map (load weight) = List.replicate n 0 := by
    rw [List.map_replicate]
    rfl
  have h := @deal_balanced α weight bound xs hxs (List.replicate n []) (by simp; omega) (by
    rw [hstart]
    intro a ha b hb
    rw [List.eq_of_mem_replicate ha]
    omega)
  rw [hstart] at h
  exact h

/-! ## §4. Grouping. -/

variable [DecidableEq κ]

/-- Append `x` to the group under `k`, or open one. -/
def addTo (k : κ) (x : α) : List (κ × List α) → List (κ × List α)
  | [] => [(k, [x])]
  | (k', xs) :: groups =>
      if k' = k then (k', xs ++ [x]) :: groups else (k', xs) :: addTo k x groups

/-- Group by a key. -/
def groupBy (key : α → κ) (xs : List α) : List (κ × List α) :=
  xs.foldl (fun groups x => addTo (key x) x groups) []

/-- The elements of all groups. -/
def grouped (groups : List (κ × List α)) : List α := groups.flatMap Prod.snd

theorem addTo_perm (k : κ) (x : α) (groups : List (κ × List α)) :
    (grouped (addTo k x groups)).Perm (grouped groups ++ [x]) := by
  induction groups with
  | nil => exact List.Perm.refl _
  | cons group groups ih =>
      obtain ⟨k', xs⟩ := group
      unfold addTo
      split
      · show ((xs ++ [x]) ++ grouped groups).Perm ((xs ++ grouped groups) ++ [x])
        rw [List.append_assoc, List.append_assoc]
        exact List.perm_append_comm.append_left xs
      · show (xs ++ grouped (addTo k x groups)).Perm ((xs ++ grouped groups) ++ [x])
        rw [List.append_assoc]
        exact ih.append_left xs

theorem addTo_key {key : α → κ} {x : α} {groups : List (κ × List α)}
    (h : ∀ g ∈ groups, ∀ y ∈ g.2, key y = g.1) :
    ∀ g ∈ addTo (key x) x groups, ∀ y ∈ g.2, key y = g.1 := by
  induction groups with
  | nil => simp [addTo]
  | cons group groups ih =>
      obtain ⟨k', xs⟩ := group
      unfold addTo
      split
      next hk =>
        intro g hg y hy
        rcases List.mem_cons.mp hg with rfl | hg
        · rcases List.mem_append.mp hy with hy | hy
          · exact h (k', xs) List.mem_cons_self y hy
          · rw [List.mem_singleton.mp hy]
            exact hk.symm
        · exact h g (List.mem_cons_of_mem _ hg) y hy
      next hk =>
        intro g hg y hy
        rcases List.mem_cons.mp hg with rfl | hg
        · exact h _ List.mem_cons_self y hy
        · exact ih (fun g hg => h g (List.mem_cons_of_mem _ hg)) g hg y hy

/-- What grouping keeps at every point of the loop. -/
theorem groupBy_spec (key : α → κ) (xs : List α) {groups : List (κ × List α)}
    (hkey : ∀ g ∈ groups, ∀ y ∈ g.2, key y = g.1) :
    let result := xs.foldl (fun groups x => addTo (key x) x groups) groups
    (grouped result).Perm (grouped groups ++ xs) ∧ ∀ g ∈ result, ∀ y ∈ g.2, key y = g.1 := by
  induction xs generalizing groups with
  | nil =>
      refine ⟨?_, hkey⟩
      show (grouped groups).Perm (grouped groups ++ [])
      rw [List.append_nil]
  | cons x xs ih =>
      obtain ⟨hperm, hkeys⟩ := ih (addTo_key hkey)
      refine ⟨?_, hkeys⟩
      have hstep := (addTo_perm (key x) x groups).append_right xs
      rw [List.append_assoc] at hstep
      exact hperm.trans hstep

/-- **The groups together are what was grouped.** -/
theorem groupBy_perm (key : α → κ) (xs : List α) : (grouped (groupBy key xs)).Perm xs := by
  have h := (@groupBy_spec α κ _ key xs [] (by simp)).1
  exact h

theorem groupBy_key {key : α → κ} {xs : List α} {g : κ × List α} (hg : g ∈ groupBy key xs) :
    ∀ y ∈ g.2, key y = g.1 :=
  (@groupBy_spec α κ _ key xs [] (by simp)).2 g hg

/-! ## §5. Sweeping. -/

/-- Grouping a list by a key below `n` only reorders it. -/
theorem flatMap_filter_perm (key : α → Nat) (l : List α) (n : Nat) :
    ((List.range n).flatMap (fun k => l.filter (fun a => decide (key a = k)))).Perm
      (l.filter (fun a => decide (key a < n))) := by
  induction n with
  | zero => simp
  | succ n ih =>
      rw [List.range_succ, List.flatMap_append, List.flatMap_singleton]
      have hsplit := List.filter_append_perm (fun a => decide (key a < n))
        (l.filter (fun a => decide (key a < n + 1)))
      rw [List.filter_filter, List.filter_filter] at hsplit
      have hbelow : l.filter (fun a => decide (key a < n) && decide (key a < n + 1))
          = l.filter (fun a => decide (key a < n)) := by
        refine List.filter_congr (fun a _ => ?_)
        rw [← Bool.decide_and, decide_eq_decide]
        omega
      have hat : l.filter (fun a => !decide (key a < n) && decide (key a < n + 1))
          = l.filter (fun a => decide (key a = n)) := by
        refine List.filter_congr (fun a _ => ?_)
        rw [← decide_not, ← Bool.decide_and, decide_eq_decide]
        omega
      rw [hbelow, hat] at hsplit
      exact (ih.append_right _).trans hsplit

end ModelStreamer.Lib
