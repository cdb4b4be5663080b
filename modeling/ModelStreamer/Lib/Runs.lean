/-
  ModelStreamer.Lib.Runs
  ──────────────────────
  **RUNS OF A LIST.**

  A list falls into runs: a run goes on as long as each element is followed
  by one it is related to.  How many runs there are depends on the order of
  the list, and some orders are best.

    • `mem_runs_iff` — two positions are in one run when all between them
      are linked,
    • `runs_congr`, `runs_mono`, `runs_map` — other relations, other lists,
    • `ChainOrdered` — an order that keeps related elements together,
    • `ChainOrdered.same_run_iff` — then two positions are in one run
      exactly when a chain of related elements connects them,
    • `ChainOrdered.fewest` — and no order has fewer runs.
-/
import ModelStreamer.Lib.Span
import Mathlib.Data.Nat.Count
import Mathlib.Data.Finset.Card
import Mathlib.Data.Finset.Image
import Mathlib.Data.Finset.Dedup
import Mathlib.Data.List.Perm.Basic
import Mathlib.Logic.Relation

namespace ModelStreamer.Lib

variable {α : Type*} {r : α → α → Prop}

/-! ## §1. Runs. -/

/-- The runs from an open one on, whose last element is `a`. -/
def runsFrom (r : α → α → Prop) [DecidableRel r] : Nat → Nat → α → List α → List Span
  | start, size, _, [] => [⟨start, size⟩]
  | start, size, a, b :: xs =>
      if r a b then runsFrom r start (size + 1) b xs
      else ⟨start, size⟩ :: runsFrom r (start + size) 1 b xs

/-- The runs of a list, by their positions. -/
def runs (r : α → α → Prop) [DecidableRel r] : List α → List Span
  | [] => []
  | a :: xs => runsFrom r 0 1 a xs

/-- Position `m` is followed by an element it is related to. -/
def Linked (r : α → α → Prop) (xs : List α) (m : Nat) : Prop :=
  ∃ a b, xs[m]? = some a ∧ xs[m + 1]? = some b ∧ r a b

theorem linked_append_cons {pre xs : List α} {a b : α} :
    Linked r (pre ++ a :: b :: xs) pre.length ↔ r a b := by
  unfold Linked
  rw [List.getElem?_append_right (Nat.le_refl _), Nat.sub_self,
    List.getElem?_append_right (by omega : pre.length ≤ pre.length + 1), Nat.add_sub_cancel_left]
  constructor
  · rintro ⟨a', b', ha, hb, hr⟩
    rw [Option.some.inj ha, Option.some.inj hb]
    exact hr
  · intro hr
    exact ⟨a, b, rfl, rfl, hr⟩

/-- The next element, when a list is walked through. -/
theorem walked_on {ys pre xs : List α} {a b : α} (hys : ys = pre ++ a :: b :: xs) :
    ys = (pre ++ [a]) ++ b :: xs ∧ (Linked r ys pre.length ↔ r a b) := by
  constructor
  · rw [hys, List.append_assoc]
    rfl
  · rw [hys]
    exact linked_append_cons

section Runs

variable [DecidableRel r]

theorem runsFrom_start_le {start size : Nat} {a : α} {xs : List α} :
    ∀ s ∈ runsFrom r start size a xs, start ≤ s.start := by
  induction xs generalizing start size a with
  | nil =>
      intro s hs
      rw [List.mem_singleton.mp hs]
  | cons b xs ih =>
      unfold runsFrom
      split
      · exact ih
      · intro s hs
        rcases List.mem_cons.mp hs with rfl | hs
        · exact Nat.le_refl _
        · have := ih s hs
          omega

theorem mem_runsFrom_iff {ys pre xs : List α} {start size : Nat} {a : α}
    (hys : ys = pre ++ a :: xs) (hlast : start + size = pre.length + 1) (hpos : 0 < size)
    (hopen : ∀ m, start ≤ m → m + 1 < start + size → Linked r ys m) {j k : Nat}
    (hstart : start ≤ j) (hjk : j ≤ k) (hk : k < ys.length) :
    (∃ s ∈ runsFrom r start size a xs, s.start ≤ j ∧ k < s.stop)
      ↔ ∀ m, j ≤ m → m < k → Linked r ys m := by
  induction xs generalizing pre start size a with
  | nil =>
      -- the last run holds all positions from its start on
      rw [hys, List.length_append, List.length_singleton] at hk
      constructor
      · intro _ m hjm hmk
        exact hopen m (by omega) (by omega)
      · intro _
        refine ⟨_, List.mem_singleton_self _, hstart, ?_⟩
        show k < start + size
        omega
  | cons b xs ih =>
      obtain ⟨hys', hlink⟩ := walked_on (r := r) hys
      unfold runsFrom
      -- linked to the one before: the run grows
      by_cases hr : r a b
      · rw [if_pos hr]
        apply ih hys' (by rw [List.length_append, List.length_singleton]; omega) (by omega) ?_ hstart
        intro m hm hlt
        rcases Nat.lt_or_ge (m + 1) (start + size) with hin | hge
        · exact hopen m hm hin
        · obtain rfl : m = pre.length := by omega
          exact hlink.mpr hr
      · rw [if_neg hr]
        rcases Nat.lt_or_ge j (start + size) with hj | hj
        · rcases Nat.lt_or_ge k (start + size) with hk' | hk'
          · -- both are in the run that ends here
            constructor
            · intro _ m hjm hmk
              exact hopen m (by omega) (by omega)
            · intro _
              exact ⟨_, List.mem_cons_self, hstart, hk'⟩
          · -- the end of the run is between them
            constructor
            · rintro ⟨s, hs, hsj, hsk⟩
              rcases List.mem_cons.mp hs with rfl | hs
              · have : k < start + size := hsk
                omega
              · have := runsFrom_start_le s hs
                omega
            · intro hall
              exact absurd (hlink.mp (hall pre.length (by omega) (by omega))) hr
        · -- both are after it
          have hrest := @ih (pre ++ [a]) (start + size) 1 b hys'
            (by rw [List.length_append, List.length_singleton]; omega) (by omega)
            (fun m hm hlt => by omega) hj
          rw [← hrest]
          constructor
          · rintro ⟨s, hs, hsj, hsk⟩
            rcases List.mem_cons.mp hs with rfl | hs
            · have : k < start + size := hsk
              omega
            · exact ⟨s, hs, hsj, hsk⟩
          · rintro ⟨s, hs, hsj, hsk⟩
            exact ⟨s, List.mem_cons_of_mem _ hs, hsj, hsk⟩

/-- **Two positions are in one run** when all between them are linked. -/
theorem mem_runs_iff {xs : List α} {j k : Nat} (hjk : j ≤ k) (hk : k < xs.length) :
    (∃ s ∈ runs r xs, s.start ≤ j ∧ k < s.stop) ↔ ∀ m, j ≤ m → m < k → Linked r xs m := by
  cases xs with
  | nil => simp at hk
  | cons a xs =>
      exact mem_runsFrom_iff (List.nil_append _).symm rfl Nat.one_pos
        (fun m hm hlt => by omega) (Nat.zero_le _) hjk hk

/-! ## §2. How many runs there are. -/

/-- A larger relation makes fewer runs. -/
theorem runsFrom_mono {r' : α → α → Prop} [DecidableRel r'] (h : ∀ a b, r' a b → r a b)
    {start start' size size' : Nat} {a : α} {xs : List α} :
    (runsFrom r start size a xs).length ≤ (runsFrom r' start' size' a xs).length := by
  induction xs generalizing start start' size size' a with
  | nil => exact Nat.le_refl _
  | cons b xs ih =>
      unfold runsFrom
      by_cases hr' : r' a b
      · rw [if_pos hr', if_pos (h a b hr')]
        exact ih
      · rw [if_neg hr']
        split
        · exact Nat.le_succ_of_le ih
        · exact Nat.succ_le_succ ih

theorem runs_mono {r' : α → α → Prop} [DecidableRel r'] (h : ∀ a b, r' a b → r a b) (xs : List α) :
    (runs r xs).length ≤ (runs r' xs).length := by
  cases xs with
  | nil => exact Nat.le_refl _
  | cons a xs => exact runsFrom_mono h

/-- Runs of a list that is read off another. -/
theorem runs_map {β : Type*} (f : β → α) (xs : List β) :
    runs r (xs.map f) = runs (fun a b => r (f a) (f b)) xs := by
  have hfrom : ∀ (xs : List β) (start size : Nat) (a : β),
      runsFrom r start size (f a) (xs.map f) = runsFrom (fun a b => r (f a) (f b)) start size a xs := by
    intro xs
    induction xs with
    | nil => exact fun _ _ _ => rfl
    | cons b xs ih =>
        intro start size a
        rw [List.map_cons]
        unfold runsFrom
        rw [ih, ih]
  cases xs with
  | nil => rfl
  | cons a xs => exact hfrom xs 0 1 a

/-- Only how neighbours are related matters. -/
theorem runs_congr {r' : α → α → Prop} [DecidableRel r'] {xs : List α}
    (h : xs.IsChain (fun a b => r a b ↔ r' a b)) : runs r xs = runs r' xs := by
  have hfrom : ∀ (xs : List α) (start size : Nat) (a : α),
      (a :: xs).IsChain (fun a b => r a b ↔ r' a b) →
      runsFrom r start size a xs = runsFrom r' start size a xs := by
    intro xs
    induction xs with
    | nil => exact fun _ _ _ _ => rfl
    | cons b xs ih =>
        intro start size a hchain
        obtain ⟨hab, hrest⟩ := List.isChain_cons_cons.mp hchain
        unfold runsFrom
        by_cases hr : r a b
        · rw [if_pos hr, if_pos (hab.mp hr)]
          exact ih _ _ _ hrest
        · rw [if_neg hr, if_neg (fun hr' => hr (hab.mpr hr')), ih _ _ _ hrest]
  cases xs with
  | nil => rfl
  | cons a xs => exact hfrom xs 0 1 a h

/-- Something that related elements have in common takes at most one value
in a run. -/
theorem card_image_le_runs [DecidableEq α] {κ : Type*} [DecidableEq κ] (label : α → κ)
    {xs : List α} (h : ∀ a ∈ xs, ∀ b ∈ xs, r a b → label a = label b) :
    (xs.toFinset.image label).card ≤ (runs r xs).length := by
  have hfrom : ∀ (xs : List α) (start size : Nat) (a : α),
      (∀ x ∈ a :: xs, ∀ y ∈ a :: xs, r x y → label x = label y) →
      ((a :: xs).toFinset.image label).card ≤ (runsFrom r start size a xs).length := by
    intro xs
    induction xs with
    | nil =>
        intro start size a _
        simp [runsFrom]
    | cons b xs ih =>
        intro start size a h
        have htail : ∀ x ∈ b :: xs, ∀ y ∈ b :: xs, r x y → label x = label y :=
          fun x hx y hy => h x (List.mem_cons_of_mem _ hx) y (List.mem_cons_of_mem _ hy)
        unfold runsFrom
        rw [List.toFinset_cons, Finset.image_insert]
        split
        · next hr =>
            have hsame : label a ∈ (b :: xs).toFinset.image label := by
              rw [h a List.mem_cons_self b (List.mem_cons_of_mem _ List.mem_cons_self) hr]
              exact Finset.mem_image_of_mem _ (List.mem_toFinset.mpr List.mem_cons_self)
            rw [Finset.insert_eq_of_mem hsame]
            exact ih start (size + 1) b htail
        · have hle := ih (start + size) 1 b htail
          have hcard := Finset.card_insert_le (label a) ((b :: xs).toFinset.image label)
          rw [List.length_cons]
          omega
  cases xs with
  | nil => simp [runs]
  | cons a xs => exact hfrom xs 0 1 a h

open scoped Classical in
/-- Each position that is not linked ends a run. -/
theorem runs_length {xs : List α} (hne : xs ≠ []) :
    (runs r xs).length = Nat.count (fun m => ¬ Linked r xs m) (xs.length - 1) + 1 := by
  have hfrom : ∀ (ys pre xs : List α) (start size : Nat) (a : α), ys = pre ++ a :: xs →
      (runsFrom r start size a xs).length + Nat.count (fun m => ¬ Linked r ys m) pre.length
        = Nat.count (fun m => ¬ Linked r ys m) (ys.length - 1) + 1 := by
    intro ys pre xs
    induction xs generalizing pre with
    | nil =>
        intro start size a hys
        have hlen : ys.length - 1 = pre.length := by
          rw [hys, List.length_append, List.length_singleton, Nat.add_sub_cancel]
        rw [hlen]
        exact Nat.add_comm 1 _
    | cons b xs ih =>
        intro start size a hys
        obtain ⟨hys', hlink⟩ := walked_on (r := r) hys
        unfold runsFrom
        split
        · next hr =>
            have hrest := ih (pre ++ [a]) start (size + 1) b hys'
            rw [List.length_append, List.length_singleton, Nat.count_succ,
              if_neg (fun hnot => hnot (hlink.mpr hr))] at hrest
            omega
        · next hr =>
            have hrest := ih (pre ++ [a]) (start + size) 1 b hys'
            rw [List.length_append, List.length_singleton, Nat.count_succ,
              if_pos (fun hlinked => hr (hlink.mp hlinked))] at hrest
            rw [List.length_cons]
            omega
  cases xs with
  | nil => exact absurd rfl hne
  | cons a xs => exact hfrom (a :: xs) [] xs 0 1 a rfl

end Runs

/-! ## §3. Orders that keep related elements together. -/

/-- Between two positions whose elements are related, either way, or equal,
all are linked. -/
def ChainOrdered (r : α → α → Prop) (xs : List α) : Prop :=
  ∀ (i j : Nat) (a b : α), i < j → xs[i]? = some a → xs[j]? = some b → r a b ∨ r b a ∨ a = b →
    ∀ m, i ≤ m → m < j → Linked r xs m

/-- From one position to another, to an element it is related to. -/
def Link (r : α → α → Prop) (xs : List α) (i j : Nat) : Prop :=
  ∃ a b, xs[i]? = some a ∧ xs[j]? = some b ∧ r a b

/-- A chain of related elements leads from one position to the other. -/
def Chained (r : α → α → Prop) (xs : List α) (i j : Nat) : Prop :=
  Relation.ReflTransGen (Link r xs) i j ∨ Relation.ReflTransGen (Link r xs) j i

/-- All between two positions are linked. -/
def Together (r : α → α → Prop) (xs : List α) (i j : Nat) : Prop :=
  ∀ m, min i j ≤ m → m < max i j → Linked r xs m

theorem Together.trans {xs : List α} {i j k : Nat} (hij : Together r xs i j)
    (hjk : Together r xs j k) : Together r xs i k := by
  intro m hm hlt
  by_cases hin : min i j ≤ m ∧ m < max i j
  · exact hij m hin.1 hin.2
  · exact hjk m (by omega) (by omega)

theorem Together.symm {xs : List α} {i j : Nat} (h : Together r xs i j) : Together r xs j i := by
  intro m hm hlt
  exact h m (by omega) (by omega)

/-- Linked positions make a chain. -/
theorem chain_of_linked {xs : List α} {i : Nat} (n : Nat)
    (h : ∀ m, i ≤ m → m < i + n → Linked r xs m) :
    Relation.ReflTransGen (Link r xs) i (i + n) := by
  induction n with
  | zero => exact Relation.ReflTransGen.refl
  | succ n ih =>
      exact Relation.ReflTransGen.tail (ih (fun m hm hlt => h m hm (by omega)))
        (h (i + n) (by omega) (by omega))

namespace ChainOrdered

variable {xs ys : List α}

/-- Related or equal elements are together. -/
theorem together (h : ChainOrdered r xs) {i j : Nat} {a b : α} (hi : xs[i]? = some a)
    (hj : xs[j]? = some b) (hab : r a b ∨ r b a ∨ a = b) : Together r xs i j := by
  intro m hm hlt
  rcases Nat.lt_trichotomy i j with hij | rfl | hji
  · exact h i j a b hij hi hj hab m (by omega) (by omega)
  · omega
  · exact h j i b a hji hj hi (by tauto) m (by omega) (by omega)

theorem together_of_chain (h : ChainOrdered r xs) {i j : Nat}
    (hchain : Relation.ReflTransGen (Link r xs) i j) : Together r xs i j := by
  induction hchain with
  | refl =>
      intro m hm hlt
      omega
  | tail _ hlink ih =>
      obtain ⟨a, b, ha, hb, hr⟩ := hlink
      exact ih.trans (h.together ha hb (Or.inl hr))

theorem together_iff (h : ChainOrdered r xs) {i j : Nat} :
    Together r xs i j ↔ Chained r xs i j := by
  constructor
  · intro htogether
    rcases Nat.le_total i j with hij | hji
    · obtain ⟨n, rfl⟩ := Nat.exists_eq_add_of_le hij
      exact Or.inl (chain_of_linked n (fun m hm hlt => htogether m (by omega) (by omega)))
    · obtain ⟨n, rfl⟩ := Nat.exists_eq_add_of_le hji
      exact Or.inr (chain_of_linked n (fun m hm hlt => htogether m (by omega) (by omega)))
  · rintro (hchain | hchain)
    · exact h.together_of_chain hchain
    · exact (h.together_of_chain hchain).symm

variable [DecidableRel r]

/-- **One run, one chain.** -/
theorem same_run_iff (h : ChainOrdered r xs) {i j : Nat} (hi : i < xs.length)
    (hj : j < xs.length) :
    (∃ s ∈ runs r xs, (s.start ≤ i ∧ i < s.stop) ∧ s.start ≤ j ∧ j < s.stop)
      ↔ Chained r xs i j := by
  rw [← h.together_iff]
  have hruns := @mem_runs_iff α r _ xs (min i j) (max i j) (by omega) (by omega)
  unfold Together
  rw [← hruns]
  constructor
  · rintro ⟨s, hs, ⟨hsi, his⟩, hsj, hjs⟩
    exact ⟨s, hs, by omega, by omega⟩
  · rintro ⟨s, hs, hmin, hmax⟩
    exact ⟨s, hs, ⟨by omega, by omega⟩, by omega, by omega⟩

open scoped Classical in
/-- **No order has fewer runs.** -/
theorem fewest (h : ChainOrdered r xs) (hperm : ys.Perm xs) :
    (runs r xs).length ≤ (runs r ys).length := by
  rcases eq_or_ne xs [] with rfl | hne
  · exact Nat.zero_le _
  -- the number of runs that end before an element, which related elements share
  set ended : Nat → Nat := Nat.count (fun m => ¬ Linked r xs m) with hended
  set label : α → Nat := fun a => ended (xs.idxOf a) with hlabel
  have hmono : ∀ i j, i ≤ j → (∀ m, i ≤ m → m < j → Linked r xs m) → ended i = ended j := by
    intro i j hij hall
    obtain ⟨n, rfl⟩ := Nat.exists_eq_add_of_le hij
    clear hij
    induction n with
    | zero => rfl
    | succ n ih =>
        rw [ih (fun m hm hlt => hall m hm (by omega)), hended, ← Nat.add_assoc, Nat.count_succ,
          if_neg (fun hnot => hnot (hall (i + n) (by omega) (by omega))), Nat.add_zero]
  have hsame : ∀ i j, Together r xs i j → ended i = ended j := by
    intro i j htogether
    rcases Nat.le_total i j with hij | hji
    · exact hmono i j hij (fun m hm hlt => htogether m (by omega) (by omega))
    · exact (hmono j i hji (fun m hm hlt => htogether m (by omega) (by omega))).symm
  have hidx : ∀ a ∈ xs, xs[xs.idxOf a]? = some a := by
    intro a ha
    have hlt := List.idxOf_lt_length_of_mem ha
    rw [List.getElem?_eq_getElem hlt, List.getElem_idxOf hlt]
  have hrelated : ∀ a ∈ ys, ∀ b ∈ ys, r a b → label a = label b := by
    intro a ha b hb hr
    exact hsame _ _ (h.together (hidx a (hperm.subset ha)) (hidx b (hperm.subset hb)) (Or.inl hr))
  -- every number of ended runs is that of some element
  have hattained : ∀ n v, v ≤ ended n → ∃ i, i ≤ n ∧ ended i = v := by
    intro n
    induction n with
    | zero =>
        intro v hv
        rw [hended, Nat.count_zero] at hv
        exact ⟨0, Nat.le_refl _, by rw [hended, Nat.count_zero]; omega⟩
    | succ n ih =>
        intro v hv
        rcases Nat.lt_or_ge (ended n) v with hlt | hge
        · refine ⟨n + 1, Nat.le_refl _, ?_⟩
          have hstep : ended (n + 1) ≤ ended n + 1 := by
            rw [hended, Nat.count_succ]
            split <;> omega
          omega
        · obtain ⟨i, hi, heq⟩ := ih v hge
          exact ⟨i, by omega, heq⟩
  have hsub : Finset.range (ended (xs.length - 1) + 1) ⊆ ys.toFinset.image label := by
    intro v hv
    obtain ⟨i, hi, heq⟩ := hattained (xs.length - 1) v (by
      have := Finset.mem_range.mp hv
      omega)
    have hpos := List.length_pos_of_ne_nil hne
    have hlt : i < xs.length := by omega
    have hmem : xs[i] ∈ xs := List.getElem_mem hlt
    refine Finset.mem_image.mpr ⟨xs[i], List.mem_toFinset.mpr (hperm.symm.subset hmem), ?_⟩
    rw [← heq]
    exact hsame _ _ (h.together (hidx _ hmem) (List.getElem?_eq_getElem hlt)
      (Or.inr (Or.inr rfl)))
  have hcard := Finset.card_le_card hsub
  rw [Finset.card_range] at hcard
  rw [runs_length hne]
  exact hcard.trans (card_image_le_runs label hrelated)

end ChainOrdered

end ModelStreamer.Lib
