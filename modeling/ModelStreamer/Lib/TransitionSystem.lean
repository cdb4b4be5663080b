/-
  ModelStreamer.Lib.TransitionSystem
  ──────────────────────────────────
  **LABELLED TRANSITION SYSTEMS.**

  A system is a set of initial states and a step relation labelled with what
  happens.  An interleaving of several parties is such a system whose labels
  say who moves.

    • `Reachable.invariant` — what holds initially and is kept by every step
      holds in every reachable state,
    • `restrict` — the runs whose steps all meet a condition,
    • `Reachable.follow` — a list of labels, followed by a step function,
    • `Leads.keeps` — what every step keeps holds from then on,
    • `Steps.length_le` — a measure that every step decreases bounds the
      length of every run, so a system with one always comes to rest,
    • `sum_update_add` — when one of finitely many parties moves, a total
      over the parties changes by that party's share.
-/
import Mathlib.Algebra.BigOperators.Fin
import Mathlib.Algebra.BigOperators.Group.Finset.Piecewise
import Mathlib.Logic.Relation

namespace ModelStreamer.Lib

universe u v

/-- A labelled transition system. -/
structure System (σ : Type u) (α : Type v) where
  init : σ → Prop
  step : σ → α → σ → Prop

namespace System

variable {σ : Type u} {α : Type v} (S : System σ α)

/-! ## §1. Reachable states. -/

/-- The states of the runs of the system. -/
inductive Reachable : σ → Prop
  | init {s : σ} : S.init s → Reachable s
  | step {s t : σ} {a : α} : Reachable s → S.step s a t → Reachable t

/-- **Invariant rule**. -/
theorem Reachable.invariant {S : System σ α} {inv : σ → Prop}
    (hinit : ∀ s, S.init s → inv s)
    (hstep : ∀ s a t, S.Reachable s → inv s → S.step s a t → inv t) :
    ∀ s, S.Reachable s → inv s := by
  intro s h
  induction h with
  | init h => exact hinit _ h
  | step hreach h ih => exact hstep _ _ _ hreach ih h

/-- The system whose steps all meet `ok`. -/
def restrict (ok : σ → α → Prop) : System σ α where
  init := S.init
  step s a t := ok s a ∧ S.step s a t

theorem Reachable.of_restrict {S : System σ α} {ok : σ → α → Prop} {s : σ}
    (h : (S.restrict ok).Reachable s) : S.Reachable s := by
  induction h with
  | init h => exact .init h
  | step _ h ih => exact .step ih h.2

theorem Reachable.restrict_mono {S : System σ α} {ok ok' : σ → α → Prop} {s : σ}
    (h : (S.restrict ok).Reachable s) (hle : ∀ s a, ok s a → ok' s a) :
    (S.restrict ok').Reachable s := by
  induction h with
  | init h => exact .init h
  | step _ h ih => exact .step ih ⟨hle _ _ h.1, h.2⟩

theorem Reachable.restrict_step {S : System σ α} {ok : σ → α → Prop} {s t : σ} {a : α}
    (hs : (S.restrict ok).Reachable s) (hstep : S.step s a t) (hok : ok s a) :
    (S.restrict ok).Reachable t :=
  hs.step ⟨hok, hstep⟩

/-- Follow the labels with a step function, as long as they meet `ok`. -/
def follow (next : σ → α → Option σ) (ok : σ → α → Prop) [∀ s a, Decidable (ok s a)] :
    σ → List α → Option σ
  | s, [] => some s
  | s, a :: labels => if ok s a then (next s a).bind (fun t => follow next ok t labels) else none

theorem Reachable.follow {S : System σ α} {next : σ → α → Option σ} {ok : σ → α → Prop}
    [∀ s a, Decidable (ok s a)] (hnext : ∀ s a t, next s a = some t → S.step s a t)
    {s t : σ} {labels : List α} (hs : (S.restrict ok).Reachable s)
    (h : System.follow next ok s labels = some t) : (S.restrict ok).Reachable t := by
  induction labels generalizing s with
  | nil =>
      obtain rfl := Option.some.inj h
      exact hs
  | cons a labels ih =>
      unfold System.follow at h
      split at h
      next hok =>
        obtain ⟨u, hu, hrest⟩ := Option.bind_eq_some_iff.mp h
        exact ih (.step hs ⟨hok, hnext s a u hu⟩) hrest
      · simp at h

/-- `t` is `s`, or comes after it in a run. -/
def Leads : σ → σ → Prop := Relation.ReflTransGen (fun s t => ∃ a, S.step s a t)

theorem Reachable.leads {S : System σ α} {s t : σ} (hs : S.Reachable s) (h : S.Leads s t) :
    S.Reachable t := by
  induction h with
  | refl => exact hs
  | tail _ hstep ih =>
      obtain ⟨a, hstep⟩ := hstep
      exact .step ih hstep

/-- **Stability rule**: what every step keeps, once it holds, holds from then
on. -/
theorem Leads.keeps {S : System σ α} {p : σ → Prop}
    (hstep : ∀ s a t, S.Reachable s → p s → S.step s a t → p t) {s t : σ}
    (hs : S.Reachable s) (hp : p s) (h : S.Leads s t) : p t := by
  induction h with
  | refl => exact hp
  | tail hleads hnext ih =>
      obtain ⟨a, hnext⟩ := hnext
      exact hstep _ a _ (hs.leads hleads) ih hnext

/-! ## §2. Runs that come to rest. -/

/-- A run of `n` steps whose labels are all in `p`. -/
inductive Steps (p : α → Prop) : Nat → σ → σ → Prop
  | nil (s : σ) : Steps p 0 s s
  | cons {n : Nat} {s t u : σ} {a : α} :
      p a → S.step s a t → Steps p n t u → Steps p (n + 1) s u

/-- **Termination rule**: a measure decreased by every step bounds the run. -/
theorem Steps.length_le {S : System σ α} {p : α → Prop} {good : σ → Prop} {μ : σ → Nat}
    (hgood : ∀ s a t, good s → S.step s a t → good t)
    (hμ : ∀ s a t, good s → p a → S.step s a t → μ t < μ s) :
    ∀ n s t, good s → S.Steps p n s t → n + μ t ≤ μ s := by
  intro n s t hs h
  induction h with
  | nil s => omega
  | cons hp hstep _ ih =>
      have h₁ := hμ _ _ _ hs hp hstep
      have h₂ := ih (hgood _ _ _ hs hstep)
      omega

end System

/-! ## §3. Totals over the parties. -/

section Parties

variable {ι M : Type*} {α : Type u} [Fintype ι] [DecidableEq ι] [AddCommMonoid M]

/-- **One party moves**: its old share goes, its new share comes. -/
theorem sum_update_add (f : ι → α) (g : α → M) (i : ι) (a : α) :
    ∑ j, g (Function.update f i a j) + g (f i) = ∑ j, g (f j) + g a := by
  have hrest : ∑ j ∈ Finset.univ.erase i, g (Function.update f i a j)
      = ∑ j ∈ Finset.univ.erase i, g (f j) := by
    refine Finset.sum_congr rfl (fun j hj => ?_)
    rw [Function.update_of_ne (Finset.ne_of_mem_erase hj)]
  rw [← Finset.add_sum_erase Finset.univ _ (Finset.mem_univ i),
    ← Finset.add_sum_erase Finset.univ (fun j => g (f j)) (Finset.mem_univ i), hrest,
    Function.update_self]
  rw [add_right_comm, add_comm (g a), add_right_comm]

end Parties

end ModelStreamer.Lib
