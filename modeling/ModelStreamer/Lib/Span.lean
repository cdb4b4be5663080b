/-
  ModelStreamer.Lib.Span
  ──────────────────────
  **CONTIGUOUS BYTE SPANS.**

  A span is a half-open interval `[start, start + size)` of positions.
  `layout a sizes` puts spans of the given sizes back to back from `a`;
  this file says what such a layout covers:

    • `countP_covers_layout` — every position of `[a, a + Σ sizes)` lies in
      EXACTLY ONE span of the layout, and no other position lies in any,
    • `layout_pairwise` — the spans are in order and pairwise disjoint.

  Nothing here knows what the positions are (file bytes, buffer bytes,
  tensor bytes).
-/
import Mathlib.Data.List.Basic
import Mathlib.Algebra.BigOperators.Group.List.Basic
import Mathlib.Tactic.Ring

namespace ModelStreamer.Lib

/-! ## §1. Spans and layouts. -/

/-- The half-open interval `[start, start + size)`. -/
structure Span where
  start : Nat
  size : Nat
  deriving DecidableEq, Repr

/-- First position after the span. -/
def Span.stop (s : Span) : Nat := s.start + s.size

/-- Does the span contain position `x`? -/
def Span.covers (s : Span) (x : Nat) : Bool := decide (s.start ≤ x ∧ x < s.stop)

theorem covers_iff (s : Span) (x : Nat) :
    s.covers x = true ↔ s.start ≤ x ∧ x < s.stop := by
  simp [Span.covers]

/-- Spans of the given sizes, back to back from `a`. -/
def layout : Nat → List Nat → List Span
  | _, [] => []
  | a, s :: sizes => ⟨a, s⟩ :: layout (a + s) sizes

@[simp] theorem layout_nil (a : Nat) : layout a [] = [] := rfl

@[simp] theorem layout_cons (a s : Nat) (sizes : List Nat) :
    layout a (s :: sizes) = ⟨a, s⟩ :: layout (a + s) sizes := rfl

@[simp] theorem layout_map_size (a : Nat) (sizes : List Nat) :
    (layout a sizes).map Span.size = sizes := by
  induction sizes generalizing a with
  | nil => rfl
  | cons s sizes ih => simp [ih]

@[simp] theorem layout_length (a : Nat) (sizes : List Nat) :
    (layout a sizes).length = sizes.length := by
  induction sizes generalizing a with
  | nil => rfl
  | cons s sizes ih => simp [ih]

/-! ## §2. What a layout covers. -/

/-- Spans of a layout stay inside the interval it fills. -/
theorem mem_layout_bounds {a : Nat} {sizes : List Nat} {p : Span}
    (h : p ∈ layout a sizes) : a ≤ p.start ∧ p.stop ≤ a + sizes.sum := by
  induction sizes generalizing a with
  | nil => simp at h
  | cons s sizes ih =>
      simp only [layout_cons, List.mem_cons] at h
      simp only [List.sum_cons]
      rcases h with rfl | h
      · simp only [Span.stop]
        omega
      · have := ih h
        omega

/-- **Exactly-once cover**: a position of the filled interval is in one
span, any other position in none. -/
theorem countP_covers_layout (x a : Nat) (sizes : List Nat) :
    (layout a sizes).countP (·.covers x)
      = if a ≤ x ∧ x < a + sizes.sum then 1 else 0 := by
  induction sizes generalizing a with
  | nil =>
      rw [if_neg (by simp only [List.sum_nil]; omega)]
      rfl
  | cons s sizes ih =>
      have hc := covers_iff ⟨a, s⟩ x
      simp only [Span.stop] at hc
      rw [layout_cons, List.countP_cons, ih, List.sum_cons]
      by_cases h₁ : a ≤ x ∧ x < a + s
      · rw [if_neg (by omega), if_pos (hc.mpr h₁), if_pos (by omega)]
      · rw [if_neg (fun h => h₁ (hc.mp h))]
        by_cases h₂ : a + s ≤ x ∧ x < a + s + sizes.sum
        · rw [if_pos h₂, if_pos (by omega)]
        · rw [if_neg h₂, if_neg (by omega)]

/-- The spans of a layout are ordered and pairwise disjoint. -/
theorem layout_pairwise (a : Nat) (sizes : List Nat) :
    (layout a sizes).Pairwise (fun p q => p.stop ≤ q.start) := by
  induction sizes generalizing a with
  | nil => simp
  | cons s sizes ih =>
      simp only [layout_cons, List.pairwise_cons]
      exact ⟨fun q hq => (mem_layout_bounds hq).1, ih _⟩

end ModelStreamer.Lib
