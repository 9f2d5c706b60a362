import Mathlib.Algebra.Order.Floor.Ring
import Mathlib.Algebra.Order.Group.MinMax
import Mathlib.Tactic.Linarith
import Mathlib.Tactic.FieldSimp
import Mathlib.Tactic.Ring

/-!
# Rounding to a grid

The grid of a step is its whole multiples. A point is rounded down or up to the
grid with a tolerance, a small part of a step within which a point counts as the
grid point it misses. Rounding down gives the greatest grid point that is not
above the point with its tolerance, and everything else follows from that. A
point between two bounds is rounded towards the lower one and kept between them.
-/

namespace Grid

/-- A whole multiple of the step. -/
def On {K : Type} [Ring K] (step x : K) : Prop := ∃ n : ℤ, x = n * step

section

variable {K : Type} [Ring K] {fine step x : K}

theorem On.neg (h : On step x) : On step (-x) := by
  obtain ⟨n, rfl⟩ := h
  exact ⟨-n, by rw [Int.cast_neg, neg_mul]⟩

/-- A grid is part of every grid its step is on. -/
theorem On.trans (hstep : On fine step) (h : On step x) : On fine x := by
  obtain ⟨m, rfl⟩ := hstep
  obtain ⟨n, rfl⟩ := h
  exact ⟨n * m, by rw [Int.cast_mul, mul_assoc]⟩

end

variable {K : Type} [Field K] [LinearOrder K] [FloorRing K]

/-- Down to the grid. -/
def floor (step tolerance x : K) : K := ⌊x / step + tolerance⌋ * step

/-- Up to the grid. -/
def ceil (step tolerance x : K) : K := ⌈x / step - tolerance⌉ * step

/-- Down to the grid, between two bounds. -/
def clampFloor (step tolerance low high x : K) : K := min (max (floor step tolerance x) low) high

/-- Up to the grid, between two bounds. -/
def clampCeil (step tolerance low high x : K) : K := max (min (ceil step tolerance x) high) low

variable {step tolerance low high x y : K}

theorem on_floor : On step (floor step tolerance x) := ⟨_, rfl⟩

/-- A point rounded down between two bounds is one of them, or a grid point. -/
theorem clampFloor_cases (step tolerance low high x : K) :
    clampFloor step tolerance low high x = high ∨ clampFloor step tolerance low high x = low ∨
      clampFloor step tolerance low high x = floor step tolerance x := by
  unfold clampFloor
  rcases min_choice (max (floor step tolerance x) low) high with h | h
  · rw [h]
    rcases max_choice (floor step tolerance x) low with h | h
    · exact Or.inr (Or.inr h)
    · exact Or.inr (Or.inl h)
  · exact Or.inl h

theorem clampFloor_mem (h : low ≤ high) :
    low ≤ clampFloor step tolerance low high x ∧ clampFloor step tolerance low high x ≤ high :=
  ⟨le_min (le_max_right _ _) h, min_le_right _ _⟩

theorem clampCeil_mem (h : low ≤ high) :
    low ≤ clampCeil step tolerance low high x ∧ clampCeil step tolerance low high x ≤ high :=
  ⟨le_max_right _ _, max_le (min_le_right _ _) h⟩

theorem on_ceil : On step (ceil step tolerance x) := ⟨_, rfl⟩

variable [IsStrictOrderedRing K]

/-- Rounding up is rounding down from the other side. -/
theorem ceil_eq_neg_floor : ceil step tolerance x = -floor step tolerance (-x) := by
  have harg : x / step - tolerance = -(-x / step + tolerance) := by ring
  unfold ceil floor
  rw [harg, Int.ceil_neg, Int.cast_neg, neg_mul]

/-- Between two bounds too. -/
theorem clampCeil_eq_neg_clampFloor : clampCeil step tolerance low high x =
    -clampFloor step tolerance (-high) (-low) (-x) := by
  unfold clampCeil clampFloor
  rw [ceil_eq_neg_floor, ← max_neg_neg, neg_neg, ← min_neg_neg, neg_neg]

/-- The grid points that are not above a point, its tolerance added, are those not above the
point rounded down. -/
theorem On.le_floor_iff {g : K} (hg : On step g) (hstep : 0 < step) :
    g ≤ floor step tolerance x ↔ g ≤ x + tolerance * step := by
  obtain ⟨n, rfl⟩ := hg
  have hscale : (x / step + tolerance) * step = x + tolerance * step := by
    rw [add_mul, div_mul_cancel₀ _ hstep.ne']
  unfold floor
  rw [mul_le_mul_iff_left₀ hstep, Int.cast_le, Int.le_floor, ← hscale,
    mul_le_mul_iff_left₀ hstep]

theorem floor_le (hstep : 0 < step) : floor step tolerance x ≤ x + tolerance * step :=
  (on_floor.le_floor_iff hstep).mp le_rfl

theorem floor_mono (hstep : 0 < step) (h : x ≤ y) :
    floor step tolerance x ≤ floor step tolerance y := by
  have hle : floor step tolerance x ≤ x + tolerance * step := floor_le hstep
  exact (on_floor.le_floor_iff hstep).mpr (by linarith)

/-- A grid point stays where it is. -/
theorem On.floor_eq (h : On step x) (hstep : 0 < step) (htolerance : 0 ≤ tolerance)
    (hsmall : tolerance < 1) : floor step tolerance x = x := by
  obtain ⟨n, rfl⟩ := h
  have hfloor : ⌊(n : K) * step / step + tolerance⌋ = n := by
    rw [mul_div_cancel_right₀ _ hstep.ne', Int.floor_eq_iff]
    constructor <;> linarith
  rw [floor, hfloor]

/-- Rounding down between bounds does not pass the point, unless the lower bound is above it. -/
theorem clampFloor_le (hstep : 0 < step) :
    clampFloor step tolerance low high x ≤ x + tolerance * step ∨
      clampFloor step tolerance low high x = min low high := by
  unfold clampFloor
  rcases le_total (floor step tolerance x) low with h | h
  · rw [max_eq_right h]
    exact Or.inr rfl
  · rw [max_eq_left h]
    exact Or.inl ((min_le_left _ _).trans (floor_le hstep))

theorem clampFloor_mono (hstep : 0 < step) (h : x ≤ y) :
    clampFloor step tolerance low high x ≤ clampFloor step tolerance low high y :=
  min_le_min_right _ (max_le_max_right _ (floor_mono hstep h))

/-- At an upper bound on the grid the result is that bound. -/
theorem On.clampFloor_high (hgrid : On step high) (hstep : 0 < step) (htolerance : 0 ≤ tolerance)
    (hsmall : tolerance < 1) : clampFloor step tolerance low high high = high := by
  unfold clampFloor
  rw [hgrid.floor_eq hstep htolerance hsmall]
  exact min_eq_right (le_max_left _ _)

/-- The grid points that are not below a point, its tolerance taken off, are those not below the
point rounded up. -/
theorem On.ceil_le_iff {g : K} (hg : On step g) (hstep : 0 < step) :
    ceil step tolerance x ≤ g ↔ x - tolerance * step ≤ g := by
  rw [ceil_eq_neg_floor, neg_le, hg.neg.le_floor_iff hstep]
  constructor <;> intro h <;> linarith

/-- A point rounded up between two bounds is one of them, or a grid point. -/
theorem clampCeil_cases (step tolerance low high x : K) :
    clampCeil step tolerance low high x = low ∨ clampCeil step tolerance low high x = high ∨
      clampCeil step tolerance low high x = ceil step tolerance x := by
  rw [clampCeil_eq_neg_clampFloor, ceil_eq_neg_floor, neg_inj, neg_eq_iff_eq_neg,
    neg_eq_iff_eq_neg]
  exact clampFloor_cases step tolerance (-high) (-low) (-x)

/-- Rounding up between bounds does not pass the point, unless the upper bound is below it. -/
theorem le_clampCeil (hstep : 0 < step) :
    x - tolerance * step ≤ clampCeil step tolerance low high x ∨
      clampCeil step tolerance low high x = max high low := by
  rw [clampCeil_eq_neg_clampFloor, neg_eq_iff_eq_neg, ← min_neg_neg]
  apply (clampFloor_le hstep).imp_left
  intro h
  linarith

theorem clampCeil_mono (hstep : 0 < step) (h : x ≤ y) :
    clampCeil step tolerance low high x ≤ clampCeil step tolerance low high y := by
  rw [clampCeil_eq_neg_clampFloor, clampCeil_eq_neg_clampFloor, neg_le_neg_iff]
  exact clampFloor_mono hstep (neg_le_neg h)

/-- At a lower bound on the grid the result is that bound. -/
theorem On.clampCeil_low (hgrid : On step low) (hstep : 0 < step) (htolerance : 0 ≤ tolerance)
    (hsmall : tolerance < 1) : clampCeil step tolerance low high low = low := by
  rw [clampCeil_eq_neg_clampFloor, hgrid.neg.clampFloor_high hstep htolerance hsmall, neg_neg]

end Grid
