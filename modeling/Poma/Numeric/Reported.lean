import Mathlib.Algebra.BigOperators.Group.List.Basic
import Mathlib.Tactic.Linarith
import Poma.Models.Types

/-!
# Arithmetic on reported numbers

Sums, differences and comparisons of numbers that may be infinite or not a
number. A sum is a finite number exactly when all its parts are, and what is not
a number is neither above a bound nor within it.
-/

namespace Poma

namespace Reported

/-- `-x`. -/
def neg : Reported → Reported
  | finite x => finite (-x)
  | infinite negative => infinite !negative
  | nan => nan

/-- `x + y`. -/
def add : Reported → Reported → Reported
  | finite x, finite y => finite (x + y)
  | finite _, infinite negative => infinite negative
  | infinite negative, finite _ => infinite negative
  | infinite negative, infinite other => if negative = other then infinite negative else nan
  | nan, _ => nan
  | _, nan => nan

/-- `x - y`. -/
def sub (x y : Reported) : Reported := x.add y.neg

/-- `abs(x)`. -/
def abs : Reported → Reported
  | finite x => finite |x|
  | infinite _ => infinite false
  | nan => nan

/-- `x * factor`. -/
def scale (x : Reported) (factor : ℚ) : Reported :=
  match x with
  | finite x => finite (x * factor)
  | infinite negative => if factor = 0 then nan else infinite (negative ^^ decide (factor < 0))
  | nan => nan

/-- `x * y`. -/
def mul : Reported → Reported → Reported
  | finite x, finite y => finite (x * y)
  | finite x, infinite negative => (infinite negative).scale x
  | infinite negative, finite y => (infinite negative).scale y
  | infinite negative, infinite other => infinite (negative ^^ other)
  | nan, _ => nan
  | _, nan => nan

/-- `x < y`. -/
def lt : Reported → Reported → Bool
  | finite x, finite y => decide (x < y)
  | finite _, infinite negative => !negative
  | infinite negative, finite _ => negative
  | infinite negative, infinite other => negative && !other
  | nan, _ => false
  | _, nan => false

/-- `x <= y`. -/
def le : Reported → Reported → Bool
  | finite x, finite y => decide (x ≤ y)
  | finite _, infinite negative => !negative
  | infinite negative, finite _ => negative
  | infinite negative, infinite other => negative || !other
  | nan, _ => false
  | _, nan => false

/-- `sum(xs)`. -/
def sum (xs : List Reported) : Reported := xs.foldl add (finite 0)

/-- `max(xs, default=0.0)`: a later value replaces an earlier one it is above. -/
def maximum : List Reported → Reported
  | [] => finite 0
  | x :: xs => xs.foldl (fun best y => if best.lt y then y else best) x

@[simp] theorem lt_finite (x y : ℚ) : (finite x).lt (finite y) = decide (x < y) := rfl

@[simp] theorem le_finite (x y : ℚ) : (finite x).le (finite y) = decide (x ≤ y) := rfl

@[simp] theorem value?_finite (x : ℚ) : (finite x).value? = some x := rfl

@[simp] theorem value?_infinite (negative : Bool) : (infinite negative).value? = none := rfl

@[simp] theorem value?_nan : nan.value? = none := rfl

theorem value?_eq_some {x : Reported} {q : ℚ} : x.value? = some q ↔ x = finite q := by
  cases x <;> simp

theorem isFinite_iff {x : Reported} : x.isFinite = true ↔ ∃ q, x = finite q := by
  cases x <;> simp [isFinite]

@[simp] theorem isFinite_add {x y : Reported} :
    (x.add y).isFinite = true ↔ x.isFinite = true ∧ y.isFinite = true := by
  cases x with
  | finite a => cases y <;> simp [add, isFinite]
  | infinite negative =>
    cases y with
    | finite b => simp [add, isFinite]
    | infinite other => cases negative <;> cases other <;> simp [add, isFinite]
    | nan => simp [add, isFinite]
  | nan => cases y <;> simp [add, isFinite]

@[simp] theorem isFinite_neg {x : Reported} : x.neg.isFinite = x.isFinite := by
  cases x <;> rfl

@[simp] theorem isFinite_sub {x y : Reported} :
    (x.sub y).isFinite = true ↔ x.isFinite = true ∧ y.isFinite = true := by
  rw [sub, isFinite_add, isFinite_neg]

@[simp] theorem isFinite_abs {x : Reported} : x.abs.isFinite = x.isFinite := by
  cases x <;> rfl

@[simp] theorem isFinite_scale {x : Reported} {factor : ℚ} :
    (x.scale factor).isFinite = x.isFinite := by
  cases x with
  | finite a => rfl
  | infinite negative =>
    unfold scale
    dsimp only
    split <;> rfl
  | nan => rfl

/-- A sum of finite numbers is their sum. -/
theorem sum_finite (xs : List ℚ) : sum (xs.map finite) = finite xs.sum := by
  have hfrom : ∀ start, (xs.map finite).foldl add (finite start) = finite (start + xs.sum) := by
    induction xs with
    | nil => simp
    | cons x xs ih =>
      intro start
      rw [List.map_cons, List.foldl_cons, add, ih, List.sum_cons, add_assoc]
  rw [sum, hfrom, zero_add]

theorem isFinite_sum {xs : List Reported} (h : ∀ x ∈ xs, x.isFinite = true) :
    (sum xs).isFinite = true := by
  have hfrom : ∀ start : Reported, start.isFinite = true → (xs.foldl add start).isFinite = true := by
    induction xs with
    | nil => exact fun start hstart => hstart
    | cons x xs ih =>
      intro start hstart
      apply ih fun y hy => h y (List.mem_cons_of_mem _ hy)
      exact isFinite_add.mpr ⟨hstart, h x List.mem_cons_self⟩
  exact hfrom _ rfl

/-- The parts of a finite sum are finite. -/
theorem isFinite_of_sum {xs : List Reported} (h : (sum xs).isFinite = true) :
    ∀ x ∈ xs, x.isFinite = true := by
  have hfrom : ∀ start : Reported, (xs.foldl add start).isFinite = true →
      start.isFinite = true ∧ ∀ x ∈ xs, x.isFinite = true := by
    clear h
    induction xs with
    | nil => simp
    | cons x xs ih =>
      intro start hsum
      obtain ⟨hhead, htail⟩ := ih _ hsum
      obtain ⟨hstart, hx⟩ := isFinite_add.mp hhead
      refine ⟨hstart, ?_⟩
      intro y hy
      rcases List.mem_cons.mp hy with rfl | hy
      · exact hx
      · exact htail y hy
  exact (hfrom _ h).2

theorem eq_negative_of_add {x y : Reported} (h : x.add y = infinite true) :
    x = infinite true ∨ y = infinite true := by
  cases x with
  | finite a => cases y <;> simp_all [add]
  | infinite negative =>
    cases y with
    | finite b => simp_all [add]
    | infinite other => cases negative <;> cases other <;> simp_all [add]
    | nan => simp [add] at h
  | nan => cases y <;> simp [add] at h

/-- A sum is the infinite below only if one of its parts is. -/
theorem exists_negative_of_sum {xs : List Reported} (h : sum xs = infinite true) :
    infinite true ∈ xs := by
  have hfrom : ∀ start : Reported, xs.foldl add start = infinite true →
      start = infinite true ∨ infinite true ∈ xs := by
    clear h
    induction xs with
    | nil => exact fun start hsum => Or.inl hsum
    | cons x xs ih =>
      intro start hsum
      rcases ih _ hsum with hhead | htail
      · rcases eq_negative_of_add hhead with hstart | hx
        · exact Or.inl hstart
        · exact Or.inr (List.mem_cons.mpr (Or.inl hx.symm))
      · exact Or.inr (List.mem_cons_of_mem _ htail)
  rcases hfrom _ h with hstart | hmem
  · cases hstart
  · exact hmem

/-- An absolute value within a bound is that of a finite number. -/
theorem isFinite_of_abs_le {x : Reported} {bound : ℚ} (h : x.abs.le (finite bound) = true) :
    x.isFinite = true := by
  cases x with
  | finite a => rfl
  | infinite negative => cases h
  | nan => cases h

/-- A sum of absolute values within a bound has finite parts. -/
theorem isFinite_of_sum_abs_le {α : Type} {xs : List α} {f : α → Reported} {bound : ℚ}
    (h : (sum (xs.map fun x => (f x).abs)).le (finite bound) = true) :
    ∀ x ∈ xs, (f x).isFinite = true := by
  have hfinite : (sum (xs.map fun x => (f x).abs)).isFinite = true := by
    cases hsum : sum (xs.map fun x => (f x).abs) with
    | finite a => rfl
    | nan =>
      rw [hsum] at h
      cases h
    | infinite negative =>
      cases negative with
      | false =>
        rw [hsum] at h
        cases h
      | true =>
        obtain ⟨x, -, hx⟩ := List.mem_map.mp (exists_negative_of_sum hsum)
        cases hfx : f x <;> rw [hfx] at hx <;> cases hx
  intro x hx
  have hpart := isFinite_of_sum hfinite _ (List.mem_map_of_mem hx)
  rwa [isFinite_abs] at hpart

end Reported

end Poma
