import Poma.Numeric.Reported

/-!
# Numbers in order

Reported numbers other than those that are not a number are linearly ordered,
with the two infinities at the ends.
-/

namespace Poma

/-- A number that is one, finite or infinite. -/
abbrev Numeric : Type := {x : Reported // x ≠ .nan}

namespace Numeric

instance : LE Numeric := ⟨fun x y => x.val.le y.val = true⟩

instance : LT Numeric := ⟨fun x y => x.val.lt y.val = true⟩

instance (x y : Numeric) : Decidable (x ≤ y) := inferInstanceAs (Decidable (_ = true))

instance (x y : Numeric) : Decidable (x < y) := inferInstanceAs (Decidable (_ = true))

theorem le_def {x y : Numeric} : x ≤ y ↔ x.val.le y.val = true := Iff.rfl

theorem lt_def {x y : Numeric} : x < y ↔ x.val.lt y.val = true := Iff.rfl

/-- Numbers are in order, with the two infinities at the ends. -/
instance : LinearOrder Numeric where
  le_refl := by
    rintro ⟨x, hx⟩
    cases x with
    | finite a => simp [le_def]
    | infinite negative => cases negative <;> rfl
    | nan => exact absurd rfl hx
  le_trans := by
    rintro ⟨x, hx⟩ ⟨y, hy⟩ ⟨z, hz⟩ hxy hyz
    rw [le_def] at hxy hyz ⊢
    cases x with
    | nan => exact absurd rfl hx
    | finite a =>
      cases y with
      | nan => exact absurd rfl hy
      | finite b =>
        cases z with
        | nan => exact absurd rfl hz
        | finite c =>
          simp only [Reported.le_finite, decide_eq_true_eq] at *
          exact hxy.trans hyz
        | infinite negative => exact hyz
      | infinite negative =>
        cases negative with
        | true => cases hxy
        | false => cases z <;> simp_all [Reported.le]
    | infinite negative =>
      cases negative with
      | true => cases z <;> simp_all [Reported.le]
      | false => cases y <;> cases z <;> simp_all [Reported.le]
  le_antisymm := by
    rintro ⟨x, hx⟩ ⟨y, hy⟩ hxy hyx
    rw [le_def] at hxy hyx
    cases x with
    | nan => exact absurd rfl hx
    | finite a =>
      cases y with
      | nan => exact absurd rfl hy
      | finite b =>
        simp only [Reported.le_finite, decide_eq_true_eq] at *
        rw [Subtype.mk.injEq, Reported.finite.injEq]
        exact le_antisymm hxy hyx
      | infinite negative => cases negative <;> simp_all [Reported.le]
    | infinite negative => cases y <;> cases negative <;> simp_all [Reported.le]
  le_total := by
    rintro ⟨x, hx⟩ ⟨y, hy⟩
    rw [le_def, le_def]
    cases x with
    | nan => exact absurd rfl hx
    | finite a =>
      cases y with
      | nan => exact absurd rfl hy
      | finite b =>
        simp only [Reported.le_finite, decide_eq_true_eq]
        exact le_total a b
      | infinite negative => cases negative <;> simp [Reported.le]
    | infinite negative =>
      cases y with
      | nan => exact absurd rfl hy
      | finite b => cases negative <;> simp [Reported.le]
      | infinite other => cases negative <;> cases other <;> simp [Reported.le]
  lt_iff_le_not_ge := by
    rintro ⟨x, hx⟩ ⟨y, hy⟩
    rw [lt_def, le_def, le_def]
    cases x with
    | nan => exact absurd rfl hx
    | finite a =>
      cases y with
      | nan => exact absurd rfl hy
      | finite b =>
        simp only [Reported.le_finite, Reported.lt_finite, decide_eq_true_eq]
        exact lt_iff_le_not_ge
      | infinite negative => cases negative <;> simp [Reported.le, Reported.lt]
    | infinite negative => cases y <;> cases negative <;> simp_all [Reported.le, Reported.lt]
  toDecidableLE := inferInstance

end Numeric

end Poma
