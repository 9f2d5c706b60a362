import Mathlib.Data.List.Range
import Mathlib.Data.List.Sort
import Mathlib.Data.List.Nodup
import Mathlib.Order.Basic

/-!
# Ranking and taking the first

The rank of a value in a list counts the greater ones and, of its equals, the
earlier ones: the ranks are the numbers from one on, each of them once. Of a list
in order, what stands before something that was taken was taken too.
-/

namespace Poma

section Ranking

variable {α : Type} [LinearOrder α]

/-- The rank of the value at some index: greater values first, then earlier ones. -/
def rankFirst (values : List α) (index : Nat) (value : α) : Nat :=
  1 + (values.filter fun other => value < other).length +
    ((values.take index).filter fun other => other = value).length

variable {values : List α} {a b : α} {i j : Nat}

/-- Before the place of a value there is one fewer of it than up to any later place. -/
theorem length_filter_take_lt (hi : values[i]? = some a) (hij : i < j) :
    ((values.take i).filter fun other => other = a).length <
      ((values.take j).filter fun other => other = a).length := by
  obtain ⟨hlength, rfl⟩ := List.getElem?_eq_some_iff.mp hi
  obtain ⟨k, rfl⟩ := Nat.exists_eq_add_of_lt hij
  rw [Nat.add_assoc, List.take_add, List.drop_eq_getElem_cons hlength, List.take_succ_cons,
    List.filter_append, List.length_append, List.filter_cons_of_pos (by simp), List.length_cons]
  omega

/-- The values from `a` on are the greater ones and those that equal it. -/
theorem length_filter_le_eq (values : List α) (a : α) :
    (values.filter fun other => a ≤ other).length =
      (values.filter fun other => a < other).length +
        (values.filter fun other => other = a).length := by
  induction values with
  | nil => rfl
  | cons value values ih =>
    rcases lt_trichotomy a value with h | rfl | h
    · simp [h, h.le, h.ne', ih]
      omega
    · simp [ih]
      omega
    · simp [h.not_ge, h.not_gt, h.ne, ih]

/-- A value's rank is within the number of values that are not smaller. -/
theorem rankFirst_le (hi : values[i]? = some a) :
    rankFirst values i a ≤ (values.filter fun other => a ≤ other).length := by
  obtain ⟨hlength, -⟩ := List.getElem?_eq_some_iff.mp hi
  have hcount := length_filter_take_lt hi hlength
  rw [List.take_length] at hcount
  unfold rankFirst
  rw [length_filter_le_eq]
  omega

/-- Greater values have smaller ranks. -/
theorem rankFirst_lt_of_gt (hi : values[i]? = some a) (h : b < a) :
    rankFirst values i a < rankFirst values j b := by
  have hgreater : (values.filter fun other => a ≤ other).length ≤
      (values.filter fun other => b < other).length := by
    rw [← List.countP_eq_length_filter, ← List.countP_eq_length_filter]
    apply List.countP_mono_left
    intro other _ hother
    simp only [decide_eq_true_eq] at hother ⊢
    exact h.trans_le hother
  have hrank := rankFirst_le hi
  unfold rankFirst at hrank ⊢
  omega

/-- Of equal values, earlier ones have smaller ranks. -/
theorem rankFirst_lt_of_lt (hi : values[i]? = some a) (hij : i < j) :
    rankFirst values i a < rankFirst values j a := by
  have hcount := length_filter_take_lt hi hij
  unfold rankFirst
  omega

/-- No rank is given twice. -/
theorem rankFirst_inj (hi : values[i]? = some a) (hj : values[j]? = some b)
    (h : rankFirst values i a = rankFirst values j b) : i = j := by
  rcases lt_trichotomy a b with hab | rfl | hab
  · exact absurd h (rankFirst_lt_of_gt hj hab).ne'
  · rcases lt_trichotomy i j with hij | hij | hij
    · exact absurd h (rankFirst_lt_of_lt hi hij).ne
    · exact hij
    · exact absurd h (rankFirst_lt_of_lt hj hij).ne'
  · exact absurd h (rankFirst_lt_of_gt hi hab).ne

/-- The ranks are the numbers from one on. -/
theorem ranks_perm (values : List α) :
    (values.zipIdx.map fun (value, index) => rankFirst values index value).Perm
      (List.range' 1 values.length) := by
  have hplace : ∀ {value : α} {index : Nat}, (value, index) ∈ values.zipIdx →
      values[index]? = some value := List.mem_zipIdx_iff_getElem?.mp
  have hnodup : (values.zipIdx.map fun (value, index) => rankFirst values index value).Nodup := by
    apply List.Nodup.map_on
    · rintro ⟨a, i⟩ hi ⟨b, j⟩ hj h
      obtain rfl := rankFirst_inj (hplace hi) (hplace hj) h
      have hsame : some a = some b := (hplace hi).symm.trans (hplace hj)
      rw [Option.some.inj hsame]
    · apply List.Nodup.of_map Prod.snd
      rw [List.zipIdx_map_snd]
      exact List.nodup_range'
  apply (List.subperm_of_subset hnodup ?_).perm_of_length_le
  · simp
  · intro rank hrank
    obtain ⟨⟨a, i⟩, hi, rfl⟩ := List.mem_map.mp hrank
    have hle := rankFirst_le (hplace hi)
    have hall := List.length_filter_le (fun other => decide (a ≤ other)) values
    rw [List.mem_range'_1]
    dsimp only
    unfold rankFirst at hle ⊢
    omega

end Ranking

section Order

variable {α : Type} {r : α → α → Prop} {xs : List α} {a b : α} {k : Nat}

/-- Rows sorted by numbers that are those from one on have them in order. -/
theorem map_insertionSort_eq_range' {rank : α → Nat}
    (h : (xs.map rank).Perm (List.range' 1 xs.length)) :
    (xs.insertionSort fun row other => rank row ≤ rank other).map rank =
      List.range' 1 xs.length := by
  have htotal : Std.Total fun row other : α => rank row ≤ rank other := ⟨fun _ _ => le_total _ _⟩
  have htrans : IsTrans α fun row other : α => rank row ≤ rank other := ⟨fun _ _ _ => le_trans⟩
  have hsorted : ((xs.insertionSort fun row other => rank row ≤ rank other).map rank).Pairwise
      (· ≤ ·) := List.pairwise_map.mpr (List.pairwise_insertionSort _ _)
  have hrange : (List.range' 1 xs.length).Pairwise (· ≤ ·) := List.pairwise_le_range'
  exact (((List.perm_insertionSort _ _).map rank).trans h).eq_of_pairwise' hsorted hrange

end Order

end Poma
