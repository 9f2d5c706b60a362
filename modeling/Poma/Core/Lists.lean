import Mathlib.Data.List.Dedup
import Mathlib.Data.List.Forall2
import Mathlib.Data.List.Sort

/-!
# Lists of results

A function that may fail or may have no result is run over a list: all results
at once, the first of them, or those there are. What comes out depends on the
order of the list only where two members disagree.
-/

namespace Poma

/-- A list of computations that all yield values. -/
theorem forall₂_of_mapM_ok {ε α β : Type} {f : α → Except ε β} {xs : List α} {ys : List β}
    (h : xs.mapM f = .ok ys) : List.Forall₂ (fun x y => f x = .ok y) xs ys := by
  induction xs generalizing ys with
  | nil =>
    obtain rfl := Except.ok.inj h
    exact .nil
  | cons x xs ih =>
    rw [List.mapM_cons] at h
    cases hx : f x with
    | error e =>
      rw [hx] at h
      cases h
    | ok y =>
      cases hrest : xs.mapM f with
      | error e =>
        rw [hx, hrest] at h
        cases h
      | ok rest =>
        rw [hx, hrest] at h
        obtain rfl := Except.ok.inj h
        exact .cons hx (ih hrest)

/-- Every member of the right list has a partner in the left one. -/
theorem exists_of_forall₂ {α β : Type} {R : α → β → Prop} {xs : List α} {ys : List β}
    (h : List.Forall₂ R xs ys) {y : β} (hy : y ∈ ys) : ∃ x ∈ xs, R x y := by
  induction h with
  | nil => cases hy
  | cons hfirst _ ih =>
    rcases List.mem_cons.mp hy with rfl | hy
    · exact ⟨_, List.mem_cons_self, hfirst⟩
    · obtain ⟨x, hx, hxy⟩ := ih hy
      exact ⟨x, List.mem_cons_of_mem _ hx, hxy⟩

/-- The first result over a list is the same in any order exactly when there is one result at
most. -/
theorem findSome?_perm_iff {α β : Type} [DecidableEq α] {f : α → Option β} {xs : List α} :
    (∀ ys : List α, ys.Perm xs → ys.findSome? f = xs.findSome? f) ↔
      ∀ x ∈ xs, ∀ y ∈ xs, ∀ a b, f x = some a → f y = some b → a = b := by
  constructor
  · intro h
    -- put first, a row decides
    have hfirst : ∀ x ∈ xs, ∀ a, f x = some a → xs.findSome? f = some a := by
      intro x hx a ha
      have hperm : (x :: xs.erase x).Perm xs := (List.perm_cons_erase hx).symm
      rw [← h _ hperm, List.findSome?_cons, ha]
    intro x hx y hy a b ha hb
    exact Option.some_inj.mp ((hfirst x hx a ha).symm.trans (hfirst y hy b hb))
  · intro h ys hperm
    cases hxs : xs.findSome? f with
    | none =>
      rw [List.findSome?_eq_none_iff] at hxs ⊢
      exact fun y hy => hxs y (hperm.mem_iff.mp hy)
    | some a =>
      obtain ⟨x, hx, ha⟩ := List.exists_of_findSome?_eq_some hxs
      cases hys : ys.findSome? f with
      | none =>
        rw [List.findSome?_eq_none_iff] at hys
        rw [hys x (hperm.mem_iff.mpr hx)] at ha
        cases ha
      | some b =>
        obtain ⟨y, hy, hb⟩ := List.exists_of_findSome?_eq_some hys
        rw [h x hx y (hperm.mem_iff.mp hy) a b ha hb]

/-- The sorted members of a list depend on what its members are, and on nothing else. -/
theorem insertionSort_dedup_congr {κ : Type} [DecidableEq κ] [LE κ] [DecidableLE κ]
    [Std.IsLinearOrder κ] {xs ys : List κ} (h : ∀ k, k ∈ xs ↔ k ∈ ys) :
    xs.dedup.insertionSort (· ≤ ·) = ys.dedup.insertionSort (· ≤ ·) := by
  have hperm : xs.dedup.Perm ys.dedup := by
    rw [List.perm_ext_iff_of_nodup (List.nodup_dedup _) (List.nodup_dedup _)]
    intro k
    rw [List.mem_dedup, List.mem_dedup, h]
  have : IsTrans κ (· ≤ ·) := ⟨fun _ _ _ => Std.le_trans⟩
  have hsorted : ∀ keys : List κ, (keys.insertionSort (· ≤ ·)).Pairwise (· ≤ ·) :=
    List.pairwise_insertionSort _
  apply List.Perm.eq_of_pairwise (fun _ _ _ _ => Std.le_antisymm) (hsorted _) (hsorted _)
  exact (List.perm_insertionSort _ _).trans (hperm.trans (List.perm_insertionSort _ _).symm)

/-- Two filtered lists over distinct keys, each item naming its key, are the same exactly when they
have the same item for each key. -/
theorem filterMap_eq_iff {κ β : Type} {Names : β → κ → Prop}
    (hunique : ∀ b k l, Names b k → Names b l → k = l) {f g : κ → Option β}
    (hf : ∀ k b, f k = some b → Names b k) (hg : ∀ k b, g k = some b → Names b k) {keys : List κ}
    (hnodup : keys.Nodup) :
    keys.filterMap f = keys.filterMap g ↔ ∀ k ∈ keys, f k = g k := by
  refine ⟨fun h => ?_, List.filterMap_congr⟩
  induction keys with
  | nil => simp
  | cons k keys ih =>
    obtain ⟨hnew, hnodup⟩ := List.nodup_cons.mp hnodup
    -- an item of a later key names that key, not the first one
    have hlater : ∀ (e : κ → Option β), (∀ l b, e l = some b → Names b l) → ∀ b,
        b ∈ keys.filterMap e → ¬Names b k := by
      intro e he b hb hnames
      obtain ⟨l, hl, hlb⟩ := List.mem_filterMap.mp hb
      rw [hunique b k l hnames (he l b hlb)] at hnew
      exact hnew hl
    cases hfk : f k with
    | none =>
      cases hgk : g k with
      | none =>
        rw [List.filterMap_cons_none hfk, List.filterMap_cons_none hgk] at h
        simpa [hfk, hgk] using ih hnodup h
      | some b =>
        rw [List.filterMap_cons_none hfk, List.filterMap_cons_some hgk] at h
        exact absurd (hg k b hgk) (hlater f hf b (h ▸ List.mem_cons_self))
    | some b =>
      cases hgk : g k with
      | none =>
        rw [List.filterMap_cons_some hfk, List.filterMap_cons_none hgk] at h
        exact absurd (hf k b hfk) (hlater g hg b (h ▸ List.mem_cons_self))
      | some c =>
        rw [List.filterMap_cons_some hfk, List.filterMap_cons_some hgk] at h
        obtain ⟨rfl, hrest⟩ := List.cons.inj h
        simpa [hfk, hgk] using ih hnodup hrest

section Total

variable {κ β : Type} {f : κ → Option β} {keys : List κ}

/-- Where every key has an item, there are as many items as keys. -/
theorem length_filterMap_of_isSome (h : ∀ k ∈ keys, (f k).isSome) :
    (keys.filterMap f).length = keys.length := by
  induction keys with
  | nil => rfl
  | cons k keys ih =>
    obtain ⟨b, hb⟩ := Option.isSome_iff_exists.mp (h k List.mem_cons_self)
    rw [List.filterMap_cons_some hb, List.length_cons, List.length_cons,
      ih fun l hl => h l (List.mem_cons_of_mem _ hl)]

/-- Where every key has an item, the items of later keys are the later items. -/
theorem drop_filterMap_of_isSome (h : ∀ k ∈ keys, (f k).isSome) (n : Nat) :
    (keys.filterMap f).drop n = (keys.drop n).filterMap f := by
  induction keys generalizing n with
  | nil => simp
  | cons k keys ih =>
    obtain ⟨b, hb⟩ := Option.isSome_iff_exists.mp (h k List.mem_cons_self)
    rw [List.filterMap_cons_some hb]
    cases n with
    | zero => rw [List.drop_zero, List.drop_zero, List.filterMap_cons_some hb]
    | succ n =>
      rw [List.drop_succ_cons, List.drop_succ_cons]
      exact ih (fun l hl => h l (List.mem_cons_of_mem _ hl)) n

/-- Where every key has an item, all items but the last are those of all keys but the last. -/
theorem dropLast_filterMap_of_isSome (h : ∀ k ∈ keys, (f k).isSome) :
    (keys.filterMap f).dropLast = keys.dropLast.filterMap f := by
  rcases List.eq_nil_or_concat' keys with rfl | ⟨init, k, rfl⟩
  · rfl
  · obtain ⟨b, hb⟩ := Option.isSome_iff_exists.mp (h k (by simp))
    rw [List.filterMap_append, List.filterMap_cons_some hb, List.filterMap_nil,
      List.dropLast_concat, List.dropLast_concat]

end Total

/-- In increasing keys, the keys below the greatest are all but the last. -/
theorem dropLast_eq_filter_lt {κ : Type} [LinearOrder κ] {keys : List κ}
    (hsorted : keys.Pairwise (· < ·)) {greatest : κ} (hmem : greatest ∈ keys)
    (hmax : ∀ k ∈ keys, k ≤ greatest) : keys.dropLast = keys.filter (· < greatest) := by
  rcases List.eq_nil_or_concat' keys with rfl | ⟨init, last, rfl⟩
  · cases hmem
  have hbefore : ∀ k ∈ init, k < last := fun k hk =>
    (List.pairwise_append.mp hsorted).2.2 k hk last (List.mem_singleton_self last)
  have hlast : greatest = last := by
    rcases List.mem_append.mp hmem with hinit | hlast
    · have hle : last ≤ greatest := hmax last (by simp)
      exact absurd (hbefore greatest hinit) (not_lt.mpr hle)
    · exact List.mem_singleton.mp hlast
  subst hlast
  rw [List.dropLast_concat, List.filter_append, List.filter_eq_self.mpr (by simpa using hbefore)]
  simp

end Poma
