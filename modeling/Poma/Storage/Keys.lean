import Mathlib.Data.List.Induction
import Mathlib.Data.List.Nodup
import Mathlib.Data.List.Perm.Basic

/-!
# Keys in the order in which they come

A dictionary lists its keys in the order in which they were first put. Putting
many keys after some that are there appends the new ones, in the order in which
they would stand alone. Two dictionaries with the same keys in the same order and
the same records are one list.
-/

namespace Storage

variable {κ : Type} [DecidableEq κ] {key : κ} {keys added : List κ}

/-- A key that is not there yet goes to the end. -/
def putKey (key : κ) (keys : List κ) : List κ := if key ∈ keys then keys else keys ++ [key]

/-- Many keys, one after the other. -/
def putKeys (keys added : List κ) : List κ := added.foldl (fun keys key => putKey key keys) keys

theorem putKey_of_mem (h : key ∈ keys) : putKey key keys = keys := if_pos h

theorem putKey_of_not_mem (h : key ∉ keys) : putKey key keys = keys ++ [key] := if_neg h

theorem putKeys_concat (keys added : List κ) (key : κ) :
    putKeys keys (added ++ [key]) = putKey key (putKeys keys added) := by simp [putKeys]

theorem nodup_putKey (h : keys.Nodup) : (putKey key keys).Nodup := by
  by_cases hkey : key ∈ keys
  · rw [putKey_of_mem hkey]
    exact h
  · rw [putKey_of_not_mem hkey, ← List.concat_eq_append]
    exact h.concat hkey

theorem putKey_perm {others : List κ} (h : keys.Perm others) :
    (putKey key keys).Perm (putKey key others) := by
  by_cases hkey : key ∈ keys
  · rw [putKey_of_mem hkey, putKey_of_mem (h.mem_iff.mp hkey)]
    exact h
  · rw [putKey_of_not_mem hkey, putKey_of_not_mem fun hmem => hkey (h.mem_iff.mpr hmem)]
    exact h.append_right [key]

/-- A key is put alike under names that tell the keys apart. -/
theorem putKey_map {ν : Type} [DecidableEq ν] {f : κ → ν} (hf : Function.Injective f) (key : κ)
    (keys : List κ) : putKey (f key) (keys.map f) = (putKey key keys).map f := by
  by_cases hkey : key ∈ keys
  · rw [putKey_of_mem hkey, putKey_of_mem (List.mem_map_of_mem hkey)]
  · have hnot : f key ∉ keys.map f := by
      rwa [List.mem_map_of_injective hf]
    rw [putKey_of_not_mem hkey, putKey_of_not_mem hnot, List.map_append, List.map_singleton]

theorem putKeys_map {ν : Type} [DecidableEq ν] {f : κ → ν} (hf : Function.Injective f)
    (keys added : List κ) :
    putKeys (keys.map f) (added.map f) = (putKeys keys added).map f := by
  induction added using List.reverseRecOn with
  | nil => rfl
  | append_singleton added key ih =>
    rw [List.map_append, List.map_singleton, putKeys_concat, putKeys_concat, ih, putKey_map hf]

/-- Keys that differ are put as they are. -/
theorem putKeys_nil_of_nodup (h : added.Nodup) : putKeys [] added = added := by
  induction added using List.reverseRecOn with
  | nil => rfl
  | append_singleton added key ih =>
    obtain ⟨hadded, -, hapart⟩ := List.nodup_append.mp h
    rw [putKeys_concat, ih hadded, putKey_of_not_mem]
    exact fun hmem => hapart key hmem key (List.mem_singleton_self key) rfl

/-- Put after others, keys follow them in the order in which they stand alone. -/
theorem putKeys_eq (keys added : List κ) :
    putKeys keys added = keys ++ (putKeys [] added).filter fun key => key ∉ keys := by
  induction added using List.reverseRecOn with
  | nil => simp [putKeys]
  | append_singleton added key ih =>
    rw [putKeys_concat, putKeys_concat, ih]
    by_cases halone : key ∈ putKeys [] added
    · have hmem : key ∈ keys ++ (putKeys [] added).filter fun key => key ∉ keys := by
        by_cases hkeys : key ∈ keys
        · exact List.mem_append_left _ hkeys
        · exact List.mem_append_right _ (List.mem_filter.mpr ⟨halone, by simpa using hkeys⟩)
      rw [putKey_of_mem hmem, putKey_of_mem halone]
    · rw [putKey_of_not_mem halone, List.filter_append]
      by_cases hkeys : key ∈ keys
      · rw [putKey_of_mem (List.mem_append_left _ hkeys)]
        simp [hkeys]
      · have hnot : key ∉ keys ++ (putKeys [] added).filter fun key => key ∉ keys := by
          intro hmem
          rcases List.mem_append.mp hmem with hmem | hmem
          · exact hkeys hmem
          · exact halone (List.mem_filter.mp hmem).1
        rw [putKey_of_not_mem hnot]
        simp [hkeys]

omit [DecidableEq κ] in
/-- Lists of records with the same distinct keys in the same order are equal, where the one has the
records of the other. -/
theorem eq_of_keys {α : Type} {f : α → κ} {xs ys : List α} (hnodup : (xs.map f).Nodup)
    (hkeys : xs.map f = ys.map f) (hsub : ∀ x ∈ xs, x ∈ ys) : xs = ys := by
  induction xs generalizing ys with
  | nil => exact (List.map_eq_nil_iff.mp hkeys.symm).symm
  | cons x xs ih =>
    cases ys with
    | nil => cases hkeys
    | cons y ys =>
      rw [List.map_cons, List.nodup_cons] at hnodup
      obtain ⟨hkey, hrest⟩ := List.cons.inj hkeys
      have hfirst : x = y := by
        rcases List.mem_cons.mp (hsub x List.mem_cons_self) with h | h
        · exact h
        · -- a later record would have the key of the first one again
          exact (hnodup.1 (hrest ▸ List.mem_map_of_mem h)).elim
      obtain rfl := hfirst
      congr 1
      apply ih hnodup.2 hrest
      intro z hz
      rcases List.mem_cons.mp (hsub z (List.mem_cons_of_mem _ hz)) with rfl | h
      · exact (hnodup.1 (List.mem_map_of_mem hz)).elim
      · exact h

end Storage
