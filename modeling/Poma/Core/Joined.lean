import Poma.Core.Text

/-!
# Texts joined by colons

Splitting at colons undoes joining with them, from either end: a text without a
colon is one part, and what is split can be joined again. A replacement suffix
goes on at the end and comes off again, whatever stands before it.
-/

namespace Poma

section Split

/-- A text that holds no colon. -/
def ColonFree (text : String) : Prop := ':' ∉ text.toList

theorem splitColon_append (first second : String) :
    splitColon (first ++ ":" ++ second) = splitColon first ++ splitColon second := by
  have hcolon : ":".toList = [':'] := rfl
  unfold splitColon
  rw [String.toList_append, String.toList_append, hcolon, List.append_assoc, List.singleton_append,
    List.splitOn_append_cons_self, List.map_append]

theorem splitColon_of_colonFree {text : String} (h : ColonFree text) : splitColon text = [text] := by
  unfold splitColon
  rw [List.splitOn_eq_singleton h, List.map_singleton, String.ofList_toList]

theorem splitColon_ne_nil (text : String) : splitColon text ≠ [] := by
  unfold splitColon
  simp

/-- What was split at colons is joined with them again. -/
theorem intercalate_splitColon (text : String) :
    String.intercalate ":" (splitColon text) = text := by
  have hparts : (splitColon text).map String.toList = text.toList.splitOn ':' := by
    unfold splitColon
    rw [List.map_map]
    simp [Function.comp_def]
  rw [← String.toList_inj, String.toList_intercalate, hparts]
  exact List.intercalate_splitOn ':'

/-- No part of a split holds a colon. -/
theorem colonFree_of_mem_splitColon {text part : String} (h : part ∈ splitColon text) :
    ColonFree part := by
  have hparts : ∀ chars : List Char, ∀ piece ∈ chars.splitOn ':', ':' ∉ piece := by
    intro chars
    induction chars with
    | nil => simp
    | cons c rest ih =>
      rw [List.splitOn_cons_eq_if_modifyHead]
      split
      · intro piece hpiece
        rcases List.mem_cons.mp hpiece with rfl | hpiece
        · simp
        · exact ih piece hpiece
      · rename_i hne
        obtain ⟨piece, pieces, hpieces⟩ := List.exists_cons_of_ne_nil (List.splitOn_ne_nil ':' rest)
        rw [hpieces, List.modifyHead_cons]
        rw [hpieces] at ih
        intro other hother
        rcases List.mem_cons.mp hother with rfl | hother
        · intro hmem
          rcases List.mem_cons.mp hmem with rfl | hmem
          · exact hne (by simp)
          · exact ih piece List.mem_cons_self hmem
        · exact ih other (List.mem_cons_of_mem _ hother)
  unfold splitColon at h
  obtain ⟨piece, hpiece, rfl⟩ := List.mem_map.mp h
  unfold ColonFree
  rw [String.toList_ofList]
  exact hparts _ piece hpiece

end Split

section Digits

theorem isAsciiDigit_of_isDigit {c : Char} (h : c.isDigit = true) : isAsciiDigit c = true := by
  unfold Char.isDigit at h
  unfold isAsciiDigit
  rw [Bool.and_eq_true, decide_eq_true_eq, decide_eq_true_eq] at h ⊢
  exact h

theorem isDigitChar_of_isAsciiDigit {c : Char} (h : isAsciiDigit c = true) :
    isDigitChar c = true := by
  unfold isAsciiDigit at h
  rw [Bool.and_eq_true, decide_eq_true_eq, decide_eq_true_eq] at h
  have hlow : 48 ≤ c.toNat := h.1
  have hhigh : c.toNat ≤ 57 := h.2
  unfold isDigitChar digitRanges
  rw [List.any_cons]
  simp [hlow, hhigh]

theorem isAsciiDigit_of_mem_repr {n : Nat} {c : Char} (h : c ∈ n.repr.toList) :
    isAsciiDigit c = true := by
  rw [Nat.toList_repr] at h
  exact isAsciiDigit_of_isDigit (Nat.isDigit_of_mem_toDigits (by decide) (by decide) h)

/-- A number is written in digits. -/
theorem isDigits_repr (n : Nat) : isDigits n.repr = true := by
  unfold isDigits
  rw [Bool.and_eq_true, List.all_eq_true]
  exact ⟨by simp, fun c hc => isDigitChar_of_isAsciiDigit (isAsciiDigit_of_mem_repr hc)⟩

theorem colonFree_of_isDigits {text : String} (h : isDigits text = true) : ColonFree text := by
  unfold isDigits at h
  rw [Bool.and_eq_true, List.all_eq_true] at h
  intro hmem
  have hcolon : isDigitChar ':' = false := by decide
  rw [h.2 ':' hmem] at hcolon
  cases hcolon

/-- Two numbers written alike are one. -/
theorem repr_injective {n m : Nat} (h : n.repr = m.repr) : n = m := by
  have hvalue := congrArg (fun text => Nat.ofDigitChars 10 text.toList 0) h
  simpa only [Nat.toList_repr, Nat.ofDigitChars_ten_toDigits] using hvalue

end Digits

section Suffix

theorem span_append {α : Type} {p : α → Bool} {first : List α} (hfirst : ∀ a ∈ first, p a = true)
    {b : α} (hb : p b = false) (rest : List α) :
    (first ++ b :: rest).span p = (first, b :: rest) := by
  rw [List.span_eq_takeWhile_dropWhile, List.takeWhile_append_of_pos hfirst,
    List.dropWhile_append_of_pos hfirst]
  simp [hb]

/-- A replacement suffix comes off whatever it was put on. -/
theorem stripReplacementSuffix_append (root : String) (n : Nat) :
    stripReplacementSuffix (root ++ ":r" ++ n.repr) = root := by
  have hsuffix : ":r".toList.reverse = ['r', ':'] := rfl
  have hdigits : ∀ c ∈ n.repr.toList.reverse, isAsciiDigit c = true :=
    fun c hc => isAsciiDigit_of_mem_repr (List.mem_reverse.mp hc)
  have hrev : (root ++ ":r" ++ n.repr).toList.reverse =
      n.repr.toList.reverse ++ 'r' :: ':' :: root.toList.reverse := by
    rw [String.toList_append, String.toList_append, List.reverse_append, List.reverse_append,
      hsuffix]
    rfl
  have hne : n.repr.toList.reverse ≠ [] := by simp
  obtain ⟨c, rest, hc⟩ := List.exists_cons_of_ne_nil hne
  have hdrop : dropSuffixRev (c :: rest ++ 'r' :: ':' :: root.toList.reverse) =
      some root.toList.reverse := by
    unfold dropSuffixRev
    rw [← hc, span_append hdigits (by decide), hc]
    rfl
  have hline : c ≠ '\n' := by
    rintro rfl
    have hdigit := hdigits '\n' (hc ▸ List.mem_cons_self)
    revert hdigit
    decide
  unfold stripReplacementSuffix
  rw [hrev, hc, List.cons_append]
  split
  · rename_i heq
    exact absurd (List.cons.inj heq).1 hline
  · rw [← List.cons_append, hdrop]
    simp

theorem dropSuffixRev_suffix {rev kept : List Char} (h : dropSuffixRev rev = some kept) :
    kept <:+ rev := by
  unfold dropSuffixRev at h
  rw [List.span_eq_takeWhile_dropWhile] at h
  split at h
  · cases h
  · rename_i first digits rest heq
    obtain rfl := Option.some.inj h
    have hdrop : rev.dropWhile isAsciiDigit = 'r' :: ':' :: rest := congrArg Prod.snd heq
    have hrest : rest <:+ rev.dropWhile isAsciiDigit := hdrop ▸ ⟨['r', ':'], rfl⟩
    exact hrest.trans (List.dropWhile_suffix _)
  · cases h

/-- What is left of a reference begins it, where it ends no line. -/
theorem stripReplacementSuffix_starts {ref : String}
    (h : (stripReplacementSuffix ref).toList.getLast? ≠ some '\n') :
    (stripReplacementSuffix ref).toList <+: ref.toList := by
  unfold stripReplacementSuffix at h ⊢
  split
  · rename_i rest heq
    rw [heq] at h
    split
    · rename_i kept hkept
      simp [hkept] at h
    · exact List.prefix_refl _
  · rename_i heq
    split
    · rename_i kept hkept
      have hsuffix := dropSuffixRev_suffix hkept
      rw [String.toList_ofList, ← List.reverse_suffix, List.reverse_reverse]
      exact hsuffix
    · exact List.prefix_refl _

end Suffix

end Poma
