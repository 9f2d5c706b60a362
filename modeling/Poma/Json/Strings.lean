import Mathlib.Data.List.Chain
import Mathlib.Data.Nat.Basic

/-!
# JSON string literals over code points

A string is a list of code points, surrogates included. Its literal is plain
ASCII: what is not printable is escaped, beyond the basic plane as a surrogate
pair. Reading a literal takes the escapes one unit at a time and then joins
every high surrogate with a low one that follows it, so a string comes back as
it was unless it holds such a pair itself.
-/

namespace JsonText

/-- The characters of a file or a line. -/
abbrev Text : Type := List Char

/-- A code point of a string. -/
abbrev CodePoint : Type := Fin 0x110000

/-- A string: any code points, also lone surrogates. -/
abbrev Str : Type := List CodePoint

/-- The string of a text. -/
def Str.ofText (text : Text) : Str := text.map fun c => Fin.ofNat _ c.toNat

/-- The quotation mark. -/
def quote : Char := Char.ofNat 0x22

/-- The backslash. -/
def backslash : Char := Char.ofNat 0x5C

/-- A high surrogate, the first half of a pair. -/
def IsHigh (c : CodePoint) : Prop := 0xD800 ≤ c.val ∧ c.val ≤ 0xDBFF

/-- A low surrogate, the second half of a pair. -/
def IsLow (c : CodePoint) : Prop := 0xDC00 ≤ c.val ∧ c.val ≤ 0xDFFF

instance (c : CodePoint) : Decidable (IsHigh c) := inferInstanceAs (Decidable (_ ∧ _))

instance (c : CodePoint) : Decidable (IsLow c) := inferInstanceAs (Decidable (_ ∧ _))

/-- A hexadecimal digit, in lower case. -/
def hexDigit (n : Nat) : Char := if n < 10 then Char.ofNat (48 + n) else Char.ofNat (87 + n)

/-- The value of a hexadecimal digit, in either case. -/
def hexValue? (c : Char) : Option Nat :=
  if 48 ≤ c.toNat ∧ c.toNat ≤ 57 then some (c.toNat - 48)
  else if 97 ≤ c.toNat ∧ c.toNat ≤ 102 then some (c.toNat - 87)
  else if 65 ≤ c.toNat ∧ c.toNat ≤ 70 then some (c.toNat - 55)
  else none

theorem hexValue?_hexDigit : ∀ n < 16, hexValue? (hexDigit n) = some n := by decide

/-- `\uXXXX` of a unit below `0x10000`. -/
def escapeUnit (n : Nat) : Text :=
  [backslash, 'u', hexDigit (n / 0x1000 % 0x10), hexDigit (n / 0x100 % 0x10),
    hexDigit (n / 0x10 % 0x10), hexDigit (n % 0x10)]

/-- The escapes of one letter: what follows the backslash, and what it stands for. -/
def shortEscapes : List (Char × Nat) :=
  [(quote, 0x22), (backslash, 0x5C), ('b', 0x08), ('f', 0x0C), ('n', 0x0A), ('r', 0x0D),
    ('t', 0x09)]

/-- The units a code point is written as: itself, or a surrogate pair. -/
def unitsOf (c : CodePoint) : List CodePoint :=
  if c.val < 0x10000 then [c]
  else [Fin.ofNat _ (0xD800 + (c.val - 0x10000) / 0x400),
    Fin.ofNat _ (0xDC00 + (c.val - 0x10000) % 0x400)]

/-- One unit in a literal. -/
def escapePoint (c : CodePoint) : Text :=
  match shortEscapes.find? (·.2 = c.val) with
  | some (letter, _) => [backslash, letter]
  | none => if 0x20 ≤ c.val ∧ c.val ≤ 0x7E then [Char.ofNat c.val] else escapeUnit c.val

/-- The literal of a string, in ASCII. -/
def dumpsString (s : Str) : Text :=
  quote :: (s.flatMap fun c => (unitsOf c).flatMap escapePoint) ++ [quote]

/-- What a letter after a backslash stands for. -/
def shortEscape? (c : Char) : Option CodePoint :=
  if c.toNat = 0x2F then some 0x2F
  else (shortEscapes.lookup c).map fun n => Fin.ofNat _ n

/-- The unit of four hexadecimal digits. -/
def unit? (a b c d : Char) : Option CodePoint := do
  let a ← hexValue? a
  let b ← hexValue? b
  let c ← hexValue? c
  let d ← hexValue? d
  some (Fin.ofNat _ (a * 0x1000 + b * 0x100 + c * 0x10 + d))

/-- The units of a literal after its opening quotation mark, and what follows the closing one. -/
def scanUnits : Text → Option (List CodePoint × Text)
  | [] => none
  | c :: rest =>
    if c = quote then some ([], rest)
    else if c = backslash then
      match rest with
      | [] => none
      | letter :: rest =>
        if letter = 'u' then
          match rest with
          | a :: b :: c :: d :: rest =>
            (unit? a b c d).bind fun unit =>
              (scanUnits rest).map fun (units, after) => (unit :: units, after)
          | _ => none
        else (shortEscape? letter).bind fun unit =>
          (scanUnits rest).map fun (units, after) => (unit :: units, after)
    else if c.toNat < 0x20 then none
    else (scanUnits rest).map fun (units, after) => (Fin.ofNat _ c.toNat :: units, after)

/-- The code point of a surrogate pair. -/
def joined (high low : CodePoint) : CodePoint :=
  Fin.ofNat _ (0x10000 + (high.val - 0xD800) * 0x400 + (low.val - 0xDC00))

/-- Join every high surrogate with a low one that follows it. -/
def joinPairs : Str → Str
  | high :: low :: rest =>
    if IsHigh high ∧ IsLow low then joined high low :: joinPairs rest
    else high :: joinPairs (low :: rest)
  | units => units

/-- Read a literal after its opening quotation mark. -/
def scanString (text : Text) : Option (Str × Text) :=
  (scanUnits text).map fun (units, after) => (joinPairs units, after)

/-- The code of a character given by its code. -/
theorem toNat_ofNat {n : Nat} (h : n < 0xD800) : (Char.ofNat n).toNat = n := by
  rw [Char.ofNat, dif_pos (Or.inl h)]
  rfl

theorem val_ofNat {n : Nat} (h : n < 0x110000) : (Fin.ofNat 0x110000 n).val = n :=
  Nat.mod_eq_of_lt h

theorem ofNat_val (c : CodePoint) : Fin.ofNat 0x110000 c.val = c := Fin.ext (val_ofNat c.isLt)

/-- A letter that is written after a backslash is read as what it stands for. -/
theorem shortEscape?_of_mem : ∀ p ∈ shortEscapes,
    p.1 ≠ 'u' ∧ shortEscape? p.1 = some (Fin.ofNat _ p.2) := by decide

/-- The unit that the four digits of a unit escape stand for. -/
theorem unit?_digits {n : Nat} (h : n < 0x10000) :
    unit? (hexDigit (n / 0x1000 % 0x10)) (hexDigit (n / 0x100 % 0x10))
      (hexDigit (n / 0x10 % 0x10)) (hexDigit (n % 0x10)) = some (Fin.ofNat _ n) := by
  have hdigit (m : Nat) : hexValue? (hexDigit (m % 0x10)) = some (m % 0x10) :=
    hexValue?_hexDigit _ (Nat.mod_lt _ (by decide))
  have hsum : n / 0x1000 % 0x10 * 0x1000 + n / 0x100 % 0x10 * 0x100 + n / 0x10 % 0x10 * 0x10 +
      n % 0x10 = n := by omega
  simp only [unit?, hdigit, Option.bind_eq_bind, Option.bind_some, hsum]

/-- A plain character is a unit of its own. -/
theorem scanUnits_plain {c : Char} (hquote : c ≠ quote) (hbackslash : c ≠ backslash)
    (hlow : ¬c.toNat < 0x20) (t : Text) :
    scanUnits (c :: t) = (scanUnits t).map fun r => (Fin.ofNat _ c.toNat :: r.1, r.2) := by
  rw [scanUnits.eq_def]
  simp only [hquote, hbackslash, hlow, ite_false]

/-- A letter after a backslash is the unit it stands for. -/
theorem scanUnits_short {letter : Char} (hletter : letter ≠ 'u') (t : Text) :
    scanUnits (backslash :: letter :: t) = (shortEscape? letter).bind fun u =>
      (scanUnits t).map fun r => (u :: r.1, r.2) := by
  have hquote : backslash ≠ quote := by decide
  rw [scanUnits.eq_def]
  simp only [hquote, hletter, ite_false, ite_true]

/-- Four digits after a backslash are the unit they write. -/
theorem scanUnits_unit (a b c d : Char) (t : Text) :
    scanUnits (backslash :: 'u' :: a :: b :: c :: d :: t) = (unit? a b c d).bind fun u =>
      (scanUnits t).map fun r => (u :: r.1, r.2) := by
  have hquote : backslash ≠ quote := by decide
  rw [scanUnits.eq_def]
  simp only [hquote, ite_false, ite_true]

@[simp] theorem scanUnits_quote (t : Text) : scanUnits (quote :: t) = some ([], t) := by
  rw [scanUnits.eq_def]
  simp only [ite_true]

/-- Reading an escaped unit gives the unit. -/
theorem scanUnits_escapePoint {c : CodePoint} (hc : c.val < 0x10000) (t : Text) :
    scanUnits (escapePoint c ++ t) = (scanUnits t).map fun r => (c :: r.1, r.2) := by
  unfold escapePoint
  cases hfind : shortEscapes.find? (·.2 = c.val) with
  | some p =>
    obtain ⟨hletter, hshort⟩ := shortEscape?_of_mem p (List.mem_of_find?_eq_some hfind)
    have hp : p.2 = c.val := by simpa using List.find?_some hfind
    rw [hp, ofNat_val] at hshort
    show scanUnits (backslash :: p.1 :: t) = _
    rw [scanUnits_short hletter, hshort, Option.bind_some]
  | none =>
    have hnone : ∀ p ∈ shortEscapes, p.2 ≠ c.val := by simpa using hfind
    dsimp only
    split
    · rename_i hprint
      have hcode : (Char.ofNat c.val).toNat = c.val := toNat_ofNat (by omega)
      have hquote : Char.ofNat c.val ≠ quote := by
        intro h
        have hval : c.val = 0x22 := by rw [← hcode, h]; decide
        exact hnone (quote, 0x22) (by decide) hval.symm
      have hbackslash : Char.ofNat c.val ≠ backslash := by
        intro h
        have hval : c.val = 0x5C := by rw [← hcode, h]; decide
        exact hnone (backslash, 0x5C) (by decide) hval.symm
      have hlow : ¬c.val < 0x20 := by omega
      show scanUnits (Char.ofNat c.val :: t) = _
      rw [scanUnits_plain hquote hbackslash (by rw [hcode]; exact hlow), hcode, ofNat_val]
    · show scanUnits (backslash :: 'u' :: _ :: _ :: _ :: _ :: t) = _
      rw [scanUnits_unit, unit?_digits hc, ofNat_val, Option.bind_some]

/-- Reading the body of a literal gives its units and stops at the closing mark. -/
theorem scanUnits_body {units : List CodePoint} (h : ∀ u ∈ units, u.val < 0x10000) (t : Text) :
    scanUnits (units.flatMap escapePoint ++ quote :: t) = some (units, t) := by
  induction units with
  | nil => simp
  | cons u units ih =>
    have htail := ih fun v hv => h v (List.mem_cons_of_mem _ hv)
    rw [List.flatMap_cons, List.append_assoc, scanUnits_escapePoint (h u List.mem_cons_self), htail]
    rfl

/-- Units are in the basic plane. -/
theorem unitsOf_lt {c u : CodePoint} (h : u ∈ unitsOf c) : u.val < 0x10000 := by
  have hc := c.isLt
  unfold unitsOf at h
  split at h
  · rename_i hplane
    rw [List.mem_singleton.mp h]
    exact hplane
  · simp only [List.mem_cons, List.not_mem_nil, or_false] at h
    rcases h with rfl | rfl
    · rw [val_ofNat (by omega)]
      omega
    · rw [val_ofNat (by omega)]
      omega

/-- The pair of a code point beyond the basic plane, joined, is the code point. -/
theorem joinPairs_unitsOf_append (c : CodePoint) (units : List CodePoint)
    (hplane : ¬c.val < 0x10000) :
    joinPairs (unitsOf c ++ units) = c :: joinPairs units := by
  have hc := c.isLt
  have hhigh : (Fin.ofNat 0x110000 (0xD800 + (c.val - 0x10000) / 0x400)).val =
      0xD800 + (c.val - 0x10000) / 0x400 := val_ofNat (by omega)
  have hlow : (Fin.ofNat 0x110000 (0xDC00 + (c.val - 0x10000) % 0x400)).val =
      0xDC00 + (c.val - 0x10000) % 0x400 := val_ofNat (by omega)
  have hpair : IsHigh (Fin.ofNat 0x110000 (0xD800 + (c.val - 0x10000) / 0x400)) ∧
      IsLow (Fin.ofNat 0x110000 (0xDC00 + (c.val - 0x10000) % 0x400)) := by
    unfold IsHigh IsLow
    omega
  have hjoined : joined (Fin.ofNat 0x110000 (0xD800 + (c.val - 0x10000) / 0x400))
      (Fin.ofNat 0x110000 (0xDC00 + (c.val - 0x10000) % 0x400)) = c := by
    apply Fin.ext
    unfold joined
    rw [hhigh, hlow, val_ofNat (by omega)]
    omega
  unfold unitsOf
  rw [if_neg hplane]
  simp only [List.cons_append, List.nil_append, joinPairs, hpair, and_self, ite_true, hjoined]

/-- Writing a string as units and joining them is joining the pairs of the string itself. -/
theorem joinPairs_units (s : Str) : joinPairs (s.flatMap unitsOf) = joinPairs s := by
  induction s using joinPairs.induct with
  | case1 high low rest hpair ih =>
    have hhigh : unitsOf high = [high] := if_pos (hpair.1.2.trans_lt (by decide))
    have hlow : unitsOf low = [low] := if_pos (hpair.2.2.trans_lt (by decide))
    simp only [List.flatMap_cons, hhigh, hlow, List.cons_append, List.nil_append, joinPairs, hpair,
      and_self, ite_true, ih]
  | case2 high low rest hpair ih =>
    rw [List.flatMap_cons]
    by_cases hplane : high.val < 0x10000
    · have hunits : unitsOf high = [high] := if_pos hplane
      obtain ⟨u, units, hu, hnot⟩ : ∃ u units, (low :: rest).flatMap unitsOf = u :: units ∧
          ¬(IsHigh high ∧ IsLow u) := by
        rw [List.flatMap_cons]
        unfold unitsOf
        split
        · exact ⟨low, _, rfl, hpair⟩
        · refine ⟨_, _, rfl, fun h => ?_⟩
          have hlow := h.2.1
          have hc := low.isLt
          rw [val_ofNat (by omega)] at hlow
          omega
      rw [hunits, hu, List.singleton_append, joinPairs, if_neg hnot, ← hu, ih, joinPairs,
        if_neg hpair]
    · rw [joinPairs_unitsOf_append _ _ hplane, ih, joinPairs, if_neg hpair]
  | case3 s hs =>
    rcases s with _ | ⟨c, _ | ⟨d, rest⟩⟩
    · rfl
    · by_cases hplane : c.val < 0x10000
      · simp [unitsOf, hplane]
      · have hjoined := joinPairs_unitsOf_append c [] hplane
        simpa [joinPairs] using hjoined
    · exact absurd rfl (hs c d rest)

/-- Reading the literal of a string gives the string with its pairs joined. -/
theorem scanString_dumpsString (s : Str) (t : Text) :
    ∃ body, dumpsString s ++ t = quote :: body ∧ scanString body = some (joinPairs s, t) := by
  refine ⟨(s.flatMap fun c => (unitsOf c).flatMap escapePoint) ++ quote :: t, by
    simp [dumpsString], ?_⟩
  have hbody : (s.flatMap fun c => (unitsOf c).flatMap escapePoint) =
      (s.flatMap unitsOf).flatMap escapePoint := by rw [List.flatMap_assoc]
  have hunits : ∀ u ∈ s.flatMap unitsOf, u.val < 0x10000 := by
    intro u hu
    obtain ⟨c, -, hc⟩ := List.mem_flatMap.mp hu
    exact unitsOf_lt hc
  rw [scanString, hbody, scanUnits_body hunits]
  simp [joinPairs_units]

/-- What is read of a literal does not depend on what follows it. -/
theorem scanUnits_append {t after : Text} {units : List CodePoint}
    (h : scanUnits t = some (units, after)) (more : Text) :
    scanUnits (t ++ more) = some (units, after ++ more) := by
  -- the three shapes that read on give their first unit and read the rest the same way
  have hcons : ∀ {u : CodePoint} {t : Text} {units : List CodePoint} {after : Text},
      (∀ {units : List CodePoint} {after : Text}, scanUnits t = some (units, after) →
        scanUnits (t ++ more) = some (units, after ++ more)) →
      ((scanUnits t).map fun r => (u :: r.1, r.2)) = some (units, after) →
      ((scanUnits (t ++ more)).map fun r => (u :: r.1, r.2)) = some (units, after ++ more) := by
    intro u t units after ih h
    obtain ⟨⟨vs, rest⟩, hvs, hpair⟩ := Option.map_eq_some_iff.mp h
    obtain ⟨rfl, rfl⟩ := Prod.mk.inj hpair
    rw [ih hvs]
    rfl
  induction t using scanUnits.induct generalizing units after with
  | case1 => cases h
  | case2 rest =>
    rw [scanUnits_quote] at h
    obtain ⟨rfl, rfl⟩ := Prod.mk.inj (Option.some.inj h)
    rw [List.cons_append, scanUnits_quote]
  | case3 hquote =>
    rw [scanUnits.eq_def] at h
    simp [hquote] at h
  | case4 a b c d rest hquote ih =>
    rw [scanUnits_unit] at h
    show scanUnits (backslash :: 'u' :: a :: b :: c :: d :: (rest ++ more)) = _
    rw [scanUnits_unit]
    obtain ⟨u, hu, h⟩ := Option.bind_eq_some_iff.mp h
    rw [hu, Option.bind_some]
    exact hcons ih h
  | case5 rest _ hquote =>
    rw [scanUnits.eq_def] at h
    simp only [hquote, ite_false, ite_true] at h
    cases h
  | case6 letter rest hletter hquote ih =>
    rw [scanUnits_short hletter] at h
    show scanUnits (backslash :: letter :: (rest ++ more)) = _
    rw [scanUnits_short hletter]
    obtain ⟨u, hu, h⟩ := Option.bind_eq_some_iff.mp h
    rw [hu, Option.bind_some]
    exact hcons ih h
  | case7 c rest hquote hbackslash hlow =>
    rw [scanUnits.eq_def] at h
    simp [hquote, hbackslash, hlow] at h
  | case8 c rest hquote hbackslash hlow ih =>
    rw [scanUnits_plain hquote hbackslash hlow] at h
    rw [List.cons_append, scanUnits_plain hquote hbackslash hlow]
    exact hcons ih h

theorem scanString_append {t after : Text} {s : Str} (h : scanString t = some (s, after))
    (more : Text) : scanString (t ++ more) = some (s, after ++ more) := by
  unfold scanString at h ⊢
  obtain ⟨⟨units, rest⟩, hunits, hs⟩ := Option.map_eq_some_iff.mp h
  obtain ⟨rfl, rfl⟩ := Prod.mk.inj hs
  rw [scanUnits_append hunits]
  rfl

/-- No high surrogate of the string is followed by a low one. -/
def PairFree (s : Str) : Prop := s.IsChain fun a b => ¬(IsHigh a ∧ IsLow b)

/-- A string comes back as it was exactly when it holds no surrogate pair. -/
theorem joinPairs_eq_self_iff (s : Str) : joinPairs s = s ↔ PairFree s := by
  unfold PairFree
  induction s using joinPairs.induct with
  | case1 high low rest hpair ih =>
    have hne : joined high low ≠ high := by
      intro h
      have hval : (joined high low).val = high.val := congrArg Fin.val h
      unfold joined at hval
      unfold IsHigh IsLow at hpair
      rw [val_ofNat (by omega)] at hval
      omega
    simp [joinPairs, hpair, hne]
  | case2 high low rest hpair ih =>
    rw [joinPairs, if_neg hpair, List.cons_inj_right, ih, List.isChain_cons_cons]
    simp only [hpair, not_false_eq_true, true_and]
  | case3 s hs =>
    rcases s with _ | ⟨c, _ | ⟨d, rest⟩⟩
    · simp [joinPairs]
    · simp [joinPairs]
    · exact absurd rfl (hs c d rest)

/-- The code of a character is a code point, and no surrogate. -/
theorem toNat_not_surrogate (c : Char) :
    c.toNat < 0x110000 ∧ ¬(0xD800 ≤ c.toNat ∧ c.toNat ≤ 0xDFFF) := by
  have h := c.valid
  simp only [UInt32.isValidChar, Nat.isValidChar] at h
  have hval : c.toNat = c.val.toNat := rfl
  omega

/-- A string of a text has no surrogates at all. -/
theorem pairFree_ofText (t : Text) : PairFree (Str.ofText t) := by
  have hnot : ∀ c ∈ Str.ofText t, ¬IsHigh c := by
    intro c hc
    obtain ⟨d, -, rfl⟩ := List.mem_map.mp hc
    have hd := toNat_not_surrogate d
    unfold IsHigh
    rw [val_ofNat hd.1]
    omega
  unfold PairFree
  generalize Str.ofText t = s at hnot
  induction s with
  | nil => simp
  | cons c s ih =>
    rw [List.isChain_cons_iff]
    rcases s with _ | ⟨d, s⟩
    · exact Or.inl rfl
    · refine Or.inr ⟨d, s, fun h => hnot c List.mem_cons_self h.1, ?_, rfl⟩
      exact ih fun x hx => hnot x (List.mem_cons_of_mem _ hx)

/-- Different texts are different strings. -/
theorem ofText_injective : Function.Injective Str.ofText := by
  apply List.map_injective_iff.mpr
  intro c d h
  have hval : (Fin.ofNat 0x110000 c.toNat).val = (Fin.ofNat 0x110000 d.toNat).val :=
    congrArg Fin.val h
  rw [val_ofNat (toNat_not_surrogate c).1, val_ofNat (toNat_not_surrogate d).1] at hval
  exact Char.toNat_inj.mp hval

/-- Joining leaves no pair. -/
theorem pairFree_joinPairs (s : Str) : PairFree (joinPairs s) := by
  unfold PairFree
  induction s using joinPairs.induct with
  | case1 high low rest hpair ih =>
    have hjoined : ¬IsHigh (joined high low) := by
      intro h
      have hval := h.2
      unfold joined at hval
      unfold IsHigh IsLow at hpair
      rw [val_ofNat (by omega)] at hval
      omega
    rw [joinPairs, if_pos hpair, List.isChain_cons_iff]
    cases hrest : joinPairs rest with
    | nil => exact Or.inl rfl
    | cons c units => exact Or.inr ⟨c, units, fun h => hjoined h.1, hrest ▸ ih, rfl⟩
  | case2 high low rest hpair ih =>
    rw [joinPairs, if_neg hpair]
    -- what follows is the low unit itself or a pair it is the first half of
    obtain ⟨c, units, hc, hnot⟩ : ∃ c units, joinPairs (low :: rest) = c :: units ∧
        ¬(IsHigh high ∧ IsLow c) := by
      rcases rest with _ | ⟨next, rest⟩
      · exact ⟨low, [], rfl, hpair⟩
      · rw [joinPairs]
        split
        · rename_i hnext
          refine ⟨_, _, rfl, fun h => ?_⟩
          have hval := h.2.2
          unfold joined at hval
          unfold IsHigh IsLow at hnext
          rw [val_ofNat (by omega)] at hval
          omega
        · exact ⟨low, _, rfl, hpair⟩
    rw [hc] at ih ⊢
    exact List.isChain_cons_cons.mpr ⟨hnot, ih⟩
  | case3 s hs =>
    rcases s with _ | ⟨c, _ | ⟨d, rest⟩⟩
    · simp [joinPairs]
    · simp [joinPairs]
    · exact absurd rfl (hs c d rest)

/-- A string that came back once comes back as it is. -/
theorem joinPairs_joinPairs (s : Str) : joinPairs (joinPairs s) = joinPairs s :=
  (joinPairs_eq_self_iff _).mpr (pairFree_joinPairs s)

/-- A character a literal can hold: printable ASCII. -/
def IsPlain (c : Char) : Prop := 0x20 ≤ c.toNat ∧ c.toNat ≤ 0x7E

instance (c : Char) : Decidable (IsPlain c) := inferInstanceAs (Decidable (_ ∧ _))

theorem isPlain_hexDigit : ∀ n < 16, IsPlain (hexDigit n) := by decide

/-- A literal is printable ASCII throughout. -/
theorem isPlain_dumpsString {s : Str} {c : Char} (h : c ∈ dumpsString s) : IsPlain c := by
  have hescape : ∀ u : CodePoint, ∀ c ∈ escapePoint u, IsPlain c := by
    intro u c hc
    unfold escapePoint at hc
    cases hfind : shortEscapes.find? (·.2 = u.val) with
    | some p =>
      rw [hfind] at hc
      have hplain : (shortEscapes.all fun p => [backslash, p.1].all fun c => IsPlain c) = true := by
        decide
      have hp := List.all_eq_true.mp hplain p (List.mem_of_find?_eq_some hfind)
      exact of_decide_eq_true (List.all_eq_true.mp hp c hc)
    | none =>
      rw [hfind] at hc
      dsimp only at hc
      split at hc
      · rename_i hprint
        rw [List.mem_singleton.mp hc]
        unfold IsPlain
        rw [toNat_ofNat (by omega)]
        exact hprint
      · have hdigit (m : Nat) : IsPlain (hexDigit (m % 0x10)) :=
          isPlain_hexDigit _ (Nat.mod_lt _ (by decide))
        have hletters : IsPlain backslash ∧ IsPlain 'u' := by decide
        simp only [escapeUnit, List.mem_cons, List.not_mem_nil, or_false] at hc
        rcases hc with rfl | rfl | rfl | rfl | rfl | rfl
        · exact hletters.1
        · exact hletters.2
        · exact hdigit _
        · exact hdigit _
        · exact hdigit _
        · exact hdigit _
  have hquote : IsPlain quote := by decide
  unfold dumpsString at h
  rw [List.cons_append, List.mem_cons, List.mem_append, List.mem_singleton] at h
  rcases h with rfl | h | rfl
  · exact hquote
  · obtain ⟨d, -, hd⟩ := List.mem_flatMap.mp h
    obtain ⟨u, -, hu⟩ := List.mem_flatMap.mp hd
    exact hescape u c hu
  · exact hquote

end JsonText
