import Mathlib.Data.List.DropRight
import Mathlib.Tactic.Ring
import Poma.Json.Strings

/-!
# JSON number literals

An integer is written in decimal. A finite floating-point number is known by the
digits and the point of the shortest decimal that stands for it; it is written
in positional notation near one and with an exponent elsewhere, and reading the
literal gives the digits and the point back.
-/

namespace JsonText

/-- A decimal digit. -/
abbrev Digit : Type := Fin 10

/-- The character of a digit. -/
def digitChar (d : Digit) : Char := Char.ofNat (48 + d.val)

/-- The digit of a character. -/
def digit? (c : Char) : Option Digit :=
  if 48 ≤ c.toNat ∧ c.toNat ≤ 57 then some (Fin.ofNat _ (c.toNat - 48)) else none

theorem digit?_digitChar : ∀ d : Digit, digit? (digitChar d) = some d := by decide

/-- The text of digits. -/
def digitsText (ds : List Digit) : Text := ds.map digitChar

/-- The number that digits write. -/
def digitsValue (ds : List Digit) : Nat := ds.foldl (fun n d => n * 10 + d.val) 0

/-- Put the digits of a number in front of others. -/
def pushDigits : Nat → Nat → List Digit → List Digit
  | 0, _, ds => ds
  | fuel + 1, n, ds => if n = 0 then ds else pushDigits fuel (n / 10) (Fin.ofNat _ n :: ds)

/-- The digits of a number, without leading zeros. -/
def natDigits (n : Nat) : List Digit := if n = 0 then [0] else pushDigits n n []

/-- A finite floating-point number: the digits of its shortest decimal, and where their point is;
its value is `0.d₁d₂… · 10 ^ point`. -/
structure Decimal where
  negative : Bool
  digits : List Digit
  point : Int
  /-- No leading zero. -/
  head : digits.head? ≠ some 0
  /-- No trailing zero. -/
  last : digits.getLast? ≠ some 0
  /-- Zero has one form for each sign. -/
  zero : digits = [] → point = 0
  deriving DecidableEq

/-- The digits without the zeros at either end. -/
def significant (ds : List Digit) : List Digit := (ds.dropWhile (· = 0)).rdropWhile (· = 0)

theorem head?_significant (ds : List Digit) : (significant ds).head? ≠ some 0 := by
  intro h
  have hprefix := List.rdropWhile_prefix (fun d : Digit => decide (d = 0))
    (ds.dropWhile (· = 0))
  obtain ⟨rest, hrest⟩ := hprefix
  have hhead : (ds.dropWhile (· = 0)).head? = some 0 := by
    rw [← hrest, List.head?_append]
    unfold significant at h
    rw [h]
    rfl
  have hnot := List.head?_dropWhile_not (fun d : Digit => decide (d = 0)) ds
  rw [hhead] at hnot
  simp at hnot

theorem getLast?_significant (ds : List Digit) : (significant ds).getLast? ≠ some 0 := by
  intro h
  have hne : significant ds ≠ [] := by
    intro hnil
    rw [hnil] at h
    cases h
  have hlast := List.rdropWhile_last_not (fun d : Digit => decide (d = 0)) _ hne
  rw [List.getLast?_eq_some_getLast hne] at h
  exact hlast (decide_eq_true (Option.some.inj h))

/-- The number of a sign, digits that may have zeros at either end, and a point. -/
def Decimal.of (negative : Bool) (ds : List Digit) (point : Int) : Decimal where
  negative := negative
  digits := significant ds
  point :=
    if significant ds = [] then 0 else point - (ds.takeWhile (· = 0)).length
  head := head?_significant ds
  last := getLast?_significant ds
  zero h := if_pos h

/-- The digits before the point, those after it, and the exponent of a number's literal. -/
def Decimal.parts (x : Decimal) : List Digit × List Digit × Option Int :=
  if x.digits = [] then ([0], [0], none)
  else if -4 < x.point ∧ x.point ≤ 16 then
    if x.point ≤ 0 then ([0], List.replicate (-x.point).toNat 0 ++ x.digits, none)
    else if (x.digits.length : Int) ≤ x.point then
      (x.digits ++ List.replicate (x.point - x.digits.length).toNat 0, [0], none)
    else (x.digits.take x.point.toNat, x.digits.drop x.point.toNat, none)
  else (x.digits.take 1, x.digits.drop 1, some (x.point - 1))

/-- An exponent: its sign, and at least two digits. -/
def exponentText (exponent : Int) : Text :=
  let ds := natDigits exponent.natAbs
  'e' :: (if exponent < 0 then '-' else '+') :: digitsText (if ds.length < 2 then 0 :: ds else ds)

/-- A sign, written for negative numbers only. -/
def signText (negative : Bool) : Text := if negative then ['-'] else []

/-- `float.__repr__`. -/
def Decimal.text (x : Decimal) : Text :=
  let (whole, fraction, exponent) := x.parts
  signText x.negative ++ (digitsText whole ++
    ((if fraction = [] then [] else '.' :: digitsText fraction) ++
      (exponent.elim [] exponentText)))

/-- A number: an integer, or a finite floating-point number. -/
inductive Number where
  | int (n : Int)
  | float (x : Decimal)
  deriving DecidableEq

/-- The literal of a number. -/
def Number.text : Number → Text
  | .int n => signText (n < 0) ++ digitsText (natDigits n.natAbs)
  | .float x => x.text

/-- The digits a text begins with, and the rest. -/
def spanDigits : Text → List Digit × Text
  | [] => ([], [])
  | c :: t =>
    match digit? c with
    | some d => (d :: (spanDigits t).1, (spanDigits t).2)
    | none => ([], c :: t)

/-- The digits before the point: a zero alone, or digits that do not begin with one. -/
def scanWhole (t : Text) : Option (List Digit × Text) :=
  match (spanDigits t).1 with
  | [] => none
  | d :: ds => some (if d = 0 then ([0], t.drop 1) else (d :: ds, (spanDigits t).2))

/-- A point with digits after it, or nothing. -/
def scanFraction (t : Text) : List Digit × Text :=
  if t.head? = some '.' ∧ (spanDigits (t.drop 1)).1 ≠ [] then spanDigits (t.drop 1) else ([], t)

/-- The sign at the beginning of an exponent, if there is one. -/
def scanSign (t : Text) : Bool × Text :=
  if t.head? = some '-' then (true, t.drop 1)
  else if t.head? = some '+' then (false, t.drop 1)
  else (false, t)

/-- An exponent mark with digits after it, or nothing. -/
def scanExponent (t : Text) : Option Int × Text :=
  if t.head? = some 'e' ∨ t.head? = some 'E' then
    let (negative, digits) := scanSign (t.drop 1)
    let (ds, after) := spanDigits digits
    if ds = [] then (none, t)
    else (some (if negative then -digitsValue ds else digitsValue ds), after)
  else (none, t)

/-- A number literal at the beginning of a text, and what follows it. -/
def scanNumber (t : Text) : Option (Number × Text) :=
  let negative : Bool := t.head? = some '-'
  (scanWhole (if negative then t.drop 1 else t)).map fun (whole, t) =>
    let (fraction, t) := scanFraction t
    let (exponent, t) := scanExponent t
    (if fraction = [] ∧ exponent = none then
        .int (if negative then -digitsValue whole else digitsValue whole)
      else .float (.of negative (whole ++ fraction) (whole.length + exponent.getD 0)), t)

/-- Nothing at the beginning of the text would continue a number before it. -/
def StopsNumber (t : Text) : Prop :=
  ∀ c, t.head? = some c → digit? c = none ∧ c ≠ '.' ∧ c ≠ 'e' ∧ c ≠ 'E'

/-- Nothing at the beginning of the text is a digit. -/
def NoDigit (t : Text) : Prop := ∀ c, t.head? = some c → digit? c = none

theorem StopsNumber.noDigit {t : Text} (h : StopsNumber t) : NoDigit t := fun c hc => (h c hc).1

theorem spanDigits_noDigit {t : Text} (h : NoDigit t) : spanDigits t = ([], t) := by
  cases t with
  | nil => rfl
  | cons c t => rw [spanDigits, h c rfl]

theorem spanDigits_digitsText (ds : List Digit) {t : Text} (h : NoDigit t) :
    spanDigits (digitsText ds ++ t) = (ds, t) := by
  induction ds with
  | nil => exact spanDigits_noDigit h
  | cons d ds ih =>
    show spanDigits (digitChar d :: (digitsText ds ++ t)) = (d :: ds, t)
    rw [spanDigits, digit?_digitChar, ih]

/-- The value of digits read on from a value. -/
theorem foldl_digits (ds : List Digit) (v : Nat) :
    ds.foldl (fun n d => n * 10 + d.val) v = v * 10 ^ ds.length + digitsValue ds := by
  unfold digitsValue
  induction ds generalizing v with
  | nil => simp
  | cons d ds ih =>
    rw [List.foldl_cons, List.foldl_cons, ih, ih (0 * 10 + d.val), List.length_cons, pow_succ]
    ring

theorem digitsValue_cons (d : Digit) (ds : List Digit) :
    digitsValue (d :: ds) = d.val * 10 ^ ds.length + digitsValue ds := by
  have h := foldl_digits ds (0 * 10 + d.val)
  exact h.trans (by rw [zero_mul, zero_add])

theorem digitsValue_pushDigits {fuel n : Nat} (hfuel : n ≤ fuel) (ds : List Digit) :
    digitsValue (pushDigits fuel n ds) = n * 10 ^ ds.length + digitsValue ds := by
  induction fuel generalizing n ds with
  | zero =>
    obtain rfl : n = 0 := by omega
    simp [pushDigits]
  | succ fuel ih =>
    unfold pushDigits
    split
    · rename_i hn
      simp [hn]
    · have hval : (Fin.ofNat 10 n).val = n % 10 := rfl
      rw [ih (by omega), digitsValue_cons, List.length_cons, hval, pow_succ]
      have hn : n = n / 10 * 10 + n % 10 := by omega
      calc n / 10 * (10 ^ ds.length * 10) + (n % 10 * 10 ^ ds.length + digitsValue ds)
          = (n / 10 * 10 + n % 10) * 10 ^ ds.length + digitsValue ds := by ring
        _ = n * 10 ^ ds.length + digitsValue ds := by rw [← hn]

theorem head?_pushDigits {fuel n : Nat} (hpos : 0 < n) (hfuel : n ≤ fuel) (ds : List Digit) :
    ∃ d rest, pushDigits fuel n ds = d :: rest ∧ d ≠ 0 := by
  induction fuel generalizing n ds with
  | zero => omega
  | succ fuel ih =>
    have hn : ¬n = 0 := by omega
    rw [pushDigits, if_neg hn]
    by_cases hlast : n / 10 = 0
    · rw [hlast]
      refine ⟨Fin.ofNat _ n, ds, by cases fuel <;> simp [pushDigits], fun h => ?_⟩
      have hval : n % 10 = 0 := congrArg Fin.val h
      omega
    · exact ih (by omega) (by omega) _

/-- The digits of a number write it. -/
theorem digitsValue_natDigits (n : Nat) : digitsValue (natDigits n) = n := by
  unfold natDigits
  split
  · rename_i hn
    rw [hn]
    rfl
  · rw [digitsValue_pushDigits le_rfl]
    simp [digitsValue]

/-- The digits before a point: a zero alone, or digits that do not begin with one. -/
def IsWhole (ds : List Digit) : Prop := ds = [0] ∨ ∃ d rest, ds = d :: rest ∧ d ≠ 0

theorem isWhole_natDigits (n : Nat) : IsWhole (natDigits n) := by
  unfold natDigits
  split
  · exact Or.inl rfl
  · exact Or.inr (head?_pushDigits (by omega) le_rfl [])

theorem scanWhole_digitsText {ds : List Digit} (hds : IsWhole ds) {t : Text} (h : NoDigit t) :
    scanWhole (digitsText ds ++ t) = some (ds, t) := by
  unfold scanWhole
  rw [spanDigits_digitsText ds h]
  rcases hds with rfl | ⟨d, rest, rfl, hd⟩
  · rfl
  · simp [hd]

theorem scanFraction_digitsText {ds : List Digit} (hds : ds ≠ []) {t : Text} (h : NoDigit t) :
    scanFraction ('.' :: digitsText ds ++ t) = (ds, t) := by
  have hspan : spanDigits (digitsText ds ++ t) = (ds, t) := spanDigits_digitsText ds h
  unfold scanFraction
  simp [hspan, hds]

theorem scanFraction_none {t : Text} (h : t.head? ≠ some '.') : scanFraction t = ([], t) := by
  unfold scanFraction
  simp [h]

theorem scanExponent_none {t : Text} (he : t.head? ≠ some 'e') (hE : t.head? ≠ some 'E') :
    scanExponent t = (none, t) := by
  unfold scanExponent
  simp [he, hE]

theorem scanExponent_exponentText (exponent : Int) {t : Text} (h : NoDigit t) :
    scanExponent (exponentText exponent ++ t) = (some exponent, t) := by
  obtain ⟨ds, hds, hne, hvalue⟩ : ∃ ds, exponentText exponent =
      'e' :: (if exponent < 0 then '-' else '+') :: digitsText ds ∧ ds ≠ [] ∧
        digitsValue ds = exponent.natAbs := by
    refine ⟨_, rfl, ?_, ?_⟩
    · split
      · simp
      · rename_i hlength
        intro hnil
        rw [hnil] at hlength
        simp at hlength
    · split
      · rw [digitsValue_cons, digitsValue_natDigits]
        simp
      · exact digitsValue_natDigits _
  have hspan : spanDigits (digitsText ds ++ t) = (ds, t) := spanDigits_digitsText ds h
  rw [hds]
  unfold scanExponent scanSign
  by_cases hneg : exponent < 0
  · have habs : -(exponent.natAbs : Int) = exponent := by omega
    generalize exponent.natAbs = m at hvalue habs
    simp [hneg, hspan, hne, hvalue, habs]
  · have habs : (exponent.natAbs : Int) = exponent := by omega
    generalize exponent.natAbs = m at hvalue habs
    simp [hneg, hspan, hne, hvalue, habs]

/-- Zeros around significant digits are dropped. -/
theorem significant_padded {ds : List Digit} (hne : ds ≠ []) (hhead : ds.head? ≠ some 0)
    (hlast : ds.getLast? ≠ some 0) (a b : Nat) :
    significant (List.replicate a 0 ++ (ds ++ List.replicate b 0)) = ds ∧
      ((List.replicate a (0 : Digit) ++ (ds ++ List.replicate b 0)).takeWhile (· = 0)).length =
        a := by
  have hnil : (ds ++ List.replicate b 0).takeWhile (fun d : Digit => decide (d = 0)) = [] := by
    cases ds with
    | nil => exact (hne rfl).elim
    | cons d ds => simpa using hhead
  have hkeep : (ds ++ List.replicate b 0).dropWhile (fun d : Digit => decide (d = 0)) =
      ds ++ List.replicate b 0 := by
    cases ds with
    | nil => exact (hne rfl).elim
    | cons d ds =>
      have hd : d ≠ 0 := by simpa using hhead
      simp [hd]
  have htrail : (ds ++ List.replicate b 0).rdropWhile (fun d : Digit => decide (d = 0)) = ds := by
    induction b with
    | zero =>
      rw [List.replicate_zero, List.append_nil, List.rdropWhile_eq_self_iff]
      intro hl hzero
      rw [List.getLast?_eq_some_getLast hl] at hlast
      exact hlast (congrArg some (of_decide_eq_true hzero))
    | succ b ih =>
      rw [List.replicate_succ', ← List.append_assoc, List.rdropWhile_concat_pos _ _ _ (by simp)]
      refine ih ?_ ?_
      · cases ds with
        | nil => exact (hne rfl).elim
        | cons d ds => simpa using hhead
      · cases ds with
        | nil => exact (hne rfl).elim
        | cons d ds =>
          have hd : d ≠ 0 := by simpa using hhead
          simp [hd]
  have hzeros : ∀ a : Nat, (List.replicate a (0 : Digit) ++ (ds ++ List.replicate b 0)).dropWhile
      (fun d : Digit => decide (d = 0)) = ds ++ List.replicate b 0 := by
    intro a
    induction a with
    | zero => exact hkeep
    | succ a ih =>
      rw [List.replicate_succ, List.cons_append, List.dropWhile_cons_of_pos (by simp)]
      exact ih
  constructor
  · unfold significant
    rw [hzeros, htrail]
  · induction a with
    | zero => rw [List.replicate_zero, List.nil_append, hnil]; rfl
    | succ a ih =>
      rw [List.replicate_succ, List.cons_append, List.takeWhile_cons_of_pos (by simp),
        List.length_cons, ih]

/-- A number is determined by its sign, its digits and its point. -/
theorem Decimal.eq_of {x : Decimal} {ds : List Digit} {point : Int} (hne : x.digits ≠ [])
    {a b : Nat} (hds : ds = List.replicate a 0 ++ (x.digits ++ List.replicate b 0))
    (hpoint : point - a = x.point) : Decimal.of x.negative ds point = x := by
  obtain ⟨hsignificant, hzeros⟩ := significant_padded hne x.head x.last a b
  rw [← hds] at hsignificant hzeros
  obtain ⟨negative, digits, point', head, last, zero⟩ := x
  simp only at hne hsignificant hpoint
  simp [Decimal.of, hsignificant, hne, hzeros, hpoint]

/-- The parts of a number's literal: digits before the point, something after them, and the number
itself once they are put together. -/
theorem Decimal.parts_spec (x : Decimal) :
    IsWhole x.parts.1 ∧ ¬(x.parts.2.1 = [] ∧ x.parts.2.2 = none) ∧
      Decimal.of x.negative (x.parts.1 ++ x.parts.2.1) (x.parts.1.length + x.parts.2.2.getD 0) =
        x := by
  have hcons : x.digits ≠ [] → ∃ d ds, x.digits = d :: ds ∧ d ≠ 0 := by
    intro hne
    obtain ⟨d, ds, hds⟩ := List.exists_cons_of_ne_nil hne
    refine ⟨d, ds, hds, fun hzero => ?_⟩
    have hhead := x.head
    rw [hds, hzero] at hhead
    exact hhead rfl
  unfold Decimal.parts
  split
  · rename_i hzero
    refine ⟨Or.inl rfl, by simp, ?_⟩
    have hpoint := x.zero hzero
    obtain ⟨negative, digits, point, head, last, zero⟩ := x
    simp only at hzero hpoint
    have hsignificant : significant [0, 0] = [] := by decide
    simp [Decimal.of, hsignificant, hzero, hpoint]
  rename_i hne
  obtain ⟨d, ds, hds, hd⟩ := hcons hne
  split
  · split
    · rename_i hpoint
      refine ⟨Or.inl rfl, by simp [hne], Decimal.eq_of hne (a := (-x.point).toNat + 1) (b := 0)
        (by simp [List.replicate_succ]) ?_⟩
      simp only [List.length_singleton, Option.getD_none]
      omega
    · split
      · rename_i hpos hlength
        refine ⟨Or.inr ⟨d, _, by rw [hds]; rfl, hd⟩, by simp, Decimal.eq_of hne (a := 0)
          (b := (x.point - x.digits.length).toNat + 1) (by simp [List.replicate_succ']) ?_⟩
        simp only [List.length_append, List.length_replicate, Option.getD_none]
        omega
      · rename_i hpos hlength
        refine ⟨?_, ?_, Decimal.eq_of hne (a := 0) (b := 0) (by simp) ?_⟩
        · obtain ⟨k, hk⟩ : ∃ k, x.point.toNat = k + 1 := ⟨x.point.toNat - 1, by omega⟩
          exact Or.inr ⟨d, ds.take k, by rw [hk, hds]; rfl, hd⟩
        · simp
          omega
        · simp
          omega
  · refine ⟨Or.inr ⟨d, [], by rw [hds]; rfl, hd⟩, by simp, Decimal.eq_of hne (a := 0) (b := 0)
      (by rw [hds]; simp) ?_⟩
    rw [hds]
    simp

/-- Reading the literal of a number gives the number, when nothing continues it. -/
theorem scanNumber_text (n : Number) {t : Text} (h : StopsNumber t) :
    scanNumber (n.text ++ t) = some (n, t) := by
  have hfraction : t.head? ≠ some '.' := fun hc => (h _ hc).2.1 rfl
  have he : t.head? ≠ some 'e' := fun hc => (h _ hc).2.2.1 rfl
  have hE : t.head? ≠ some 'E' := fun hc => (h _ hc).2.2.2 rfl
  have hsign : ∀ (negative : Bool) (ds : List Digit) (t : Text), IsWhole ds →
      (decide ((signText negative ++ (digitsText ds ++ t)).head? = some '-') = negative ∧
        (if negative then (signText negative ++ (digitsText ds ++ t)).drop 1
          else signText negative ++ (digitsText ds ++ t)) = digitsText ds ++ t) := by
    intro negative ds t hds
    cases negative with
    | true => exact ⟨rfl, rfl⟩
    | false =>
      refine ⟨?_, rfl⟩
      obtain ⟨d, rest, rfl⟩ : ∃ d rest, ds = d :: rest := by
        rcases hds with rfl | ⟨d, rest, rfl, -⟩
        · exact ⟨0, [], rfl⟩
        · exact ⟨d, rest, rfl⟩
      have hdigit : ∀ d : Digit, digitChar d ≠ '-' := by decide
      simpa [signText, digitsText] using hdigit d
  cases n with
  | int n =>
    have hwhole := isWhole_natDigits n.natAbs
    obtain ⟨hhead, htail⟩ := hsign (decide (n < 0)) _ t hwhole
    have hvalue := digitsValue_natDigits n.natAbs
    unfold scanNumber Number.text
    rw [List.append_assoc]
    simp only [hhead, htail, scanWhole_digitsText hwhole h.noDigit, Option.map_some,
      scanFraction_none hfraction, scanExponent_none he hE, and_self, ite_true, hvalue]
    by_cases hneg : n < 0
    · have habs : -(n.natAbs : Int) = n := by omega
      generalize n.natAbs = m at habs
      simp [hneg, habs]
    · have habs : (n.natAbs : Int) = n := by omega
      generalize n.natAbs = m at habs
      simp [hneg, habs]
  | float x =>
    obtain ⟨hwhole, hparts, hof⟩ := x.parts_spec
    have htext : x.text = signText x.negative ++ (digitsText x.parts.1 ++
        ((if x.parts.2.1 = [] then [] else '.' :: digitsText x.parts.2.1) ++
          x.parts.2.2.elim [] exponentText)) := rfl
    generalize x.parts.1 = whole at hwhole hof htext
    generalize x.parts.2.1 = fraction at hparts hof htext
    generalize x.parts.2.2 = exponent at hparts hof htext
    -- from the end of the literal: the exponent, the fraction before it, the digits before that
    obtain ⟨hexponent, hstop, hpoint⟩ : scanExponent (exponent.elim [] exponentText ++ t) =
        (exponent, t) ∧ NoDigit (exponent.elim [] exponentText ++ t) ∧
          (exponent.elim [] exponentText ++ t).head? ≠ some '.' := by
      cases exponent with
      | none => exact ⟨scanExponent_none he hE, h.noDigit, hfraction⟩
      | some e =>
        refine ⟨scanExponent_exponentText e h.noDigit, fun c hc => ?_, by simp [exponentText]⟩
        obtain rfl : 'e' = c := Option.some.inj hc
        decide
    obtain ⟨hscan, hstop'⟩ : scanFraction ((if fraction = [] then [] else
          '.' :: digitsText fraction) ++ (exponent.elim [] exponentText ++ t)) =
        (fraction, exponent.elim [] exponentText ++ t) ∧
        NoDigit ((if fraction = [] then [] else '.' :: digitsText fraction) ++
          (exponent.elim [] exponentText ++ t)) := by
      by_cases hempty : fraction = []
      · rw [hempty]
        exact ⟨scanFraction_none hpoint, hstop⟩
      · rw [if_neg hempty]
        refine ⟨scanFraction_digitsText hempty hstop, fun c hc => ?_⟩
        obtain rfl : '.' = c := Option.some.inj hc
        decide
    obtain ⟨hhead, htail⟩ := hsign x.negative whole ((if fraction = [] then [] else
      '.' :: digitsText fraction) ++ (exponent.elim [] exponentText ++ t)) hwhole
    show scanNumber (x.text ++ t) = _
    rw [htext]
    unfold scanNumber
    simp only [List.append_assoc] at hhead htail ⊢
    simp only [hhead, htail, scanWhole_digitsText hwhole hstop', Option.map_some, hscan,
      hexponent, hparts, ite_false, hof]

/-- A number literal is printable ASCII throughout, and not empty. -/
theorem isPlain_numberText (n : Number) : n.text ≠ [] ∧ ∀ c ∈ n.text, IsPlain c := by
  have hsign : ∀ negative, ∀ c ∈ signText negative, IsPlain c := by
    intro negative c hc
    cases negative with
    | true =>
      obtain rfl := List.mem_singleton.mp hc
      decide
    | false => cases hc
  have hchars : IsPlain 'e' ∧ IsPlain '-' ∧ IsPlain '+' ∧ IsPlain '.' := by decide
  have hdigits : ∀ ds : List Digit, ∀ c ∈ digitsText ds, IsPlain c := by
    have hdigit : ∀ d : Digit, IsPlain (digitChar d) := by decide
    intro ds c hc
    obtain ⟨d, -, rfl⟩ := List.mem_map.mp hc
    exact hdigit d
  have hwhole : ∀ ds, IsWhole ds → digitsText ds ≠ [] := by
    rintro ds (rfl | ⟨d, rest, rfl, -⟩) <;> simp [digitsText]
  have hexponent : ∀ exponent : Option Int, ∀ c ∈ exponent.elim [] exponentText, IsPlain c := by
    intro exponent c hc
    cases exponent with
    | none => cases hc
    | some e =>
      simp only [Option.elim_some, exponentText, List.mem_cons] at hc
      rcases hc with rfl | rfl | hc
      · exact hchars.1
      · split
        · exact hchars.2.1
        · exact hchars.2.2.1
      · exact hdigits _ c hc
  cases n with
  | int n =>
    have hne := hwhole _ (isWhole_natDigits n.natAbs)
    refine ⟨by simp [Number.text, hne], fun c hc => ?_⟩
    rcases List.mem_append.mp hc with hc | hc
    · exact hsign _ c hc
    · exact hdigits _ c hc
  | float x =>
    have hne := hwhole _ x.parts_spec.1
    refine ⟨by simp [Number.text, Decimal.text, hne], fun c hc => ?_⟩
    simp only [Number.text, Decimal.text, List.mem_append] at hc
    rcases hc with hc | hc | hc | hc
    · exact hsign _ c hc
    · exact hdigits _ c hc
    · split at hc
      · cases hc
      · rcases List.mem_cons.mp hc with rfl | hc
        · exact hchars.2.2.2
        · exact hdigits _ c hc
    · exact hexponent _ c hc

/-- What the digits of a text are does not depend on what follows their end. -/
theorem spanDigits_append {t : Text} (h : (spanDigits t).2 ≠ []) (more : Text) :
    spanDigits (t ++ more) = ((spanDigits t).1, (spanDigits t).2 ++ more) := by
  induction t with
  | nil => exact (h rfl).elim
  | cons c t ih =>
    rw [List.cons_append]
    unfold spanDigits at h ⊢
    cases hc : digit? c with
    | none => rfl
    | some d =>
      rw [hc] at h
      simp only [ih h]

theorem scanWhole_append {t after : Text} {ds : List Digit} (h : scanWhole t = some (ds, after))
    (hne : after ≠ []) (more : Text) : scanWhole (t ++ more) = some (ds, after ++ more) := by
  cases t with
  | nil => cases h
  | cons c t =>
    unfold scanWhole at h ⊢
    rw [List.cons_append]
    unfold spanDigits at h ⊢
    cases hc : digit? c with
    | none =>
      rw [hc] at h
      cases h
    | some d =>
      rw [hc] at h
      simp only [Option.some.injEq] at h ⊢
      split at h
      · rename_i hzero
        obtain ⟨rfl, rfl⟩ := Prod.mk.inj h
        simp [hzero]
      · rename_i hzero
        obtain ⟨rfl, rfl⟩ := Prod.mk.inj h
        simp [hzero, spanDigits_append hne]

theorem scanFraction_append {t after : Text} {ds : List Digit} (h : scanFraction t = (ds, after))
    (hne : after ≠ []) (hpoint : after.head? ≠ some '.') (more : Text) :
    t ≠ [] ∧ scanFraction (t ++ more) = (ds, after ++ more) := by
  unfold scanFraction at h ⊢
  cases t with
  | nil =>
    obtain ⟨-, rfl⟩ := Prod.mk.inj h
    exact (hne rfl).elim
  | cons c t =>
    refine ⟨List.cons_ne_nil _ _, ?_⟩
    simp only [List.head?_cons, List.drop_one, List.tail_cons, List.cons_append] at h ⊢
    split at h
    · rename_i hc
      obtain ⟨rfl, rfl⟩ := Prod.mk.inj h
      rw [spanDigits_append hne, if_pos hc]
    · rename_i hc
      obtain ⟨rfl, rfl⟩ := Prod.mk.inj h
      have hfirst : some c ≠ some '.' := hpoint
      rw [if_neg fun hmore => hfirst hmore.1]
      rfl

/-- An exponent that is read leaves what stops the number, and is no fraction itself. -/
theorem scanExponent_append {t after : Text} {e : Option Int} (h : scanExponent t = (e, after))
    (hne : after ≠ []) (hstop : StopsNumber after) (more : Text) :
    (t ≠ [] ∧ t.head? ≠ some '.') ∧ scanExponent (t ++ more) = (e, after ++ more) := by
  unfold scanExponent at h ⊢
  cases t with
  | nil =>
    simp at h
    exact (hne h.2).elim
  | cons c t =>
    simp only [List.head?_cons, Option.some.injEq, List.drop_one, List.tail_cons,
      List.cons_append] at h ⊢
    split at h
    · rename_i hc
      have hpoint : c ≠ '.' := by
        rintro rfl
        revert hc
        decide
      refine ⟨⟨List.cons_ne_nil _ _, by simpa using hpoint⟩, ?_⟩
      rw [if_pos hc]
      split at h
      · obtain ⟨-, rfl⟩ := Prod.mk.inj h
        obtain ⟨-, -, he, hE⟩ := hstop c rfl
        exact (hc.elim he hE).elim
      · rename_i hds
        obtain ⟨rfl, rfl⟩ := Prod.mk.inj h
        have hsign : scanSign (t ++ more) = ((scanSign t).1, (scanSign t).2 ++ more) := by
          unfold scanSign
          cases t with
          | nil => exact (hds rfl).elim
          | cons d t =>
            by_cases hminus : d = '-'
            · simp [hminus]
            · by_cases hplus : d = '+' <;> simp [hminus, hplus]
        simp only [hsign, spanDigits_append hne, if_neg hds]
    · rename_i hc
      obtain ⟨rfl, rfl⟩ := Prod.mk.inj h
      refine ⟨⟨List.cons_ne_nil _ _, ?_⟩, by rw [if_neg hc]; rfl⟩
      simpa using (hstop c rfl).2.1

/-- What a number literal is does not depend on what follows, once something ends it. -/
theorem scanNumber_append {t after : Text} {n : Number} (h : scanNumber t = some (n, after))
    (hne : after ≠ []) (hstop : StopsNumber after) (more : Text) :
    scanNumber (t ++ more) = some (n, after ++ more) := by
  cases t with
  | nil => cases h
  | cons c t =>
    unfold scanNumber at h ⊢
    obtain ⟨⟨whole, t₁⟩, hwhole, h⟩ := Option.map_eq_some_iff.mp h
    cases hfraction : scanFraction t₁ with
    | mk fraction t₂ =>
      cases hexponent : scanExponent t₂ with
      | mk exponent t₃ =>
        simp only [hfraction, hexponent, Prod.mk.injEq] at h
        obtain ⟨hn, rfl⟩ := h
        obtain ⟨⟨hne₂, hpoint⟩, hexponent'⟩ := scanExponent_append hexponent hne hstop more
        obtain ⟨hne₁, hfraction'⟩ := scanFraction_append hfraction hne₂ hpoint more
        have hwhole' := scanWhole_append hwhole hne₁ more
        have hdrop : (if decide ((c :: t ++ more).head? = some '-') = true then
            (c :: t ++ more).drop 1 else c :: t ++ more) =
            (if decide ((c :: t).head? = some '-') = true then (c :: t).drop 1 else c :: t) ++
              more := by
          by_cases hc : c = '-' <;> simp [hc]
        simp only [hdrop, hwhole', Option.map_some, hfraction', hexponent', ← hn]
        rfl

end JsonText
