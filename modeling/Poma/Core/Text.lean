import Mathlib.Data.List.Infix
import Mathlib.Data.List.Sort
import Mathlib.Data.Nat.Log
import Mathlib.Data.Rat.Floor

/-!
# Text and number formatting

The source builds and takes apart ``:``-joined references and writes amounts
into its messages. Strings are read through their list of characters, so that
each operation is a list function the kernel can evaluate. A formatted amount is
rounded half to even on the exact value, as the source language does.
-/

namespace Poma

/-- `text.startswith(start)`. -/
def startsWith (text start : String) : Bool := start.toList.isPrefixOf text.toList

/-- `text.endswith(ending)`. -/
def endsWith (text ending : String) : Bool := ending.toList.isSuffixOf text.toList

/-- `text.split(":")`. -/
def splitColon (text : String) : List String := (text.toList.splitOn ':').map String.ofList

/-- The case mapping of the interpreter. Unless another one is given, it maps the ASCII letters. -/
structure TextCase where
  /-- `text.upper()`. -/
  upper : String → String := String.toUpper
  /-- `text.lower()`. -/
  lower : String → String := String.toLower

/-- The code points the source language's `str.strip` takes off. -/
def spaceRanges : List (Nat × Nat) :=
  [(9, 13), (28, 32), (133, 133), (160, 160), (5760, 5760), (8192, 8202), (8232, 8233),
   (8239, 8239), (8287, 8287), (12288, 12288)]

/-- One character that `str.strip` takes off. -/
def isSpaceChar (c : Char) : Bool := spaceRanges.any fun r => r.1 ≤ c.toNat && c.toNat ≤ r.2

/-- `text.strip()`. -/
def strip (text : String) : String :=
  String.ofList ((text.toList.dropWhile isSpaceChar).reverse.dropWhile isSpaceChar).reverse

/-- The code points for which the source language's `str.isdigit` holds. -/
def digitRanges : List (Nat × Nat) :=
  [(48, 57), (178, 179), (185, 185), (1632, 1641), (1776, 1785), (1984, 1993), (2406, 2415),
   (2534, 2543), (2662, 2671), (2790, 2799), (2918, 2927), (3046, 3055), (3174, 3183),
   (3302, 3311), (3430, 3439), (3558, 3567), (3664, 3673), (3792, 3801), (3872, 3881),
   (4160, 4169), (4240, 4249), (4969, 4977), (6112, 6121), (6160, 6169), (6470, 6479),
   (6608, 6618), (6784, 6793), (6800, 6809), (6992, 7001), (7088, 7097), (7232, 7241),
   (7248, 7257), (8304, 8304), (8308, 8313), (8320, 8329), (9312, 9320), (9332, 9340),
   (9352, 9360), (9450, 9450), (9461, 9469), (9471, 9471), (10102, 10110), (10112, 10120),
   (10122, 10130), (42528, 42537), (43216, 43225), (43264, 43273), (43472, 43481),
   (43504, 43513), (43600, 43609), (44016, 44025), (65296, 65305), (66720, 66729),
   (68160, 68163), (68912, 68921), (69216, 69224), (69714, 69722), (69734, 69743),
   (69872, 69881), (69942, 69951), (70096, 70105), (70384, 70393), (70736, 70745),
   (70864, 70873), (71248, 71257), (71360, 71369), (71472, 71481), (71904, 71913),
   (72016, 72025), (72784, 72793), (73040, 73049), (73120, 73129), (92768, 92777),
   (92864, 92873), (93008, 93017), (120782, 120831), (123200, 123209), (123632, 123641),
   (125264, 125273), (127232, 127242), (130032, 130041)]

/-- One character of `str.isdigit`. -/
def isDigitChar (c : Char) : Bool := digitRanges.any fun r => r.1 ≤ c.toNat && c.toNat ≤ r.2

/-- `text.isdigit()`: not empty, digits only. -/
def isDigits (text : String) : Bool := text ≠ "" && text.toList.all isDigitChar

/-- The class `[0-9]` of a regular expression. -/
def isAsciiDigit (c : Char) : Bool := '0' ≤ c && c ≤ '9'

/-- A reversed text with a trailing `:r[0-9]+` taken off, when it has one. -/
def dropSuffixRev (rev : List Char) : Option (List Char) :=
  match rev.span isAsciiDigit with
  | ([], _) => none
  | (_ :: _, 'r' :: ':' :: rest) => some rest
  | (_ :: _, _) => none

/-- `re.sub(r":r[0-9]+$", "", ref)`; `$` also matches before a final newline. -/
def stripReplacementSuffix (ref : String) : String :=
  match ref.toList.reverse with
  | '\n' :: rest => match dropSuffixRev rest with
    | some kept => String.ofList ('\n' :: kept).reverse
    | none => ref
  | rev => match dropSuffixRev rev with
    | some kept => String.ofList kept.reverse
    | none => ref

/-- `any(part in text)` for one part. -/
def containsText (text part : String) : Bool :=
  text.toList.tails.any fun tail => part.toList.isPrefixOf tail

theorem containsText_iff (text part : String) :
    containsText text part = true ↔ part.toList <:+: text.toList := by
  rw [List.infix_iff_prefix_suffix]
  simp [containsText, List.mem_tails, and_comm]

theorem containsText_append_left {first part : String} (h : containsText first part = true)
    (second : String) : containsText (first ++ second) part = true := by
  rw [containsText_iff] at h ⊢
  rw [String.toList_append]
  exact h.trans (List.prefix_append _ _).isInfix

theorem containsText_append_right {second part : String} (h : containsText second part = true)
    (first : String) : containsText (first ++ second) part = true := by
  rw [containsText_iff] at h ⊢
  rw [String.toList_append]
  exact h.trans (List.suffix_append _ _).isInfix

/-- A letter or digit of the regular-expression class `[A-Za-z0-9]`. -/
def isAlnumChar (c : Char) : Bool :=
  isAsciiDigit c || ('A' ≤ c && c ≤ 'Z') || ('a' ≤ c && c ≤ 'z')

/-- Whether `symbol` occurs in the text as a whole symbol: not preceded by a
letter, digit or dot and not followed by a letter or digit. -/
def mentionsSymbol (text symbol : String) : Bool := go none text.toList
where
  go (before : Option Char) (rest : List Char) : Bool :=
    let opens := match before with
      | none => true
      | some c => !(isAlnumChar c || c == '.')
    let closes := match (rest.drop symbol.toList.length).head? with
      | none => true
      | some c => !isAlnumChar c
    (opens && symbol.toList.isPrefixOf rest && closes) ||
      match rest with
      | [] => false
      | c :: tail => go (some c) tail

/-- `", ".join(sorted({...}))`. -/
def joinSorted (names : List String) : String :=
  String.intercalate ", " (names.dedup.insertionSort (· ≤ ·))

/-- Round to the nearest integer, ties to the even one. -/
def roundHalfEven (q : ℚ) : ℤ :=
  let below := ⌊q⌋
  let rest := q - below
  if rest < 1 / 2 then below
  else if rest > 1 / 2 then below + 1
  else if below % 2 = 0 then below else below + 1

/-- `round(q, digits)`. -/
def roundTo (digits : Nat) (q : ℚ) : ℚ := roundHalfEven (q * 10 ^ digits) / 10 ^ digits

/-- `f"{q:.{digits}f}"`. -/
def formatFixed (digits : Nat) (q : ℚ) : String :=
  let scaled := roundHalfEven (q * 10 ^ digits)
  let whole := (scaled.natAbs / 10 ^ digits).repr
  let part := (scaled.natAbs % 10 ^ digits).repr
  let padded := String.ofList (List.replicate (digits - part.length) '0') ++ part
  (if q < 0 then "-" else "") ++ whole ++ (if digits = 0 then "" else "." ++ padded)

/-- `f"{q:g}"`: six significant digits, trailing zeros left out. -/
def formatGeneral (q : ℚ) : String :=
  if q = 0 then "0"
  else
    let below : ℤ :=
      if |q| ≥ 1 then Nat.log 10 ⌊|q|⌋.natAbs else -(Nat.clog 10 ⌈1 / |q|⌉.natAbs : ℤ)
    let scaled := roundHalfEven (|q| * 10 ^ (5 - below))
    let exponent := if scaled = 1000000 then below + 1 else below
    let digits := (if scaled = 1000000 then 100000 else scaled.natAbs).repr.toList
    let kept := (digits.reverse.dropWhile (· = '0')).reverse
    let point (rest : List Char) : String := if rest = [] then "" else "." ++ String.ofList rest
    let padded (n : Nat) : String := if n < 10 then "0" ++ n.repr else n.repr
    (if q < 0 then "-" else "") ++
      if 0 ≤ exponent ∧ exponent < 6 then
        String.ofList (digits.take (exponent.toNat + 1)) ++ point (kept.drop (exponent.toNat + 1))
      else if -4 ≤ exponent ∧ exponent < 0 then
        point (List.replicate (-exponent - 1).toNat '0' ++ kept) |> ("0" ++ ·)
      else
        String.ofList (kept.take 1) ++ point (kept.drop 1) ++ "e" ++
          (if exponent < 0 then "-" else "+") ++ padded exponent.natAbs

/-- Group a run of digits by thousands, working from the right. -/
def groupThousands (digits : List Char) : List Char :=
  go digits.reverse
where
  go : List Char → List Char
    | a :: b :: c :: d :: rest => go (d :: rest) ++ [',', c, b, a]
    | short => short.reverse

/-- `f"{q:,.2f}"`. -/
def formatDollars (q : ℚ) : String :=
  let cents := roundHalfEven (|q| * 100)
  let whole := groupThousands (cents.natAbs / 100).repr.toList
  let part := (cents.natAbs % 100).repr
  let padded := if part.length < 2 then "0" ++ part else part
  (if q < 0 then "-" else "") ++ String.ofList whole ++ "." ++ padded

end Poma
