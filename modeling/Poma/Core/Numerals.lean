import Poma.Core.Text
import Poma.Json.Numbers
import Poma.Models.Types

/-!
# Numbers in texts

The source language reads a number from a text in which digits may be of any
script and an underscore may stand between two digits. A text that is no number
is an error, which is `none` here.
-/

namespace Poma

open JsonText (spanDigits scanSign scanExponent digitsValue)

/-- The zeros of the decimal digits of all scripts. -/
def decimalZeros : List Nat :=
  [48, 1632, 1776, 1984, 2406, 2534, 2662, 2790, 2918, 3046, 3174, 3302, 3430, 3558, 3664, 3792,
   3872, 4160, 4240, 6112, 6160, 6470, 6608, 6784, 6800, 6992, 7088, 7232, 7248, 42528, 43216,
   43264, 43472, 43504, 43600, 44016, 65296, 66720, 68912, 69734, 69872, 69942, 70096, 70384,
   70736, 70864, 71248, 71360, 71472, 71904, 72016, 72784, 73040, 73120, 92768, 92864, 93008,
   120782, 120792, 120802, 120812, 120822, 123200, 123632, 125264, 130032]

/-- A character of a number as an ASCII one: a digit of any script is its digit, a space is a blank
and what is neither is no part of a number. -/
def asciiNumeral (c : Char) : Char :=
  if c.toNat < 127 then c
  else if isSpaceChar c then ' '
  else match decimalZeros.find? fun low => low ≤ c.toNat && c.toNat ≤ low + 9 with
    | some low => Char.ofNat (48 + (c.toNat - low))
    | none => '?'

/-- The blanks that may stand around a number. -/
def isBlank (c : Char) : Bool := c = ' ' || (9 ≤ c.toNat && c.toNat ≤ 13)

/-- The characters of a number, without the blanks around it. -/
def numeralChars (text : String) : List Char :=
  (((text.toList.map asciiNumeral).dropWhile isBlank).reverse.dropWhile isBlank).reverse

/-- The characters without their underscores, each of which stands between two digits. -/
def dropUnderscores (afterDigit : Bool) : List Char → Option (List Char)
  | [] => some []
  | '_' :: c :: rest =>
    if afterDigit && isAsciiDigit c then (dropUnderscores true rest).map (c :: ·) else none
  | ['_'] => none
  | c :: rest => (dropUnderscores (isAsciiDigit c) rest).map (c :: ·)

/-- What is at least this far from zero is infinite as a floating-point number. -/
def floatOverflow : ℚ := 2 ^ 1024 - 2 ^ 970

open JsonText (quote backslash) in
/-- `repr(text)`, of a text without control characters. -/
def reprText (text : String) : String :=
  let apostrophe := Char.ofNat 39
  let mark := if apostrophe ∈ text.toList ∧ quote ∉ text.toList then quote else apostrophe
  let escaped := text.toList.flatMap fun c => if c = mark ∨ c = backslash then [backslash, c] else [c]
  String.ofList (mark :: escaped ++ [mark])

/-- `float(text)`. -/
def readFloat (text : String) : Option Reported :=
  (dropUnderscores false (numeralChars text)).bind fun chars =>
    let (negative, unsigned) := scanSign chars
    let lowered := String.ofList (unsigned.map Char.toLower)
    if lowered = "inf" ∨ lowered = "infinity" then some (.infinite negative)
    else if lowered = "nan" then some .nan
    else
      let (whole, afterWhole) := spanDigits unsigned
      let (fraction, afterFraction) :=
        if afterWhole.head? = some '.' then spanDigits (afterWhole.drop 1) else ([], afterWhole)
      let (exponent, rest) := scanExponent afterFraction
      if (whole = [] ∧ fraction = []) ∨ rest ≠ [] then none
      else
        let size : ℚ := digitsValue (whole ++ fraction) *
          (10 : ℚ) ^ (exponent.getD 0 - fraction.length)
        if floatOverflow ≤ size then some (.infinite negative)
        else some (.finite (if negative then -size else size))

/-- The most digits of an integer in a text. -/
def maxIntDigits : Nat := 4300

/-- `int(text)`. -/
def readInt (text : String) : Option Int :=
  let (negative, unsigned) := scanSign (numeralChars text)
  (dropUnderscores false unsigned).bind fun chars =>
    let (digits, rest) := spanDigits chars
    if digits = [] ∨ rest ≠ [] ∨ maxIntDigits < digits.length then none
    else some (if negative then -digitsValue digits else digitsValue digits)

end Poma
