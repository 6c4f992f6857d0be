import ScalarLang.Number.Binary64
import ScalarLang.Text.Separator

/-!
# Numerals

The texts that denote floating-point values, and the values they denote. A numeral has an optional
sign and then

* decimal digits with at most one point and an optional exponent of ten;
* `0x`, hexadecimal digits with at most one point and an exponent of two; or
* `inf` or `infinity`.

The text `nan`, which takes no sign, is a numeral too. Upper and lower case are not told apart, and
digits may be separated by underscores. The value is the nearest one of the format, the even one
of two; a finite numeral whose nearest value would be infinite denotes none.

There is a limit to this. A whole part of more than eight hundred digits, which only a negative
exponent keeps in range, is read in full if its first nineteen digits settle the value. If they do
not, its digits beyond the limit are lost for the place of the point: `decimalRatio`.
-/

namespace ScalarLang

namespace Numeral

/-- The value of a digit to base sixteen or less. -/
def digitValue (c : Char) : Nat :=
  if c.isDigit then c.toNat - '0'.toNat else c.toLower.toNat - 'a'.toNat + 10

/-- The number written by digits to a base. -/
def ofDigits (base : Nat) (digits : List Char) : Nat :=
  digits.foldl (fun n c => n * base + digitValue c) 0

/-- The sign in front of a text, and the rest of it. -/
def sign : List Char → Bool × List Char
  | '+' :: cs => (false, cs)
  | '-' :: cs => (true, cs)
  | cs => (false, cs)

/-- The number written by exponent digits. It stops growing at five digits, where every value is
out of range one way or the other. -/
def exponentSize (digits : List Char) : Nat :=
  digits.foldl (fun n c => if n < 10000 then n * 10 + digitValue c else n) 0

/-- The exponent after its mark: an optional sign and digits only. -/
def exponent? (cs : List Char) : Option Int :=
  let (negative, digits) := sign cs
  if digits.isEmpty || !digits.all Char.isDigit then none
  else some (if negative then -exponentSize digits else exponentSize digits)

/-- The digits before and after an optional point, and what follows them. -/
def splitDigits (isDigit : Char → Bool) (cs : List Char) :
    List Char × List Char × List Char :=
  let whole := cs.takeWhile isDigit
  match cs.dropWhile isDigit with
  | '.' :: rest => (whole, rest.takeWhile isDigit, rest.dropWhile isDigit)
  | rest => (whole, [], rest)

/-- A positive number `coefficient * base ^ exponent` as numerator and denominator. -/
def scale (base coefficient : Nat) (exponent : Int) : Nat × Nat :=
  if 0 ≤ exponent then (coefficient * Nat.pow base exponent.toNat, 1)
  else (coefficient, Nat.pow base (-exponent).toNat)

/-- The ratio `0.d₁d₂… * 10 ^ point` for the digits `d₁d₂…`. -/
def pointed (digits : List Char) (point : Int) : Nat × Nat :=
  scale 10 (ofDigits 10 digits) (point - digits.length)

/-- How many digits of a decimal numeral are tried before all of them are looked at. -/
def leadingDigits : Nat := 19

/-- How many digits of a whole part count towards the place of the point once all digits are
looked at. -/
def wholeDigits : Nat := 800

/-- Whether the leading digits of `0.d₁d₂… * 10 ^ point` settle its value, be it infinite: zeros
alone follow them, or their successor has the same nearest value. -/
def settles (digits : List Char) (point : Int) : Bool :=
  let leading := digits.take leadingDigits
  let rank := fun coefficient =>
    let (numerator, denominator) := scale 10 coefficient (point - leading.length)
    Binary64.nearestRank numerator denominator
  (digits.drop leadingDigits).all (· = '0') ||
    rank (ofDigits 10 leading) = rank (ofDigits 10 leading + 1)

/-- The ratio denoted by digits without leading zeros, a point after `point` of them, and an
exponent. In a whole part of more than `wholeDigits` digits whose value the leading digits do not
settle, the digits beyond that number do not move the point. -/
def decimalRatio (digits : List Char) (point exponent : Int) : Nat × Nat :=
  if point ≤ wholeDigits || settles digits (point + exponent) then
    pointed digits (point + exponent)
  else pointed digits (wholeDigits + exponent)

/-- The ratio denoted by a decimal numeral without sign and separators. -/
def decimal? (cs : List Char) : Option (Nat × Nat) :=
  let (whole, fraction, rest) := splitDigits Char.isDigit cs
  if whole.isEmpty && fraction.isEmpty then none
  else do
    let exponent ← match rest with
      | [] => some 0
      | mark :: cs => if mark.toLower = 'e' then exponent? cs else none
    let digits := (whole ++ fraction).dropWhile (· = '0')
    some (decimalRatio digits ((digits.length : Int) - fraction.length) exponent)

/-- The ratio denoted by a hexadecimal numeral behind its `0x`, without separators. -/
def hexadecimal? (cs : List Char) : Option (Nat × Nat) :=
  let (whole, fraction, rest) := splitDigits Text.isHexDigit cs
  if whole.isEmpty && fraction.isEmpty then none
  else do
    let exponent ← match rest with
      | [] => none
      | mark :: cs => if mark.toLower = 'p' then exponent? cs else none
    some (scale 2 (ofDigits 16 (whole ++ fraction)) (exponent - 4 * fraction.length))

/-- The ratio denoted by a finite numeral without sign. -/
def ratio? (cs : List Char) : Option (Nat × Nat) :=
  if !Text.wellSeparated cs then none
  else
    match Text.withoutSeparators cs with
    | '0' :: marker :: digits =>
      if marker.toLower = 'x' then hexadecimal? digits else decimal? ('0' :: marker :: digits)
    | cs => decimal? cs

/-- The value nearest to a ratio with a given sign, unless that is infinity. -/
def nearest? (negative : Bool) (ratio : Nat × Nat) : Option Binary64 :=
  let value := Binary64.ofRatio negative ratio.1 ratio.2
  if value.isFinite then some value else none

/-- The value denoted by a text, if it denotes one. -/
def value? (text : String) : Option Binary64 :=
  let (negative, cs) := sign text.toList
  let word := cs.map Char.toLower
  if word = "inf".toList || word = "infinity".toList then some (.infinity negative)
  else if text.toList.map Char.toLower = "nan".toList then some .nan
  else (ratio? cs).bind (nearest? negative)

end Numeral

end ScalarLang
