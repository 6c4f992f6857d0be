import ScalarLang.Number.Numeral

/-!
# Integers with a base marker

Integers of 64 bits as they are given on a command line: an optional sign, then decimal digits or
a base marker (`0x`, `0o`, `0b`, or `0` alone for base eight) and digits to that base. Underscores
separate digits.
-/

namespace ScalarLang

namespace Integer

/-- Why a text is not an integer of 64 bits. -/
inductive Error
  | malformed
  | outOfRange
  deriving DecidableEq, Repr, Inhabited

/-- The wording of an error. -/
def Error.message : Error → String
  | malformed => "parse error"
  | outOfRange => "value out of range"

/-- The base of a numeral without sign, and its digits. -/
def splitBase : List Char → Nat × List Char
  | '0' :: marker :: c :: cs =>
    if marker.toLower = 'b' then (2, c :: cs)
    else if marker.toLower = 'o' then (8, c :: cs)
    else if marker.toLower = 'x' then (16, c :: cs)
    else (8, marker :: c :: cs)
  | '0' :: cs => (8, cs)
  | cs => (10, cs)

/-- The number that digits to a base continue from `n` on, below `2 ^ 64`. What is wrong first,
from the left, is reported. -/
def continueDigits (base : Nat) : Nat → List Char → Except Error Nat
  | n, [] => .ok n
  | n, c :: cs =>
    if c = '_' then continueDigits base n cs
    else if !Text.isHexDigit c || base ≤ Numeral.digitValue c then .error .malformed
    else
      let n := n * base + Numeral.digitValue c
      if Nat.pow 2 64 ≤ n then .error .outOfRange else continueDigits base n cs

/-- The number that a numeral without sign denotes. -/
def magnitude (cs : List Char) : Except Error Nat := do
  if cs.isEmpty then .error .malformed
  let (base, digits) := splitBase cs
  let n ← continueDigits base 0 digits
  if Text.wellSeparated cs then .ok n else .error .malformed

/-- The integer that a text denotes. -/
def parse (text : String) : Except Error Int := do
  let (negative, cs) := Numeral.sign text.toList
  let n ← magnitude cs
  if negative then
    if n ≤ Nat.pow 2 63 then .ok (-n) else .error .outOfRange
  else if n < Nat.pow 2 63 then .ok n
  else .error .outOfRange

end Integer

end ScalarLang
