/-!
# Digit separators

In a numeral an underscore may stand between two digits. It may also stand between the marker of
a base, such as `0x`, and the digit after it.
-/

namespace ScalarLang.Text

/-- Whether every underscore of `cs` has a digit on both sides, where `afterDigit` says whether
one stands before the first character. -/
def separates (isDigit : Char → Bool) (afterDigit : Bool) : List Char → Bool
  | [] => true
  | '_' :: c :: cs => afterDigit && isDigit c && separates isDigit true cs
  | ['_'] => false
  | c :: cs => separates isDigit (isDigit c) cs

/-- Whether `c` is a digit to base sixteen. -/
def isHexDigit (c : Char) : Bool :=
  c.isDigit || (decide ('a' ≤ c.toLower) && decide (c.toLower ≤ 'f'))

/-- Whether the underscores in a numeral without sign stand where they may. -/
def wellSeparated : List Char → Bool
  | '0' :: marker :: cs =>
    if marker.toLower = 'x' then separates isHexDigit true cs
    else if marker.toLower = 'b' || marker.toLower = 'o' then separates Char.isDigit true cs
    else separates Char.isDigit false ('0' :: marker :: cs)
  | cs => separates Char.isDigit false cs

/-- A numeral without its underscores. -/
def withoutSeparators (cs : List Char) : List Char :=
  cs.filter (· != '_')

end ScalarLang.Text
