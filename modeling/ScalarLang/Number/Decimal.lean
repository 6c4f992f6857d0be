import ScalarLang.Number.Binary64

/-!
# Decimal text of binary floating-point values

Every finite value of the format, and every midpoint between two of them, is a whole number of
units of `10 ^ (-1075)`. The fewest digits that read back as a value are found among those units:
on the grid of multiples of a power of ten the two neighbours of the value are tried, from coarse
grids to fine ones.

* `Decimal.shortest` finds the digits.
* `Decimal.positional` and `Decimal.scientific` lay them out.
* `Binary64.wholeText` rounds to a whole number instead.
-/

namespace ScalarLang

/-- The number `digits * 10 ^ exponent`. -/
structure Decimal where
  digits : Nat
  exponent : Int
  deriving DecidableEq, Repr, Inhabited

namespace Decimal

/-- Whether `n` lies between `low` and `high`, which belong to the interval if `closed` holds. -/
def between (closed : Bool) (low high n : Nat) : Bool :=
  if closed then decide (low ≤ n) && decide (n ≤ high) else decide (low < n) && decide (n < high)

/-- The multiple of `grid` in the interval that is next to `value`, counted in multiples: of two
the nearer, and of two equally near the even one. -/
def neighbour? (closed : Bool) (low high value grid : Nat) : Option Nat :=
  let below := value / grid
  let rest := value % grid
  match between closed low high (below * grid), between closed low high ((below + 1) * grid) with
  | false, false => none
  | true, false => some below
  | false, true => some (below + 1)
  | true, true =>
    if 2 * rest < grid || (2 * rest = grid && below % 2 = 0) then some below
    else some (below + 1)

/-- The neighbour of `value` in the interval on the coarsest grid `10 ^ k` that has one, for `k`
up to a given exponent, and that `k`. -/
def coarsest (closed : Bool) (low high value : Nat) : Nat → Nat × Nat
  | 0 => (value, 0)
  | k + 1 =>
    match neighbour? closed low high value (Nat.pow 10 (k + 1)) with
    | some multiple => (multiple, k + 1)
    | none => coarsest closed low high value k

/-- The decimal digits of a number. -/
def digitsOf (n : Nat) : List Char :=
  Nat.toDigits 10 n

/-- How many units of `10 ^ (-1075)` there are in `2 ^ (-1075)`. -/
def unit : Nat := Nat.pow 5 1075

/-- The fewest digits that read back as the finite magnitude of `below + 1`, and their power of ten,
in units of `10 ^ (-1075)`. -/
def fewest (below : Nat) : Nat × Nat :=
  let value := 2 * Binary64.units (below + 1) * unit
  coarsest ((below + 1) % 2 = 0) (Binary64.midpoint below * unit)
    (Binary64.midpoint (below + 1) * unit) value (digitsOf value).length

/-- The decimal with the fewest digits that is nearest to the finite magnitude of `rank` among
all magnitudes of the format, and of those the one nearest to it. -/
def shortest (rank : Nat) : Decimal :=
  match rank with
  | 0 => ⟨0, 0⟩
  | below + 1 =>
    let found := fewest below
    ⟨found.1, (found.2 : Int) - 1075⟩

/-- All digits of a decimal in their places: zeros up to the point where the digits do not reach
it, and no point if no digit stands behind it. -/
def positional (d : Decimal) : List Char :=
  let digits := digitsOf d.digits
  if 0 ≤ d.exponent then digits ++ List.replicate d.exponent.toNat '0'
  else
    let places := (-d.exponent).toNat
    let padded := List.replicate (places + 1 - digits.length) '0' ++ digits
    let whole := padded.length - places
    padded.take whole ++ '.' :: padded.drop whole

/-- The power of ten of the first digit. -/
def magnitude (d : Decimal) : Int :=
  (digitsOf d.digits).length + d.exponent - 1

/-- One digit before the point, the others behind it, and the power of ten with its sign and at
least two digits. -/
def scientific (d : Decimal) : List Char :=
  let mantissa := match digitsOf d.digits with
    | [] => []
    | [digit] => [digit]
    | digit :: rest => digit :: '.' :: rest
  let power := digitsOf d.magnitude.natAbs
  mantissa ++ ['e', if d.magnitude < 0 then '-' else '+'] ++
    List.replicate (2 - power.length) '0' ++ power

end Decimal

namespace Binary64

/-- The quotient rounded to the nearest whole number, a half to the even one. -/
def roundQuotient (numerator denominator : Nat) : Nat :=
  let below := numerator / denominator
  let rest := numerator % denominator
  if 2 * rest < denominator || (2 * rest = denominator && below % 2 = 0) then below else below + 1

/-- The text of a value, where `magnitude` writes a finite magnitude from its rank. Infinity is
written with its sign. -/
def textWith (magnitude : Nat → List Char) (v : Binary64) : String :=
  if v.isNaN then "NaN"
  else if v.isFinite then
    String.ofList ((if v.negative then ['-'] else []) ++ magnitude v.rank)
  else if v.negative then "-Inf"
  else "+Inf"

/-- A value rounded to a whole number. -/
def wholeText (v : Binary64) : String :=
  v.textWith fun rank => Decimal.digitsOf (roundQuotient (units rank) (Nat.pow 2 1074))

/-- The fewest digits that read back as the value, in their places. -/
def shortestText (v : Binary64) : String :=
  v.textWith fun rank => (Decimal.shortest rank).positional

end Binary64

end ScalarLang
