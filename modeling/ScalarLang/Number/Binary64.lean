/-!
# Binary floating-point values

Values of the 64-bit binary format, kept as a sign and the rank of the magnitude. All magnitudes
of the format stand in one ascending sequence: zero, the subnormal values, the normal values,
infinity; the rank counts from zero and is also what the format writes in the bits below the sign.
Ranks above that of infinity are not numbers.

Neighbouring ranks are neighbouring values, and the rank is even exactly if the last bit of the
significand is zero. So the nearest value to a given ratio is found by a search for its rank:
`Binary64.ofRatio`.
-/

namespace ScalarLang

/-- A value of the 64-bit binary format. -/
structure Binary64 where
  negative : Bool
  rank : Nat
  deriving DecidableEq, Repr, Inhabited

namespace Binary64

/-- The rank of infinity. -/
def infinityRank : Nat := 0x7FF0000000000000

/-- Whether the value is a finite number. -/
def isFinite (v : Binary64) : Bool :=
  v.rank < infinityRank

/-- Whether the value is not a number. -/
def isNaN (v : Binary64) : Bool :=
  infinityRank < v.rank

/-- Positive or negative infinity. -/
def infinity (negative : Bool) : Binary64 := ⟨negative, infinityRank⟩

/-- A value that is not a number. -/
def nan : Binary64 := ⟨false, infinityRank + 1⟩

/-- The same magnitude with the other sign. -/
def neg (v : Binary64) : Binary64 := { v with negative := !v.negative }

/-- The value whose bits, read as a number, are `bits`. -/
def ofBits (bits : Nat) : Binary64 :=
  ⟨decide (Nat.pow 2 63 ≤ bits), bits % Nat.pow 2 63⟩

/-- The bits of a value, read as a number. -/
def toBits (v : Binary64) : Nat :=
  (if v.negative then Nat.pow 2 63 else 0) + v.rank

/-- The magnitude of a rank in units of the least positive one, `2 ^ (-1074)`. The rank of
infinity gets the magnitude that would follow the greatest finite one. -/
def units (rank : Nat) : Nat :=
  let exponent := rank / Nat.pow 2 52
  let fraction := rank % Nat.pow 2 52
  if exponent = 0 then fraction else (Nat.pow 2 52 + fraction) * Nat.pow 2 (exponent - 1)

/-- The midpoint between the magnitudes of a rank and the next one, in units of
`2 ^ (-1075)`. -/
def midpoint (rank : Nat) : Nat :=
  units rank + units (rank + 1)

/-- Whether `numerator / denominator` is nearer to the magnitude of `rank` or a greater one than
to all lesser ones. Halfway between two ranks it belongs to the even one. -/
def reaches (numerator denominator rank : Nat) : Bool :=
  match rank with
  | 0 => true
  | below + 1 =>
    let bound := midpoint below * denominator
    let value := numerator * Nat.pow 2 1075
    decide (bound < value) || (decide (bound = value) && decide (rank % 2 = 0))

/-- The greatest number that satisfies `p` among those from `base` on that differ from it in
`bits` low binary digits, if `p` holds of `base` and of no number above one of which it fails. -/
def searchUp (p : Nat → Bool) : Nat → Nat → Nat
  | 0, base => base
  | bits + 1, base =>
    searchUp p bits (if p (base + Nat.pow 2 bits) then base + Nat.pow 2 bits else base)

/-- The rank of the magnitude nearest to `numerator / denominator`. From halfway between the
greatest finite magnitude and the one that would follow it, that is infinity. -/
def nearestRank (numerator denominator : Nat) : Nat :=
  min (searchUp (reaches numerator denominator) 63 0) infinityRank

/-- The value nearest to a ratio with a given sign. -/
def ofRatio (negative : Bool) (numerator denominator : Nat) : Binary64 :=
  ⟨negative, nearestRank numerator denominator⟩

end Binary64

end ScalarLang
