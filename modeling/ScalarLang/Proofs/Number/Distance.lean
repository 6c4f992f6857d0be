import ScalarLang.Proofs.Number.Whole

/-!
# Nearest by distance

Numerals are read and values are written by whole numbers alone: ranks, midpoints and grids. Here
both are measured on the rational numbers. Let `M(r) := magnitude r` be the number at rank `r`. The
module introduces:

* `Binary64.NearestTo x rank`: no `M(r)` is nearer to `x` than `M(rank)`, and `rank` is even if
  another one is as near;
* `Binary64.Attains x rank`: `x` lies above the midpoint of `M(rank - 1)` and `M(rank)`, or on it
  while `rank` is even;
* `Decimal.toRat`: the number that a decimal stands for.

A rank is nearest to `x` exactly if `x` attains it and not the next one (`nearestTo_iff`), and a
ratio attains the ranks that it reaches. So the value that is read is nearest by distance
(`nearestTo_nearestRank`). The digits that are written cannot be fewer
(`length_digits_shortest_le`): of two decimals with the same nearest rank, one with fewer digits
would put a point of a coarser grid between them.
-/

namespace ScalarLang

namespace Binary64

/-- The number at a rank. Infinity gets the number that would follow the greatest finite one. -/
def magnitude (rank : Nat) : ℚ := units rank / 2 ^ 1074

/-- No number of the format is nearer to `x` than the one at `rank`, and `rank` is even if another
one is as near. -/
structure NearestTo (x : ℚ) (rank : Nat) : Prop where
  dist_le : ∀ other ≤ infinityRank, |x - magnitude rank| ≤ |x - magnitude other|
  even : ∀ other ≤ infinityRank, other ≠ rank →
    |x - magnitude rank| = |x - magnitude other| → rank % 2 = 0

/-- The number `x` lies above the midpoint below `rank`, or on it if `rank` is even. There is no
midpoint below zero. -/
def Attains (x : ℚ) : Nat → Prop
  | 0 => True
  | below + 1 =>
    magnitude below + magnitude (below + 1) < 2 * x ∨
      (magnitude below + magnitude (below + 1) = 2 * x ∧ (below + 1) % 2 = 0)

/-! ## Distances and midpoints -/

theorem magnitude_strictMono : StrictMono magnitude := by
  intro r s h
  have hunits : (units r : ℚ) < units s := Nat.cast_lt.2 (units_strictMono h)
  exact div_lt_div_of_pos_right hunits (by positivity)

section Distance

variable {x a b : ℚ}

/-- The lesser of two numbers is at least as near to `x` if `x` is not above their midpoint. -/
theorem dist_le_iff_le_midpoint (h : a < b) : |x - a| ≤ |x - b| ↔ 2 * x ≤ a + b := by
  have hsquares : (x - b) ^ 2 - (x - a) ^ 2 = (b - a) * (a + b - 2 * x) := by ring
  rw [← sq_le_sq, ← sub_nonneg, hsquares, mul_nonneg_iff_of_pos_left (sub_pos.2 h), sub_nonneg]

/-- The greater of two numbers is at least as near to `x` if `x` is not below their midpoint. -/
theorem dist_le_iff_midpoint_le (h : a < b) : |x - b| ≤ |x - a| ↔ a + b ≤ 2 * x := by
  have hsquares : (x - a) ^ 2 - (x - b) ^ 2 = (b - a) * (2 * x - (a + b)) := by ring
  rw [← sq_le_sq, ← sub_nonneg, hsquares, mul_nonneg_iff_of_pos_left (sub_pos.2 h), sub_nonneg]

/-- Two numbers are equally near to their midpoint alone. -/
theorem dist_eq_iff_midpoint (h : a < b) : |x - a| = |x - b| ↔ a + b = 2 * x := by
  rw [le_antisymm_iff, dist_le_iff_le_midpoint h, dist_le_iff_midpoint_le h]
  constructor
  · rintro ⟨hle, hge⟩
    exact le_antisymm hge hle
  · intro heq
    exact ⟨heq.ge, heq.le⟩

end Distance

/-- A greater number attains at least the same ranks. -/
theorem Attains.mono {x y : ℚ} {rank : Nat} (h : Attains x rank) (hxy : x ≤ y) :
    Attains y rank := by
  cases rank with
  | zero => trivial
  | succ below =>
    rcases h with hlt | ⟨heq, heven⟩
    · exact Or.inl (by linarith)
    -- on the midpoint the parity decides, and a greater number is past it
    · rcases hxy.lt_or_eq with hlt | rfl
      · exact Or.inl (by linarith)
      · exact Or.inr ⟨heq, heven⟩

section Nearest

variable {x : ℚ} {rank : Nat}

/-- A number that attains a rank is not below the midpoint of it and a lesser one, and on that
midpoint only if the rank is even. -/
theorem Attains.midpoint_le (h : Attains x rank) {other : Nat} (hlt : other < rank) :
    magnitude other + magnitude rank ≤ 2 * x ∧
      (magnitude other + magnitude rank = 2 * x → rank % 2 = 0) := by
  obtain ⟨below, rfl⟩ := Nat.exists_eq_succ_of_ne_zero (Nat.ne_zero_of_lt hlt)
  -- the midpoint with the rank next below is the greatest of all
  have hother : magnitude other ≤ magnitude below :=
    magnitude_strictMono.monotone (Nat.lt_succ_iff.1 hlt)
  rcases h with hpast | ⟨hon, heven⟩
  · exact ⟨by linarith, fun heq => absurd heq (by linarith)⟩
  · exact ⟨by linarith, fun _ => heven⟩

/-- A number that does not attain the next rank is not above the midpoint of a rank and a greater
one, and on that midpoint only if the rank is even. -/
theorem le_midpoint_of_not_attains (h : ¬Attains x (rank + 1)) {other : Nat} (hlt : rank < other) :
    2 * x ≤ magnitude rank + magnitude other ∧
      (magnitude rank + magnitude other = 2 * x → rank % 2 = 0) := by
  have hother : magnitude (rank + 1) ≤ magnitude other := magnitude_strictMono.monotone hlt
  have hle : 2 * x ≤ magnitude rank + magnitude (rank + 1) := not_lt.1 fun hpast => h (Or.inl hpast)
  refine ⟨by linarith, fun heq => ?_⟩
  -- on the midpoint the next rank is attained if it is even
  have hodd : (rank + 1) % 2 ≠ 0 := fun heven => h (Or.inr ⟨by linarith, heven⟩)
  omega

/-- The last rank that is attained is the nearest one. -/
theorem nearestTo_of_attains (habove : Attains x rank) (hbelow : ¬Attains x (rank + 1)) :
    NearestTo x rank := by
  constructor
  · intro other _
    rcases Nat.lt_trichotomy other rank with hlt | rfl | hgt
    · exact (dist_le_iff_midpoint_le (magnitude_strictMono hlt)).2 (habove.midpoint_le hlt).1
    · exact le_rfl
    · exact (dist_le_iff_le_midpoint (magnitude_strictMono hgt)).2
        (le_midpoint_of_not_attains hbelow hgt).1
  · intro other _ hne htie
    rcases Nat.lt_or_gt_of_ne hne with hlt | hgt
    · exact (habove.midpoint_le hlt).2
        ((dist_eq_iff_midpoint (magnitude_strictMono hlt)).1 htie.symm)
    · exact (le_midpoint_of_not_attains hbelow hgt).2
        ((dist_eq_iff_midpoint (magnitude_strictMono hgt)).1 htie)

/-- The nearest rank is attained. -/
theorem NearestTo.attains (hrank : rank ≤ infinityRank) (h : NearestTo x rank) :
    Attains x rank := by
  cases rank with
  | zero => trivial
  | succ below =>
    have hstep := magnitude_strictMono (Nat.lt_succ_self below)
    have hother : below ≤ infinityRank := Nat.le_of_succ_le hrank
    have hle := (dist_le_iff_midpoint_le hstep).1 (h.dist_le below hother)
    rcases hle.lt_or_eq with hpast | hon
    · exact Or.inl hpast
    · have htie := ((dist_eq_iff_midpoint hstep).2 hon).symm
      exact Or.inr ⟨hon, h.even below hother (Nat.ne_of_lt (Nat.lt_succ_self below)) htie⟩

/-- No rank behind the nearest one is attained. -/
theorem NearestTo.not_attains_succ (hrank : rank < infinityRank) (h : NearestTo x rank) :
    ¬Attains x (rank + 1) := by
  have hstep := magnitude_strictMono (Nat.lt_succ_self rank)
  rintro (hpast | ⟨hon, heven⟩)
  · have hle := (dist_le_iff_le_midpoint hstep).1 (h.dist_le (rank + 1) hrank)
    exact absurd hpast (not_lt.2 hle)
  -- the rank and the next one are not both even
  · have htie := (dist_eq_iff_midpoint hstep).2 hon
    have := h.even (rank + 1) hrank (Nat.succ_ne_self rank) htie
    omega

/-- A rank is the nearest one exactly if it is attained and the next one is not. -/
theorem nearestTo_iff (hrank : rank < infinityRank) :
    NearestTo x rank ↔ Attains x rank ∧ ¬Attains x (rank + 1) :=
  ⟨fun h => ⟨h.attains hrank.le, h.not_attains_succ hrank⟩, fun h => nearestTo_of_attains h.1 h.2⟩

/-- What lies between two numbers with the same nearest rank has that nearest rank. -/
theorem NearestTo.of_between {y z : ℚ} (hrank : rank < infinityRank) (hx : NearestTo x rank)
    (hz : NearestTo z rank) (hxy : x ≤ y) (hyz : y ≤ z) : NearestTo y rank := by
  rw [nearestTo_iff hrank] at hx hz ⊢
  exact ⟨hx.1.mono hxy, fun h => hz.2 (h.mono hyz)⟩

end Nearest

/-! ## Ratios -/

/-- A ratio attains the ranks that it reaches. -/
theorem attains_iff_reaches {n d : Nat} (hd : 0 < d) (rank : Nat) :
    Attains (n / d) rank ↔ reaches n d rank = true := by
  cases rank with
  | zero => simp [Attains]
  | succ below =>
    have hsum : magnitude below + magnitude (below + 1) = midpoint below / 2 ^ 1074 := by
      rw [magnitude, magnitude, midpoint, Nat.cast_add, add_div]
    have hvalue : 2 * (n : ℚ) * 2 ^ 1074 = ((n * 2 ^ 1075 : Nat) : ℚ) := by
      rw [Nat.cast_mul, Nat.cast_pow, Nat.cast_two, pow_succ (2 : ℚ) 1074]
      generalize (2 : ℚ) ^ 1074 = q
      ring
    have hpow : (0 : ℚ) < 2 ^ 1074 := by positivity
    have hpos : (0 : ℚ) < d := Nat.cast_pos.2 hd
    -- both sides are cleared of their denominators
    rw [Attains, reaches_succ_iff, hsum, ← mul_div_assoc, div_lt_div_iff₀ hpow hpos,
      div_eq_div_iff hpow.ne' hpos.ne', hvalue, ← Nat.cast_mul, Nat.cast_lt, Nat.cast_inj]

/-- The rank that is found for a ratio is the nearest one by distance. -/
theorem nearestTo_nearestRank {n d : Nat} (hd : 0 < d) (h : nearestRank n d < infinityRank) :
    NearestTo (n / d) (nearestRank n d) := by
  rw [nearestTo_iff h, attains_iff_reaches hd, attains_iff_reaches hd]
  -- the search would have gone on to the next rank
  refine ⟨reaches_nearestRank hd, fun hnext => ?_⟩
  have := le_nearestRank hd hnext h
  omega

end Binary64

namespace Decimal

open Binary64

/-! ## Decimals -/

/-- The number that a decimal stands for. -/
def toRat (d : Decimal) : ℚ := d.digits * 10 ^ d.exponent

/-- A decimal is a ratio, of which the numerator or the denominator has a power of ten. -/
theorem toRat_eq_div (d : Decimal) :
    d.toRat = ((d.digits * 10 ^ d.exponent.toNat : Nat) : ℚ) / (10 ^ (-d.exponent).toNat : Nat) := by
  rcases d with ⟨digits, exponent⟩
  -- the exponent is the difference of its positive and its negative part
  rw [toRat, Nat.cast_mul, Nat.cast_pow, Nat.cast_pow, Nat.cast_ofNat, mul_div_assoc,
    ← zpow_natCast, ← zpow_natCast, ← zpow_sub₀ (by norm_num)]
  congr
  dsimp only
  omega

/-- Zeros behind the digits count towards the exponent. -/
theorem toRat_mul_pow (m k : Nat) (exponent : Int) :
    toRat ⟨m * 10 ^ k, exponent⟩ = toRat ⟨m, exponent + k⟩ := by
  rw [toRat, toRat, Nat.cast_mul, Nat.cast_pow, Nat.cast_ofNat, zpow_add₀ (by norm_num),
    zpow_natCast]
  ring

/-- Decimals grow with their digits and with their exponent. -/
theorem toRat_le_toRat {m n : Nat} {e f : Int} (hmn : m ≤ n) (hef : e ≤ f) :
    toRat ⟨m, e⟩ ≤ toRat ⟨n, f⟩ := by
  have hpow : (10 : ℚ) ^ e ≤ 10 ^ f := zpow_le_zpow_right₀ (by norm_num) hef
  exact mul_le_mul (Nat.cast_le.2 hmn) hpow (by positivity) (Nat.cast_nonneg n)

/-- The digits found for a magnitude have it as the nearest one by distance. -/
theorem nearestTo_shortest {rank : Nat} (h : rank < infinityRank) :
    NearestTo (shortest rank).toRat rank := by
  have hrank := nearestRank_shortest h.le
  have hnearest := nearestTo_nearestRank (Nat.pow_pos (by norm_num)) (hrank.trans_lt h)
  rwa [hrank, ← toRat_eq_div] at hnearest

/-! ## The fewest digits -/

/-- A number of units of `10 ^ (-1075)` lies between the midpoints next to a rank exactly if that
rank is the nearest one. -/
theorem between_iff_nearestTo {below n : Nat} (h : below + 1 < infinityRank) :
    between ((below + 1) % 2 = 0) (midpoint below * unit) (midpoint (below + 1) * unit) n = true ↔
      NearestTo (toRat ⟨n, -1075⟩) (below + 1) := by
  have hratio : toRat ⟨n, -1075⟩ = (n : ℚ) / (10 ^ 1075 : Nat) := by
    rw [toRat, zpow_neg, zpow_ofNat, Nat.cast_pow, Nat.cast_ofNat, div_eq_mul_inv]
  -- midpoints are counted in units of `2 ^ (-1075)`, each of which has `unit` of `10 ^ (-1075)`
  have hscale (m : Nat) : m * 10 ^ 1075 = m * unit * 2 ^ 1075 := by
    rw [ten_pow_eq]
    generalize 2 ^ 1075 = q
    ring
  have hpow : 0 < 2 ^ 1075 := Nat.pow_pos (by norm_num)
  have hten : 0 < 10 ^ 1075 := Nat.pow_pos (by norm_num)
  rw [hratio, nearestTo_iff h, attains_iff_reaches hten, attains_iff_reaches hten, reaches_succ_iff,
    reaches_succ_iff, hscale, hscale, between_iff, decide_eq_true_eq]
  rw [Nat.mul_lt_mul_right hpow, Nat.mul_left_inj hpow.ne', Nat.mul_lt_mul_right hpow,
    Nat.mul_left_inj hpow.ne']
  -- the upper midpoint belongs to the rank exactly if it does not belong to the next one
  omega

/-- A neighbour is one of the two multiples of the grid next to the value. -/
theorem le_of_neighbour? {closed : Bool} {low high value grid m : Nat}
    (h : neighbour? closed low high value grid = some m) : m ≤ value / grid + 1 := by
  unfold neighbour? at h
  dsimp only at h
  split at h
  · cases h
  · cases h; omega
  · cases h; omega
  · split_ifs at h <;> cases h <;> omega

/-- The search ends with a multiple of its grid next to the value. -/
theorem coarsest_fst_le (closed : Bool) (low high value last : Nat) :
    (coarsest closed low high value last).1
      ≤ value / 10 ^ (coarsest closed low high value last).2 + 1 := by
  induction last with
  | zero => simp [coarsest]
  | succ last ih =>
    rw [coarsest, Nat.pow_eq]
    split
    next multiple hsome => exact le_of_neighbour? hsome
    next hnone => exact ih

theorem length_digitsOf_pos (n : Nat) : 0 < (digitsOf n).length :=
  List.length_pos_of_ne_nil Nat.toDigits_ne_nil

/-- A number has at most `k` digits exactly if it is below `10 ^ k`. -/
theorem length_digitsOf_le_iff {n k : Nat} (hk : 0 < k) :
    (digitsOf n).length ≤ k ↔ n < 10 ^ k :=
  Nat.length_toDigits_le_iff (by norm_num) hk

/-- A decimal with fewer digits than those found for a magnitude, but the same nearest one, puts a
multiple of the next coarser grid beside the magnitude. -/
theorem exists_coarser {below m power digits : Nat} {exponent : Int}
    (hrank : below + 1 < infinityRank) (hfound : fewest below = (m, power))
    (hd : NearestTo (toRat ⟨digits, exponent⟩) (below + 1))
    (hlt : (digitsOf digits).length < (digitsOf m).length) :
    ∃ c : Nat, NearestTo (toRat ⟨c * 10 ^ (power + 1), -1075⟩) (below + 1) := by
  rcases lt_or_ge ((power : Int) - 1075) exponent with hcoarse | hfine
  -- the decimal is on a coarser grid itself
  · obtain ⟨k, hk⟩ := Int.le.dest (Int.add_one_le_of_lt hcoarse)
    have hexponent : (-1075 : Int) + ((k + (power + 1) : Nat) : Int) = exponent := by omega
    refine ⟨digits * 10 ^ k, ?_⟩
    rwa [Nat.mul_assoc, ← Nat.pow_add, toRat_mul_pow, hexponent]
  -- the least number with as many digits as were found lies between the two
  · obtain ⟨j, hj⟩ : ∃ j, (digitsOf m).length = j + 2 :=
      Nat.exists_eq_add_of_le' (Nat.lt_of_le_of_lt (length_digitsOf_pos digits) hlt)
    have hdigits : digits ≤ 10 ^ (j + 1) :=
      ((length_digitsOf_le_iff (Nat.succ_pos j)).1 (by omega)).le
    have hm : 10 ^ (j + 1) ≤ m := by
      by_contra hless
      have := (length_digitsOf_le_iff (Nat.succ_pos j)).2 (not_le.1 hless)
      omega
    have hleast : toRat ⟨10 ^ j * 10 ^ (power + 1), -1075⟩
        = toRat ⟨10 ^ (j + 1), (power : Int) - 1075⟩ := by
      rw [Nat.pow_succ', ← Nat.mul_assoc, ← Nat.pow_succ, toRat_mul_pow, neg_add_eq_sub]
    have hfewest := nearestTo_shortest hrank
    rw [shortest_succ hfound] at hfewest
    refine ⟨10 ^ j, ?_⟩
    rw [hleast]
    exact .of_between hrank hd hfewest (toRat_le_toRat hdigits hfine) (toRat_le_toRat hm le_rfl)

/-- If more than one digit was found for a magnitude, no multiple of a coarser grid has it as its
nearest one: the search has tried that grid before. -/
theorem not_nearestTo_coarser {below m power c : Nat} (hrank : below + 1 < infinityRank)
    (hfound : fewest below = (m, power)) (hlength : 1 < (digitsOf m).length) :
    ¬NearestTo (toRat ⟨c * 10 ^ (power + 1), -1075⟩) (below + 1) := by
  intro hc
  -- with a multiple in the interval, a neighbour of the value is in it as well
  have hneighbour := neighbour?_ne_none (Nat.pow_pos (by norm_num)) (between_self below)
    ((between_iff_nearestTo hrank).2 hc)
  have hm := coarsest_fst_le ((below + 1) % 2 = 0) (midpoint below * unit)
    (midpoint (below + 1) * unit) (2 * units (below + 1) * unit)
    (digitsOf (2 * units (below + 1) * unit)).length
  rw [fewest] at hfound
  rw [hfound] at hm
  -- on the first grid that is tried there is at most the digit one
  have hpower : power + 1 ≤ (digitsOf (2 * units (below + 1) * unit)).length := by
    by_contra hfirst
    have hvalue : (digitsOf (2 * units (below + 1) * unit)).length ≤ power := by omega
    have hpos : 0 < power := Nat.lt_of_lt_of_le (length_digitsOf_pos _) hvalue
    rw [length_digitsOf_le_iff hpos] at hvalue
    rw [Nat.div_eq_of_lt hvalue] at hm
    have : (digitsOf m).length ≤ 1 := (length_digitsOf_le_iff Nat.one_pos).2 (by omega)
    omega
  have hcoarsest := le_coarsest hneighbour hpower
  rw [hfound] at hcoarsest
  omega

/-- No decimal that has a magnitude as its nearest one has fewer digits than the one found for that
magnitude. -/
theorem length_digits_shortest_le {rank : Nat} (hrank : rank < infinityRank) {d : Decimal}
    (hd : NearestTo d.toRat rank) :
    (digitsOf (shortest rank).digits).length ≤ (digitsOf d.digits).length := by
  cases rank with
  -- zero is written with one digit, and every decimal has one
  | zero => exact length_digitsOf_pos d.digits
  | succ below =>
    rcases hfound : fewest below with ⟨m, power⟩
    rw [shortest_succ hfound]
    by_contra hlt
    have hlength : 1 < (digitsOf m).length :=
      Nat.lt_of_le_of_lt (length_digitsOf_pos d.digits) (not_le.1 hlt)
    obtain ⟨c, hc⟩ := exists_coarser hrank hfound hd (not_le.1 hlt)
    exact not_nearestTo_coarser hrank hfound hlength hc

end Decimal

end ScalarLang
