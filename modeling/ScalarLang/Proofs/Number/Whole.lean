import ScalarLang.Proofs.Number.Writing

/-!
# Whole numbers with and without a point

A whole number has two texts: all its digits, if it was written without a point, and the fewest
digits that read back as its value, filled up with zeros, if it was written with one. A point and a
zero behind the first text make it the second one exactly if the fewest digits write the value and
not only a number nearby. The module introduces:

* `Decimal.Exact d rank`: the decimal is the magnitude of the rank.

The fewest digits of a whole number have no places behind the point (`exponent_shortest_nonneg`), so
the two texts differ in the digits alone (`wholeText_append_iff`). Below `2 ^ 53` magnitudes stand
so close that no other whole number reads back as the value (`exact_shortest_of_lt`).
-/

namespace ScalarLang

namespace Decimal

/-- The decimal is the magnitude of the rank, which is counted in units of `2 ^ (-1074)`. -/
def Exact (d : Decimal) (rank : Nat) : Prop :=
  d.digits * 10 ^ d.exponent.toNat * 2 ^ 1074
    = Binary64.units rank * 10 ^ (-d.exponent).toNat

instance (d : Decimal) (rank : Nat) : Decidable (d.Exact rank) :=
  inferInstanceAs (Decidable (_ = _))

/-! ## The fewest digits of a whole number -/

/-- What lies between two numbers of the interval is in it. -/
theorem between_of_le_of_le {closed : Bool} {low high a b n : Nat}
    (ha : between closed low high a = true) (hb : between closed low high b = true) (han : a ≤ n)
    (hnb : n ≤ b) : between closed low high n = true := by
  cases closed with
  | false =>
    simp only [between, Bool.false_eq_true, if_false, Bool.and_eq_true, decide_eq_true_eq] at *
    omega
  | true =>
    simp only [between, if_true, Bool.and_eq_true, decide_eq_true_eq] at *
    omega

/-- A neighbour is found if a multiple of the grid lies in the interval: the neighbour on that side
of the value stands between the two. -/
theorem neighbour?_ne_none {closed : Bool} {low high value grid c : Nat} (hgrid : 0 < grid)
    (h : between closed low high value = true) (hc : between closed low high (c * grid) = true) :
    neighbour? closed low high value grid ≠ none := by
  have hinside : between closed low high (value / grid * grid) = true ∨
      between closed low high ((value / grid + 1) * grid) = true := by
    rcases Nat.lt_or_ge value (c * grid) with hlt | hge
    · right
      have hcount : value / grid + 1 ≤ c := (Nat.div_lt_iff_lt_mul hgrid).2 hlt
      have hvalue : value ≤ (value / grid + 1) * grid :=
        (Nat.lt_mul_of_div_lt (Nat.lt_succ_self _) hgrid).le
      exact between_of_le_of_le h hc hvalue (Nat.mul_le_mul_right grid hcount)
    · left
      have hcount : c ≤ value / grid := (Nat.le_div_iff_mul_le hgrid).2 hge
      exact between_of_le_of_le hc h (Nat.mul_le_mul_right grid hcount)
        (Nat.div_mul_le_self value grid)
  unfold neighbour?
  dsimp only
  cases hbelow : between closed low high (value / grid * grid) with
  | false => simp [hinside.resolve_left (by simp [hbelow])]
  | true =>
    cases between closed low high ((value / grid + 1) * grid) with
    | false => simp
    | true =>
      dsimp only
      split_ifs <;> simp

/-- The coarsest grid is at least as coarse as each grid that has a neighbour. -/
theorem le_coarsest {closed : Bool} {low high value k : Nat}
    (h : neighbour? closed low high value (10 ^ k) ≠ none) {last : Nat} (hk : k ≤ last) :
    k ≤ (coarsest closed low high value last).2 := by
  induction last with
  | zero => exact Nat.le_trans hk (Nat.zero_le _)
  | succ last ih =>
    rw [coarsest, Nat.pow_eq]
    split
    next multiple hsome => exact hk
    next hnone =>
      apply ih
      -- the finest grid that is left is the one that was asked for, or a coarser one
      rcases Nat.lt_or_eq_of_le hk with hlt | rfl
      · exact Nat.lt_succ_iff.1 hlt
      · exact absurd hnone h

/-- A whole number is a multiple of `10 ^ 1075` in units of `10 ^ (-1075)`. -/
theorem two_mul_units_mul_unit {rank n : Nat} (h : Binary64.units rank = n * 2 ^ 1074) :
    2 * Binary64.units rank * unit = n * 10 ^ 1075 := by
  rw [h, ten_pow_eq, Nat.pow_succ 2 1074]
  generalize 2 ^ 1074 = q
  ring

/-- The fewest digits of a whole number have no places behind the point. -/
theorem exponent_shortest_nonneg {rank : Nat} (h : Binary64.IsWhole rank) :
    0 ≤ (shortest rank).exponent := by
  cases rank with
  | zero => exact le_rfl
  | succ below =>
    obtain ⟨n, hn⟩ := h
    rw [Nat.mul_comm] at hn
    have hvalue := two_mul_units_mul_unit hn
    have hpos : 0 < n := by
      apply Nat.pos_of_ne_zero
      rintro rfl
      have hlt := Binary64.units_lt_units_succ below
      rw [hn, Nat.zero_mul] at hlt
      exact absurd hlt (Nat.not_lt_zero _)
    -- the number is on the grid of whole numbers, and the search starts above that grid
    have hgrid := between_self below
    rw [hvalue] at hgrid
    have hlength : 1075 ≤ (digitsOf (2 * Binary64.units (below + 1) * unit)).length := by
      by_contra hshort
      have hle : (Nat.toDigits 10 (2 * Binary64.units (below + 1) * unit)).length ≤ 1075 := by
        rw [digitsOf] at hshort
        omega
      rw [Nat.length_toDigits_le_iff (by decide) (by decide), hvalue] at hle
      exact absurd hle (Nat.not_lt.2 (Nat.le_mul_of_pos_left _ hpos))
    have hpower := le_coarsest
      (neighbour?_ne_none (Nat.pow_pos (by norm_num)) (between_self below) hgrid) hlength
    have hexponent : (shortest (below + 1)).exponent = ((fewest below).2 : Int) - 1075 := rfl
    have hfewest : 1075 ≤ (fewest below).2 := hpower
    omega

/-- The fewest digits of a positive magnitude are not zero. -/
theorem digits_shortest_pos (below : Nat) : 0 < (shortest (below + 1)).digits := by
  rcases hfound : fewest below with ⟨m, power⟩
  rw [shortest_succ hfound]
  apply Nat.pos_of_ne_zero
  rintro (rfl : m = 0)
  -- zero does not lie above a midpoint
  have hmidpoint : 0 < Binary64.midpoint below :=
    Nat.lt_of_le_of_lt (Nat.zero_le _) (Binary64.two_mul_units_lt_midpoint below)
  have hlow : 0 < Binary64.midpoint below * unit := Nat.mul_pos hmidpoint unit_pos
  have hbetween := (between_iff.mp (between_fewest hfound)).1
  rw [Nat.zero_mul] at hbetween
  omega

/-- Zeros behind the digits of a number multiply it by a power of ten. -/
theorem toDigits_mul_pow {n : Nat} (hn : 0 < n) (k : Nat) :
    Nat.toDigits 10 (n * 10 ^ k) = Nat.toDigits 10 n ++ List.replicate k '0' := by
  induction k with
  | zero => simp
  | succ k ih =>
    have hten : n * 10 ^ (k + 1) = n * 10 ^ k * 10 := by rw [Nat.pow_succ, Nat.mul_assoc]
    have hpos : 0 < n * 10 ^ k := Nat.mul_pos hn (Nat.pow_pos (by norm_num))
    have hzero : Nat.digitChar 0 = '0' := rfl
    rw [hten, Nat.toDigits_of_base_le (by norm_num) (by omega), Nat.mul_div_cancel _ (by norm_num),
      Nat.mul_mod_left, ih, List.append_assoc, List.replicate_succ', hzero]

/-- The fewest digits of a whole number in their places are all digits of the number that they
write. -/
theorem positional_shortest {rank : Nat} (h : Binary64.IsWhole rank) :
    (shortest rank).positional
      = Nat.toDigits 10 ((shortest rank).digits * 10 ^ (shortest rank).exponent.toNat) := by
  rw [positional, if_pos (exponent_shortest_nonneg h)]
  cases rank with
  | zero => rfl
  | succ below => rw [toDigits_mul_pow (digits_shortest_pos below), digitsOf]

end Decimal

/-! ## The two texts -/

namespace IsLiteral

variable {v : Binary64}

/-- A whole number may have been written with a point. -/
theorem fraction (h : IsLiteral v true) : IsLiteral v false :=
  ⟨h.unsigned, h.finite, by simp⟩

/-- The text of a whole number that was written with a point. -/
theorem numberText_false_of_whole (h : IsLiteral v true) :
    Expr.numberText v false = String.ofList (Nat.toDigits 10 ((Decimal.shortest v.rank).digits *
      10 ^ (Decimal.shortest v.rank).exponent.toNat)) ++ ".0" := by
  have hpoint (n : Nat) : '.' ∉ Nat.toDigits 10 n := by
    intro hmem
    exact absurd (Numeral.digits_toDigits n '.' hmem) (by decide)
  simp only [Expr.numberText, Bool.false_eq_true, if_false, h.fraction.shortestText_eq,
    Decimal.positional_shortest (h.whole rfl), String.toList_ofList]
  rw [if_neg (by simpa using hpoint _)]

/-- A whole number and its fewest digits have the same text exactly if these write the number. -/
theorem wholeText_append_iff (h : IsLiteral v true) :
    v.wholeText ++ ".0" = Expr.numberText v false ↔
      (Decimal.shortest v.rank).Exact v.rank := by
  have hexponent : (-(Decimal.shortest v.rank).exponent).toNat = 0 := by
    have hnonneg := Decimal.exponent_shortest_nonneg (h.whole rfl)
    omega
  have hunits := roundQuotient_units (h.whole rfl)
  rw [h.numberText_false_of_whole, h.wholeText_eq, Decimal.Exact, hexponent, Nat.pow_zero,
    Nat.mul_one]
  constructor
  · intro htext
    -- digits that are the same write the same number
    have hlist := congrArg String.toList htext
    simp only [String.toList_append, String.toList_ofList, List.append_left_inj] at hlist
    have hvalue := congrArg (Numeral.ofDigits 10) hlist
    rw [Numeral.ofDigits_toDigits, Numeral.ofDigits_toDigits] at hvalue
    rw [← hvalue, hunits]
  · intro hvalue
    rw [← hunits, Nat.mul_left_inj (Nat.two_pow_pos 1074).ne'] at hvalue
    rw [hvalue]

end IsLiteral

/-! ## Small numbers -/

namespace Binary64

/-- From a magnitude to the next one is the last place of its exponent. -/
theorem units_succ (e : Nat) {f : Nat} (hf : f < 2 ^ 52) :
    units (e * 2 ^ 52 + f + 1) = units (e * 2 ^ 52 + f) + 2 ^ (e - 1) := by
  rw [units_of_parts e f hf]
  -- the next magnitude has the same exponent, or it is the first one of the next exponent
  rcases Nat.lt_or_ge (f + 1) (2 ^ 52) with hlt | hlast
  · rw [Nat.add_assoc, units_of_parts e (f + 1) hlt]
    split_ifs with he
    · rw [he]
      rfl
    · rw [← Nat.add_assoc, Nat.add_mul, Nat.one_mul]
  · have hcarry : e * 2 ^ 52 + f + 1 = (e + 1) * 2 ^ 52 + 0 := by omega
    rw [hcarry, units_of_parts (e + 1) 0 (by decide), if_neg (Nat.succ_ne_zero e), Nat.add_zero,
      Nat.add_sub_cancel]
    split_ifs with he
    · subst he
      simp only [Nat.pow_zero, Nat.mul_one]
      omega
    · have hpow : 2 ^ e = 2 * 2 ^ (e - 1) := by
        rw [← Nat.pow_succ', Nat.succ_eq_add_one, Nat.sub_add_cancel (Nat.pos_of_ne_zero he)]
      have hcount : 2 ^ 52 * 2 = 2 ^ 52 + f + 1 := by omega
      rw [hpow, ← Nat.mul_assoc, hcount, Nat.add_mul, Nat.one_mul]

/-- Below `2 ^ 53` neighbouring magnitudes differ by one at most. -/
theorem units_succ_le {rank : Nat} (h : units rank < 2 ^ 53 * 2 ^ 1074) :
    units (rank + 1) ≤ units rank + 2 ^ 1074 := by
  obtain ⟨e, f, hf, rfl⟩ : ∃ e f, f < 2 ^ 52 ∧ rank = e * 2 ^ 52 + f :=
    ⟨rank / 2 ^ 52, rank % 2 ^ 52, Nat.mod_lt _ (by decide), (Nat.div_add_mod' rank _).symm⟩
  -- with a larger exponent the leading digit alone is too much
  have hexponent : e - 1 ≤ 1074 := by
    by_contra hlarge
    have he : e ≠ 0 := by omega
    have hle : 2 ^ 1075 ≤ 2 ^ (e - 1) := Nat.pow_le_pow_right (by decide) (by omega)
    have hpow : 2 ^ 53 * 2 ^ 1074 = 2 ^ 52 * 2 ^ 1075 := by rw [← Nat.pow_add, ← Nat.pow_add]
    rw [units_of_parts e f hf, if_neg he, hpow] at h
    exact absurd h (Nat.not_lt.2 (Nat.mul_le_mul (Nat.le_add_right _ _) hle))
  rw [units_succ e hf]
  exact Nat.add_le_add_left (Nat.pow_le_pow_right (by decide) hexponent) _

end Binary64

/-- Of all whole numbers only one lies within half of the spacing around it. -/
theorem eq_of_mul_between {x n q : Nat} (hq : 0 < q) (hlow : n * (q * 2) ≤ x * (q * 2) + q)
    (hhigh : x * (q * 2) ≤ n * (q * 2) + q) : x = n := by
  rcases Nat.lt_trichotomy x n with hlt | heq | hgt
  · have hstep := Nat.mul_le_mul_right (q * 2) (Nat.succ_le_of_lt hlt)
    rw [Nat.succ_mul] at hstep
    omega
  · exact heq
  · have hstep := Nat.mul_le_mul_right (q * 2) (Nat.succ_le_of_lt hgt)
    rw [Nat.succ_mul] at hstep
    omega

namespace Decimal

/-- What the fewest digits of a whole number write lies between the midpoints on both sides of
it. -/
theorem written_between_midpoints {below : Nat} (h : Binary64.IsWhole (below + 1)) :
    let written :=
      (shortest (below + 1)).digits * 10 ^ (shortest (below + 1)).exponent.toNat * (2 ^ 1074 * 2)
    Binary64.midpoint below ≤ written ∧ written ≤ Binary64.midpoint (below + 1) := by
  intro written
  have hexponent := exponent_shortest_nonneg h
  rcases hfound : fewest below with ⟨m, power⟩
  have hshortest := shortest_succ hfound
  rw [hshortest] at hexponent
  obtain ⟨k, rfl⟩ : ∃ k, power = k + 1075 := Nat.exists_eq_add_of_le' (by
    dsimp only at hexponent
    omega)
  have hpower : ((k + 1075 : Nat) : Int) - 1075 = k := by omega
  have hwritten : written = m * 10 ^ k * (2 ^ 1074 * 2) := by
    rw [hpower] at hshortest
    simp only [written, hshortest, Int.toNat_natCast]
  have hscaled : m * 10 ^ (k + 1075) = written * unit := by
    rw [hwritten, Nat.pow_add, ten_pow_eq, Nat.pow_succ 2 1074, ← Nat.mul_assoc, ← Nat.mul_assoc]
  -- the bounds of the search, in the units of the midpoints
  obtain ⟨hlow, hhigh⟩ := between_iff.mp (between_fewest hfound)
  rw [hscaled] at hlow hhigh
  constructor
  · apply Nat.le_of_mul_le_mul_right _ unit_pos
    exact hlow.elim Nat.le_of_lt fun h => Nat.le_of_eq h.1
  · apply Nat.le_of_mul_le_mul_right _ unit_pos
    exact hhigh.elim Nat.le_of_lt fun h => Nat.le_of_eq h.1

/-- The fewest digits of a whole number below `2 ^ 53` write that number. -/
theorem exact_shortest_of_lt {rank n : Nat} (h : Binary64.units rank = n * 2 ^ 1074)
    (hn : n < 2 ^ 53) : (shortest rank).Exact rank := by
  have hwhole : Binary64.IsWhole rank := ⟨n, by rw [h, Nat.mul_comm]⟩
  have hexponent := exponent_shortest_nonneg hwhole
  cases rank with
  | zero => simp [Exact, shortest]
  | succ below =>
    obtain ⟨hlow, hhigh⟩ := written_between_midpoints hwhole
    -- the midpoints are within half of the spacing of whole numbers
    have hsmall : Binary64.units (below + 1) < 2 ^ 53 * 2 ^ 1074 := by
      rw [h]
      exact Nat.mul_lt_mul_of_pos_right hn (Nat.two_pow_pos 1074)
    have hprevious := Binary64.units_succ_le
      (Nat.lt_trans (Binary64.units_lt_units_succ below) hsmall)
    have hnext := Binary64.units_succ_le hsmall
    rw [Binary64.midpoint] at hlow hhigh
    rw [h] at hlow hhigh hprevious hnext
    have hvalue :
        (shortest (below + 1)).digits * 10 ^ (shortest (below + 1)).exponent.toNat = n := by
      generalize (shortest (below + 1)).digits * 10 ^ (shortest (below + 1)).exponent.toNat = x
        at hlow hhigh ⊢
      have hdouble : n * (2 ^ 1074 * 2) = n * 2 ^ 1074 + n * 2 ^ 1074 := by
        rw [← Nat.mul_assoc, Nat.mul_two]
      apply eq_of_mul_between (Nat.two_pow_pos 1074)
      · rw [hdouble]
        generalize 2 ^ 1074 = q at hlow hprevious ⊢
        generalize x * (q * 2) = value at hlow ⊢
        omega
      · rw [hdouble]
        generalize 2 ^ 1074 = q at hhigh hnext ⊢
        generalize x * (q * 2) = value at hhigh ⊢
        omega
    have hplaces : (-(shortest (below + 1)).exponent).toNat = 0 := by omega
    rw [Exact, hplaces, hvalue, h, Nat.pow_zero, Nat.mul_one]

end Decimal

/-- The fewest digits of a numeral below `2 ^ 53` write its value. -/
theorem Numeral.exact_shortest_of_lt {digits : List Char} {v : Binary64} (hne : digits ≠ [])
    (hdigits : Digits digits) (hvalue : value? (String.ofList digits) = some v)
    (h : ofDigits 10 digits < 2 ^ 53) : (Decimal.shortest v.rank).Exact v.rank := by
  obtain ⟨rank, hrank, hunits⟩ := Binary64.exists_units_eq h
  have hlayout := value?_layout hne hdigits (show Digits [] by simp [Digits])
  rw [List.append_nil, List.length_nil, Nat.pow_zero] at hlayout
  obtain ⟨-, -, hnearest⟩ := of_nearest?_eq_some (hlayout.symm.trans hvalue)
  have hexact : v.rank = rank := by
    rw [hnearest, Binary64.nearestRank_eq_of_exact Nat.one_pos hrank (by rw [hunits, Nat.mul_one])]
  rw [hexact]
  exact Decimal.exact_shortest_of_lt hunits h

end ScalarLang
