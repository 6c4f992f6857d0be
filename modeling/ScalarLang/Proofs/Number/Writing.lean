import ScalarLang.Analysis.Expression
import ScalarLang.Proofs.Number.Reading

/-!
# Writing numbers

A finite value without sign is written as a numeral that reads back as the same value, and that has
a point exactly if the number was written with one. For a whole number written without a point the
digits are exact (`roundQuotient_units`). For any other number they lie between the midpoints on
both sides of the value (`between_fewest`), and so have it as their nearest value.

* `IsLiteral v isInteger`: the values that numerals denote, with or without a point.
* `value?_numberText`: such a value is read back from its text.
* `isLiteral_of_value?`: what a numeral denotes is such a value.
-/

namespace ScalarLang

/-! ## The digits of a value -/

namespace Decimal

/-- The interval is open or closed. -/
theorem between_iff {closed : Bool} {low high n : Nat} :
    between closed low high n = true ↔
      (low < n ∨ (low = n ∧ closed = true)) ∧ (n < high ∨ (n = high ∧ closed = true)) := by
  cases closed <;> simp [between, Nat.le_iff_lt_or_eq]

/-- A neighbour lies in the interval. -/
theorem between_of_neighbour? {closed : Bool} {low high value grid m : Nat}
    (h : neighbour? closed low high value grid = some m) :
    between closed low high (m * grid) = true := by
  unfold neighbour? at h
  dsimp only at h
  split at h
  · cases h
  · cases h; assumption
  · cases h; assumption
  · split_ifs at h <;> cases h <;> assumption

/-- The neighbour on the coarsest grid lies in the interval if the value itself does. -/
theorem between_coarsest {closed : Bool} {low high value : Nat}
    (h : between closed low high value = true) (k : Nat) :
    between closed low high
      ((coarsest closed low high value k).1 *
        10 ^ (coarsest closed low high value k).2) = true := by
  induction k with
  | zero => simpa [coarsest] using h
  | succ k ih =>
    rw [coarsest, Nat.pow_eq]
    split
    · rename_i multiple hsome
      exact between_of_neighbour? hsome
    · exact ih

theorem unit_pos : 0 < unit := Nat.pow_pos (by norm_num)

/-- How many units of `10 ^ (-1075)` there are in one. -/
theorem ten_pow_eq : 10 ^ 1075 = 2 ^ 1075 * unit := by
  rw [unit, Nat.pow_eq, ← Nat.mul_pow]

/-- A magnitude lies between the midpoints on both sides of it. -/
theorem between_self (below : Nat) :
    between ((below + 1) % 2 = 0) (Binary64.midpoint below * unit)
      (Binary64.midpoint (below + 1) * unit) (2 * Binary64.units (below + 1) * unit) = true :=
  between_iff.mpr
    ⟨Or.inl (Nat.mul_lt_mul_of_pos_right (Binary64.midpoint_lt_two_mul_units below) unit_pos),
     Or.inl (Nat.mul_lt_mul_of_pos_right (Binary64.two_mul_units_lt_midpoint _) unit_pos)⟩

/-- The digits found for a magnitude, in units of `10 ^ (-1075)`, lie between the midpoints on both
sides of it. -/
theorem between_fewest {below m power : Nat} (hfound : fewest below = (m, power)) :
    between ((below + 1) % 2 = 0) (Binary64.midpoint below * unit)
      (Binary64.midpoint (below + 1) * unit) (m * 10 ^ power) = true := by
  -- the search over the grids ends at the value itself, which lies in the interval
  have := between_coarsest (between_self below)
    (digitsOf (2 * Binary64.units (below + 1) * unit)).length
  rw [fewest] at hfound
  rwa [hfound] at this

/-- A ratio equal to the digits found for a magnitude has that magnitude as its nearest value. -/
theorem nearestRank_of_fewest {below m power n d : Nat} (hfound : fewest below = (m, power))
    (hd : 0 < d) (hr : below + 1 ≤ Binary64.infinityRank)
    (h : n * 10 ^ 1075 = m * 10 ^ power * d) : Binary64.nearestRank n d = below + 1 := by
  have hvalue : m * 10 ^ power * d = n * 2 ^ 1075 * unit := by
    rw [← h, ten_pow_eq, Nat.mul_assoc]
  have hbound : ∀ m, m * unit * d = m * d * unit := fun m => Nat.mul_right_comm m unit d
  -- the interval in units of `10 ^ (-1075)`, scaled to the units of the midpoints
  obtain ⟨hlow, hhigh⟩ := between_iff.mp (between_fewest hfound)
  rw [decide_eq_true_eq, ← Nat.mul_lt_mul_right hd, ← Nat.mul_left_inj hd.ne', hbound, hvalue,
    Nat.mul_lt_mul_right unit_pos, Nat.mul_left_inj unit_pos.ne'] at hlow hhigh
  exact Binary64.nearestRank_eq_of_between hd hr hlow hhigh

theorem shortest_succ {below m power : Nat} (hfound : fewest below = (m, power)) :
    shortest (below + 1) = ⟨m, (power : Int) - 1075⟩ := by
  rw [shortest, hfound]

/-- The shortest decimal of a magnitude has that magnitude as its nearest value. -/
theorem nearestRank_shortest {rank : Nat} (hr : rank ≤ Binary64.infinityRank) :
    Binary64.nearestRank ((shortest rank).digits * 10 ^ (shortest rank).exponent.toNat)
      (10 ^ (-(shortest rank).exponent).toNat) = rank := by
  cases rank with
  | zero =>
    apply Binary64.nearestRank_eq_of_exact (Nat.pow_pos (by norm_num)) hr
    simp [shortest]
  | succ below =>
    rcases hfound : fewest below with ⟨m, power⟩
    -- whichever sign the exponent has, one of the two powers of ten is one
    have hplaces : ((power : Int) - 1075).toNat + 1075
        = power + (-((power : Int) - 1075)).toNat := by omega
    rw [shortest_succ hfound]
    refine nearestRank_of_fewest hfound (Nat.pow_pos (by norm_num)) hr ?_
    rw [Nat.mul_assoc, Nat.mul_assoc, ← Nat.pow_add, ← Nat.pow_add, hplaces]

/-! ## Digits in their places -/

/-- The digits of a decimal in their places are a numeral that denotes the decimal. -/
theorem positional_eq_layout (d : Decimal) :
    ∃ whole fraction, d.positional = Numeral.layout whole fraction ∧ whole ≠ [] ∧
      Numeral.Digits whole ∧ Numeral.Digits fraction ∧ fraction.length = (-d.exponent).toNat ∧
      Numeral.ofDigits 10 (whole ++ fraction) = d.digits * 10 ^ d.exponent.toNat := by
  have hdigits : Numeral.Digits (digitsOf d.digits) := Numeral.digits_toDigits d.digits
  have hzeros : ∀ k, Numeral.Digits (List.replicate k '0') := by
    intro k c hc
    rw [(List.mem_replicate.mp hc).2]
    decide
  have hvalue : Numeral.ofDigits 10 (digitsOf d.digits) = d.digits :=
    Numeral.ofDigits_toDigits d.digits
  unfold positional
  dsimp only
  split_ifs with hexp
  · refine ⟨digitsOf d.digits ++ List.replicate d.exponent.toNat '0', [], rfl, ?_, ?_, ?_, ?_, ?_⟩
    · simp [digitsOf, Nat.toDigits_ne_nil]
    · exact Numeral.digits_append.mpr ⟨hdigits, hzeros _⟩
    · simp [Numeral.Digits]
    · rw [List.length_nil]
      omega
    · rw [List.append_nil, Numeral.ofDigits_append, hvalue, Numeral.ofDigits_replicate_zero,
        List.length_replicate, Nat.add_zero]
  · -- zeros are put in front until one digit is left for the whole part
    generalize hpadded :
      List.replicate ((-d.exponent).toNat + 1 - (digitsOf d.digits).length) '0' ++
        digitsOf d.digits = padded
    have hlength : (-d.exponent).toNat + 1 ≤ padded.length := by
      rw [← hpadded, List.length_append, List.length_replicate]
      omega
    have hpad : Numeral.Digits padded := hpadded ▸ Numeral.digits_append.mpr ⟨hzeros _, hdigits⟩
    have hsplit := List.take_append_drop (padded.length - (-d.exponent).toNat) padded
    have hdrop : (padded.drop (padded.length - (-d.exponent).toNat)).length
        = (-d.exponent).toNat := by
      rw [List.length_drop]
      omega
    refine ⟨padded.take (padded.length - (-d.exponent).toNat),
      padded.drop (padded.length - (-d.exponent).toNat), ?_, ?_, fun c hc => ?_, fun c hc => ?_,
      hdrop, ?_⟩
    · rw [Numeral.layout]
      intro hnil
      rw [hnil, List.length_nil] at hdrop
      omega
    · rw [← List.length_pos_iff, List.length_take]
      omega
    · exact hpad c (List.mem_of_mem_take hc)
    · exact hpad c (List.mem_of_mem_drop hc)
    · have hexp0 : d.exponent.toNat = 0 := by omega
      rw [hsplit, ← hpadded, Numeral.ofDigits_append, hvalue, Numeral.ofDigits_replicate_zero,
        hexp0]
      simp

end Decimal

/-! ## The text of a number -/

/-- The values that numerals denote: finite ones without sign, and whole numbers if there is no
point. -/
structure IsLiteral (v : Binary64) (isInteger : Bool) : Prop where
  unsigned : v.negative = false
  finite : v.rank < Binary64.infinityRank
  whole : isInteger = true → Binary64.IsWhole v.rank

namespace Numeral

/-- A ratio whose nearest rank is finite has the value of that rank. -/
theorem nearest?_eq_some {n d : Nat} {v : Binary64} (hv : v.negative = false)
    (hfinite : v.rank < Binary64.infinityRank) (h : Binary64.nearestRank n d = v.rank) :
    nearest? false (n, d) = some v := by
  have hvalue : Binary64.ofRatio false n d = v := by
    rw [Binary64.ofRatio, h, ← hv]
  rw [nearest?]
  simp only [hvalue, Binary64.isFinite, hfinite, decide_true, if_true]

/-- What is nearest to a ratio is a finite value without sign. -/
theorem of_nearest?_eq_some {n d : Nat} {v : Binary64} (h : nearest? false (n, d) = some v) :
    v.negative = false ∧ v.rank < Binary64.infinityRank ∧ v.rank = Binary64.nearestRank n d := by
  unfold nearest? at h
  dsimp only at h
  split_ifs at h with hfinite
  cases h
  exact ⟨rfl, of_decide_eq_true hfinite, rfl⟩

end Numeral

/-- A finite value is written by its sign and the digits of its magnitude. -/
theorem Binary64.textWith_of_finite {v : Binary64} (h : v.rank < infinityRank)
    (magnitude : Nat → List Char) :
    v.textWith magnitude
      = String.ofList ((if v.negative then ['-'] else []) ++ magnitude v.rank) := by
  have hnan : v.isNaN = false := decide_eq_false (Nat.not_lt.mpr h.le)
  have hfinite : v.isFinite = true := decide_eq_true h
  simp [textWith, hnan, hfinite]

namespace IsLiteral

variable {v : Binary64} {isInteger : Bool}

/-- A finite value without sign is written by the digits of its magnitude alone. -/
theorem textWith_eq (h : IsLiteral v isInteger) (magnitude : Nat → List Char) :
    v.textWith magnitude = String.ofList (magnitude v.rank) := by
  simp [Binary64.textWith_of_finite h.finite, h.unsigned]

/-- A whole number is written without rounding. -/
theorem roundQuotient_units (h : Binary64.IsWhole v.rank) :
    Binary64.roundQuotient (Binary64.units v.rank) (2 ^ 1074) * 2 ^ 1074
      = Binary64.units v.rank := by
  obtain ⟨n, hn⟩ := h
  have hpos : 0 < 2 ^ 1074 := Nat.two_pow_pos 1074
  rw [hn, Binary64.roundQuotient, Nat.mul_div_cancel_left n hpos, Nat.mul_mod_right,
    if_pos (by simp), Nat.mul_comm]

theorem wholeText_eq (h : IsLiteral v isInteger) :
    v.wholeText = String.ofList
      (Nat.toDigits 10 (Binary64.roundQuotient (Binary64.units v.rank) (2 ^ 1074))) :=
  h.textWith_eq _

theorem shortestText_eq (h : IsLiteral v isInteger) :
    v.shortestText = String.ofList (Decimal.shortest v.rank).positional :=
  h.textWith_eq _

/-- The text of an integer is a numeral without point that writes the integer. -/
theorem numberText_true (h : IsLiteral v true) :
    ∃ whole, Expr.numberText v true = String.ofList (Numeral.layout whole []) ∧
      whole ≠ [] ∧ Numeral.Digits whole ∧
      Numeral.ofDigits 10 whole * 2 ^ 1074 = Binary64.units v.rank := by
  refine ⟨Nat.toDigits 10 (Binary64.roundQuotient (Binary64.units v.rank) (2 ^ 1074)), ?_,
    Nat.toDigits_ne_nil, Numeral.digits_toDigits _, ?_⟩
  · rw [Expr.numberText, if_pos rfl, h.wholeText_eq, Numeral.layout]
  · rw [Numeral.ofDigits_toDigits, roundQuotient_units (h.whole rfl)]

/-- The text of a number that is no integer is a numeral with a point that writes the shortest decimal
of the number. -/
theorem numberText_false (h : IsLiteral v false) :
    ∃ whole fraction, Expr.numberText v false = String.ofList (Numeral.layout whole fraction) ∧
      whole ≠ [] ∧ Numeral.Digits whole ∧ Numeral.Digits fraction ∧ fraction ≠ [] ∧
      Numeral.ofDigits 10 (whole ++ fraction) * 10 ^ (-(Decimal.shortest v.rank).exponent).toNat
        = (Decimal.shortest v.rank).digits * 10 ^ (Decimal.shortest v.rank).exponent.toNat *
          10 ^ fraction.length := by
  obtain ⟨whole, fraction, htext, hne, hw, hf, hlength, hvalue⟩ :=
    (Decimal.shortest v.rank).positional_eq_layout
  have hpoint : (Numeral.layout whole fraction).contains '.' = true ↔ fraction ≠ [] := by
    rw [List.contains_iff_mem, Numeral.point_mem_layout_iff hw]
  have hcases : Expr.numberText v false
      = if (Numeral.layout whole fraction).contains '.' then
          String.ofList (Numeral.layout whole fraction)
        else String.ofList (Numeral.layout whole fraction) ++ ".0" := by
    simp only [Expr.numberText, Bool.false_eq_true, if_false, h.shortestText_eq, htext,
      String.toList_ofList]
  rw [hcases, ← hvalue, ← hlength]
  by_cases hnil : fraction = []
  -- a whole number that was written with a point gets the fraction `0`
  · subst hnil
    refine ⟨whole, ['0'], ?_, hne, hw, ?_, List.cons_ne_nil _ _, ?_⟩
    · rw [if_neg (fun hcontains => hpoint.mp hcontains rfl)]
      apply String.toList_injective
      simp [Numeral.layout]
    · simp [Numeral.Digits]
    · simp [Numeral.ofDigits]
  · exact ⟨whole, fraction, if_pos (hpoint.mpr hnil), hne, hw, hf, hnil, rfl⟩

/-- The text of a literal is a numeral that has a point exactly if the number is no integer, and the
nearest value to what it writes is the number. -/
theorem numberText_eq_layout (h : IsLiteral v isInteger) :
    ∃ whole fraction, Expr.numberText v isInteger = String.ofList (Numeral.layout whole fraction) ∧
      whole ≠ [] ∧ Numeral.Digits whole ∧ Numeral.Digits fraction ∧
      (fraction ≠ [] ↔ isInteger = false) ∧
      Binary64.nearestRank (Numeral.ofDigits 10 (whole ++ fraction)) (10 ^ fraction.length)
        = v.rank := by
  cases isInteger with
  | true =>
    obtain ⟨whole, htext, hne, hw, hvalue⟩ := h.numberText_true
    refine ⟨whole, [], htext, hne, hw, ?_, by simp, ?_⟩
    · simp [Numeral.Digits]
    · rw [List.append_nil, List.length_nil, Nat.pow_zero]
      exact Binary64.nearestRank_eq_of_exact Nat.one_pos h.finite.le (by rw [hvalue, Nat.mul_one])
  | false =>
    obtain ⟨whole, fraction, htext, hne, hw, hf, hnil, hvalue⟩ := h.numberText_false
    refine ⟨whole, fraction, htext, hne, hw, hf, by simp [hnil], ?_⟩
    rw [← Decimal.nearestRank_shortest h.finite.le]
    exact Binary64.nearestRank_congr (Nat.pow_pos (by norm_num)) (Nat.pow_pos (by norm_num)) hvalue

/-- A literal is written as a numeral. -/
theorem isNumeral_numberText (h : IsLiteral v isInteger) :
    Numeral.IsNumeral (Expr.numberText v isInteger).toList := by
  obtain ⟨whole, fraction, htext, hne, hw, hf, -⟩ := h.numberText_eq_layout
  rw [htext, String.toList_ofList]
  exact .layout hne hw hf

/-- A literal is written with a point if and only if it is no integer. -/
theorem point_mem_numberText_iff (h : IsLiteral v isInteger) :
    '.' ∈ (Expr.numberText v isInteger).toList ↔ isInteger = false := by
  obtain ⟨whole, fraction, htext, -, hw, -, hpoint, -⟩ := h.numberText_eq_layout
  rw [htext, String.toList_ofList, Numeral.point_mem_layout_iff hw, hpoint]

/-- A literal is read back from its text. -/
theorem value?_numberText (h : IsLiteral v isInteger) :
    Numeral.value? (Expr.numberText v isInteger) = some v := by
  obtain ⟨whole, fraction, htext, hne, hw, hf, -, hnearest⟩ := h.numberText_eq_layout
  rw [htext, Numeral.value?_layout hne hw hf]
  exact Numeral.nearest?_eq_some h.unsigned h.finite hnearest

end IsLiteral

/-- What a numeral denotes is a literal, an integer if there is no point in the numeral. -/
theorem isLiteral_of_value? {text : String} {v : Binary64}
    (htext : Numeral.IsNumeral text.toList) (h : Numeral.value? text = some v) :
    IsLiteral v (!text.toList.contains '.') := by
  obtain ⟨cs, rfl⟩ : ∃ cs, text = String.ofList cs := ⟨_, (String.ofList_toList (s := text)).symm⟩
  rw [String.toList_ofList] at htext ⊢
  cases htext with
  | @layout whole fraction hne hw hf =>
    rw [Numeral.value?_layout hne hw hf] at h
    obtain ⟨hneg, hfinite, hrank⟩ := Numeral.of_nearest?_eq_some h
    refine ⟨hneg, hfinite, fun hinteger => ?_⟩
    -- without a point there is no fraction, and the numeral writes a whole number
    have hnil : fraction = [] := by
      by_contra hfraction
      have hmem := (Numeral.point_mem_layout_iff hw).mpr hfraction
      simp [hmem] at hinteger
    rw [hrank, hnil]
    exact Binary64.isWhole_nearestRank _

end ScalarLang
