import ScalarLang.Analysis.Expression
import ScalarLang.Analysis.Operand
import ScalarLang.Proofs.Number.Writing

/-!
# Numbers with a sign

What is known of a number is kept as a text. The text of a literal has no sign; a minus puts one in
front of it or takes it away, and a point and a zero are put behind an integer that becomes a
fraction. `Writes text v isInteger` is what all of this keeps: the text is the sign of `v` and a
numeral to which the magnitude of `v` is the nearest one, with a point unless `v` is an integer.

* `writes_numberText`, `Writes.negate`, `Writes.append_zero`: the texts that arise.
* `Writes.value?`: such a text is read back.
-/

namespace ScalarLang

/-- The text is the sign of the value and a numeral for its finite magnitude, which has a point
exactly if the value is no integer. -/
inductive Writes : String → Binary64 → Bool → Prop
  | mk {negative isInteger : Bool} {rank : Nat} {whole fraction : List Char} (hne : whole ≠ [])
      (hw : Numeral.Digits whole) (hf : Numeral.Digits fraction)
      (hpoint : fraction ≠ [] ↔ isInteger = false) (hfinite : rank < Binary64.infinityRank)
      (hrank : Binary64.nearestRank (Numeral.ofDigits 10 (whole ++ fraction)) (10 ^ fraction.length)
        = rank) :
      Writes (String.ofList ((if negative then ['-'] else []) ++ Numeral.layout whole fraction))
        ⟨negative, rank⟩ isInteger

/-- The text of a literal writes it. -/
theorem writes_numberText {v : Binary64} {isInteger : Bool} (h : IsLiteral v isInteger) :
    Writes (Expr.numberText v isInteger) v isInteger := by
  obtain ⟨whole, fraction, htext, hne, hw, hf, hpoint, hrank⟩ := h.numberText_eq_layout
  rcases v with ⟨negative, rank⟩
  obtain rfl : negative = false := h.unsigned
  rw [htext]
  exact @Writes.mk false isInteger rank whole fraction hne hw hf hpoint h.finite hrank

/-- Digits write the value that they are read as. -/
theorem writes_of_digits {digits : List Char} {v : Binary64} (hne : digits ≠ [])
    (hdigits : Numeral.Digits digits) (h : Numeral.value? (String.ofList digits) = some v) :
    Writes (String.ofList digits) v true := by
  have hnone : Numeral.Digits [] := by simp [Numeral.Digits]
  have hlayout := Numeral.value?_layout hne hdigits hnone
  obtain ⟨hunsigned, hfinite, hrank⟩ := Numeral.of_nearest?_eq_some (hlayout.symm.trans h)
  rcases v with ⟨negative, rank⟩
  obtain rfl : negative = false := hunsigned
  exact @Writes.mk false true rank digits [] hne hdigits hnone (by simp) hfinite hrank.symm

/-- The value of a numeral behind a minus is the one nearest to the number written by its digits
over the power of ten of its fraction, with the sign. -/
theorem Numeral.value?_minus_layout {whole fraction : List Char} (hne : whole ≠ [])
    (hw : Digits whole) (hf : Digits fraction) :
    value? (String.ofList ('-' :: layout whole fraction))
      = nearest? true (ofDigits 10 (whole ++ fraction), 10 ^ fraction.length) := by
  have hplain := plain_layout hw hf
  have hword (word : List Char) (hmem : 'n' ∈ word) : layout whole fraction ≠ word := by
    rintro rfl
    exact hplain.notMem (by decide) (by decide) hmem
  have hminus : Char.toLower '-' = '-' := by decide
  rw [value?, String.toList_ofList, sign]
  dsimp only
  rw [List.map_cons, hplain.map_toLower, hminus, if_neg, if_neg, bind_ratio?_layout hne hw hf]
  · simp
  · simp only [Bool.or_eq_true, decide_eq_true_eq, not_or]
    exact ⟨hword "inf".toList (by decide), hword "infinity".toList (by decide)⟩

/-- A minus is put in front of a text without one, or taken away again. -/
theorem Analysis.negate_sign {cs : List Char} (h : '-' ∉ cs) (negative : Bool) :
    negate (String.ofList ((if negative then ['-'] else []) ++ cs))
      = String.ofList ((if !negative then ['-'] else []) ++ cs) := by
  rw [negate, String.toList_ofList]
  cases negative with
  | true => rfl
  | false =>
    simp only [Bool.false_eq_true, if_false, List.nil_append, Bool.not_false, if_true]
    split
    next => exact absurd List.mem_cons_self h
    next => rfl

namespace Writes

variable {text : String} {v : Binary64} {isInteger : Bool}

/-- The text with the other sign writes the value with the other sign. -/
theorem negate (h : Writes text v isInteger) : Writes (Analysis.negate text) v.neg isInteger := by
  cases h with
  | @mk negative isInteger rank whole fraction hne hw hf hpoint hfinite hrank =>
    have hminus : '-' ∉ Numeral.layout whole fraction :=
      (Numeral.plain_layout hw hf).notMem (by decide) (by decide)
    rw [Analysis.negate_sign hminus]
    exact .mk hne hw hf hpoint hfinite hrank

/-- An integer with a point and a zero behind it writes the same value, which is then no integer. -/
theorem append_zero (h : Writes text v true) : Writes (text ++ ".0") v false := by
  cases h with
  | @mk negative isInteger rank whole fraction hne hw hf hpoint hfinite hrank =>
    obtain rfl : fraction = [] := by simpa using hpoint
    have hzero : Numeral.Digits ['0'] := by simp [Numeral.Digits]
    have htext : String.ofList ((if negative then ['-'] else []) ++ Numeral.layout whole []) ++ ".0"
        = String.ofList ((if negative then ['-'] else []) ++ Numeral.layout whole ['0']) := by
      apply String.toList_injective
      simp [Numeral.layout]
    rw [htext]
    refine .mk hne hw hzero (by simp) hfinite ?_
    rw [← hrank, List.append_nil, Numeral.ofDigits_append]
    apply Binary64.nearestRank_congr
    · norm_num
    · norm_num
    · simp [Numeral.ofDigits]

/-- There is a point in the text exactly if the value is no integer. -/
theorem point_mem_iff (h : Writes text v isInteger) : '.' ∈ text.toList ↔ isInteger = false := by
  cases h with
  | @mk negative _ _ whole fraction hne hw hf hpoint hfinite hrank =>
    rw [String.toList_ofList, List.mem_append, Numeral.point_mem_layout_iff hw, hpoint]
    cases negative <;> simp

/-- The value is read back from the text. -/
theorem value? (h : Writes text v isInteger) : Numeral.value? text = some v := by
  cases h with
  | @mk negative _ rank whole fraction hne hw hf hpoint hfinite hrank =>
    have hnearest : Numeral.nearest? negative
        (Numeral.ofDigits 10 (whole ++ fraction), 10 ^ fraction.length)
          = some ⟨negative, rank⟩ := by
      simp [Numeral.nearest?, Binary64.ofRatio, Binary64.isFinite, hrank, hfinite]
    cases negative with
    | false => exact (Numeral.value?_layout hne hw hf).trans hnearest
    | true => exact (Numeral.value?_minus_layout hne hw hf).trans hnearest

/-- The literal is read back from the text. -/
theorem numberLiteral? (h : Writes text v isInteger) :
    Analysis.numberLiteral? text = some (.number v isInteger) := by
  have hpoint : text.toList.contains '.' = !isInteger := by
    rw [Bool.eq_iff_iff, List.contains_iff_mem, h.point_mem_iff]
    simp
  rw [Analysis.numberLiteral?, h.value?, hpoint, Bool.not_not]
  rfl

end Writes

end ScalarLang
