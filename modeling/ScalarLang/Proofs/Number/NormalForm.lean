import ScalarLang.Proofs.Number.Distance
import ScalarLang.Proofs.Number.Signed

/-!
# The normal form of a number literal

A number keeps its value but not the text it was read from: leading zeros, digits beyond the
precision of the format and zeros at the end of a fraction are gone once it is written back. The
module introduces:

* `Numeral.written cs`: the number that the digits of a numeral write, before it is rounded;
* `Numeral.Represents cs rank isInteger`: the numeral is a fit text for the number at a rank: exact
  for an integer, and with as few digits as possible otherwise;
* `Analysis.ReadsAs text e`: a number node with this text is analysed to `e`.

A literal is read as the number nearest to what it writes. The text of that number represents it,
is read as the same number, and so is written back unchanged (`literals_normalised`). The sign is in
front of the text and nowhere else, so a minus before the text is the text of the other sign
(`negate_numberText`).
-/

namespace ScalarLang

/-! ## What a numeral writes -/

namespace Numeral

/-- The number that the digits of a numeral write: its whole part, and its fraction divided by the
power of ten of its length. -/
def written (cs : List Char) : ℚ :=
  let (whole, fraction, _) := splitDigits Char.isDigit cs
  ofDigits 10 whole + ofDigits 10 fraction / 10 ^ fraction.length

theorem written_layout {whole fraction : List Char} (hw : Digits whole) (hf : Digits fraction) :
    written (layout whole fraction)
      = (ofDigits 10 (whole ++ fraction) : ℚ) / (10 ^ fraction.length : Nat) := by
  have hpow : (10 : ℚ) ^ fraction.length ≠ 0 := by positivity
  -- the fraction pushes the whole part to the left by its length
  rw [written, splitDigits_layout hw hf, ofDigits_append]
  push_cast
  rw [add_div, mul_div_cancel_right₀ _ hpow]

/-- A numeral in range is read as the value nearest to what it writes. -/
theorem nearestTo_written {text : String} {v : Binary64} (htext : IsNumeral text.toList)
    (h : value? text = some v) : Binary64.NearestTo (written text.toList) v.rank := by
  obtain ⟨cs, rfl⟩ : ∃ cs, text = String.ofList cs := ⟨_, String.ofList_toList.symm⟩
  rw [String.toList_ofList] at htext ⊢
  cases htext with
  | @layout whole fraction hne hw hf =>
    rw [value?_layout hne hw hf] at h
    obtain ⟨-, hfinite, hrank⟩ := of_nearest?_eq_some h
    rw [written_layout hw hf, hrank]
    exact Binary64.nearestTo_nearestRank (Nat.pow_pos (by norm_num)) (hrank ▸ hfinite)

/-- The numeral is a text for the number at a rank: that number is the nearest one to what the
numeral writes. An integer is written exactly. For any other number the numeral writes a decimal
with as few digits as any that has the number as its nearest one. -/
structure Represents (cs : List Char) (rank : Nat) (isInteger : Bool) : Prop where
  nearest : Binary64.NearestTo (written cs) rank
  exactly : isInteger = true → written cs = Binary64.magnitude rank
  fewest : isInteger = false → ∃ d : Decimal, d.toRat = written cs ∧
    ∀ other : Decimal, Binary64.NearestTo other.toRat rank →
      (Decimal.digitsOf d.digits).length ≤ (Decimal.digitsOf other.digits).length

end Numeral

namespace IsLiteral

variable {v : Binary64} {isInteger : Bool}

/-- An integer is written exactly. -/
theorem written_numberText_true (h : IsLiteral v true) :
    Numeral.written (Expr.numberText v true).toList = Binary64.magnitude v.rank := by
  obtain ⟨whole, htext, -, hw, hvalue⟩ := h.numberText_true
  have hpow : (2 : ℚ) ^ 1074 ≠ 0 := by positivity
  -- the digits were found by division with a remainder, and for an integer there is none
  have hmagnitude : Binary64.magnitude v.rank = Numeral.ofDigits 10 whole := by
    rw [Binary64.magnitude, ← hvalue, Nat.cast_mul, Nat.cast_pow, Nat.cast_ofNat,
      mul_div_cancel_right₀ _ hpow]
  rw [htext, String.toList_ofList, Numeral.written_layout hw (by simp [Numeral.Digits]), hmagnitude]
  simp

/-- A number that is no integer is written by its shortest decimal. -/
theorem written_numberText_false (h : IsLiteral v false) :
    Numeral.written (Expr.numberText v false).toList = (Decimal.shortest v.rank).toRat := by
  obtain ⟨whole, fraction, htext, -, hw, hf, -, hvalue⟩ := h.numberText_false
  have hpos (k : Nat) : ((10 ^ k : Nat) : ℚ) ≠ 0 := by positivity
  rw [htext, String.toList_ofList, Numeral.written_layout hw hf, Decimal.toRat_eq_div,
    div_eq_div_iff (hpos _) (hpos _)]
  exact_mod_cast hvalue

/-- The text of a number represents it. -/
theorem represents_numberText (h : IsLiteral v isInteger) :
    Numeral.Represents (Expr.numberText v isInteger).toList v.rank isInteger := by
  constructor
  -- the text is read back, and what is read is nearest
  case nearest => exact Numeral.nearestTo_written h.isNumeral_numberText h.value?_numberText
  case exactly =>
    rintro rfl
    exact h.written_numberText_true
  case fewest =>
    rintro rfl
    exact ⟨Decimal.shortest v.rank, h.written_numberText_false.symm, fun other hother =>
      Decimal.length_digits_shortest_le h.finite hother⟩

end IsLiteral

/-! ## The sign of a text -/

/-- The text of a finite value is its sign and the text of its magnitude. -/
theorem numberText_eq_sign {v : Binary64} (h : v.rank < Binary64.infinityRank) (isInteger : Bool) :
    Expr.numberText v isInteger
      = String.ofList ((if v.negative then ['-'] else []) ++
          (Expr.numberText ⟨false, v.rank⟩ isInteger).toList) := by
  rcases v with ⟨negative, rank⟩
  have hmagnitude : (⟨false, rank⟩ : Binary64).rank < Binary64.infinityRank := h
  cases isInteger with
  | true =>
    simp only [Expr.numberText, if_true, Binary64.wholeText, Binary64.textWith_of_finite h,
      Binary64.textWith_of_finite hmagnitude, String.toList_ofList, Bool.false_eq_true, if_false,
      List.nil_append]
  | false =>
    -- the sign brings no point, so the same of the two forms is chosen
    have hpoint (cs : List Char) :
        ((if negative then ['-'] else []) ++ cs).contains '.' = cs.contains '.' := by
      cases negative <;> simp
    simp only [Expr.numberText, Binary64.shortestText, Binary64.textWith_of_finite h,
      Binary64.textWith_of_finite hmagnitude, String.toList_ofList, Bool.false_eq_true, if_false,
      List.nil_append, hpoint]
    by_cases hform : (Decimal.shortest rank).positional.contains '.' = true
    · rw [if_pos hform, if_pos hform, String.toList_ofList]
    · rw [if_neg hform, if_neg hform]
      apply String.toList_injective
      simp

/-- There is no sign in the text of a finite magnitude. -/
theorem minus_notMem_numberText {rank : Nat} (h : rank < Binary64.infinityRank) (isInteger : Bool) :
    '-' ∉ (Expr.numberText ⟨false, rank⟩ isInteger).toList := by
  have hliteral : IsLiteral ⟨false, rank⟩ false := ⟨rfl, h, by simp⟩
  cases isInteger with
  | false => exact hliteral.isNumeral_numberText.plain.notMem (by decide) (by decide)
  -- an integer may have been rounded here, but what is written are digits
  | true =>
    rw [Expr.numberText, if_pos rfl, hliteral.wholeText_eq, String.toList_ofList]
    intro hmem
    exact absurd (Numeral.digits_toDigits _ '-' hmem) (by decide)

namespace Analysis

/-- Changing the sign in the text of a finite value gives the text of the value with the other sign,
zero included. -/
theorem negate_numberText {v : Binary64} (h : v.rank < Binary64.infinityRank) (isInteger : Bool) :
    negate (Expr.numberText v isInteger) = Expr.numberText v.neg isInteger := by
  have hneg : v.neg.rank < Binary64.infinityRank := h
  rw [numberText_eq_sign h, numberText_eq_sign hneg,
    negate_sign (minus_notMem_numberText h isInteger)]
  rfl

/-! ## Literals -/

/-- A number node with this text is analysed to `e` wherever it stands, and nothing is reported. -/
def ReadsAs (text : String) (e : Expr) : Prop :=
  ∀ symbols position children,
    expression symbols (.node .number text position children) = .ok (e, [])

theorem readsAs_of_numberLiteral? {text : String} {e : Expr} (h : numberLiteral? text = some e) :
    ReadsAs text e := by
  intro symbols position children
  rw [expression, h]

/-- The text of a literal is read as that literal. -/
theorem readsAs_numberText {v : Binary64} {isInteger : Bool} (h : IsLiteral v isInteger) :
    ReadsAs (Expr.numberText v isInteger) (.number v isInteger) :=
  readsAs_of_numberLiteral? (writes_numberText h).numberLiteral?

/-- Number literals are brought into a normal form once. A numeral in range is read as the finite
number nearest to what it writes. The text of that number is a numeral again, which represents the
number and has a point exactly if the literal has one, and it is read as the same number: written
back once more, it stays as it is. The text of any finite number, integer or not, becomes the text
of the number with the other sign by a minus in front of it that is put there or taken away. -/
theorem literals_normalised :
    (∀ text : String, Numeral.IsNumeral text.toList → Numeral.value? text ≠ none →
      ∃ v isInteger, v.negative = false ∧ v.isFinite = true ∧
        let e := Expr.number v isInteger
        ReadsAs text e ∧ Binary64.NearestTo (Numeral.written text.toList) v.rank ∧
          Numeral.IsNumeral e.text.toList ∧ ('.' ∈ e.text.toList ↔ '.' ∈ text.toList) ∧
            Numeral.Represents e.text.toList v.rank isInteger ∧ ReadsAs e.text e) ∧
      ∀ (v : Binary64) (isInteger : Bool), v.isFinite = true →
        negate (Expr.number v isInteger).text = (Expr.number v.neg isInteger).text := by
  refine ⟨fun text htext haccepted => ?_, fun v isInteger hfinite => ?_⟩
  · obtain ⟨v, hvalue⟩ := Option.ne_none_iff_exists'.1 haccepted
    -- from here on only the value and its flag count, not the text that they came from
    have hliteral := isLiteral_of_value? htext hvalue
    have hread : numberLiteral? text = some (.number v (!text.toList.contains '.')) := by
      rw [numberLiteral?, hvalue, Option.map_some]
    have hpoint : '.' ∈ (Expr.numberText v (!text.toList.contains '.')).toList ↔
        '.' ∈ text.toList := by
      rw [hliteral.point_mem_numberText_iff, Bool.not_eq_false', List.contains_iff_mem]
    exact ⟨v, !text.toList.contains '.', hliteral.unsigned, decide_eq_true hliteral.finite,
      readsAs_of_numberLiteral? hread, Numeral.nearestTo_written htext hvalue,
      hliteral.isNumeral_numberText, hpoint, hliteral.represents_numberText,
      readsAs_numberText hliteral⟩
  · exact negate_numberText (of_decide_eq_true hfinite) isInteger

/-- The literal `9007199254740993.000` lies midway between two numbers of the format and is read as
the lesser one, `2 ^ 53`, whose rank is even. Negative zero keeps its sign. -/
theorem literals_normalised_sample :
    let v : Binary64 := ⟨false, 0x4340000000000000⟩
    let zero : Binary64 := ⟨true, 0⟩
    (Numeral.IsNumeral "9007199254740993.000".toList ∧
      Numeral.value? "9007199254740993.000" ≠ none ∧
        ReadsAs "9007199254740993.000" (.number v false) ∧
          (Expr.number v false).text = "9007199254740992.0" ∧
            Numeral.Represents "9007199254740992.0".toList v.rank false ∧
              ReadsAs "9007199254740992.0" (.number v false)) ∧
      zero.isFinite = true ∧ (Expr.number zero false).text = "-0.0" ∧
        negate "-0.0" = (Expr.number zero.neg false).text := by
  intro v zero
  have hnumeral : Numeral.IsNumeral "9007199254740993.000".toList :=
    @Numeral.IsNumeral.layout "9007199254740993".toList "000".toList (by decide)
      (List.all_eq_true.1 (by decide)) (List.all_eq_true.1 (by decide))
  have haccepted : Numeral.value? "9007199254740993.000" ≠ none := by decide +kernel
  have htext : (Expr.number v false).text = "9007199254740992.0" := by decide +kernel
  have hzero : (Expr.number zero false).text = "-0.0" := by decide +kernel
  obtain ⟨w, isInteger, -, -, hread, -, -, -, hrepresents, hback⟩ :=
    literals_normalised.1 _ hnumeral haccepted
  -- there is only one way to read the literal
  have hsame : Expr.number w isInteger = .number v false := by
    have hv : expression .empty (.node .number "9007199254740993.000" none [])
        = .ok (.number v false, []) := by decide +kernel
    rw [hread .empty none []] at hv
    exact (Prod.mk.inj (Except.ok.inj hv)).1
  cases hsame
  rw [htext] at hrepresents hback
  refine ⟨⟨hnumeral, haccepted, hread, htext, hrepresents, hback⟩, by decide, hzero, ?_⟩
  rw [← hzero]
  exact literals_normalised.2 zero false (by decide)

end Analysis

end ScalarLang
