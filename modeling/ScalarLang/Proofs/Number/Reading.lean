import Mathlib.Data.List.TakeWhile
import ScalarLang.Number.Numeral
import ScalarLang.Proofs.Number.Nearest

/-!
# Reading numerals

A numeral without sign, exponent and separators is a digit string `w`, or two digit strings `w` and
`f` with a point between them. It denotes the ratio `N(w ++ f) / 10 ^ |f|`, where `N` reads digits
as a whole number, and its value is the one nearest to that ratio (`value?_layout`). The limit on
long whole parts does not show here: without an exponent such a numeral is out of range anyway.
-/

namespace ScalarLang.Numeral

/-! ## Digit strings -/

/-- All of `cs` are decimal digits. -/
def Digits (cs : List Char) : Prop := ∀ c ∈ cs, c.isDigit = true

/-- The text of a numeral: the whole part, and the fraction behind a point if there is one. -/
def layout (whole : List Char) : List Char → List Char
  | [] => whole
  | fraction => whole ++ '.' :: fraction

/-- The texts `[0-9]+ ('.' [0-9]+)?`. -/
inductive IsNumeral : List Char → Prop
  | layout {whole fraction : List Char} (hne : whole ≠ []) (hwhole : Digits whole)
      (hfraction : Digits fraction) : IsNumeral (layout whole fraction)

theorem digits_append {cs ds : List Char} : Digits (cs ++ ds) ↔ Digits cs ∧ Digits ds := by
  simp [Digits, or_imp, forall_and]

theorem digits_cons {c : Char} {cs : List Char} :
    Digits (c :: cs) ↔ c.isDigit = true ∧ Digits cs := by
  simp [Digits]

/-- A decimal digit is its own lower-case form. -/
theorem toLower_of_isDigit {c : Char} (h : c.isDigit = true) : c.toLower = c := by
  have hle : c.val ≤ '9'.val := by
    simp only [Char.isDigit, Bool.and_eq_true, decide_eq_true_eq] at h
    exact h.2
  refine dif_neg ?_
  rintro ⟨hlow, -⟩
  exact absurd (UInt32.le_trans hlow hle) (by decide)

/-- The characters of a numeral are digits and the point. -/
theorem mem_layout {whole fraction : List Char} (hw : Digits whole) (hf : Digits fraction)
    {c : Char} (hc : c ∈ layout whole fraction) : c.isDigit = true ∨ c = '.' := by
  unfold layout at hc
  split at hc
  · exact Or.inl (hw c hc)
  · simp only [List.mem_append, List.mem_cons] at hc
    rcases hc with hc | hc | hc
    · exact Or.inl (hw c hc)
    · exact Or.inr hc
    · exact Or.inl (hf c hc)

/-- A numeral contains a point if and only if it has a fraction. -/
theorem point_mem_layout_iff {whole fraction : List Char} (hw : Digits whole) :
    '.' ∈ layout whole fraction ↔ fraction ≠ [] := by
  unfold layout
  split
  · simpa using fun h => absurd (hw _ h) (by decide)
  · simp_all

/-! ## The number written by digits -/

/-- Reading a digit string continues from the number read so far. -/
theorem foldl_ofDigits (cs : List Char) (n : Nat) :
    cs.foldl (fun n c => n * 10 + digitValue c) n = n * 10 ^ cs.length + ofDigits 10 cs := by
  induction cs generalizing n with
  | nil => simp [ofDigits]
  | cons c cs ih =>
    simp only [ofDigits, List.foldl_cons, List.length_cons]
    rw [ih, ih (0 * 10 + digitValue c), Nat.pow_succ]
    ring

/-- A digit string read after another one. -/
theorem ofDigits_append (cs ds : List Char) :
    ofDigits 10 (cs ++ ds) = ofDigits 10 cs * 10 ^ ds.length + ofDigits 10 ds := by
  rw [ofDigits, List.foldl_append]
  exact foldl_ofDigits ds _

/-- The first digit of a digit string counts most. -/
theorem ofDigits_cons (c : Char) (cs : List Char) :
    ofDigits 10 (c :: cs) = digitValue c * 10 ^ cs.length + ofDigits 10 cs := by
  simpa [ofDigits] using ofDigits_append [c] cs

@[simp]
theorem digitValue_zero : digitValue '0' = 0 := rfl

/-- Zeros write nothing. -/
@[simp]
theorem ofDigits_replicate_zero (k : Nat) : ofDigits 10 (List.replicate k '0') = 0 := by
  induction k with
  | zero => rfl
  | succ k ih => rw [List.replicate_succ, ofDigits_cons, ih, digitValue_zero, Nat.zero_mul]

/-- Zeros in front do not count. -/
theorem ofDigits_dropWhile_zero (cs : List Char) :
    ofDigits 10 (cs.dropWhile (· = '0')) = ofDigits 10 cs := by
  induction cs with
  | nil => rfl
  | cons c cs ih =>
    rw [List.dropWhile_cons]
    split_ifs with hc
    · rw [ih, ofDigits_cons, of_decide_eq_true hc, digitValue_zero, Nat.zero_mul, Nat.zero_add]
    · rfl

/-- The decimal digits of a number write that number. -/
@[simp]
theorem ofDigits_toDigits (n : Nat) : ofDigits 10 (Nat.toDigits 10 n) = n := by
  induction n using Nat.strong_induction_on with
  | _ n ih =>
    rcases Nat.lt_or_ge n 10 with hn | hn
    · rw [Nat.toDigits_of_lt_base hn]
      interval_cases n <;> rfl
    · have hlast : ofDigits 10 [(n % 10).digitChar] = n % 10 := by
        have : n % 10 < 10 := Nat.mod_lt _ (by norm_num)
        interval_cases n % 10 <;> rfl
      rw [Nat.toDigits_of_base_le (by norm_num) hn, ofDigits_append, ih (n / 10) (by omega), hlast,
        List.length_singleton, Nat.pow_one]
      omega

/-- The decimal digits of a number are digits. -/
theorem digits_toDigits (n : Nat) : Digits (Nat.toDigits 10 n) := fun _ hc =>
  Nat.isDigit_of_mem_toDigits (by norm_num) le_rfl hc

/-- A digit other than zero has a positive value. -/
theorem digitValue_pos {c : Char} (h : c.isDigit = true) (hne : c ≠ '0') : 0 < digitValue c := by
  rw [digitValue, if_pos h]
  simp only [Char.isDigit, Bool.and_eq_true, decide_eq_true_eq] at h
  have hlow : '0'.toNat ≤ c.toNat := h.1
  have hdiff : c.toNat ≠ '0'.toNat := fun heq => hne (Char.toNat_inj.mp heq)
  omega

/-- A digit string without leading zeros writes at least the power of ten of its first place. -/
theorem pow_le_ofDigits {cs : List Char} (h : Digits cs) (hne : cs ≠ [])
    (hhead : cs.head? ≠ some '0') : 10 ^ (cs.length - 1) ≤ ofDigits 10 cs := by
  obtain ⟨c, cs, rfl⟩ := List.exists_cons_of_ne_nil hne
  have hc : 0 < digitValue c := digitValue_pos (h c (by simp)) (by simpa using hhead)
  rw [ofDigits_cons, List.length_cons, Nat.add_sub_cancel]
  calc
    10 ^ cs.length ≤ digitValue c * 10 ^ cs.length := Nat.le_mul_of_pos_left _ hc
    _ ≤ _ := Nat.le_add_right _ _

/-! ## The ratio of a numeral -/

/-- A ratio from `2 ^ 1024` on has no nearest value. -/
theorem nearest?_eq_none {negative : Bool} {n d : Nat} (hd : 0 < d) (h : 2 ^ 1024 * d ≤ n) :
    nearest? negative (n, d) = none := by
  simp [nearest?, Binary64.ofRatio, Binary64.isFinite,
    Binary64.nearestRank_eq_infinityRank_of_le hd h]

/-- A digit string with the point `k` places from its right end is the ratio `N / 10 ^ k`. -/
theorem pointed_eq (digits : List Char) (k : Nat) :
    pointed digits ((digits.length : Int) - k) = (ofDigits 10 digits, 10 ^ k) := by
  have hexp : (digits.length : Int) - k - digits.length = -k := by ring
  rw [pointed, hexp, scale, Nat.pow_eq, Nat.pow_eq]
  split_ifs with hk
  · have : k = 0 := by omega
    simp [this]
  · simp

/-- A number of more than eight hundred digits before the point is out of range. -/
theorem two_pow_mul_le_ofDigits {digits : List Char} (h : Digits digits)
    (hhead : digits.head? ≠ some '0') {k : Nat} (hk : k + 800 ≤ digits.length) :
    2 ^ 1024 * 10 ^ k ≤ ofDigits 10 digits := by
  have hpow : (2 : Nat) ^ 1024 ≤ 10 ^ 799 := by
    calc
      (2 : Nat) ^ 1024 = (2 ^ 2) ^ 512 := Nat.pow_mul 2 2 512
      _ ≤ 10 ^ 512 := Nat.pow_le_pow_left (by norm_num) 512
      _ ≤ 10 ^ 799 := Nat.pow_le_pow_right (by norm_num) (by norm_num)
  have hne : digits ≠ [] := by
    rintro rfl
    simp at hk
  calc
    2 ^ 1024 * 10 ^ k ≤ 10 ^ 799 * 10 ^ k := Nat.mul_le_mul_right _ hpow
    _ = 10 ^ (799 + k) := (Nat.pow_add 10 799 k).symm
    _ ≤ 10 ^ (digits.length - 1) := Nat.pow_le_pow_right (by norm_num) (by omega)
    _ ≤ ofDigits 10 digits := pow_le_ofDigits h hne hhead

/-- The ratio of a digit string with a point in it has the nearest value of `N / 10 ^ k`, whether
the limit on long whole parts applies or not: where it applies, both are out of range. -/
theorem nearest?_decimalRatio {digits : List Char} (h : Digits digits)
    (hhead : digits.head? ≠ some '0') (negative : Bool) (k : Nat) :
    nearest? negative (decimalRatio digits ((digits.length : Int) - k) 0)
      = nearest? negative (ofDigits 10 digits, 10 ^ k) := by
  have hpos : ∀ k, 0 < 10 ^ k := fun k => Nat.pow_pos (by norm_num)
  rw [decimalRatio, Int.add_zero, Int.add_zero]
  split_ifs with hlimit
  · rw [pointed_eq]
  -- the limit moves the point, and the number stays out of range
  · have hlong : k + 800 < digits.length := by
      rw [Bool.or_eq_true, decide_eq_true_eq, not_or] at hlimit
      have hpoint := hlimit.1
      unfold wholeDigits at hpoint
      omega
    have hplace : ((wholeDigits : Nat) : Int)
        = (digits.length : Int) - ((digits.length - 800 : Nat) : Int) := by
      simp only [wholeDigits]
      omega
    rw [hplace, pointed_eq,
      nearest?_eq_none (hpos _) (two_pow_mul_le_ofDigits h hhead (by omega)),
      nearest?_eq_none (hpos _) (two_pow_mul_le_ofDigits h hhead hlong.le)]

/-! ## The value of a numeral -/

/-- Without underscores nothing is separated wrongly. -/
theorem separates_of_notMem {isDigit : Char → Bool} {afterDigit : Bool} {cs : List Char}
    (h : '_' ∉ cs) : Text.separates isDigit afterDigit cs = true := by
  fun_induction Text.separates isDigit afterDigit cs with
  | case1 => rfl
  | case2 => simp at h
  | case3 => simp at h
  | case4 afterDigit c cs _ _ ih => exact ih fun hmem => h (List.mem_cons_of_mem _ hmem)

/-- The digits of a numeral are taken apart at its point. -/
theorem splitDigits_layout {whole fraction : List Char} (hw : Digits whole) (hf : Digits fraction) :
    splitDigits Char.isDigit (layout whole fraction) = (whole, fraction, []) := by
  have htake : ∀ {ds}, Digits ds → ds.takeWhile Char.isDigit = ds := List.takeWhile_eq_self_iff.mpr
  have hdrop : ∀ {ds}, Digits ds → ds.dropWhile Char.isDigit = [] := List.dropWhile_eq_nil_iff.mpr
  have hpoint : Char.isDigit '.' = false := by decide
  cases fraction with
  | nil => simp only [layout, splitDigits, htake hw, hdrop hw]
  | cons f fs =>
    have hwhole : (whole ++ '.' :: f :: fs).takeWhile Char.isDigit = whole := by
      rw [List.takeWhile_append_of_pos hw, List.takeWhile_cons_of_neg (by simp [hpoint]),
        List.append_nil]
    have hrest : (whole ++ '.' :: f :: fs).dropWhile Char.isDigit = '.' :: f :: fs := by
      rw [List.dropWhile_append_of_pos hw, List.dropWhile_cons_of_neg (by simp [hpoint])]
    rw [layout, splitDigits, hwhole, hrest]
    · simp only [htake hf, hdrop hf]
    · exact List.cons_ne_nil f fs

/-- All of `cs` are decimal digits or points. -/
def Plain (cs : List Char) : Prop := ∀ c ∈ cs, c.isDigit = true ∨ c = '.'

theorem plain_layout {whole fraction : List Char} (hw : Digits whole) (hf : Digits fraction) :
    Plain (layout whole fraction) := fun _ hc => mem_layout hw hf hc

theorem IsNumeral.plain {cs : List Char} (h : IsNumeral cs) : Plain cs := by
  obtain ⟨-, hw, hf⟩ := h
  exact plain_layout hw hf

/-- A character that is neither a digit nor the point does not stand in a plain text. -/
theorem Plain.notMem {cs : List Char} (h : Plain cs) {x : Char} (hx : x.isDigit = false)
    (hpoint : x ≠ '.') : x ∉ cs := by
  intro hmem
  rcases h x hmem with hdigit | heq
  · rw [hx] at hdigit; cases hdigit
  · exact hpoint heq

/-- Case does not matter in a plain text. -/
theorem Plain.toLower {cs : List Char} (h : Plain cs) {c : Char} (hc : c ∈ cs) : c.toLower = c := by
  rcases h c hc with hdigit | rfl
  · exact toLower_of_isDigit hdigit
  · decide

theorem Plain.map_toLower {cs : List Char} (h : Plain cs) : cs.map Char.toLower = cs := by
  rw [List.map_congr_left fun c hc => h.toLower hc, List.map_id']

/-- A plain text is read as a decimal numeral: it has neither the marker of another base nor
separators. -/
theorem ratio?_of_plain {cs : List Char} (h : Plain cs) : ratio? cs = decimal? cs := by
  have hunderscore : '_' ∉ cs := h.notMem (by decide) (by decide)
  -- a letter behind a leading zero would mark the base
  have hmarker : ∀ x : Char, x.isDigit = false → x ≠ '.' → ∀ marker ∈ cs, marker.toLower ≠ x := by
    intro x hx hpoint marker hmem heq
    rw [h.toLower hmem] at heq
    exact h.notMem hx hpoint (heq ▸ hmem)
  have hseparated : Text.wellSeparated cs = true := by
    unfold Text.wellSeparated
    split
    · rename_i marker rest
      have hmem : marker ∈ '0' :: marker :: rest := by simp
      rw [if_neg (hmarker 'x' (by decide) (by decide) marker hmem), if_neg]
      · exact separates_of_notMem hunderscore
      · simp [hmarker 'b' (by decide) (by decide) marker hmem,
          hmarker 'o' (by decide) (by decide) marker hmem]
    · exact separates_of_notMem hunderscore
  have hwithout : Text.withoutSeparators cs = cs := by
    rw [Text.withoutSeparators, List.filter_eq_self]
    intro c hc
    have hne : c ≠ '_' := fun heq => hunderscore (heq ▸ hc)
    simpa using hne
  rw [ratio?, hseparated, hwithout]
  simp only [Bool.not_true, Bool.false_eq_true, if_false]
  split
  · rename_i marker rest
    rw [if_neg (hmarker 'x' (by decide) (by decide) marker (by simp))]
  · rfl

/-- The ratio of a numeral without sign, exponent and separators: leading zeros are dropped. -/
theorem ratio?_layout {whole fraction : List Char} (hne : whole ≠ []) (hw : Digits whole)
    (hf : Digits fraction) :
    ratio? (layout whole fraction)
      = some (decimalRatio ((whole ++ fraction).dropWhile (· = '0'))
          ((((whole ++ fraction).dropWhile (· = '0')).length : Int) - fraction.length) 0) := by
  rw [ratio?_of_plain (plain_layout hw hf), decimal?, splitDigits_layout hw hf]
  simp only [List.isEmpty_eq_false_iff.mpr hne, Bool.false_and, Bool.false_eq_true, if_false,
    Option.bind_eq_bind, Option.bind_some]

/-- The ratio of a numeral without sign, exponent and separators has the nearest value of the number
written by its digits over the power of ten of its fraction. -/
theorem bind_ratio?_layout {whole fraction : List Char} (hne : whole ≠ []) (hw : Digits whole)
    (hf : Digits fraction) (negative : Bool) :
    (ratio? (layout whole fraction)).bind (nearest? negative)
      = nearest? negative (ofDigits 10 (whole ++ fraction), 10 ^ fraction.length) := by
  have hdigits : Digits ((whole ++ fraction).dropWhile (· = '0')) := fun c hc =>
    digits_append.mpr ⟨hw, hf⟩ c ((List.dropWhile_suffix _).subset hc)
  have hhead : ((whole ++ fraction).dropWhile (· = '0')).head? ≠ some '0' := by
    intro heq
    have := List.head?_dropWhile_not (· = '0') (whole ++ fraction)
    simp [heq] at this
  rw [ratio?_layout hne hw hf, Option.bind_some, nearest?_decimalRatio hdigits hhead,
    ofDigits_dropWhile_zero]

/-- A text that starts with a digit has no sign. -/
theorem sign_of_isDigit {c : Char} {cs : List Char} (h : c.isDigit = true) :
    sign (c :: cs) = (false, c :: cs) := by
  unfold sign
  split
  · rename_i heq
    cases heq
    exact absurd h (by decide)
  · rename_i heq
    cases heq
    exact absurd h (by decide)
  · rfl

/-- The text of a numeral has no sign. -/
theorem sign_layout {whole fraction : List Char} (hne : whole ≠ []) (hw : Digits whole) :
    sign (layout whole fraction) = (false, layout whole fraction) := by
  obtain ⟨c, cs, rfl⟩ := List.exists_cons_of_ne_nil hne
  have hc : c.isDigit = true := hw c (by simp)
  cases fraction with
  | nil => exact sign_of_isDigit hc
  | cons f fs => exact sign_of_isDigit hc

/-- The value of a numeral without sign, exponent and separators is the one nearest to the number
written by its digits over the power of ten of its fraction. -/
theorem value?_layout {whole fraction : List Char} (hne : whole ≠ []) (hw : Digits whole)
    (hf : Digits fraction) :
    value? (String.ofList (layout whole fraction))
      = nearest? false (ofDigits 10 (whole ++ fraction), 10 ^ fraction.length) := by
  have hplain := plain_layout hw hf
  -- the words for values that are not numbers all have an `n`
  have hword : ∀ word : List Char, 'n' ∈ word → layout whole fraction ≠ word := by
    rintro _ hmem rfl
    exact hplain.notMem (by decide) (by decide) hmem
  rw [value?, String.toList_ofList, sign_layout hne hw]
  dsimp only
  rw [hplain.map_toLower, if_neg, if_neg (hword "nan".toList (by decide)),
    bind_ratio?_layout hne hw hf]
  simp only [Bool.or_eq_true, decide_eq_true_eq, not_or]
  exact ⟨hword "inf".toList (by decide), hword "infinity".toList (by decide)⟩

end ScalarLang.Numeral
