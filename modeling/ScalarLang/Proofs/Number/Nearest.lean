import Mathlib.Order.Monotone.Basic
import Mathlib.Tactic
import ScalarLang.Number.Binary64

/-!
# The nearest value of a ratio

Let `u(r) := units r` be the magnitude of rank `r` and `m(r) := midpoint r = u(r) + u(r + 1)`.
Both grow strictly with the rank, so the ranks that a ratio reaches are an initial segment of all
ranks, and the search of `nearestRank` finds its end. We prove:

* `nearestRank_eq`: a rank that is reached, while the next one is not, is the nearest rank;
* `nearestRank_eq_of_exact`: a magnitude of the format is its own nearest value;
* `nearestRank_mul`: the nearest rank depends on the ratio alone;
* `nearestRank_eq_infinityRank_iff`: it is that of infinity from the last midpoint on;
* `isWhole_nearestRank`: the value nearest to a whole number is a whole number.
-/

namespace ScalarLang.Binary64

/-! ## Magnitudes grow with the rank -/

/-- The magnitude of a rank given by its exponent and its fraction. -/
theorem units_of_parts (exponent fraction : Nat) (h : fraction < 2 ^ 52) :
    units (exponent * 2 ^ 52 + fraction)
      = if exponent = 0 then fraction else (2 ^ 52 + fraction) * 2 ^ (exponent - 1) := by
  have hdiv : (exponent * 2 ^ 52 + fraction) / 2 ^ 52 = exponent := by omega
  have hmod : (exponent * 2 ^ 52 + fraction) % 2 ^ 52 = fraction := by omega
  simp only [units, Nat.pow_eq, hdiv, hmod]

/-- `u(r) < u(r + 1)`: within one exponent the fraction grows, and the last fraction of an exponent
is followed by the first of the next. -/
theorem units_lt_units_succ (rank : Nat) : units rank < units (rank + 1) := by
  obtain ⟨e, f, hf, rfl⟩ : ∃ e f, f < 2 ^ 52 ∧ rank = e * 2 ^ 52 + f :=
    ⟨rank / 2 ^ 52, rank % 2 ^ 52, Nat.mod_lt _ (by norm_num), (Nat.div_add_mod' rank _).symm⟩
  rw [units_of_parts e f hf]
  rcases Nat.lt_or_ge (f + 1) (2 ^ 52) with hnext | hlast
  · rw [Nat.add_assoc, units_of_parts e (f + 1) hnext]
    split_ifs
    · omega
    · exact Nat.mul_lt_mul_of_pos_right (by omega) (Nat.two_pow_pos _)
  · have hcarry : e * 2 ^ 52 + f + 1 = (e + 1) * 2 ^ 52 + 0 := by omega
    rw [hcarry, units_of_parts (e + 1) 0 (by norm_num), if_neg (Nat.succ_ne_zero e),
      Nat.add_zero, Nat.add_sub_cancel]
    split_ifs with he
    · subst he
      simpa using hf
    · have hpow : 2 ^ e = 2 * 2 ^ (e - 1) := by
        rw [← Nat.pow_succ', Nat.succ_eq_add_one, Nat.sub_add_cancel (Nat.pos_of_ne_zero he)]
      rw [hpow, ← Nat.mul_assoc]
      exact Nat.mul_lt_mul_of_pos_right (by omega) (Nat.two_pow_pos _)

/-- Magnitudes grow strictly with the rank. -/
theorem units_strictMono : StrictMono units :=
  strictMono_nat_of_lt_succ units_lt_units_succ

/-- The rank zero is the number zero. -/
@[simp]
theorem units_zero : units 0 = 0 := by
  simp [units]

/-- Midpoints grow strictly with the rank. -/
theorem midpoint_strictMono : StrictMono midpoint := by
  intro a b hab
  exact Nat.add_lt_add (units_strictMono hab) (units_strictMono (Nat.succ_lt_succ hab))

/-- A magnitude lies below the midpoint that follows it. -/
theorem two_mul_units_lt_midpoint (rank : Nat) : 2 * units rank < midpoint rank := by
  have := units_lt_units_succ rank
  unfold midpoint
  omega

/-- A magnitude lies above the midpoint that precedes it. -/
theorem midpoint_lt_two_mul_units (rank : Nat) : midpoint rank < 2 * units (rank + 1) := by
  have := units_lt_units_succ rank
  unfold midpoint
  omega

/-! ## Which ranks a ratio reaches -/

/-- Every ratio reaches the rank zero. -/
@[simp]
theorem reaches_zero (n d : Nat) : reaches n d 0 = true := rfl

/-- A ratio reaches `r + 1` if it lies above `m(r)`, or on it while `r + 1` is even. -/
theorem reaches_succ_iff {n d r : Nat} :
    reaches n d (r + 1) = true ↔
      midpoint r * d < n * 2 ^ 1075 ∨ (midpoint r * d = n * 2 ^ 1075 ∧ (r + 1) % 2 = 0) := by
  simp only [reaches, Nat.pow_eq, Bool.or_eq_true, Bool.and_eq_true, decide_eq_true_eq]

/-- A ratio that reaches the next rank reaches this one. -/
theorem reaches_of_reaches_succ {n d r : Nat} (hd : 0 < d) (h : reaches n d (r + 1) = true) :
    reaches n d r = true := by
  cases r with
  | zero => rfl
  | succ r =>
    rw [reaches_succ_iff] at h ⊢
    have hle : midpoint (r + 1) * d ≤ n * 2 ^ 1075 := h.elim le_of_lt fun h => h.1.le
    have hlt : midpoint r * d < midpoint (r + 1) * d :=
      Nat.mul_lt_mul_of_pos_right (midpoint_strictMono (Nat.lt_succ_self r)) hd
    exact Or.inl (hlt.trans_le hle)

/-- The ranks that a ratio reaches are an initial segment of all ranks. -/
theorem reaches_of_le {n d r s : Nat} (hd : 0 < d) (hrs : r ≤ s) (h : reaches n d s = true) :
    reaches n d r = true := by
  induction s, hrs using Nat.le_induction with
  | base => exact h
  | succ s _ ih => exact ih (reaches_of_reaches_succ hd h)

/-- A greater ratio reaches at least the same ranks. -/
theorem reaches_mono {n n' d r : Nat} (hn : n ≤ n') (h : reaches n d r = true) :
    reaches n' d r = true := by
  cases r with
  | zero => rfl
  | succ r =>
    rw [reaches_succ_iff] at h ⊢
    have hle : n * 2 ^ 1075 ≤ n' * 2 ^ 1075 := Nat.mul_le_mul_right _ hn
    rcases h with h | ⟨h, heven⟩
    · exact Or.inl (h.trans_le hle)
    -- on the midpoint the parity decides, and a greater ratio is past it
    · rcases hle.lt_or_eq with hlt | heq
      · exact Or.inl (h.trans_lt hlt)
      · exact Or.inr ⟨h.trans heq, heven⟩

/-- Which ranks are reached depends on the ratio alone. -/
theorem reaches_mul {n d k : Nat} (hk : 0 < k) (r : Nat) :
    reaches (n * k) (d * k) r = reaches n d r := by
  cases r with
  | zero => rfl
  | succ r =>
    have hvalue : n * k * 2 ^ 1075 = n * 2 ^ 1075 * k := Nat.mul_right_comm n k _
    have hbound : midpoint r * (d * k) = midpoint r * d * k := (Nat.mul_assoc _ _ _).symm
    rw [Bool.eq_iff_iff, reaches_succ_iff, reaches_succ_iff, hvalue, hbound,
      Nat.mul_lt_mul_right hk, Nat.mul_left_inj hk.ne']

/-! ## The search for the nearest rank -/

/-- The search stays at a number that satisfies `p`, and goes up by less than `2 ^ bits`. -/
theorem searchUp_mem {p : Nat → Bool} (bits : Nat) {base : Nat} (h : p base = true) :
    p (searchUp p bits base) = true ∧ base ≤ searchUp p bits base ∧
      searchUp p bits base < base + 2 ^ bits := by
  induction bits generalizing base with
  | zero => simpa [searchUp] using h
  | succ bits ih =>
    have hpow : 2 ^ (bits + 1) = 2 ^ bits + 2 ^ bits := by rw [Nat.pow_succ, Nat.mul_two]
    rw [searchUp, Nat.pow_eq]
    split_ifs with hstep
    · obtain ⟨hp, hlow, hhigh⟩ := ih hstep
      exact ⟨hp, by omega, by omega⟩
    · obtain ⟨hp, hlow, hhigh⟩ := ih h
      exact ⟨hp, hlow, by omega⟩

/-- If `p` holds of an initial segment of the numbers, the search passes every number in its range
that satisfies `p`. -/
theorem le_searchUp {p : Nat → Bool} (hp : ∀ a b, a ≤ b → p b = true → p a = true) (bits : Nat)
    {base x : Nat} (hx : p x = true) (hlt : x < base + 2 ^ bits) : x ≤ searchUp p bits base := by
  induction bits generalizing base with
  | zero =>
    rw [searchUp]
    omega
  | succ bits ih =>
    have hpow : 2 ^ (bits + 1) = 2 ^ bits + 2 ^ bits := by rw [Nat.pow_succ, Nat.mul_two]
    rw [searchUp, Nat.pow_eq]
    split_ifs with hstep
    · exact ih (by omega)
    -- `p` fails half-way, so it fails from there on, and `x` lies in the lower half
    · refine ih ?_
      by_contra hge
      exact hstep (hp _ _ (not_lt.mp hge) hx)

/-- The nearest rank is reached. -/
theorem reaches_nearestRank {n d : Nat} (hd : 0 < d) : reaches n d (nearestRank n d) = true :=
  reaches_of_le hd (Nat.min_le_left _ _) (searchUp_mem 63 (reaches_zero n d)).1

/-- No rank that is reached lies above the nearest one, up to infinity. -/
theorem le_nearestRank {n d r : Nat} (hd : 0 < d) (h : reaches n d r = true)
    (hr : r ≤ infinityRank) : r ≤ nearestRank n d := by
  have hrange : r < 0 + 2 ^ 63 := by
    have : infinityRank < 2 ^ 63 := by decide
    omega
  exact Nat.le_min.mpr ⟨le_searchUp (fun _ _ => reaches_of_le hd) 63 h hrange, hr⟩

/-- No rank lies above that of infinity. -/
theorem nearestRank_le_infinityRank (n d : Nat) : nearestRank n d ≤ infinityRank :=
  Nat.min_le_right _ _

/-- A rank that is reached, while the next one is not, is the nearest rank. -/
theorem nearestRank_eq {n d r : Nat} (hd : 0 < d) (h : reaches n d r = true)
    (hnext : reaches n d (r + 1) = false) (hr : r ≤ infinityRank) : nearestRank n d = r := by
  refine Nat.le_antisymm ?_ (le_nearestRank hd h hr)
  by_contra hlt
  have := reaches_of_le hd (not_le.mp hlt) (reaches_nearestRank (n := n) hd)
  rw [Nat.succ_eq_add_one, hnext] at this
  cases this

/-- The nearest rank is that of infinity if and only if infinity is reached. -/
theorem nearestRank_eq_infinityRank_iff {n d : Nat} (hd : 0 < d) :
    nearestRank n d = infinityRank ↔ reaches n d infinityRank = true := by
  constructor
  · intro h
    rw [← h]
    exact reaches_nearestRank hd
  · intro h
    exact Nat.le_antisymm (nearestRank_le_infinityRank n d) (le_nearestRank hd h le_rfl)

/-- A ratio from `2 ^ 1024` on is nearest to infinity. -/
theorem nearestRank_eq_infinityRank_of_le {n d : Nat} (hd : 0 < d) (h : 2 ^ 1024 * d ≤ n) :
    nearestRank n d = infinityRank := by
  have hunits : units (infinityRank - 1 + 1) = 2 ^ 52 * 2 ^ 2046 := by
    rw [show infinityRank - 1 + 1 = 2047 * 2 ^ 52 + 0 by decide,
      units_of_parts 2047 0 (by norm_num), if_neg (by norm_num), Nat.add_zero]
  have hpow : 2 * (2 ^ 52 * 2 ^ 2046) = 2 ^ 1024 * 2 ^ 1075 := by
    rw [← Nat.pow_add, ← Nat.pow_succ', ← Nat.pow_add]
  rw [nearestRank_eq_infinityRank_iff hd, show infinityRank = infinityRank - 1 + 1 by decide,
    reaches_succ_iff]
  -- such a ratio lies above the last midpoint, since that lies below the magnitude of infinity
  left
  calc
    midpoint (infinityRank - 1) * d
      < 2 * units (infinityRank - 1 + 1) * d :=
        Nat.mul_lt_mul_of_pos_right (midpoint_lt_two_mul_units _) hd
    _ = 2 ^ 1024 * d * 2 ^ 1075 := by
        rw [hunits, hpow, Nat.mul_right_comm]
    _ ≤ n * 2 ^ 1075 := Nat.mul_le_mul_right _ h

/-- The nearest rank depends on the ratio alone. -/
theorem nearestRank_mul {n d k : Nat} (hk : 0 < k) :
    nearestRank (n * k) (d * k) = nearestRank n d := by
  have : reaches (n * k) (d * k) = reaches n d := funext (reaches_mul hk)
  rw [nearestRank, nearestRank, this]

/-- Equal ratios have the same nearest rank. -/
theorem nearestRank_congr {n d n' d' : Nat} (hd : 0 < d) (hd' : 0 < d') (h : n * d' = n' * d) :
    nearestRank n d = nearestRank n' d' := by
  rw [← nearestRank_mul hd', h, Nat.mul_comm d d', nearestRank_mul hd]

/-- A greater ratio has at least the same nearest rank. -/
theorem nearestRank_mono {n n' d : Nat} (hd : 0 < d) (hn : n ≤ n') :
    nearestRank n d ≤ nearestRank n' d :=
  le_nearestRank hd (reaches_mono hn (reaches_nearestRank hd)) (nearestRank_le_infinityRank n d)

/-- A ratio between the midpoints on both sides of a magnitude has that magnitude as its nearest
value. The midpoints themselves count if the rank is even. -/
theorem nearestRank_eq_of_between {n d below : Nat} (hd : 0 < d) (hr : below + 1 ≤ infinityRank)
    (hlow : midpoint below * d < n * 2 ^ 1075 ∨
      (midpoint below * d = n * 2 ^ 1075 ∧ (below + 1) % 2 = 0))
    (hhigh : n * 2 ^ 1075 < midpoint (below + 1) * d ∨
      (n * 2 ^ 1075 = midpoint (below + 1) * d ∧ (below + 1) % 2 = 0)) :
    nearestRank n d = below + 1 := by
  refine nearestRank_eq hd (reaches_succ_iff.mpr hlow) ?_ hr
  rw [Bool.eq_false_iff, Ne, reaches_succ_iff]
  rintro (h | ⟨h, heven⟩)
  · rcases hhigh with hh | ⟨hh, -⟩ <;> omega
  -- the rank and the next one are not both even
  · rcases hhigh with hh | ⟨-, hodd⟩ <;> omega

/-- A magnitude of the format is its own nearest value. -/
theorem nearestRank_eq_of_exact {n d rank : Nat} (hd : 0 < d) (hr : rank ≤ infinityRank)
    (h : n * 2 ^ 1074 = units rank * d) : nearestRank n d = rank := by
  have hvalue : n * 2 ^ 1075 = 2 * units rank * d := by
    rw [Nat.pow_succ, ← Nat.mul_assoc, h]
    ring
  have hhigh : n * 2 ^ 1075 < midpoint rank * d := by
    rw [hvalue]
    exact Nat.mul_lt_mul_of_pos_right (two_mul_units_lt_midpoint rank) hd
  cases rank with
  -- there is no midpoint below zero
  | zero =>
    refine nearestRank_eq hd rfl ?_ hr
    rw [Bool.eq_false_iff, Ne, reaches_succ_iff]
    omega
  | succ below =>
    refine nearestRank_eq_of_between hd hr (Or.inl ?_) (Or.inl hhigh)
    rw [hvalue]
    exact Nat.mul_lt_mul_of_pos_right (midpoint_lt_two_mul_units below) hd

/-! ## Whole numbers

Whole numbers below `2 ^ 53` are magnitudes of the format, and all magnitudes from there on are
whole numbers. -/

/-- The magnitude of a rank is a whole number. -/
def IsWhole (rank : Nat) : Prop := 2 ^ 1074 ∣ units rank

/-- From the exponent of `2 ^ 52` on, all magnitudes are whole numbers. -/
theorem isWhole_of_le {rank : Nat} (h : 1075 * 2 ^ 52 ≤ rank) : IsWhole rank := by
  have hparts : units rank = (2 ^ 52 + rank % 2 ^ 52) * 2 ^ (rank / 2 ^ 52 - 1) := by
    simp only [units, Nat.pow_eq]
    rw [if_neg (by omega)]
  have hexp : 1074 ≤ rank / 2 ^ 52 - 1 := by omega
  rw [IsWhole, hparts]
  exact Dvd.dvd.mul_left (Nat.pow_dvd_pow 2 hexp) _

/-- A positive number `c * 2 ^ k` with `2 ^ 52 ≤ c < 2 ^ 53` is the magnitude of a rank. -/
theorem units_normal {c k : Nat} (hlow : 2 ^ 52 ≤ c) (hhigh : c < 2 ^ 53) :
    units ((k + 1) * 2 ^ 52 + (c - 2 ^ 52)) = c * 2 ^ k := by
  rw [units_of_parts (k + 1) (c - 2 ^ 52) (by omega), if_neg (Nat.succ_ne_zero k),
    Nat.add_sub_cancel, Nat.add_sub_cancel' hlow]

/-- A whole number below `2 ^ 53` is the magnitude of a rank. -/
theorem exists_units_eq {n : Nat} (h : n < 2 ^ 53) :
    ∃ rank ≤ infinityRank, units rank = n * 2 ^ 1074 := by
  rcases Nat.eq_zero_or_pos n with rfl | hn
  · exact ⟨0, Nat.zero_le _, by simp⟩
  · have hlog : n.log2 ≤ 52 := by
      have := (Nat.log2_lt hn.ne').mpr h
      omega
    have hpow : ∀ k, 2 ^ k * 2 ^ (52 - n.log2) = 2 ^ (k + (52 - n.log2)) := fun k =>
      (Nat.pow_add 2 k _).symm
    -- shift `n` up to a significand of 53 bits
    have hlow : 2 ^ 52 ≤ n * 2 ^ (52 - n.log2) := by
      have := Nat.mul_le_mul_right (2 ^ (52 - n.log2)) (Nat.log2_self_le hn.ne')
      rwa [hpow, Nat.add_sub_cancel' hlog] at this
    have hhigh : n * 2 ^ (52 - n.log2) < 2 ^ 53 := by
      have := Nat.mul_lt_mul_of_pos_right (Nat.lt_log2_self (n := n))
        (Nat.two_pow_pos (52 - n.log2))
      rwa [hpow, show n.log2 + 1 + (52 - n.log2) = 53 by omega] at this
    refine ⟨_, ?_, (units_normal (k := n.log2 + 1022) hlow hhigh).trans ?_⟩
    · unfold infinityRank
      omega
    · rw [Nat.mul_assoc, ← Nat.pow_add, show 52 - n.log2 + (n.log2 + 1022) = 1074 by omega]

/-- The value nearest to a whole number is a whole number. -/
theorem isWhole_nearestRank (n : Nat) : IsWhole (nearestRank n 1) := by
  rcases Nat.lt_or_ge n (2 ^ 53) with hsmall | hlarge
  · obtain ⟨rank, hrank, hunits⟩ := exists_units_eq hsmall
    rw [nearestRank_eq_of_exact Nat.one_pos hrank (by rw [hunits, Nat.mul_one])]
    exact ⟨n, by rw [hunits, Nat.mul_comm]⟩
  -- nearest values keep the order, so this one is not below the rank of `2 ^ 53`
  · have hfirst : nearestRank (2 ^ 53) 1 = 1076 * 2 ^ 52 + (2 ^ 52 - 2 ^ 52) := by
      refine nearestRank_eq_of_exact Nat.one_pos (by decide) ?_
      rw [units_normal (k := 1075) le_rfl (by norm_num), Nat.mul_one, ← Nat.pow_add, ← Nat.pow_add]
    have := nearestRank_mono Nat.one_pos hlarge
    exact isWhole_of_le (by omega)

end ScalarLang.Binary64
