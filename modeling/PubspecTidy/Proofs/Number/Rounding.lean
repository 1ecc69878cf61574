import PubspecTidy.Number.Double
import Mathlib.Algebra.Order.Field.Power
import Mathlib.Data.Rat.Cast.Order
import Mathlib.Tactic.FieldSimp
import Mathlib.Tactic.Linarith
import Mathlib.Tactic.NormNum
import Mathlib.Tactic.Positivity
import Mathlib.Tactic.Ring

/-!
# Which fractions round to a number

Every number of double precision is the nearest one to the reals of an interval around it. Main
statement: a fraction in the interval of a number is rounded to that number.
-/
namespace PubspecTidy.Number

variable {num den k m : Nat} {e : Int} {x : ℚ}

/-! ## Rounding to an integer -/

/-- A fraction within a half of an integer is rounded to it, from the very middle if it is even. -/
theorem roundDiv_eq (hden : 0 < den) (hlow : (k : ℚ) - 1 / 2 ≤ num / den)
    (hhigh : (num : ℚ) / den ≤ k + 1 / 2)
    (hodd : k % 2 = 1 → (k : ℚ) - 1 / 2 < num / den ∧ (num : ℚ) / den < k + 1 / 2) :
    roundDiv num den = k := by
  have hpos : (0 : ℚ) < den := by exact_mod_cast hden
  have hlow' : 2 * (k * den) ≤ 2 * num + den := by
    rw [le_div_iff₀ hpos] at hlow
    have : (2 * (k * den) : ℚ) ≤ 2 * num + den := by linarith
    exact_mod_cast this
  have hhigh' : 2 * num ≤ 2 * (k * den) + den := by
    rw [div_le_iff₀ hpos] at hhigh
    have : (2 * num : ℚ) ≤ 2 * (k * den) + den := by linarith
    exact_mod_cast this
  have hodd' : k % 2 = 1 → 2 * (k * den) < 2 * num + den ∧ 2 * num < 2 * (k * den) + den := by
    intro hk
    obtain ⟨hlow, hhigh⟩ := hodd hk
    rw [lt_div_iff₀ hpos] at hlow
    rw [div_lt_iff₀ hpos] at hhigh
    have hleft : (2 * (k * den) : ℚ) < 2 * num + den := by linarith
    have hright : (2 * num : ℚ) < 2 * (k * den) + den := by linarith
    exact ⟨by exact_mod_cast hleft, by exact_mod_cast hright⟩
  have hsplit : num / den * den + num % den = num := Nat.div_add_mod' num den
  have hrest := Nat.mod_lt num hden
  have hle : num / den ≤ k := by
    by_contra hgt
    have hmul := Nat.mul_le_mul_right den (Nat.succ_le_of_lt (Nat.not_le.mp hgt))
    rw [Nat.succ_mul] at hmul
    omega
  have hge : k ≤ num / den + 1 := by
    by_contra hgt
    have hmul := Nat.mul_le_mul_right den (Nat.succ_le_of_lt (Nat.not_le.mp hgt))
    rw [Nat.succ_mul, Nat.add_mul] at hmul
    omega
  unfold roundDiv
  dsimp only
  rcases Nat.lt_or_eq_of_le hle with hlt | heq
  · obtain rfl : k = num / den + 1 := by omega
    rw [Nat.add_mul, Nat.one_mul] at hlow' hhigh' hodd'
    split
    · omega
    · split <;> omega
  · rw [← heq] at hlow' hhigh' hodd' ⊢
    split
    · rfl
    · split <;> omega

theorem roundDiv_eq_or (num den : Nat) :
    roundDiv num den = num / den ∨ roundDiv num den = num / den + 1 := by
  unfold roundDiv
  dsimp only
  split
  · exact .inl rfl
  · split
    · exact .inr rfl
    · omega

/-! ## Scales -/

theorem twoPow_eq (n : Nat) : twoPow n = 2 ^ n := rfl

theorem tenPow_eq (n : Nat) : tenPow n = 10 ^ n := rfl

theorem scaleDown_eq (num den : Nat) (e : Int) :
    Double.scaleDown num den e = (num * 2 ^ (-e).toNat, den * 2 ^ e.toNat) := by
  unfold Double.scaleDown
  rw [twoPow_eq, twoPow_eq]
  split
  · have hzero : (-e).toNat = 0 := by omega
    rw [hzero, pow_zero, Nat.mul_one]
  · have hzero : e.toNat = 0 := by omega
    rw [hzero, pow_zero, Nat.mul_one]

/-- A power with an integral exponent as a fraction of natural powers. -/
theorem zpow_eq_div (b : Nat) (e : Int) :
    (b : ℚ) ^ e = (b ^ e.toNat : Nat) / (b ^ (-e).toNat : Nat) := by
  rcases Int.le_total 0 e with he | he
  · obtain ⟨n, rfl⟩ := Int.eq_ofNat_of_zero_le he
    simp
  · obtain ⟨n, hn⟩ := Int.eq_ofNat_of_zero_le (Int.neg_nonneg.mpr he)
    obtain rfl : e = -(n : Int) := by omega
    simp

theorem scaleDown_pos (hden : 0 < den) (num : Nat) (e : Int) :
    0 < (Double.scaleDown num den e).2 := by
  rw [scaleDown_eq]
  positivity

theorem scaleDown_ratio (hden : 0 < den) (num : Nat) (e : Int) :
    ((Double.scaleDown num den e).1 : ℚ) / (Double.scaleDown num den e).2 =
      num / den / 2 ^ e := by
  have hpow := zpow_eq_div 2 e
  have hpos : (0 : ℚ) < den := by exact_mod_cast hden
  rw [Nat.cast_ofNat] at hpow
  rw [scaleDown_eq, hpow]
  push_cast
  field_simp

/-- Whether the mantissa on a scale has at least 53 bits. -/
theorem scaleDown_lt_iff (hden : 0 < den) (num : Nat) (e : Int) :
    (Double.scaleDown num den e).1 < (Double.scaleDown num den e).2 * twoPow 52 ↔
      (num : ℚ) / den / 2 ^ e < 2 ^ 52 := by
  have hpos : (0 : ℚ) < (Double.scaleDown num den e).2 := by
    exact_mod_cast scaleDown_pos hden num e
  rw [← scaleDown_ratio hden, div_lt_iff₀ hpos, twoPow_eq]
  norm_cast
  rw [Nat.mul_comm]

/-! ## The exponent of a fraction -/

/-- A scale on which a fraction has a mantissa of just 53 bits. -/
def FitsAt (x : ℚ) (e : Int) : Prop := 2 ^ 52 ≤ x / 2 ^ e ∧ x / 2 ^ e < 2 ^ 53

theorem fitsAt_unique {e' : Int} (h : FitsAt x e) (h' : FitsAt x e') : e = e' := by
  have hstep {e e' : Int} (h : FitsAt x e) (h' : FitsAt x e') : e ≤ e' := by
    by_contra hlt
    obtain ⟨d, rfl⟩ : ∃ d : Nat, e = e' + 1 + d := ⟨(e - e' - 1).toNat, by omega⟩
    have hpos : (0 : ℚ) < 2 ^ e' := by positivity
    have hsplit : (2 : ℚ) ^ (e' + 1 + (d : Int)) = 2 ^ e' * (2 * 2 ^ d) := by
      rw [zpow_add₀ (by norm_num), zpow_add₀ (by norm_num), zpow_one, zpow_natCast]
      ring
    obtain ⟨hlow, -⟩ := h
    obtain ⟨-, hhigh⟩ := h'
    rw [hsplit, le_div_iff₀ (by positivity)] at hlow
    rw [div_lt_iff₀ hpos] at hhigh
    have hone : (1 : ℚ) ≤ 2 ^ d := one_le_pow₀ (by norm_num)
    nlinarith
  exact Int.le_antisymm (hstep h h') (hstep h' h)

theorem log2_bounds {n : Nat} (h : 0 < n) :
    (2 : ℚ) ^ (n.log2 : Int) ≤ n ∧ (n : ℚ) < 2 ^ ((n.log2 : Int) + 1) := by
  constructor
  · rw [zpow_natCast]
    exact_mod_cast Nat.log2_self_le (Nat.pos_iff_ne_zero.mp h)
  · have hlt := Nat.lt_log2_self (n := n)
    have hcast : (2 : ℚ) ^ ((n.log2 : Int) + 1) = ((2 ^ (n.log2 + 1) : Nat) : ℚ) := by
      push_cast
      rw [← zpow_natCast]
      push_cast
      rfl
    rw [hcast]
    exact_mod_cast hlt

/-- The lengths of two numbers tell their quotient up to a factor of two on either side. -/
theorem scaled_bounds (hnum : 0 < num) (hden : 0 < den) {e₀ : Int}
    (he : (num.log2 : Int) - (den.log2 : Int) - 52 = e₀) :
    (2 : ℚ) ^ 51 < (num : ℚ) / den / 2 ^ e₀ ∧ (num : ℚ) / den / 2 ^ e₀ < 2 ^ 53 := by
  obtain ⟨hnumLow, hnumHigh⟩ := log2_bounds hnum
  obtain ⟨hdenLow, hdenHigh⟩ := log2_bounds hden
  have hpos : (0 : ℚ) < den := by exact_mod_cast hden
  have hxpos : (0 : ℚ) < num / den := by
    have : (0 : ℚ) < num := by exact_mod_cast hnum
    positivity
  have hmul : (num : ℚ) / den * den = num := by field_simp
  generalize (num : ℚ) / den = x at *
  have hpow : (0 : ℚ) < 2 ^ e₀ := by positivity
  have hdenPow : (0 : ℚ) < 2 ^ (den.log2 : Int) := by positivity
  have hnumPow : (2 : ℚ) ^ (num.log2 : Int) = 2 ^ e₀ * 2 ^ (den.log2 : Int) * 2 ^ 52 := by
    have hsum : (num.log2 : Int) = e₀ + den.log2 + 52 := by omega
    rw [hsum, zpow_add₀ (by norm_num), zpow_add₀ (by norm_num)]
    rfl
  rw [zpow_add₀ (by norm_num), zpow_one] at hnumHigh hdenHigh
  rw [hnumPow] at hnumLow hnumHigh
  rw [lt_div_iff₀ hpow, div_lt_iff₀ hpow]
  generalize (2 : ℚ) ^ e₀ = s at *
  generalize (2 : ℚ) ^ (den.log2 : Int) = t at *
  constructor
  · by_contra hle
    have hupper : x * den < 2 ^ 51 * s * (t * 2) :=
      calc x * den ≤ 2 ^ 51 * s * den := mul_le_mul_of_nonneg_right (not_lt.mp hle) hpos.le
        _ < 2 ^ 51 * s * (t * 2) := mul_lt_mul_of_pos_left hdenHigh (by positivity)
    linarith
  · by_contra hle
    have hlower : 2 ^ 53 * s * t ≤ x * den :=
      mul_le_mul (not_lt.mp hle) hdenLow hdenPow.le hxpos.le
    linarith

/-- The exponent for 53 bits, before it is held against the least one. -/
theorem exists_fitsAt (hnum : 0 < num) (hden : 0 < den) :
    ∃ e, FitsAt ((num : ℚ) / den) e ∧
      Double.exponentOf num den = max Double.leastExponent e := by
  unfold Double.exponentOf
  dsimp only
  generalize he : (num.log2 : Int) - (den.log2 : Int) - 52 = e₀
  obtain ⟨hlow, hhigh⟩ := scaled_bounds hnum hden he
  have hpow : (0 : ℚ) < 2 ^ e₀ := by positivity
  generalize hx : (num : ℚ) / den = x at *
  by_cases hsmall : x / 2 ^ e₀ < 2 ^ 52
  · have hhalf : x / 2 ^ (e₀ - 1) = 2 * (x / 2 ^ e₀) := by
      rw [zpow_sub₀ (by norm_num), zpow_one]
      field_simp
    refine ⟨e₀ - 1, ⟨?_, ?_⟩, ?_⟩
    · rw [hhalf]
      linarith
    · rw [hhalf]
      linarith
    · rw [if_pos]
      exact (scaleDown_lt_iff hden num e₀).mpr (by rwa [hx])
  · refine ⟨e₀, ⟨not_lt.mp hsmall, hhigh⟩, ?_⟩
    rw [if_neg]
    exact fun hlt => hsmall (by simpa [hx] using (scaleDown_lt_iff hden num e₀).mp hlt)

theorem exponentOf_eq (hnum : 0 < num) (hden : 0 < den) (he : Double.leastExponent ≤ e)
    (h : FitsAt ((num : ℚ) / den) e) : Double.exponentOf num den = e := by
  obtain ⟨e', hfits, hexponent⟩ := exists_fitsAt hnum hden
  rw [hexponent, fitsAt_unique hfits h, max_eq_right he]

/-- A fraction with fewer bits on the least scale takes that scale. -/
theorem exponentOf_eq_least (hnum : 0 < num) (hden : 0 < den)
    (h : (num : ℚ) / den / 2 ^ Double.leastExponent < 2 ^ 53) :
    Double.exponentOf num den = Double.leastExponent := by
  obtain ⟨e, hfits, hexponent⟩ := exists_fitsAt hnum hden
  rw [hexponent, max_eq_left]
  by_contra hlt
  obtain ⟨d, rfl⟩ : ∃ d : Nat, e = Double.leastExponent + 1 + d :=
    ⟨(e - Double.leastExponent - 1).toNat, by omega⟩
  obtain ⟨hlow, -⟩ := hfits
  have hsplit : (2 : ℚ) ^ (Double.leastExponent + 1 + (d : Int)) =
      2 ^ Double.leastExponent * (2 * 2 ^ d) := by
    rw [zpow_add₀ (by norm_num), zpow_add₀ (by norm_num), zpow_one, zpow_natCast]
    ring
  have hpos : (0 : ℚ) < 2 ^ Double.leastExponent := by positivity
  have hone : (1 : ℚ) ≤ 2 ^ d := one_le_pow₀ (by norm_num)
  rw [hsplit, le_div_iff₀ (by positivity)] at hlow
  rw [div_lt_iff₀ hpos] at h
  nlinarith

/-! ## The interval of a number -/

/-- How far below a mantissa the reals go that round to it. Below a power of two the next number is
half as far away. -/
def gap (m : Nat) (e : Int) : ℚ := if m = 2 ^ 52 ∧ Double.leastExponent < e then 1 / 4 else 1 / 2

theorem gap_le_half (m : Nat) (e : Int) : gap m e ≤ 1 / 2 := by
  unfold gap
  split <;> norm_num

/-- The real rounds to the number `m * 2 ^ e`; the ends of the interval do only if `m` is even. -/
structure RoundsTo (x : ℚ) (m : Nat) (e : Int) : Prop where
  low : (m - gap m e) * 2 ^ e ≤ x
  high : x ≤ (m + 1 / 2) * 2 ^ e
  odd : m % 2 = 1 → (m - gap m e) * 2 ^ e < x ∧ x < (m + 1 / 2) * 2 ^ e

/-- A mantissa and an exponent as a number of double precision has them: 53 bits unless the exponent
is the least one. -/
structure IsScaled (m : Nat) (e : Int) : Prop where
  bits : m < 2 ^ 53
  least : Double.leastExponent ≤ e
  greatest : e ≤ Double.greatestExponent
  normal : 2 ^ 52 ≤ m ∨ e = Double.leastExponent

theorem RoundsTo.pos (h : RoundsTo x m e) (hm : 0 < m) : 0 < x := by
  have hgap := gap_le_half m e
  have hone : (1 : ℚ) ≤ m := by exact_mod_cast hm
  have hpow : (0 : ℚ) < 2 ^ e := by positivity
  have hlow := h.low
  have : 0 < ((m : ℚ) - gap m e) * 2 ^ e := mul_pos (by linarith) hpow
  linarith

/-- On the scale of a number, what rounds to it lies within a half of its mantissa, except for what
lies just below a power of two. -/
theorem RoundsTo.roundDiv_eq (h : RoundsTo ((num : ℚ) / den) m e) (hden : 0 < den)
    (hgap : gap m e = 1 / 2 ∨ (m : ℚ) ≤ num / den / 2 ^ e) :
    roundDiv (Double.scaleDown num den e).1 (Double.scaleDown num den e).2 = m := by
  have hpow : (0 : ℚ) < 2 ^ e := by positivity
  have hhigh : (num : ℚ) / den / 2 ^ e ≤ m + 1 / 2 := (div_le_iff₀ hpow).mpr h.high
  have hlow : (m : ℚ) - 1 / 2 ≤ num / den / 2 ^ e := by
    rcases hgap with hgap | hgap
    · have hlow := h.low
      rw [hgap] at hlow
      exact (le_div_iff₀ hpow).mpr hlow
    · linarith
  refine Number.roundDiv_eq (scaleDown_pos hden num e) ?_ ?_ fun hodd => ?_
  · rwa [scaleDown_ratio hden]
  · rwa [scaleDown_ratio hden]
  · obtain ⟨hlow', hhigh'⟩ := h.odd hodd
    rw [scaleDown_ratio hden]
    refine ⟨?_, (div_lt_iff₀ hpow).mpr hhigh'⟩
    rcases hgap with hgap | hgap
    · rw [hgap] at hlow'
      exact (lt_div_iff₀ hpow).mpr hlow'
    · linarith

theorem add_one_le_of_lt {b n : Nat} (h : m < b ^ n) : (m : ℚ) + 1 ≤ (b : ℚ) ^ n := by
  have hle := Nat.cast_le (α := ℚ).mpr (Nat.succ_le_of_lt h)
  rwa [Nat.cast_succ, Nat.cast_pow] at hle

/-- What the rounded mantissa gives where it still has 53 bits. -/
theorem ofRatio_of_roundDiv (negative : Bool) (hnum : 0 < num)
    (hexponent : Double.exponentOf num den = e)
    (hround : roundDiv (Double.scaleDown num den e).1 (Double.scaleDown num den e).2 = m)
    (hbits : m < 2 ^ 53) :
    Double.ofRatio negative num den =
      if Double.greatestExponent < e then .infinite negative else .finite negative m e := by
  have hne : m ≠ twoPow 53 := by
    rw [twoPow_eq]
    exact Nat.ne_of_lt hbits
  unfold Double.ofRatio
  rw [if_neg (Nat.pos_iff_ne_zero.mp hnum), hexponent]
  -- kept closed, for the test of the mantissa would be computed in unary otherwise
  generalize roundDiv = round at *
  generalize twoPow 53 = limit at *
  dsimp only
  rw [hround, if_neg hne]

/-- The same where it has one bit more. -/
theorem ofRatio_of_carry (negative : Bool) (hnum : 0 < num)
    (hexponent : Double.exponentOf num den = e)
    (hround : roundDiv (Double.scaleDown num den e).1 (Double.scaleDown num den e).2 = twoPow 53) :
    Double.ofRatio negative num den =
      if Double.greatestExponent < e + 1 then .infinite negative
      else .finite negative (2 ^ 52) (e + 1) := by
  unfold Double.ofRatio
  rw [if_neg (Nat.pos_iff_ne_zero.mp hnum), hexponent, ← twoPow_eq]
  generalize roundDiv = round at *
  generalize twoPow 53 = limit at *
  dsimp only
  rw [hround, if_pos rfl]

/-- Below the mantissa of a power of two, a mantissa has one bit more, and rounds up to that
power. -/
theorem ofRatio_eq_of_lt (negative : Bool) (hnum : 0 < num) (hden : 0 < den)
    (hscaled : IsScaled m e) (h : RoundsTo ((num : ℚ) / den) m e)
    (hleast : e ≠ Double.leastExponent) (hlow : (num : ℚ) / den / 2 ^ e < 2 ^ 52) :
    Double.ofRatio negative num den = .finite negative m e := by
  have hpow : (0 : ℚ) < 2 ^ e := by positivity
  have hleast' := hscaled.least
  have hmantissa : m = 2 ^ 52 := by
    by_contra hne
    have hgap : gap m e = 1 / 2 := if_neg fun hcut => hne hcut.1
    have hlt : 2 ^ 52 < m := Nat.lt_of_le_of_ne (hscaled.normal.resolve_right hleast) (Ne.symm hne)
    have hmore := Nat.cast_le (α := ℚ).mpr (Nat.succ_le_of_lt hlt)
    rw [Nat.cast_succ, Nat.cast_pow, Nat.cast_ofNat] at hmore
    have hbelow := h.low
    rw [hgap, ← le_div_iff₀ hpow] at hbelow
    linarith
  have hgap : gap m e = 1 / 4 := if_pos ⟨hmantissa, lt_of_le_of_ne hleast' (Ne.symm hleast)⟩
  have hbelow := h.low
  rw [hgap, ← le_div_iff₀ hpow, hmantissa, Nat.cast_pow, Nat.cast_ofNat] at hbelow
  have hscale : (num : ℚ) / den / 2 ^ (e - 1) = 2 * (num / den / 2 ^ e) := by
    rw [zpow_sub₀ (by norm_num), zpow_one]
    field_simp
  have hexponent : Double.exponentOf num den = e - 1 := by
    refine exponentOf_eq hnum hden (by omega) ⟨?_, ?_⟩
    · rw [hscale]
      linarith
    · rw [hscale]
      linarith
  have hround : roundDiv (Double.scaleDown num den (e - 1)).1
      (Double.scaleDown num den (e - 1)).2 = twoPow 53 := by
    have hlimit : ((twoPow 53 : Nat) : ℚ) = 2 ^ 53 := by rw [twoPow_eq, Nat.cast_pow, Nat.cast_ofNat]
    refine Number.roundDiv_eq (scaleDown_pos hden num _) ?_ ?_ fun hodd => ?_
    · rw [scaleDown_ratio hden, hscale, hlimit]
      linarith
    · rw [scaleDown_ratio hden, hscale, hlimit]
      linarith
    · rw [twoPow_eq, Nat.pow_succ, Nat.mul_mod_left] at hodd
      cases hodd
  rw [hmantissa, ofRatio_of_carry negative hnum hexponent hround, Int.sub_add_cancel,
    if_neg (Int.not_lt.mpr hscaled.greatest)]

/-- A fraction in the interval of a number rounds to that number. -/
theorem ofRatio_eq (negative : Bool) (hnum : 0 < num) (hden : 0 < den)
    (hscaled : IsScaled m e) (h : RoundsTo ((num : ℚ) / den) m e) :
    Double.ofRatio negative num den = .finite negative m e := by
  have hpow : (0 : ℚ) < 2 ^ e := by positivity
  have hhigh : (num : ℚ) / den / 2 ^ e ≤ m + 1 / 2 := (div_le_iff₀ hpow).mpr h.high
  have hbits : (m : ℚ) + 1 ≤ 2 ^ 53 := add_one_le_of_lt hscaled.bits
  by_cases hleast : e = Double.leastExponent
  · have hgap : gap m e = 1 / 2 := if_neg fun hcut => by omega
    have hexponent : Double.exponentOf num den = e := by
      rw [hleast]
      refine exponentOf_eq_least hnum hden ?_
      rw [← hleast]
      linarith
    rw [ofRatio_of_roundDiv negative hnum hexponent (h.roundDiv_eq hden (.inl hgap)) hscaled.bits,
      if_neg (Int.not_lt.mpr hscaled.greatest)]
  · by_cases hlow : (2 : ℚ) ^ 52 ≤ num / den / 2 ^ e
    · have hexponent : Double.exponentOf num den = e :=
        exponentOf_eq hnum hden hscaled.least ⟨hlow, by linarith⟩
      have hgap : gap m e = 1 / 2 ∨ (m : ℚ) ≤ num / den / 2 ^ e := by
        by_cases hm : m = 2 ^ 52
        · right
          rwa [hm, Nat.cast_pow, Nat.cast_ofNat]
        · exact .inl (if_neg fun hcut => hm hcut.1)
      rw [ofRatio_of_roundDiv negative hnum hexponent (h.roundDiv_eq hden hgap) hscaled.bits,
        if_neg (Int.not_lt.mpr hscaled.greatest)]
    · exact ofRatio_eq_of_lt negative hnum hden hscaled h hleast (not_le.mp hlow)

end PubspecTidy.Number
