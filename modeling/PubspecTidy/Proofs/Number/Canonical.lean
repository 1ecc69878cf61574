import PubspecTidy.Number.Reader
import PubspecTidy.Proofs.Number.Rounding

/-!
# Numbers as they are kept

A finite number has one mantissa and one exponent. Main statement: every number that is rounded or
read from text has these.
-/
namespace PubspecTidy.Number

variable {num den m : Nat} {e : Int} {x : Double}

/-- A number whose mantissa has 53 bits unless its exponent is the least one. -/
def Double.IsCanonical : Double → Prop
  | .finite _ m e => IsScaled m e
  | _ => True

theorem isScaled_zero : IsScaled 0 Double.leastExponent :=
  ⟨by norm_num, Int.le_refl _, by decide, .inr rfl⟩

/-- The scaled mantissa of a fraction, before it is rounded, has at most 53 bits, and no fewer
unless the exponent is the least one. -/
theorem exponentOf_spec (hnum : 0 < num) (hden : 0 < den) :
    Double.leastExponent ≤ Double.exponentOf num den ∧
      (num : ℚ) / den / 2 ^ Double.exponentOf num den < 2 ^ 53 ∧
      (2 ^ 52 ≤ (num : ℚ) / den / 2 ^ Double.exponentOf num den ∨
        Double.exponentOf num den = Double.leastExponent) := by
  obtain ⟨e, ⟨hlow, hhigh⟩, hexponent⟩ := exists_fitsAt hnum hden
  rw [hexponent]
  refine ⟨le_max_left _ _, ?_, ?_⟩
  · have hpos : (0 : ℚ) ≤ num / den := by positivity
    have hpow : (2 : ℚ) ^ e ≤ 2 ^ max Double.leastExponent e :=
      zpow_le_zpow_right₀ (by norm_num) (le_max_right _ _)
    exact (div_le_div_of_nonneg_left hpos (by positivity) hpow).trans_lt hhigh
  · rcases le_total Double.leastExponent e with hle | hle
    · exact .inl (by rwa [max_eq_right hle])
    · exact .inr (max_eq_left hle)

/-- The rounded mantissa may have one bit more. -/
theorem roundDiv_scaleDown_spec (hnum : 0 < num) (hden : 0 < den)
    (hexponent : Double.exponentOf num den = e)
    (hround : roundDiv (Double.scaleDown num den e).1 (Double.scaleDown num den e).2 = m) :
    m ≤ 2 ^ 53 ∧ (2 ^ 52 ≤ m ∨ e = Double.leastExponent) := by
  obtain ⟨-, hhigh, hlow⟩ := exponentOf_spec hnum hden
  rw [hexponent, ← scaleDown_ratio hden] at hhigh hlow
  have hpos := scaleDown_pos hden num e
  generalize Double.scaleDown num den e = scaled at *
  have hpos' : (0 : ℚ) < scaled.2 := by exact_mod_cast hpos
  have hfloor : scaled.1 / scaled.2 < 2 ^ 53 := by
    rw [Nat.div_lt_iff_lt_mul hpos]
    rw [div_lt_iff₀ hpos'] at hhigh
    exact_mod_cast hhigh
  constructor
  · rcases roundDiv_eq_or scaled.1 scaled.2 with h | h <;> omega
  · refine hlow.imp_left fun hlow => ?_
    have hfloor : 2 ^ 52 ≤ scaled.1 / scaled.2 := by
      rw [Nat.le_div_iff_mul_le hpos]
      rw [le_div_iff₀ hpos'] at hlow
      exact_mod_cast hlow
    rcases roundDiv_eq_or scaled.1 scaled.2 with h | h <;> omega

/-- A rounded fraction is a number as it is kept. -/
theorem ofRatio_isCanonical (negative : Bool) (hden : 0 < den) :
    (Double.ofRatio negative num den).IsCanonical := by
  rcases Nat.eq_zero_or_pos num with hnum | hnum
  · rw [Double.ofRatio, if_pos hnum]
    exact isScaled_zero
  obtain ⟨hleast, -, -⟩ := exponentOf_spec hnum hden
  generalize hexponent : Double.exponentOf num den = e at hleast
  generalize hround : roundDiv (Double.scaleDown num den e).1 (Double.scaleDown num den e).2 = m
  obtain ⟨hbits, hnormal⟩ := roundDiv_scaleDown_spec hnum hden hexponent hround
  rcases Nat.lt_or_eq_of_le hbits with hlt | rfl
  · rw [ofRatio_of_roundDiv negative hnum hexponent hround hlt]
    split
    · exact trivial
    · exact ⟨hlt, hleast, by omega, hnormal⟩
  · rw [← twoPow_eq] at hround
    rw [ofRatio_of_carry negative hnum hexponent hround]
    split
    · exact trivial
    · exact ⟨by norm_num, by omega, by omega, .inl (Nat.le_refl _)⟩

theorem ofDecimal_isCanonical (negative : Bool) (digits : Nat) (exponent : Int) :
    (Double.ofDecimal negative digits exponent).IsCanonical := by
  have hten (n : Nat) : 0 < tenPow n := by
    rw [tenPow_eq]
    positivity
  unfold Double.ofDecimal
  dsimp only
  split
  · exact isScaled_zero
  split
  · exact trivial
  split
  · exact ofRatio_isCanonical negative Nat.one_pos
  · exact ofRatio_isCanonical negative (hten _)

theorem ofInt_isCanonical (n : Int) : (Double.ofInt n).IsCanonical :=
  ofRatio_isCanonical _ Nat.one_pos

theorem ofInt?_isCanonical {n : Int} (h : Double.ofInt? n = some x) : x.IsCanonical := by
  have hcanonical := ofInt_isCanonical n
  unfold Double.ofInt? at h
  split at h
  · rename_i hfinite
    rw [hfinite] at hcanonical
    cases h
    exact hcanonical
  · cases h

theorem readDecimal?_isCanonical {negative : Bool} {cs : List Char}
    (h : readDecimal? negative cs = some x) : x.IsCanonical := by
  unfold readDecimal? at h
  dsimp only at h
  split at h <;> dsimp only at h <;> split at h
  all_goals first
    | cases h
    | obtain ⟨exponent, -, rfl⟩ := Option.map_eq_some_iff.mp h
      exact ofDecimal_isCanonical negative _ _

theorem readDouble?_isCanonical {cs : List Char} (h : readDouble? cs = some x) :
    x.IsCanonical := by
  unfold readDouble? at h
  obtain ⟨rest, -, h⟩ := Option.bind_eq_some_iff.mp h
  dsimp only at h
  split at h
  · cases h
    exact trivial
  split at h
  · cases h
    exact trivial
  · exact readDecimal?_isCanonical h

end PubspecTidy.Number
