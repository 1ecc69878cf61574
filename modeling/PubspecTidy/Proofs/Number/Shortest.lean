import PubspecTidy.Number.Shortest
import PubspecTidy.Proofs.Number.Rounding

/-!
# The shortest decimal reads back

Main statements: a decimal in the interval of a number is read as that number, and the shortest
decimal of a number lies in its interval. That there is one at all is due to the width of the
interval, which is more than the step from one decimal of seventeen digits to the next.
-/
namespace PubspecTidy.Number

variable {num den m : Nat} {e unit : Int} {x : ℚ} {d : Decimal}

/-- The value of a decimal. -/
def Decimal.value (d : Decimal) : ℚ := d.digits * 10 ^ d.exponent

theorem tenPow_ratio (unit : Int) :
    ((tenPow unit.toNat : Nat) : ℚ) / (tenPow (-unit).toNat : Nat) = 10 ^ unit := by
  have hpow := zpow_eq_div 10 unit
  rw [Nat.cast_ofNat] at hpow
  rw [tenPow_eq, tenPow_eq, hpow]

theorem tenPow_pos (n : Nat) : 0 < tenPow n := by
  rw [tenPow_eq]
  positivity

/-! ## Reading a decimal -/

theorem length_toDigits_bounds {n : Nat} (h : 0 < n) :
    (10 : ℚ) ^ (((Nat.toDigits 10 n).length : Int) - 1) ≤ n ∧
      (n : ℚ) < 10 ^ ((Nat.toDigits 10 n).length : Int) := by
  have hpos := Nat.length_toDigits_pos (b := 10) (n := n)
  generalize hlength : (Nat.toDigits 10 n).length = l at hpos
  constructor
  · obtain ⟨k, rfl⟩ : ∃ k, l = k + 1 := ⟨l - 1, by omega⟩
    have hexponent : ((k + 1 : Nat) : Int) - 1 = k := by omega
    rw [hexponent, zpow_natCast]
    rcases Nat.eq_zero_or_pos k with rfl | hk
    · rw [pow_zero]
      exact_mod_cast h
    · have hle := (Nat.length_toDigits_le_iff (n := n) (by norm_num : 1 < 10) hk).not.mp (by omega)
      exact_mod_cast Nat.not_lt.mp hle
  · have hlt := (Nat.length_toDigits_le_iff (n := n) (by norm_num : 1 < 10) hpos).mp (by omega)
    rw [zpow_natCast]
    exact_mod_cast hlt

/-- Half of the least number is above all decimals that are read as zero for their exponent. -/
theorem tenPow_le_half_least : (10 : ℚ) ^ (-330 : Int) ≤ 1 / 2 * 2 ^ Double.leastExponent := by
  have hhalf : (1 / 2 : ℚ) * 2 ^ Double.leastExponent = 2 ^ (-((1075 : Nat) : Int)) := by
    have hsum : -((1075 : Nat) : Int) = Double.leastExponent - 1 := rfl
    rw [hsum, zpow_sub₀ (by norm_num), zpow_one]
    ring
  have hle : (2 : ℚ) ^ 1075 ≤ 10 ^ 330 :=
    calc (2 : ℚ) ^ 1075 = (2 ^ 43) ^ 25 := by rw [← pow_mul]
      _ ≤ (10 ^ 13) ^ 25 := pow_le_pow_left₀ (by norm_num) (by norm_num) 25
      _ = 10 ^ 325 := by rw [← pow_mul]
      _ ≤ 10 ^ 330 := pow_le_pow_right₀ (by norm_num) (by norm_num)
  have hexponent : (-330 : Int) = -((330 : Nat) : Int) := rfl
  rw [hhalf, hexponent, zpow_neg, zpow_neg, zpow_natCast, zpow_natCast]
  exact inv_anti₀ (by positivity) hle

/-- All numbers are below the decimals that are read as infinite for their exponent. -/
theorem greatest_le_tenPow : (2 : ℚ) ^ 53 * 2 ^ Double.greatestExponent ≤ 10 ^ (320 : Int) := by
  have hproduct : (2 : ℚ) ^ 53 * 2 ^ Double.greatestExponent = 2 ^ 1024 := by
    have hgreatest : Double.greatestExponent = ((971 : Nat) : Int) := rfl
    rw [hgreatest, zpow_natCast, ← pow_add]
  have hexponent : (320 : Int) = ((320 : Nat) : Int) := rfl
  rw [hproduct, hexponent, zpow_natCast]
  calc (2 : ℚ) ^ 1024 = (2 ^ 64) ^ 16 := by rw [← pow_mul]
    _ ≤ (10 ^ 20) ^ 16 := pow_le_pow_left₀ (by norm_num) (by norm_num) 16
    _ = 10 ^ 320 := by rw [← pow_mul]

/-- What rounds to a positive number is at least half of the least one. -/
theorem RoundsTo.half_least_le (h : RoundsTo x m e) (hscaled : IsScaled m e) (hm : 0 < m) :
    1 / 2 * 2 ^ Double.leastExponent ≤ x := by
  have hgap := gap_le_half m e
  have hone : (1 : ℚ) ≤ m := by exact_mod_cast hm
  calc (1 : ℚ) / 2 * 2 ^ Double.leastExponent
      ≤ 1 / 2 * 2 ^ e :=
        mul_le_mul_of_nonneg_left (zpow_le_zpow_right₀ (by norm_num) hscaled.least) (by norm_num)
    _ ≤ (m - gap m e) * 2 ^ e := mul_le_mul_of_nonneg_right (by linarith) (by positivity)
    _ ≤ x := h.low

theorem RoundsTo.lt_greatest (h : RoundsTo x m e) (hscaled : IsScaled m e) :
    x < 2 ^ 53 * 2 ^ Double.greatestExponent := by
  have hbits : (m : ℚ) + 1 ≤ 2 ^ 53 := add_one_le_of_lt hscaled.bits
  calc x ≤ (m + 1 / 2) * 2 ^ e := h.high
    _ < 2 ^ 53 * 2 ^ e := mul_lt_mul_of_pos_right (by linarith) (by positivity)
    _ ≤ 2 ^ 53 * 2 ^ Double.greatestExponent :=
        mul_le_mul_of_nonneg_left (zpow_le_zpow_right₀ (by norm_num) hscaled.greatest) (by norm_num)

/-- A decimal in the interval of a positive number is read as that number. -/
theorem ofDecimal_eq (negative : Bool) (hscaled : IsScaled m e) (hm : 0 < m)
    (h : RoundsTo d.value m e) :
    Double.ofDecimal negative d.digits d.exponent = .finite negative m e := by
  obtain ⟨digits, exponent⟩ := d
  unfold Decimal.value at h
  dsimp only at h ⊢
  have hdigits : 0 < digits := by
    refine Nat.pos_of_ne_zero fun hzero => ?_
    have hpos := h.pos hm
    rw [hzero, Nat.cast_zero, zero_mul] at hpos
    exact lt_irrefl 0 hpos
  obtain ⟨hlow, hhigh⟩ := length_toDigits_bounds hdigits
  have hten : (0 : ℚ) < 10 ^ exponent := by positivity
  unfold Double.ofDecimal
  dsimp only
  generalize ((Nat.toDigits 10 digits).length : Int) = size at hlow hhigh ⊢
  have hsmall : ¬ exponent + size < -330 := by
    intro hlt
    have hupper : (digits : ℚ) * 10 ^ exponent < 10 ^ (-330 : Int) :=
      calc (digits : ℚ) * 10 ^ exponent < 10 ^ size * 10 ^ exponent := mul_lt_mul_of_pos_right hhigh hten
        _ = 10 ^ (exponent + size) := by rw [← zpow_add₀ (by norm_num), Int.add_comm]
        _ ≤ 10 ^ (-330 : Int) := zpow_le_zpow_right₀ (by norm_num) (by omega)
    have hlower := h.half_least_le hscaled hm
    have hbound := tenPow_le_half_least
    linarith
  have hlarge : ¬ 320 < exponent + size := by
    intro hlt
    have hlower : (10 : ℚ) ^ (320 : Int) ≤ digits * 10 ^ exponent :=
      calc (10 : ℚ) ^ (320 : Int) ≤ 10 ^ (size - 1 + exponent) :=
            zpow_le_zpow_right₀ (by norm_num) (by omega)
        _ = 10 ^ (size - 1) * 10 ^ exponent := zpow_add₀ (by norm_num) _ _
        _ ≤ digits * 10 ^ exponent := mul_le_mul_of_nonneg_right hlow hten.le
    have hupper := h.lt_greatest hscaled
    have hbound := greatest_le_tenPow
    linarith
  rw [if_neg (by omega), if_neg hlarge]
  split
  · rename_i hexponent
    refine ofRatio_eq negative (Nat.mul_pos hdigits (tenPow_pos _)) Nat.one_pos hscaled ?_
    obtain ⟨n, rfl⟩ := Int.eq_ofNat_of_zero_le hexponent
    rw [Int.toNat_natCast, tenPow_eq, Nat.cast_one, div_one, Nat.cast_mul, Nat.cast_pow]
    rwa [zpow_natCast] at h
  · rename_i hexponent
    refine ofRatio_eq negative hdigits (tenPow_pos _) hscaled ?_
    obtain ⟨n, hn⟩ := Int.eq_ofNat_of_zero_le (Int.le_of_lt (Int.neg_pos.mpr (Int.not_le.mp hexponent)))
    obtain rfl : exponent = -(n : Int) := by omega
    rw [Int.neg_neg, Int.toNat_natCast, tenPow_eq, Nat.cast_pow]
    rwa [zpow_neg, zpow_natCast, ← div_eq_mul_inv] at h

/-! ## The grids of decimals -/

/-- The number between the ends of its interval. -/
theorem Rounding.of_mid (m : Nat) (e : Int) :
    ((Rounding.of m e).mid : ℚ) / (Rounding.of m e).den = m * 2 ^ e := by
  have hpow := zpow_eq_div 2 e
  rw [Nat.cast_ofNat] at hpow
  unfold Rounding.of
  rw [hpow]
  dsimp only
  rw [twoPow_eq, twoPow_eq]
  push_cast
  field_simp

theorem Rounding.of_low (hm : 0 < m) (e : Int) :
    ((Rounding.of m e).low : ℚ) / (Rounding.of m e).den = (m - gap m e) * 2 ^ e := by
  have hpow := zpow_eq_div 2 e
  rw [Nat.cast_ofNat] at hpow
  unfold Rounding.of gap
  rw [hpow]
  dsimp only
  rw [twoPow_eq, twoPow_eq, twoPow_eq]
  by_cases hcut : m = 2 ^ 52 ∧ Double.leastExponent < e
  · rw [if_pos hcut, if_pos hcut, Nat.cast_mul, Nat.cast_sub (by omega)]
    push_cast
    field_simp
  · rw [if_neg hcut, if_neg hcut, Nat.cast_mul, Nat.cast_sub (by omega)]
    push_cast
    field_simp
    ring

theorem Rounding.of_high (m : Nat) (e : Int) :
    ((Rounding.of m e).high : ℚ) / (Rounding.of m e).den = (m + 1 / 2) * 2 ^ e := by
  have hpow := zpow_eq_div 2 e
  rw [Nat.cast_ofNat] at hpow
  unfold Rounding.of
  rw [hpow]
  dsimp only
  rw [twoPow_eq, twoPow_eq]
  push_cast
  field_simp
  ring

theorem Rounding.of_den_pos (m : Nat) (e : Int) : 0 < (Rounding.of m e).den := by
  unfold Rounding.of
  dsimp only
  rw [twoPow_eq]
  positivity

theorem Rounding.of_mid_pos (hm : 0 < m) (e : Int) : 0 < (Rounding.of m e).mid := by
  unfold Rounding.of
  dsimp only
  rw [twoPow_eq]
  positivity

/-- Whether a fraction lies in the interval of a number is decided without division. -/
theorem Rounding.contains_iff (hm : 0 < m) (hden : 0 < den) :
    (Rounding.of m e).contains num den = true ↔ RoundsTo ((num : ℚ) / den) m e := by
  have hclosed : (Rounding.of m e).closed = decide (m % 2 = 0) := rfl
  have hlow := Rounding.of_low hm e
  have hhigh := Rounding.of_high m e
  have hpos : (0 : ℚ) < (Rounding.of m e).den := by exact_mod_cast Rounding.of_den_pos m e
  have hpos' : (0 : ℚ) < den := by exact_mod_cast hden
  unfold Rounding.contains
  rw [hclosed]
  generalize Rounding.of m e = r at *
  have hle : r.low * den ≤ num * r.den ↔ (m - gap m e) * 2 ^ e ≤ (num : ℚ) / den := by
    rw [← hlow, div_le_div_iff₀ hpos hpos']
    norm_cast
  have hlt : r.low * den < num * r.den ↔ (m - gap m e) * 2 ^ e < (num : ℚ) / den := by
    rw [← hlow, div_lt_div_iff₀ hpos hpos']
    norm_cast
  have hle' : num * r.den ≤ r.high * den ↔ (num : ℚ) / den ≤ (m + 1 / 2) * 2 ^ e := by
    rw [← hhigh, div_le_div_iff₀ hpos' hpos]
    norm_cast
  have hlt' : num * r.den < r.high * den ↔ (num : ℚ) / den < (m + 1 / 2) * 2 ^ e := by
    rw [← hhigh, div_lt_div_iff₀ hpos' hpos]
    norm_cast
  rcases Nat.mod_two_eq_zero_or_one m with hparity | hparity
  · rw [if_pos (decide_eq_true hparity), Bool.and_eq_true, decide_eq_true_eq, decide_eq_true_eq,
      hle, hle']
    refine ⟨fun ⟨hlow, hhigh⟩ => ⟨hlow, hhigh, fun hodd => by omega⟩, fun h => ⟨h.low, h.high⟩⟩
  · have hopen : ¬ decide (m % 2 = 0) = true := by simp [hparity]
    rw [if_neg hopen, Bool.and_eq_true, decide_eq_true_eq, decide_eq_true_eq, hlt, hlt']
    exact ⟨fun h => ⟨h.1.le, h.2.le, fun _ => h⟩, fun h => h.odd hparity⟩

/-- A multiple of a power of ten that is tested lies in the interval just if its value does. -/
theorem Rounding.contains_multiple (hm : 0 < m) (n : Nat) (unit : Int) :
    (Rounding.of m e).contains (n * tenPow unit.toNat) (tenPow (-unit).toNat) = true ↔
      RoundsTo (Decimal.value ⟨n, unit⟩) m e := by
  rw [Rounding.contains_iff hm (tenPow_pos _), Nat.cast_mul, mul_div_assoc, tenPow_ratio]
  rfl

theorem Rounding.roundsTo_of_onGrid? (hm : 0 < m)
    (h : (Rounding.of m e).onGrid? unit = some d) : RoundsTo d.value m e := by
  unfold Rounding.onGrid? at h
  dsimp only at h
  generalize (Rounding.of m e).mid * tenPow (-unit).toNat = num at h
  generalize (Rounding.of m e).den * tenPow unit.toNat = den at h
  split at h
  · rename_i hboth
    obtain ⟨hlower, hupper⟩ := Bool.and_eq_true_iff.mp hboth
    cases h
    rcases roundDiv_eq_or num den with hnearest | hnearest <;> rw [hnearest]
    · exact (Rounding.contains_multiple hm _ unit).mp hlower
    · exact (Rounding.contains_multiple hm _ unit).mp hupper
  split at h
  · rename_i hlower
    cases h
    exact (Rounding.contains_multiple hm _ unit).mp hlower
  split at h
  · rename_i hupper
    cases h
    exact (Rounding.contains_multiple hm _ unit).mp hupper
  · cases h

/-- A step that is smaller than the interval does not lead across it. -/
theorem roundsTo_or_next {k : Nat} (h : (10 : ℚ) ^ unit < (gap m e + 1 / 2) * 2 ^ e)
    (hbelow : (k : ℚ) * 10 ^ unit ≤ m * 2 ^ e)
    (habove : (m : ℚ) * 2 ^ e < ((k + 1 : Nat) : ℚ) * 10 ^ unit) :
    RoundsTo (Decimal.value ⟨k, unit⟩) m e ∨ RoundsTo (Decimal.value ⟨k + 1, unit⟩) m e := by
  refine or_iff_not_imp_left.mpr fun hlower => ?_
  have hgap : 0 < gap m e := by
    unfold gap
    split <;> norm_num
  have hpow : (0 : ℚ) < 2 ^ e := by positivity
  have hend : (k : ℚ) * 10 ^ unit ≤ (m - gap m e) * 2 ^ e := by
    by_contra hlt
    have hlt := not_le.mp hlt
    have hhalf : (m : ℚ) * 2 ^ e < (m + 1 / 2) * 2 ^ e :=
      mul_lt_mul_of_pos_right (by linarith) hpow
    exact hlower ⟨hlt.le, (hbelow.trans_lt hhalf).le, fun _ => ⟨hlt, hbelow.trans_lt hhalf⟩⟩
  have hlow : (m - gap m e) * 2 ^ e < ((k + 1 : Nat) : ℚ) * 10 ^ unit :=
    (mul_le_mul_of_nonneg_right (by linarith) hpow.le).trans_lt habove
  have hhigh : ((k + 1 : Nat) : ℚ) * 10 ^ unit < (m + 1 / 2) * 2 ^ e := by
    push_cast at hend ⊢
    linarith
  exact ⟨hlow.le, hhigh.le, fun _ => ⟨hlow, hhigh⟩⟩

/-- A grid whose step is smaller than the interval has a decimal in it. -/
theorem Rounding.isSome_onGrid? (hm : 0 < m) (h : (10 : ℚ) ^ unit < (gap m e + 1 / 2) * 2 ^ e) :
    ((Rounding.of m e).onGrid? unit).isSome = true := by
  have hstep : (0 : ℚ) < 10 ^ unit := by positivity
  have hvalue : ((Rounding.of m e).mid * tenPow (-unit).toNat : Nat) /
      (((Rounding.of m e).den * tenPow unit.toNat : Nat) : ℚ) = m * 2 ^ e / 10 ^ unit := by
    rw [← Rounding.of_mid, ← tenPow_ratio unit]
    push_cast
    rw [div_div_div_eq]
  have hden : 0 < (Rounding.of m e).den * tenPow unit.toNat :=
    Nat.mul_pos (Rounding.of_den_pos m e) (tenPow_pos _)
  unfold Rounding.onGrid?
  dsimp only
  generalize (Rounding.of m e).mid * tenPow (-unit).toNat = num at *
  generalize (Rounding.of m e).den * tenPow unit.toNat = den at *
  have hpos : (0 : ℚ) < den := by exact_mod_cast hden
  -- the number lies between the two multiples
  have hbelow : ((num / den : Nat) : ℚ) * 10 ^ unit ≤ m * 2 ^ e := by
    have hle : num / den * den ≤ num := Nat.div_mul_le_self num den
    rw [← le_div_iff₀ hstep, ← hvalue, le_div_iff₀ hpos]
    exact_mod_cast hle
  have habove : (m : ℚ) * 2 ^ e < ((num / den + 1 : Nat) : ℚ) * 10 ^ unit := by
    have hlt : num < (num / den + 1) * den := by
      rw [Nat.mul_comm]
      exact Nat.lt_mul_div_succ num hden
    rw [← div_lt_iff₀ hstep, ← hvalue, div_lt_iff₀ hpos]
    exact_mod_cast hlt
  rcases roundsTo_or_next h hbelow habove with hlower | hupper
  · rw [(Rounding.contains_multiple hm (num / den) unit).mpr hlower]
    split <;> rfl
  · rw [(Rounding.contains_multiple hm (num / den + 1) unit).mpr hupper]
    split
    · rfl
    · split <;> rfl

/-- A number has at least as many places as it is said to have. -/
theorem Rounding.tenPow_places_le (hm : 0 < m) (e : Int) :
    (10 : ℚ) ^ ((Rounding.of m e).places - 1) ≤ m * 2 ^ e := by
  have hden := Rounding.of_den_pos m e
  have hmid := Rounding.of_mid_pos hm e
  rw [← Rounding.of_mid]
  unfold Rounding.places
  generalize (Rounding.of m e).mid = mid at *
  generalize (Rounding.of m e).den = den at *
  have hpos : (0 : ℚ) < den := by exact_mod_cast hden
  have hpos' : (0 : ℚ) < mid := by exact_mod_cast hmid
  split
  · rename_i hle
    obtain ⟨hlow, -⟩ := length_toDigits_bounds (Nat.div_pos hle hden)
    refine hlow.trans ?_
    rw [le_div_iff₀ hpos]
    exact_mod_cast Nat.div_mul_le_self mid den
  · rename_i hlt
    obtain ⟨-, hhigh⟩ := length_toDigits_bounds (Nat.div_pos (Nat.le_of_not_le hlt) hmid)
    have hlength := Nat.length_toDigits_pos (b := 10) (n := den / mid)
    dsimp only
    generalize (Nat.toDigits 10 (den / mid)).length = l at *
    split
    · rename_i heq
      obtain ⟨k, rfl⟩ : ∃ k, l = k + 1 := ⟨l - 1, by omega⟩
      have hexponent : 2 - ((k + 1 : Nat) : Int) - 1 = -(k : Int) := by omega
      rw [Nat.add_sub_cancel, tenPow_eq] at heq
      rw [hexponent, ← heq, zpow_neg, zpow_natCast]
      push_cast
      field_simp
      rfl
    · have hexponent : 1 - (l : Int) - 1 = -(l : Int) := by omega
      rw [zpow_natCast] at hhigh
      have hlt : den / mid < 10 ^ l := by exact_mod_cast hhigh
      have hle : den ≤ mid * 10 ^ l :=
        (Nat.lt_mul_div_succ den hmid).le.trans (Nat.mul_le_mul_left mid hlt)
      rw [hexponent, zpow_neg, zpow_natCast, ← one_div, div_le_div_iff₀ (by positivity) hpos, one_mul]
      exact_mod_cast hle

/-- Seventeen digits are enough. -/
theorem Rounding.isSome_onGrid?_seventeen (hscaled : IsScaled m e) (hm : 0 < m) :
    ((Rounding.of m e).onGrid? ((Rounding.of m e).places - 17)).isSome = true := by
  refine Rounding.isSome_onGrid? hm ?_
  have hpow : (0 : ℚ) < 2 ^ e := by positivity
  have hplaces := Rounding.tenPow_places_le hm e
  have hbits : (m : ℚ) + 1 ≤ 2 ^ 53 := add_one_le_of_lt hscaled.bits
  have hstep : (10 : ℚ) ^ ((Rounding.of m e).places - 17) =
      10 ^ ((Rounding.of m e).places - 1) / 10 ^ 16 := by
    have hsplit : (Rounding.of m e).places - 17 = (Rounding.of m e).places - 1 - (16 : Nat) := by
      omega
    rw [hsplit, zpow_sub₀ (by norm_num), zpow_natCast]
  have hmantissa : (m : ℚ) / 10 ^ 16 < gap m e + 1 / 2 := by
    unfold gap
    split
    · rename_i hcut
      rw [hcut.1]
      norm_num
    · rw [div_lt_iff₀ (by norm_num)]
      linarith
  calc (10 : ℚ) ^ ((Rounding.of m e).places - 17)
      = 10 ^ ((Rounding.of m e).places - 1) / 10 ^ 16 := hstep
    _ ≤ m * 2 ^ e / 10 ^ 16 := div_le_div_of_nonneg_right hplaces (by norm_num)
    _ = m / 10 ^ 16 * 2 ^ e := by ring
    _ < (gap m e + 1 / 2) * 2 ^ e := mul_lt_mul_of_pos_right hmantissa hpow

/-- The search ends on a grid if there is a decimal on the last one. -/
theorem exists_onGrid?_firstOnGrid {r : Rounding} {places : Int} (more count : Nat)
    (h : (r.onGrid? (places - (count + more : Nat))).isSome = true) :
    ∃ unit, r.onGrid? unit = some (firstOnGrid r places more count) := by
  induction more generalizing count with
  | zero =>
    obtain ⟨d, hd⟩ := Option.isSome_iff_exists.mp h
    rw [Nat.add_zero] at hd
    exact ⟨places - count, by rw [firstOnGrid, hd]; rfl⟩
  | succ more ih =>
    unfold firstOnGrid
    split
    · rename_i d hd
      exact ⟨places - count, hd⟩
    · refine ih (count + 1) ?_
      rwa [Nat.add_right_comm]

/-- The shortest decimal of a number lies in its interval. -/
theorem roundsTo_shortest (hscaled : IsScaled m e) (hm : 0 < m) :
    RoundsTo (shortest m e).value m e := by
  obtain ⟨unit, hunit⟩ := exists_onGrid?_firstOnGrid 16 1
    (Rounding.isSome_onGrid?_seventeen hscaled hm)
  exact Rounding.roundsTo_of_onGrid? hm hunit

theorem digits_shortest_pos (hscaled : IsScaled m e) (hm : 0 < m) : 0 < (shortest m e).digits := by
  refine Nat.pos_of_ne_zero fun hzero => ?_
  have hpos := (roundsTo_shortest hscaled hm).pos hm
  rw [Decimal.value, hzero, Nat.cast_zero, zero_mul] at hpos
  exact lt_irrefl 0 hpos

/-- A decimal of the value of the shortest one is read as the number. -/
theorem ofDecimal_of_value_eq (negative : Bool) (hscaled : IsScaled m e) (hm : 0 < m)
    (h : d.value = (shortest m e).value) :
    Double.ofDecimal negative d.digits d.exponent = .finite negative m e :=
  ofDecimal_eq negative hscaled hm (h ▸ roundsTo_shortest hscaled hm)

end PubspecTidy.Number
