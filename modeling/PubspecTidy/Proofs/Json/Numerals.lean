import PubspecTidy.Json.Printer
import PubspecTidy.Json.Reader
import PubspecTidy.Proofs.Number.Canonical
import PubspecTidy.Proofs.Number.Shortest
import PubspecTidy.Proofs.Text.Digits
import Mathlib.Data.List.TakeWhile

/-!
# Numbers by their digits

A number is written in one of four ways, which are taken here for one: digits, perhaps a point and
more digits, perhaps a power of ten. Main statement: a finite number of double precision that is
written into a document is read from it again.
-/
namespace PubspecTidy.Json

open Number (Decimal Double Layout)
open Text (isAsciiDigit)

variable {c : Char} {cs ds rest : List Char}

/-! ## Digits -/

theorem baseDigit?_of_isAsciiDigit (h : isAsciiDigit c = true) :
    Number.baseDigit? 10 c = some (c.toNat - 48) := by
  have hbounds := Text.isAsciiDigit_iff.mp h
  have hdigit : '0' ≤ c ∧ c ≤ '9' := by simpa [isAsciiDigit] using h
  unfold Number.baseDigit?
  rw [if_pos hdigit]
  exact if_pos (by omega)

theorem natOfDigits_filterMap (h : ∀ c ∈ ds, isAsciiDigit c = true) :
    Number.natOfDigits 10 (ds.filterMap (Number.baseDigit? 10)) = Nat.ofDigitChars 10 ds 0 := by
  unfold Number.natOfDigits
  generalize 0 = n
  induction ds generalizing n with
  | nil => rfl
  | cons c ds ih =>
    rw [List.filterMap_cons_some (baseDigit?_of_isAsciiDigit (h c List.mem_cons_self)),
      List.foldl_cons, ih fun c hc => h c (List.mem_cons_of_mem _ hc), Nat.ofDigitChars_cons,
      Nat.mul_comm]
    rfl

/-- Digits end where the rest of a text starts with something else. -/
def StartsNoDigit (rest : List Char) : Prop := ∀ c ∈ rest.head?, isAsciiDigit c = false

theorem takeWhile_digits (h : ∀ c ∈ ds, isAsciiDigit c = true) (hrest : StartsNoDigit rest) :
    (ds ++ rest).takeWhile isAsciiDigit = ds := by
  rw [List.takeWhile_append_of_pos h]
  cases rest with
  | nil => exact List.append_nil ds
  | cons c rest =>
    rw [List.takeWhile_cons_of_neg (by simp [hrest c (Option.mem_some_self c)]), List.append_nil]

theorem dropWhile_digits (h : ∀ c ∈ ds, isAsciiDigit c = true) (hrest : StartsNoDigit rest) :
    (ds ++ rest).dropWhile isAsciiDigit = rest := by
  rw [List.dropWhile_append_of_pos h]
  cases rest with
  | nil => rfl
  | cons c rest => exact List.dropWhile_cons_of_neg (by simp [hrest c (Option.mem_some_self c)])

theorem takeDigits_append (h : ∀ c ∈ ds, isAsciiDigit c = true) (hrest : StartsNoDigit rest) :
    takeDigits (ds ++ rest) = (ds, rest) := by
  rw [takeDigits, takeWhile_digits h hrest, dropWhile_digits h hrest]

/-! ## Numbers by their parts -/

/-- A number by its digits before and after the point and its power of ten, if it has one. -/
structure Numeral where
  whole : List Char
  fraction : List Char
  power : Option Int

namespace Numeral

variable {n : Numeral}

def fractionText (n : Numeral) : List Char :=
  if n.fraction.isEmpty then [] else '.' :: n.fraction

def powerText (n : Numeral) : List Char := (n.power.map Layout.power).getD []

def text (n : Numeral) : List Char := n.whole ++ n.fractionText ++ n.powerText

def decimal (n : Numeral) : Decimal :=
  ⟨Nat.ofDigitChars 10 (n.whole ++ n.fraction) 0, n.power.getD 0 - (n.fraction.length : Int)⟩

/-- A number as a document has it: its first digit is no zero unless it is the only one before the
point. -/
structure IsWritten (n : Numeral) : Prop where
  whole : ∀ c ∈ n.whole, isAsciiDigit c = true
  fraction : ∀ c ∈ n.fraction, isAsciiDigit c = true
  first : n.whole = ['0'] ∨ ∃ c cs, n.whole = c :: cs ∧ c ≠ '0'

end Numeral

/-- What can follow a number. -/
def EndsNumber (rest : List Char) : Prop :=
  ∀ c ∈ rest.head?, isAsciiDigit c = false ∧ c ≠ '.' ∧ c ≠ 'e' ∧ c ≠ 'E'

theorem EndsNumber.startsNoDigit (h : EndsNumber rest) : StartsNoDigit rest :=
  fun c hc => (h c hc).1

/-- A power of ten starts with its letter. -/
theorem startsNoDigit_power (p : Int) (rest : List Char) :
    StartsNoDigit (Layout.power p ++ rest) := by
  intro c hc
  cases hc
  rfl

theorem takeExponent_power (p : Int) (hrest : EndsNumber rest) :
    takeExponent (Layout.power p ++ rest) = (Layout.power p, rest) := by
  obtain ⟨d, ds, hds⟩ : ∃ d ds, Text.padDigits 2 p.natAbs = d :: ds := by
    refine List.exists_cons_of_ne_nil fun hnil => ?_
    exact Nat.toDigits_ne_nil (List.append_eq_nil_iff.mp hnil).2
  have htake : takeDigits (Text.padDigits 2 p.natAbs ++ rest) = (Text.padDigits 2 p.natAbs, rest) :=
    takeDigits_append (fun c => Text.isAsciiDigit_of_mem_padDigits) hrest.startsNoDigit
  rw [hds] at htake
  unfold Layout.power takeExponent
  rw [hds]
  rcases Int.lt_or_le p 0 with hsign | hsign
  · rw [if_pos hsign]
    simp only [List.cons_append, List.nil_append, true_or, if_true] at htake ⊢
    rw [htake]
  · rw [if_neg (Int.not_lt.mpr hsign)]
    simp only [List.cons_append, List.nil_append, true_or, if_true] at htake ⊢
    rw [htake]

theorem takeExponent_of_endsNumber (hrest : EndsNumber rest) : takeExponent rest = ([], rest) := by
  cases rest with
  | nil => rfl
  | cons c rest =>
    obtain ⟨-, -, he, hE⟩ := hrest c (Option.mem_some_self c)
    unfold takeExponent
    exact if_neg fun h => h.elim he hE

theorem readExponent?_power (p : Int) : Number.readExponent? (Layout.power p) = some p := by
  have hne : (Text.padDigits 2 p.natAbs).isEmpty = false := by
    rw [List.isEmpty_eq_false_iff]
    exact fun hnil => Nat.toDigits_ne_nil (List.append_eq_nil_iff.mp hnil).2
  have hall : (Text.padDigits 2 p.natAbs).all isAsciiDigit = true :=
    List.all_eq_true.mpr fun c => Text.isAsciiDigit_of_mem_padDigits
  have hvalue : Number.natOfDigits 10
      ((Text.padDigits 2 p.natAbs).filterMap (Number.baseDigit? 10)) = p.natAbs := by
    rw [natOfDigits_filterMap fun c => Text.isAsciiDigit_of_mem_padDigits,
      Text.ofDigitChars_padDigits]
  unfold Layout.power Number.readExponent?
  rcases Int.lt_or_le p 0 with hsign | hsign
  · rw [if_pos hsign]
    simp only [List.cons_append, List.nil_append, true_or, if_true, Number.splitSign, hne, hall,
      Bool.not_true, Bool.or_self, Bool.false_eq_true, if_false, hvalue]
    exact congrArg some (by omega)
  · rw [if_neg (Int.not_lt.mpr hsign)]
    simp only [List.cons_append, List.nil_append, true_or, if_true, Number.splitSign, hne, hall,
      Bool.not_true, Bool.or_self, Bool.false_eq_true, if_false, hvalue]
    exact congrArg some (by omega)

namespace Numeral

variable {n : Numeral}

theorem takeExponent_powerText (n : Numeral) (hrest : EndsNumber rest) :
    takeExponent (n.powerText ++ rest) = (n.powerText, rest) := by
  unfold powerText
  cases n.power with
  | none => exact takeExponent_of_endsNumber hrest
  | some p => exact takeExponent_power p hrest

theorem startsNoDigit_powerText (n : Numeral) (hrest : StartsNoDigit rest) :
    StartsNoDigit (n.powerText ++ rest) := by
  unfold powerText
  cases n.power with
  | none => exact hrest
  | some p => exact startsNoDigit_power p rest

theorem startsNoDigit_fractionText (n : Numeral) (hrest : StartsNoDigit rest) :
    StartsNoDigit (n.fractionText ++ (n.powerText ++ rest)) := by
  unfold fractionText
  split
  · exact n.startsNoDigit_powerText hrest
  · intro c hc
    cases hc
    rfl

theorem takeFraction_fractionText (h : n.IsWritten) (hrest : EndsNumber rest) :
    takeFraction (n.fractionText ++ (n.powerText ++ rest)) =
      (n.fractionText, n.powerText ++ rest) := by
  unfold fractionText
  cases hfraction : n.fraction with
  | nil =>
    rw [List.isEmpty_nil, if_pos rfl, List.nil_append]
    unfold takeFraction
    split
    · rename_i more hpoint
      unfold powerText at hpoint
      cases hpower : n.power with
      | none =>
        rw [hpower] at hpoint
        have hends : rest = '.' :: more := hpoint
        exact absurd rfl (hrest '.' (by rw [hends]; rfl)).2.1
      | some p =>
        rw [hpower] at hpoint
        cases hpoint
    · rfl
  | cons c cs =>
    have htake := takeDigits_append h.fraction (n.startsNoDigit_powerText hrest.startsNoDigit)
    rw [hfraction] at htake
    unfold takeFraction
    simp only [List.isEmpty_cons, Bool.false_eq_true, if_false, List.cons_append] at htake ⊢
    rw [htake]

theorem takeWhole_whole (h : n.IsWritten) (hrest : StartsNoDigit rest) :
    takeWhole (n.whole ++ rest) = (n.whole, rest) := by
  rcases h.first with hzero | ⟨c, cs, hwhole, hc⟩
  · rw [hzero]
    rfl
  · have htake := takeDigits_append h.whole hrest
    rw [hwhole] at htake ⊢
    unfold takeWhole
    split
    · rename_i hfirst
      cases hfirst
      exact absurd rfl hc
    · exact htake

theorem readExponent?_powerText (n : Numeral) :
    Number.readExponent? n.powerText = some (n.power.getD 0) := by
  unfold powerText
  cases n.power with
  | none => rfl
  | some p => exact readExponent?_power p

theorem readDecimal?_text (negative : Bool) (h : n.IsWritten) :
    Number.readDecimal? negative n.text =
      some (Double.ofDecimal negative n.decimal.digits n.decimal.exponent) := by
  have hnil : StartsNoDigit [] := fun c hc => by cases hc
  have hwhole := takeWhile_digits h.whole (n.startsNoDigit_fractionText hnil)
  have hafter := dropWhile_digits h.whole (n.startsNoDigit_fractionText hnil)
  have hfraction := takeWhile_digits h.fraction (n.startsNoDigit_powerText hnil)
  have hend := dropWhile_digits h.fraction (n.startsNoDigit_powerText hnil)
  have hne : (n.whole ++ n.fraction).isEmpty = false := by
    rw [List.isEmpty_eq_false_iff]
    rcases h.first with hzero | ⟨c, cs, hcons, -⟩
    · simp [hzero]
    · simp [hcons]
  have hvalue : Number.natOfDigits 10
      ((n.whole ++ n.fraction).filterMap (Number.baseDigit? 10)) = n.decimal.digits := by
    refine natOfDigits_filterMap fun c hc => ?_
    exact (List.mem_append.mp hc).elim (h.whole c) (h.fraction c)
  rw [List.append_nil] at hwhole hafter hfraction hend
  have hsplit : n.text = n.whole ++ (n.fractionText ++ n.powerText) := List.append_assoc _ _ _
  have hpower := n.readExponent?_powerText
  unfold Number.readDecimal?
  rw [hsplit, hwhole, hafter]
  dsimp only
  unfold fractionText
  unfold decimal at hvalue ⊢
  cases hcases : n.fraction with
  | nil =>
    rw [hcases, List.append_nil] at hne hvalue
    rw [List.isEmpty_nil, if_pos rfl, List.nil_append]
    split
    · rename_i more hpoint
      unfold powerText at hpoint
      cases hp : n.power <;> rw [hp] at hpoint <;> cases hpoint
    · rw [List.append_nil, hne, if_neg Bool.false_ne_true, hpower, Option.map_some, hvalue]
  | cons c cs =>
    rw [hcases] at hfraction hend hne hvalue
    simp only [List.isEmpty_cons, Bool.false_eq_true, if_false, List.cons_append] at hfraction hend ⊢
    rw [hfraction, hend, hne, if_neg Bool.false_ne_true, hpower, Option.map_some, hvalue]

/-- A number with a fraction or a power of ten is read to its end. -/
theorem readNumber_text (negative : Bool) (h : n.IsWritten)
    (hfloat : n.fractionText ≠ [] ∨ n.powerText ≠ []) (hrest : EndsNumber rest) :
    readNumber negative (n.text ++ rest) =
      some (.float (Double.ofDecimal negative n.decimal.digits n.decimal.exponent), rest) := by
  obtain ⟨c, cs, hwhole⟩ : ∃ c cs, n.whole = c :: cs := by
    rcases h.first with hzero | ⟨c, cs, hcons, -⟩
    · exact ⟨'0', [], hzero⟩
    · exact ⟨c, cs, hcons⟩
  have htake := takeWhole_whole h (n.startsNoDigit_fractionText hrest.startsNoDigit)
  have hempty : (n.fractionText.isEmpty && n.powerText.isEmpty) = false := by
    rw [Bool.and_eq_false_iff, List.isEmpty_eq_false_iff, List.isEmpty_eq_false_iff]
    exact hfloat
  have hread := readDecimal?_text negative h
  have hsplit : n.text ++ rest = n.whole ++ (n.fractionText ++ (n.powerText ++ rest)) := by
    simp only [text, List.append_assoc]
  unfold text at hread
  unfold readNumber
  rw [hsplit, htake, hwhole]
  dsimp only
  rw [takeFraction_fractionText h hrest]
  dsimp only
  rw [takeExponent_powerText n hrest]
  dsimp only
  rw [hempty, if_neg Bool.false_ne_true, ← hwhole, hread, Option.map_some]

end Numeral

/-! ## Numbers as they are laid out -/

variable {d : Decimal}

/-- The digits of a positive decimal without the zeros at their end. -/
theorem exists_significant (h : 0 < d.digits) :
    ∃ c cs k, Layout.significant d = c :: cs ∧ c ≠ '0' ∧
      Text.digits d.digits = c :: cs ++ List.replicate k '0' := by
  have hsplit := List.takeWhile_append_dropWhile (p := (· == '0')) (l := (Text.digits d.digits).reverse)
  have hzeros : (Text.digits d.digits).reverse.takeWhile (· == '0') = List.replicate
      ((Text.digits d.digits).reverse.takeWhile (· == '0')).length '0' := by
    refine List.eq_replicate_of_mem fun c hc => ?_
    simpa using List.mem_takeWhile_imp hc
  have hreverse := congrArg List.reverse hsplit
  rw [List.reverse_append, List.reverse_reverse, hzeros, List.reverse_replicate] at hreverse
  have hfirst := Text.head?_digits_ne_zero h
  unfold Layout.significant
  cases hsignificant : ((Text.digits d.digits).reverse.dropWhile (· == '0')).reverse with
  | nil =>
    rw [hsignificant, List.nil_append] at hreverse
    rw [← hreverse, List.head?_replicate] at hfirst
    split at hfirst
    · rename_i hlength
      rw [hlength] at hreverse
      exact absurd hreverse.symm Nat.toDigits_ne_nil
    · exact absurd rfl hfirst
  | cons c cs =>
    rw [hsignificant] at hreverse
    refine ⟨c, cs, _, rfl, ?_, hreverse.symm⟩
    rintro rfl
    rw [← hreverse] at hfirst
    exact hfirst rfl

/-- A text is a number with a fraction or a power of ten, of a value. -/
def Spells (text : List Char) (x : ℚ) : Prop :=
  ∃ n : Numeral, n.IsWritten ∧ (n.fractionText ≠ [] ∨ n.powerText ≠ []) ∧ text = n.text ∧
    x = n.decimal.value

theorem isAsciiDigit_of_mem_zeros {n : Nat} (h : c ∈ List.replicate n '0') :
    isAsciiDigit c = true := by
  rw [List.eq_of_mem_replicate h]
  rfl

section Forms

variable {point : Int}

/-- The first digit, the others behind the point, and a power of ten. -/
theorem spells_power (hall : ∀ c' ∈ c :: cs, isAsciiDigit c' = true) (hc : c ≠ '0') (point : Int) :
    Spells ([c] ++ (if cs.isEmpty then [] else '.' :: cs) ++ Layout.power (point - 1))
      (Nat.ofDigitChars 10 (c :: cs) 0 * 10 ^ (point - (cs.length + 1))) := by
  refine ⟨⟨[c], cs, some (point - 1)⟩, ⟨?_, ?_, .inr ⟨c, [], rfl, hc⟩⟩, .inr ?_, rfl, ?_⟩
  · exact fun c' hc' => hall c' (List.mem_singleton.mp hc' ▸ List.mem_cons_self)
  · exact fun c' hc' => hall c' (List.mem_cons_of_mem c hc')
  · exact List.cons_ne_nil _ _
  · have hexponent : point - (cs.length + 1) = point - 1 - cs.length := by omega
    rw [hexponent]
    rfl

/-- Zeros between the point and the first digit. -/
theorem spells_below (hall : ∀ c' ∈ c :: cs, isAsciiDigit c' = true) (h : point ≤ 0) :
    Spells (['0', '.'] ++ List.replicate (-point).toNat '0' ++ c :: cs)
      (Nat.ofDigitChars 10 (c :: cs) 0 * 10 ^ (point - (cs.length + 1))) := by
  refine ⟨⟨['0'], List.replicate (-point).toNat '0' ++ c :: cs, none⟩,
    ⟨fun c' hc' => isAsciiDigit_of_mem_zeros (n := 1) hc', fun c' hc' => ?_, .inl rfl⟩,
    .inl ?_, ?_, ?_⟩
  · exact (List.mem_append.mp hc').elim isAsciiDigit_of_mem_zeros (hall c')
  · simp [Numeral.fractionText]
  · simp [Numeral.text, Numeral.fractionText, Numeral.powerText]
  · have hdigits : Nat.ofDigitChars 10 (['0'] ++ (List.replicate (-point).toNat '0' ++ c :: cs)) 0 =
        Nat.ofDigitChars 10 (c :: cs) 0 := by
      have hzero : ['0'] ++ (List.replicate (-point).toNat '0' ++ c :: cs) =
          List.replicate ((-point).toNat + 1) '0' ++ c :: cs := rfl
      rw [hzero, Nat.ofDigitChars_append, Nat.ofDigitChars_replicate_zero, Nat.mul_zero]
    have hexponent : point - (cs.length + 1) = (none : Option Int).getD 0 -
        ((List.replicate (-point).toNat '0' ++ c :: cs).length : Int) := by
      rw [List.length_append, List.length_replicate, List.length_cons, Option.getD_none]
      omega
    unfold Numeral.decimal Decimal.value
    rw [hdigits, hexponent]

/-- Zeros between the last digit and the point. -/
theorem spells_above (hall : ∀ c' ∈ c :: cs, isAsciiDigit c' = true) (hc : c ≠ '0')
    (h : ((c :: cs).length : Int) ≤ point) :
    Spells (c :: cs ++ List.replicate (point.toNat - (c :: cs).length) '0' ++ ['.', '0'])
      (Nat.ofDigitChars 10 (c :: cs) 0 * 10 ^ (point - (cs.length + 1))) := by
  rw [List.length_cons] at h
  refine ⟨⟨c :: cs ++ List.replicate (point.toNat - (c :: cs).length) '0', ['0'], none⟩,
    ⟨fun c' hc' => ?_, fun c' hc' => isAsciiDigit_of_mem_zeros (n := 1) hc', .inr ⟨c, _, rfl, hc⟩⟩,
    .inl ?_, ?_, ?_⟩
  · exact (List.mem_append.mp hc').elim (hall c') isAsciiDigit_of_mem_zeros
  · simp [Numeral.fractionText]
  · simp [Numeral.text, Numeral.fractionText, Numeral.powerText]
  · have hdigits : Nat.ofDigitChars 10
        (c :: cs ++ List.replicate (point.toNat - (c :: cs).length) '0' ++ ['0']) 0 =
        10 ^ (point.toNat - (c :: cs).length + 1) * Nat.ofDigitChars 10 (c :: cs) 0 := by
      have hzero : ['0'] = List.replicate 1 '0' := rfl
      rw [List.append_assoc, hzero, List.replicate_append_replicate, Nat.ofDigitChars_append,
        Nat.ofDigitChars_replicate_zero]
    have hexponent : point - (cs.length + 1) =
        ((point.toNat - (c :: cs).length + 1 : Nat) : Int) +
          ((none : Option Int).getD 0 - (['0'].length : Int)) := by
      rw [List.length_cons, List.length_singleton, Option.getD_none]
      omega
    unfold Numeral.decimal Decimal.value
    rw [hdigits, hexponent, zpow_add₀ (by norm_num), zpow_natCast]
    push_cast
    ring

/-- The point among the digits. -/
theorem spells_within (hall : ∀ c' ∈ c :: cs, isAsciiDigit c' = true) (hc : c ≠ '0')
    (hpos : 0 < point) (h : point < (c :: cs).length) :
    Spells ((c :: cs).take point.toNat ++ ['.'] ++ (c :: cs).drop point.toNat)
      (Nat.ofDigitChars 10 (c :: cs) 0 * 10 ^ (point - (cs.length + 1))) := by
  rw [List.length_cons] at h
  obtain ⟨p, hp⟩ : ∃ p : Nat, point.toNat = p + 1 := ⟨point.toNat - 1, by omega⟩
  have hne : ((c :: cs).drop point.toNat).isEmpty = false := by
    rw [List.isEmpty_eq_false_iff, ne_eq, List.drop_eq_nil_iff, List.length_cons]
    omega
  refine ⟨⟨(c :: cs).take point.toNat, (c :: cs).drop point.toNat, none⟩,
    ⟨fun c' hc' => hall c' (List.mem_of_mem_take hc'),
      fun c' hc' => hall c' (List.mem_of_mem_drop hc'), .inr ⟨c, cs.take p, by rw [hp]; rfl, hc⟩⟩,
    .inl ?_, ?_, ?_⟩
  · rw [Numeral.fractionText, hne]
    exact List.cons_ne_nil _ _
  · unfold Numeral.text Numeral.fractionText Numeral.powerText
    rw [hne, if_neg Bool.false_ne_true, Option.map_none, Option.getD_none, List.append_nil,
      List.append_assoc]
    rfl
  · have hexponent : point - (cs.length + 1) =
        (none : Option Int).getD 0 - (((c :: cs).drop point.toNat).length : Int) := by
      rw [List.length_drop, List.length_cons, Option.getD_none]
      omega
    unfold Numeral.decimal Decimal.value
    dsimp only
    rw [List.take_append_drop, hexponent]

end Forms

/-- A positive decimal is laid out as a number of its value. -/
theorem spells_decimal (h : 0 < d.digits) : Spells (Layout.json.decimal d) d.value := by
  obtain ⟨c, cs, k, hsignificant, hc, hdigits⟩ := exists_significant h
  have hall : ∀ c' ∈ c :: cs, isAsciiDigit c' = true := fun c' hc' =>
    Text.isAsciiDigit_of_mem_digits (hdigits ▸ List.mem_append_left _ hc')
  have hlength : ((Text.digits d.digits).length : Int) = cs.length + 1 + k := by
    rw [hdigits, List.length_append, List.length_replicate, List.length_cons]
    omega
  have hproduct : d.digits = 10 ^ k * Nat.ofDigitChars 10 (c :: cs) 0 := by
    rw [← Nat.ofDigitChars_replicate_zero, ← Nat.ofDigitChars_append, ← hdigits]
    exact Nat.ofDigitChars_ten_toDigits.symm
  have hvalue : d.value = Nat.ofDigitChars 10 (c :: cs) 0 *
      10 ^ ((Text.digits d.digits).length + d.exponent - (cs.length + 1)) := by
    have hexponent : (Text.digits d.digits).length + d.exponent - (cs.length + 1) =
        (k : Int) + d.exponent := by omega
    rw [hexponent, zpow_add₀ (by norm_num), zpow_natCast]
    unfold Decimal.value
    rw [hproduct]
    push_cast
    ring
  unfold Layout.decimal
  rw [hsignificant, hvalue]
  dsimp only
  generalize ((Text.digits d.digits).length : Int) + d.exponent = point
  split
  · have hspells := spells_power hall hc point
    cases cs <;> exact hspells
  split
  · exact spells_below hall (by assumption)
  split
  · exact spells_above hall hc (by assumption)
  · exact spells_within hall hc (by omega) (by omega)

/-- A zero is written with a fraction. -/
theorem readNumber_zero (negative : Bool) (hrest : EndsNumber rest) :
    readNumber negative (['0', '.', '0'] ++ rest) =
      some (.float (.finite negative 0 Double.leastExponent), rest) := by
  have hdigit (c : Char) (hc : c ∈ ['0']) : isAsciiDigit c = true :=
    isAsciiDigit_of_mem_zeros (n := 1) hc
  exact Numeral.readNumber_text (n := ⟨['0'], ['0'], none⟩) negative ⟨hdigit, hdigit, .inl rfl⟩
    (.inl (List.cons_ne_nil _ _)) hrest

/-- A finite number without its sign is read with the sign that stands before it. -/
theorem readNumber_finite {m : Nat} {e : Int} (negative : Bool) (hscaled : Number.IsScaled m e)
    (hrest : EndsNumber rest) :
    readNumber negative
        ((if m = 0 then ['0', '.', '0'] else Layout.json.decimal (Number.shortest m e)) ++ rest) =
      some (.float (.finite negative m e), rest) := by
  split
  · rename_i hm
    subst hm
    rw [readNumber_zero negative hrest, hscaled.normal.resolve_left (by norm_num)]
  · rename_i hm
    have hm := Nat.pos_of_ne_zero hm
    obtain ⟨n, hwritten, hfloat, htext, hvalue⟩ :=
      spells_decimal (Number.digits_shortest_pos hscaled hm)
    rw [htext, Numeral.readNumber_text negative hwritten hfloat hrest,
      Number.ofDecimal_of_value_eq negative hscaled hm hvalue.symm]

end PubspecTidy.Json
