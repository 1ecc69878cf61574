import PubspecTidy.Json.Printer
import PubspecTidy.Json.Reader
import Mathlib.Data.List.Chain

/-!
# Texts in a JSON document

Main statement: a text that is written between quotes is read again, unless the two halves of a
surrogate pair stand in it as two characters, which are read as one.
-/
namespace PubspecTidy.Json

open Text (charOfCode charOfPair codeOf half? holdsHalf isHalf isHighHalf isLowHalf)

variable {c : Char} {cs rest tail : List Char} {n : Nat}

/-! ## Hexadecimal digits -/

theorem hexValue?_digitChar : ∀ n < 16, Text.hexValue? (Nat.digitChar n) = some n := by
  decide

theorem hexDigits_four (h : n < 0x10000) :
    Text.hexDigits false 4 n =
      [Nat.digitChar (n / 0x1000), Nat.digitChar (n / 0x100 % 16), Nat.digitChar (n / 0x10 % 16),
        Nat.digitChar (n % 16)] := by
  have hzero : Nat.digitChar 0 = '0' := rfl
  unfold Text.hexDigits
  rcases Nat.lt_or_ge n 0x10 with h₁ | h₁
  · rw [Nat.toDigits_of_lt_base h₁, Nat.div_eq_of_lt (by omega), Nat.div_eq_of_lt (by omega),
      Nat.div_eq_of_lt (by omega), Nat.mod_eq_of_lt h₁]
    rfl
  rw [Nat.toDigits_of_base_le (by decide) h₁]
  rcases Nat.lt_or_ge n 0x100 with h₂ | h₂
  · rw [Nat.toDigits_of_lt_base (by omega), Nat.div_eq_of_lt (by omega : n < 0x1000),
      Nat.div_eq_of_lt (by omega : n < 0x100), Nat.mod_eq_of_lt (by omega : n / 0x10 < 16)]
    rfl
  rw [Nat.toDigits_of_base_le (by decide) (by omega), Nat.div_div_eq_div_mul]
  rcases Nat.lt_or_ge n 0x1000 with h₃ | h₃
  · rw [Nat.toDigits_of_lt_base (by omega), Nat.div_eq_of_lt (by omega : n < 0x1000),
      Nat.mod_eq_of_lt (by omega : n / 0x100 < 16)]
    rfl
  · rw [Nat.toDigits_of_base_le (by decide) (by omega), Nat.div_div_eq_div_mul,
      Nat.toDigits_of_lt_base (by omega)]
    rfl

/-- Four digits have the value of the code unit that they are written for. -/
theorem exists_unitEscape (h : n < 0x10000) :
    ∃ a b c d, unitEscape n = ['\\', 'u', a, b, c, d] ∧ hex4? a b c d = some n := by
  refine ⟨_, _, _, _, congrArg (['\\', 'u'] ++ ·) (hexDigits_four h), ?_⟩
  unfold hex4?
  rw [hexValue?_digitChar _ (by omega), hexValue?_digitChar _ (by omega),
    hexValue?_digitChar _ (by omega), hexValue?_digitChar _ (by omega)]
  exact congrArg some (by omega)

/-! ## The code points of characters -/

theorem isHalf_iff : isHalf n = true ↔ 0xD800 ≤ n ∧ n ≤ 0xDFFF := by
  simp only [isHalf, isHighHalf, isLowHalf, Bool.or_eq_true, Bool.and_eq_true, decide_eq_true_eq]
  omega

theorem isHalf_toNat (c : Char) : isHalf c.toNat = false := by
  rw [Bool.eq_false_iff, ne_eq, isHalf_iff]
  rcases c.valid with h | ⟨h, -⟩
  · change c.toNat < 0xD800 at h
    omega
  · change 0xDFFF < c.toNat at h
    omega

theorem charOfCode_codeOf (c : Char) : charOfCode (codeOf c) = c := by
  unfold charOfCode codeOf half?
  dsimp only
  by_cases hhalf : isHalf (c.toNat - Text.halfShift) = true
  · have hbounds := (isHalf_iff).mp hhalf
    have hsum : c.toNat - Text.halfShift + Text.halfShift = c.toNat := Nat.sub_add_cancel (by omega)
    rw [if_pos hhalf, Option.getD_some, if_pos hhalf, hsum, Char.ofNat_toNat]
  · rw [if_neg hhalf, Option.getD_none, isHalf_toNat, if_neg Bool.false_ne_true, Char.ofNat_toNat]

/-- A character beyond the first plane is no half. -/
theorem codeOf_eq_toNat (h : 0x10000 ≤ codeOf c) : codeOf c = c.toNat := by
  unfold codeOf half? at h ⊢
  dsimp only at h ⊢
  by_cases hhalf : isHalf (c.toNat - Text.halfShift) = true
  · have hbounds := (isHalf_iff).mp hhalf
    rw [if_pos hhalf, Option.getD_some] at h
    omega
  · rw [if_neg hhalf, Option.getD_none]

theorem toNat_lt (c : Char) : c.toNat < 0x110000 := by
  rcases c.valid with h | ⟨-, h⟩
  · change c.toNat < 0xD800 at h
    omega
  · exact h

/-- A character beyond the first plane is that of its two halves. -/
theorem charOfPair_halves (h : 0x10000 ≤ c.toNat) :
    charOfPair (0xD800 + (c.toNat - 0x10000) / 0x400) (0xDC00 + (c.toNat - 0x10000) % 0x400) = c := by
  have hsum : 0x10000 + (0xD800 + (c.toNat - 0x10000) / 0x400 - 0xD800) * 0x400 +
      (0xDC00 + (c.toNat - 0x10000) % 0x400 - 0xDC00) = c.toNat := by omega
  rw [charOfPair, hsum, Char.ofNat_toNat]

/-! ## Reading one character -/

/-- The text starts with the escape of the second half of a pair. -/
def StartsLow (tail : List Char) : Prop :=
  ∃ e f g h low rest, tail = '\\' :: 'u' :: e :: f :: g :: h :: rest ∧ hex4? e f g h = some low ∧
    isLowHalf low = true

/-- An escape of a half takes the next escape for its other half only if that is one. -/
theorem readString_unit {a b c d : Char} (hn : hex4? a b c d = some n)
    (hpair : isHighHalf n = true → ¬ StartsLow tail) :
    readString ('\\' :: 'u' :: a :: b :: c :: d :: tail) =
      consRead (charOfCode n) (readString tail) := by
  rw [readString.eq_def]
  split <;> rename_i hcons <;> cases hcons
  · rename_i e f g h rest
    rw [hn]
    cases hlow : hex4? e f g h with
    | none => rfl
    | some low =>
      dsimp only
      rw [if_neg]
      intro hboth
      obtain ⟨hhigh, hlow'⟩ := Bool.and_eq_true_iff.mp hboth
      exact hpair hhigh ⟨e, f, g, h, low, rest, rfl, hlow, hlow'⟩
  · rw [hn]
  · rename_i hunit
    exact (hunit a b c d tail rfl rfl).elim
  · rename_i hescape
    exact (hescape 'u' _ rfl rfl).elim

theorem readString_pair {a b c d e f g h : Char} {high low : Nat} (hhigh : hex4? a b c d = some high)
    (hlow : hex4? e f g h = some low) (hhigh' : isHighHalf high = true)
    (hlow' : isLowHalf low = true) (tail : List Char) :
    readString ('\\' :: 'u' :: a :: b :: c :: d :: '\\' :: 'u' :: e :: f :: g :: h :: tail) =
      consRead (charOfPair high low) (readString tail) := by
  rw [readString.eq_def]
  simp only [hhigh, hlow, hhigh', hlow', Bool.and_self, if_true]

theorem readString_escaped {e : Char} (hc : c ≠ 'u') (he : escaped? c = some e) (tail : List Char) :
    readString ('\\' :: c :: tail) = consRead e (readString tail) := by
  rw [readString.eq_def]
  split <;> rename_i hcons <;> cases hcons
  · exact absurd rfl hc
  · exact absurd rfl hc
  · rw [he]
  · rename_i hescape
    exact (hescape c tail rfl rfl).elim

theorem readString_plain (hquote : c ≠ '"') (hslash : c ≠ '\\') (h : 0x20 ≤ c.toNat)
    (tail : List Char) : readString (c :: tail) = consRead c (readString tail) := by
  rw [readString.eq_def]
  split <;> rename_i hcons <;> cases hcons
  · exact absurd rfl hquote
  · exact absurd rfl hslash
  · exact absurd rfl hslash
  · exact absurd rfl hslash
  · rw [if_neg (Nat.not_lt.mpr h)]

/-! ## Reading what was escaped -/

/-- A character that is not escaped by a letter is escaped by its code units. -/
theorem escapeChar_cases (c : Char) :
    (∃ e, escapeChar c = ['\\', e] ∧ e ≠ 'u' ∧ escaped? e = some c) ∨
      (escapeChar c = [c] ∧ c ≠ '"' ∧ c ≠ '\\' ∧ 0x20 ≤ c.toNat) ∨
      (escapeChar c = unitEscape (codeOf c) ∧ codeOf c < 0x10000) ∨
      (escapeChar c = unitEscape (0xD800 + (c.toNat - 0x10000) / 0x400) ++
        unitEscape (0xDC00 + (c.toNat - 0x10000) % 0x400) ∧ 0x10000 ≤ c.toNat) := by
  unfold escapeChar
  by_cases hquote : c = '"' ∨ c = '\\'
  · rw [if_pos hquote]
    refine .inl ⟨c, rfl, ?_, ?_⟩
    · rcases hquote with rfl | rfl <;> decide
    · rcases hquote with rfl | rfl <;> rfl
  rw [if_neg hquote]
  by_cases hfeed : c = '\n'
  · exact .inl ⟨'n', by rw [if_pos hfeed], by decide, by rw [hfeed]; rfl⟩
  rw [if_neg hfeed]
  by_cases hreturn : c = '\r'
  · exact .inl ⟨'r', by rw [if_pos hreturn], by decide, by rw [hreturn]; rfl⟩
  rw [if_neg hreturn]
  by_cases htab : c = '\t'
  · exact .inl ⟨'t', by rw [if_pos htab], by decide, by rw [htab]; rfl⟩
  rw [if_neg htab]
  by_cases hback : c = '\x08'
  · exact .inl ⟨'b', by rw [if_pos hback], by decide, by rw [hback]; rfl⟩
  rw [if_neg hback]
  by_cases hform : c = '\x0C'
  · exact .inl ⟨'f', by rw [if_pos hform], by decide, by rw [hform]; rfl⟩
  rw [if_neg hform]
  by_cases hplain : ' ' ≤ c ∧ c ≤ '~'
  · rw [if_pos hplain]
    exact .inr (.inl ⟨rfl, fun h => hquote (.inl h), fun h => hquote (.inr h), hplain.1⟩)
  rw [if_neg hplain]
  by_cases hcode : codeOf c < 0x10000
  · exact .inr (.inr (.inl ⟨by rw [if_pos hcode], hcode⟩))
  · rw [if_neg hcode]
    have hlarge := Nat.not_lt.mp hcode
    exact .inr (.inr (.inr ⟨rfl, codeOf_eq_toNat hlarge ▸ hlarge⟩))

/-- An escaped character is read as it was, unless it is a half that meets its other half. -/
theorem readString_escapeChar (c : Char) (h : isHighHalf (codeOf c) = true → ¬ StartsLow tail) :
    readString (escapeChar c ++ tail) = consRead c (readString tail) := by
  rcases escapeChar_cases c with ⟨e, hescape, hu, he⟩ | ⟨hescape, hquote, hslash, hprintable⟩ |
    ⟨hescape, hcode⟩ | ⟨hescape, hlarge⟩ <;> rw [hescape]
  · exact readString_escaped hu he tail
  · exact readString_plain hquote hslash hprintable tail
  · obtain ⟨a, b, d, e, hunit, hn⟩ := exists_unitEscape hcode
    rw [hunit]
    exact (readString_unit hn h).trans (by rw [charOfCode_codeOf])
  · have hlt := toNat_lt c
    obtain ⟨a, b, d, e, hfirst, hhigh⟩ :=
      exists_unitEscape (n := 0xD800 + (c.toNat - 0x10000) / 0x400) (by omega)
    obtain ⟨f, g, i, j, hsecond, hlow⟩ :=
      exists_unitEscape (n := 0xDC00 + (c.toNat - 0x10000) % 0x400) (by omega)
    rw [hfirst, hsecond]
    have hpair := readString_pair hhigh hlow (by simp [isHighHalf]; omega)
      (by simp [isLowHalf]; omega) tail
    exact hpair.trans (by rw [charOfPair_halves hlarge])

/-- Only a second half is escaped as one. -/
theorem isLowHalf_of_startsLow (h : StartsLow (escapeChar c ++ tail)) :
    isLowHalf (codeOf c) = true := by
  obtain ⟨e, f, g, i, low, rest, htext, hlow, hlow'⟩ := h
  rcases escapeChar_cases c with ⟨e, hescape, hu, -⟩ | ⟨hescape, -, hslash, -⟩ |
    ⟨hescape, hcode⟩ | ⟨hescape, hlarge⟩ <;> rw [hescape] at htext
  · cases htext
    exact absurd rfl hu
  · cases htext
    exact absurd rfl hslash
  · obtain ⟨a, b, d, e, hunit, hn⟩ := exists_unitEscape hcode
    rw [hunit] at htext
    cases htext
    have hcode := Option.some.inj (hn.symm.trans hlow)
    exact hcode ▸ hlow'
  · have hlt := toNat_lt c
    obtain ⟨a, b, d, e, hfirst, hhigh⟩ :=
      exists_unitEscape (n := 0xD800 + (c.toNat - 0x10000) / 0x400) (by omega)
    rw [hfirst] at htext
    cases htext
    rw [hhigh] at hlow
    rw [← Option.some.inj hlow] at hlow'
    simp only [isLowHalf, Bool.and_eq_true, decide_eq_true_eq] at hlow'
    omega

/-- In the text, no first half of a surrogate pair stands right before a second half. What was read
from a document is such a text, and so is one that holds no halves. -/
def IsWhole (cs : List Char) : Prop :=
  cs.IsChain fun c c' => ¬ (isHighHalf (codeOf c) = true ∧ isLowHalf (codeOf c') = true)

theorem isWhole_of_holdsHalf (h : holdsHalf cs = false) : IsWhole cs := by
  refine (List.pairwise_of_forall_mem_list fun c hc c' _ => ?_).isChain
  rintro ⟨hhigh, -⟩
  have hnone : half? c = none := by simpa using List.any_eq_false.mp h c hc
  have hhalf := isHalf_toNat c
  rw [codeOf, hnone, Option.getD_none] at hhigh
  rw [isHalf, hhigh, Bool.true_or] at hhalf
  cases hhalf

theorem readString_flatMap (h : IsWhole cs) (rest : List Char) :
    readString (cs.flatMap escapeChar ++ '"' :: rest) = some (cs, rest) := by
  induction cs with
  | nil => rfl
  | cons c cs ih =>
    have hpair : isHighHalf (codeOf c) = true → ¬ StartsLow (cs.flatMap escapeChar ++ '"' :: rest) := by
      intro hhigh hlow
      cases cs with
      | nil =>
        obtain ⟨_, _, _, _, _, _, htext, -, -⟩ := hlow
        cases htext
      | cons c' cs =>
        rw [List.flatMap_cons, List.append_assoc] at hlow
        exact (List.isChain_cons_cons.mp h).1 ⟨hhigh, isLowHalf_of_startsLow hlow⟩
    rw [List.flatMap_cons, List.append_assoc, readString_escapeChar c hpair, ih h.tail]
    rfl

end PubspecTidy.Json
