import PubspecTidy.Proofs.Json.Numerals

/-!
# Numbers in a JSON document

Main statements: a number of double precision that is written into a document is read from it again,
and so is an integer of not too many digits.
-/
namespace PubspecTidy.Json

open Number (Double Layout)
open Text (isAsciiDigit)

variable {c : Char} {cs rest : List Char}

/-! ## Words -/

theorem takeWord?_of_ne {word : String} {first : Char} {more : List Char}
    (hword : word.toList = first :: more) (hne : first ≠ c) (cs : List Char) :
    takeWord? word (c :: cs) = none := by
  unfold takeWord?
  rw [if_neg]
  rw [hword, List.isPrefixOf_iff_prefix, List.cons_prefix_cons]
  exact fun hprefix => hne hprefix.1

/-- What no word starts with is a number. -/
theorem readWord_of_isAsciiDigit (hc : isAsciiDigit c = true) (cs : List Char) :
    readWord (c :: cs) = readNumber false (c :: cs) := by
  have hne (c' : Char) (h : isAsciiDigit c' = false) : c' ≠ c := by
    rintro rfl
    rw [h] at hc
    cases hc
  have hnone (word : String) {first : Char} {more : List Char} (hword : word.toList = first :: more)
      (h : isAsciiDigit first = false) : takeWord? word (c :: cs) = none :=
    takeWord?_of_ne hword (hne first h) cs
  unfold readWord
  rw [hnone "null" rfl rfl, hnone "true" rfl rfl, hnone "false" rfl rfl, hnone "NaN" rfl rfl,
    hnone "Infinity" rfl rfl, hnone "-Infinity" rfl rfl]
  dsimp only
  split
  · rename_i hminus
    cases hminus
    cases hc
  · rfl

theorem readWord_minus (hc : isAsciiDigit c = true) (cs : List Char) :
    readWord ('-' :: c :: cs) = readNumber true (c :: cs) := by
  have hnone (word : String) {first : Char} {more : List Char} (hword : word.toList = first :: more)
      (h : first ≠ '-') : takeWord? word ('-' :: c :: cs) = none := takeWord?_of_ne hword h _
  have hinfinity : takeWord? "-Infinity" ('-' :: c :: cs) = none := by
    have hne : c ≠ 'I' := by
      rintro rfl
      cases hc
    have hlist : "-Infinity".toList = '-' :: 'I' :: "nfinity".toList := rfl
    unfold takeWord?
    rw [if_neg]
    rw [hlist, List.isPrefixOf_iff_prefix, List.cons_prefix_cons, List.cons_prefix_cons]
    exact fun hprefix => hne hprefix.2.1.symm
  unfold readWord
  rw [hnone "null" rfl (by decide), hnone "true" rfl (by decide), hnone "false" rfl (by decide),
    hnone "NaN" rfl (by decide), hnone "Infinity" rfl (by decide), hinfinity]
  rfl

/-- A number with its sign in front is read if it is read without one. -/
theorem readWord_signed {negative : Bool} {v : Value} (hc : isAsciiDigit c = true)
    (h : readNumber negative (c :: cs) = some (v, rest)) :
    readWord (if negative then '-' :: c :: cs else c :: cs) = some (v, rest) := by
  cases negative with
  | true => exact (readWord_minus hc cs).trans h
  | false => exact (readWord_of_isAsciiDigit hc cs).trans h

/-! ## Numbers in a document -/

theorem Numeral.IsWritten.exists_first {n : Numeral} (h : n.IsWritten) :
    ∃ c cs, n.text = c :: cs ∧ isAsciiDigit c = true := by
  obtain ⟨c, cs, hwhole⟩ : ∃ c cs, n.whole = c :: cs := by
    rcases h.first with hzero | ⟨c, cs, hcons, -⟩
    · exact ⟨'0', [], hzero⟩
    · exact ⟨c, cs, hcons⟩
  refine ⟨c, cs ++ n.fractionText ++ n.powerText, ?_, h.whole c (hwhole ▸ List.mem_cons_self)⟩
  rw [text, hwhole, List.cons_append, List.cons_append]

theorem Spells.exists_first {text : List Char} {x : ℚ} (h : Spells text x) :
    ∃ c cs, text = c :: cs ∧ isAsciiDigit c = true := by
  obtain ⟨n, hwritten, -, rfl, -⟩ := h
  exact hwritten.exists_first

/-- What a word or a number starts with. -/
def StartsWord (c : Char) : Prop := isAsciiDigit c = true ∨ c ∈ ['-', 'N', 'I', 'n', 't', 'f']

/-- A number is read as it was written. -/
theorem readWord_float {x : Double} (hx : x.IsCanonical) (hrest : EndsNumber rest) :
    readWord ((Layout.json.text x).toList ++ rest) = some (.float x, rest) ∧
      ∃ c cs, (Layout.json.text x).toList = c :: cs ∧ StartsWord c := by
  cases x with
  | nan => exact ⟨rfl, 'N', _, rfl, .inr (by decide)⟩
  | infinite negative =>
    cases negative with
    | false => exact ⟨rfl, 'I', _, rfl, .inr (by decide)⟩
    | true => exact ⟨rfl, '-', _, rfl, .inr (by decide)⟩
  | finite negative m e =>
    have hread := readNumber_finite negative hx hrest
    obtain ⟨c, cs, hbody, hc⟩ : ∃ c cs,
        (if m = 0 then ['0', '.', '0'] else Layout.json.decimal (Number.shortest m e)) = c :: cs ∧
          isAsciiDigit c = true := by
      split
      · exact ⟨'0', _, rfl, rfl⟩
      · rename_i hm
        exact (spells_decimal (Number.digits_shortest_pos hx (Nat.pos_of_ne_zero hm))).exists_first
    rw [hbody] at hread
    have hsigned := readWord_signed hc hread
    unfold Layout.text
    dsimp only
    rw [hbody, String.toList_ofList]
    cases negative with
    | false => exact ⟨hsigned, c, cs, rfl, .inl hc⟩
    | true => exact ⟨hsigned, '-', c :: cs, rfl, .inr (by decide)⟩

/-! ## Integers -/

theorem dropUnderscores?_of_digits (p : Char → Bool) (after : Bool)
    (h : ∀ c ∈ cs, isAsciiDigit c = true) : Number.dropUnderscores? p after cs = some cs := by
  induction cs generalizing after with
  | nil => rfl
  | cons c cs ih =>
    have hne : c ≠ '_' := by
      rintro rfl
      cases h '_' List.mem_cons_self
    have hrest := ih (p c) fun c' hc' => h c' (List.mem_cons_of_mem c hc')
    unfold Number.dropUnderscores?
    split <;> rename_i hcons <;> cases hcons
    · exact absurd rfl hne
    · exact absurd rfl hne
    · rw [hrest, Option.map_some]

theorem mapM_baseDigit? (h : ∀ c ∈ cs, isAsciiDigit c = true) :
    cs.mapM (Number.baseDigit? 10) = some (cs.filterMap (Number.baseDigit? 10)) := by
  induction cs with
  | nil => rfl
  | cons c cs ih =>
    have hdigit := baseDigit?_of_isAsciiDigit (h c List.mem_cons_self)
    rw [List.mapM_cons, hdigit, ih fun c' hc' => h c' (List.mem_cons_of_mem c hc'),
      List.filterMap_cons_some hdigit]
    rfl

theorem length_filterMap_baseDigit? (h : ∀ c ∈ cs, isAsciiDigit c = true) :
    (cs.filterMap (Number.baseDigit? 10)).length = cs.length := by
  induction cs with
  | nil => rfl
  | cons c cs ih =>
    rw [List.filterMap_cons_some (baseDigit?_of_isAsciiDigit (h c List.mem_cons_self)),
      List.length_cons, ih fun c' hc' => h c' (List.mem_cons_of_mem c hc'), List.length_cons]

theorem readNat?_digits {n : Nat} (h : (Text.digits n).length ≤ Number.maxDigits) :
    Number.readNat? 10 (Text.digits n) = some n := by
  have hall : ∀ c ∈ Text.digits n, isAsciiDigit c = true := fun c => Text.isAsciiDigit_of_mem_digits
  have hne : ((Text.digits n).filterMap (Number.baseDigit? 10)).isEmpty = false := by
    rw [List.isEmpty_eq_false_iff, ← List.length_pos_iff, length_filterMap_baseDigit? hall]
    exact Nat.length_toDigits_pos
  have hvalue := natOfDigits_filterMap hall
  unfold Number.readNat?
  rw [dropUnderscores?_of_digits _ _ hall]
  dsimp only [Option.bind_eq_bind, Option.bind_some]
  rw [mapM_baseDigit? hall]
  dsimp only [Option.bind_some]
  rw [hne, length_filterMap_baseDigit? hall, hvalue, decide_eq_false (Nat.not_lt.mpr h),
    Bool.and_false, Bool.or_self, if_neg Bool.false_ne_true]
  exact congrArg some Nat.ofDigitChars_ten_toDigits

theorem isWritten_digits (n : Nat) : Numeral.IsWritten ⟨Text.digits n, [], none⟩ := by
  refine ⟨fun c => Text.isAsciiDigit_of_mem_digits, fun c hc => (by cases hc), ?_⟩
  rcases Nat.eq_zero_or_pos n with rfl | hpos
  · exact .inl rfl
  · obtain ⟨c, cs, hcons⟩ := List.exists_cons_of_ne_nil (Nat.toDigits_ne_nil (n := n) (b := 10))
    have hfirst := Text.head?_digits_ne_zero hpos
    refine .inr ⟨c, cs, hcons, ?_⟩
    rintro rfl
    exact hfirst (by rw [Text.digits, hcons]; rfl)

theorem readNumber_digits {n : Nat} (negative : Bool)
    (h : (Text.digits n).length ≤ Number.maxDigits) (hrest : EndsNumber rest) :
    readNumber negative (Text.digits n ++ rest) =
      some (.int (if negative then -(n : Int) else n), rest) := by
  have hwritten := isWritten_digits n
  have hwhole : takeWhole (Text.digits n ++ rest) = (Text.digits n, rest) :=
    Numeral.takeWhole_whole hwritten hrest.startsNoDigit
  have hfraction : takeFraction rest = ([], rest) := Numeral.takeFraction_fractionText hwritten hrest
  have hnat := readNat?_digits h
  obtain ⟨c, cs, hcons⟩ : ∃ c cs, Text.digits n = c :: cs :=
    List.exists_cons_of_ne_nil Nat.toDigits_ne_nil
  rw [hcons] at hwhole hnat ⊢
  unfold readNumber
  rw [hwhole]
  dsimp only
  rw [hfraction]
  dsimp only
  rw [takeExponent_of_endsNumber hrest]
  dsimp only
  rw [hnat]
  rfl

/-- An integer of not too many digits is read as it was written. -/
theorem readWord_int {n : Int} (h : (Text.digits n.natAbs).length ≤ Number.maxDigits)
    (hrest : EndsNumber rest) :
    readWord ((Text.ofInt n).toList ++ rest) = some (.int n, rest) ∧
      ∃ c cs, (Text.ofInt n).toList = c :: cs ∧ StartsWord c := by
  obtain ⟨c, cs, hcons, hc⟩ := (isWritten_digits n.natAbs).exists_first
  have hdigits : Text.digits n.natAbs = c :: cs := by
    rw [← hcons]
    simp [Numeral.text, Numeral.fractionText, Numeral.powerText]
  have hread (negative : Bool) := readNumber_digits negative h hrest
  rw [hdigits] at hread
  unfold Text.ofInt
  rw [String.toList_ofList, hdigits]
  rcases Int.lt_or_le n 0 with hsign | hsign
  · have hvalue : -(n.natAbs : Int) = n := by omega
    have hsigned := readWord_signed hc (hread true)
    rw [if_pos rfl, if_pos rfl, hvalue] at hsigned
    rw [if_pos hsign]
    exact ⟨hsigned, '-', c :: cs, rfl, .inr (by decide)⟩
  · have hvalue : (n.natAbs : Int) = n := by omega
    have hsigned := readWord_signed hc (hread false)
    rw [if_neg Bool.false_ne_true, if_neg Bool.false_ne_true, hvalue] at hsigned
    rw [if_neg (Int.not_lt.mpr hsign)]
    exact ⟨hsigned, c, cs, rfl, .inl hc⟩

end PubspecTidy.Json
