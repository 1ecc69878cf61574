import PubspecTidy.Proofs.Text.Ascii
import PubspecTidy.Proofs.Text.Digits
import PubspecTidy.Proofs.Time.Stamps

/-!
# Stamps written and read

Main statement: a stamp that is written in the ISO 8601 format is read again.
-/
namespace PubspecTidy.Time

open Text (asciiBytes isAsciiDigit padDigits)

variable {c : Char} {cs ds : List Char} {rest : List UInt8} {n width : Nat} {t : Stamp}

/-! ## Digits -/

theorem byteIs_ascii {c c' : Char} (h : c.toNat < 128) :
    byteIs c' (UInt8.ofNat c.toNat) = (c.toNat == c'.toNat) := by
  rw [byteIs, Text.toNat_asciiByte h]

theorem lt_of_isAsciiDigit (h : isAsciiDigit c = true) : c.toNat < 128 := by
  have hbounds := Text.isAsciiDigit_iff.mp h
  omega

theorem readDigits?_asciiBytes (h : ∀ c ∈ ds, isAsciiDigit c = true) (value : Nat)
    (rest : List UInt8) :
    readDigits? value ds.length (asciiBytes ds ++ rest) =
      some (Nat.ofDigitChars 10 ds value, rest) := by
  induction ds generalizing value with
  | nil => rfl
  | cons c ds ih =>
    have hc := h c List.mem_cons_self
    have hbounds := Text.isAsciiDigit_iff.mp hc
    have hbyte := Text.toNat_asciiByte (lt_of_isAsciiDigit hc)
    have hdigit : isDigitByte (UInt8.ofNat c.toNat) = true := by
      rw [isDigitByte, hbyte]
      simpa using hbounds
    have hrest := ih (fun c' hc' => h c' (List.mem_cons_of_mem c hc')) (value * 10 + (c.toNat - 48))
    change (if isDigitByte (UInt8.ofNat c.toNat) then readDigits?
      (value * 10 + ((UInt8.ofNat c.toNat).toNat - 48)) ds.length (asciiBytes ds ++ rest) else none) = _
    rw [if_pos hdigit, hbyte, hrest, Nat.ofDigitChars_cons, Nat.mul_comm]
    rfl

/-- A number of a fixed width is read. -/
theorem readDigits?_padDigits (hwidth : 0 < width) (h : n < 10 ^ width) (rest : List UInt8) :
    readDigits? 0 width (asciiBytes (padDigits width n) ++ rest) = some (n, rest) := by
  have hdigits : ∀ c ∈ padDigits width n, isAsciiDigit c = true :=
    fun c => Text.isAsciiDigit_of_mem_padDigits
  have hread := readDigits?_asciiBytes hdigits 0 rest
  rwa [Text.length_padDigits hwidth h, Text.ofDigitChars_padDigits] at hread

theorem exists_padDigits (width n : Nat) :
    ∃ c cs, padDigits width n = c :: cs ∧ isAsciiDigit c = true := by
  obtain ⟨c, cs, hcons⟩ := List.exists_cons_of_ne_nil (l := padDigits width n) fun hnil =>
    Nat.toDigits_ne_nil (List.append_eq_nil_iff.mp hnil).2
  exact ⟨c, cs, hcons, Text.isAsciiDigit_of_mem_padDigits (hcons ▸ List.mem_cons_self)⟩

/-- A number starts with no other character than a digit. -/
theorem startsWithByte_padDigits (h : isAsciiDigit c = false) (width n : Nat) (rest : List UInt8) :
    startsWithByte c (asciiBytes (padDigits width n) ++ rest) = false := by
  obtain ⟨c', cs, hcons, hc'⟩ := exists_padDigits width n
  rw [hcons]
  change byteIs c (UInt8.ofNat c'.toNat) = false
  rw [byteIs_ascii (lt_of_isAsciiDigit hc'), beq_eq_false_iff_ne]
  intro heq
  rw [Char.toNat_inj.mp heq, h] at hc'
  cases hc'

/-! ## The date -/

/-- The bytes between which the parts of a text stand. -/
def dash : UInt8 := 45

def colon : UInt8 := 58

def point : UInt8 := 46

theorem asciiBytes_dateText (d : Date) :
    asciiBytes (Stamp.dateText d) = asciiBytes (padDigits 4 d.year) ++ dash ::
      (asciiBytes (padDigits 2 d.month) ++ dash :: (asciiBytes (padDigits 2 d.day) ++ [])) := by
  simp only [Stamp.dateText, Text.asciiBytes_append, List.append_assoc, List.append_nil]
  rfl

theorem readDate?_dateText {d : Date} (h : d.isValid = true) :
    readDate? (asciiBytes (Stamp.dateText d)) = some d := by
  obtain ⟨-, hyear, -, hmonth, -, hday⟩ := Date.isValid_iff.mp h
  have hlast := daysInMonth_le d.year d.month
  unfold greatestYear at hyear
  have hdash (bs : List UInt8) : startsWithByte '-' (dash :: bs) = true := rfl
  unfold readDate?
  rw [asciiBytes_dateText, readDigits?_padDigits (by decide) (by omega)]
  simp only [Option.bind_eq_bind, Option.bind_some, hdash, skipHyphen?, Bool.not_true,
    Bool.false_eq_true, if_false, if_true, List.drop_one, List.tail_cons,
    startsWithByte_padDigits (c := 'W') rfl]
  rw [readDigits?_padDigits (by decide) (by omega)]
  simp only [Option.bind_some, hdash, if_true, List.tail_cons]
  rw [readDigits?_padDigits (by decide) (by omega)]
  simp only [Option.bind_some]
  exact if_pos h

/-! ## The time -/

theorem stepAfter?_colon (width n : Nat) (rest : List UInt8) :
    stepAfter? true (colon :: (asciiBytes (padDigits width n) ++ rest)) =
      some (.next (asciiBytes (padDigits width n) ++ rest)) := by
  obtain ⟨c, cs, hcons, -⟩ := exists_padDigits width n
  rw [hcons]
  rfl

theorem stepAfter?_point (width n : Nat) (rest : List UInt8) :
    stepAfter? true (point :: (asciiBytes (padDigits width n) ++ rest)) =
      some (.fraction (asciiBytes (padDigits width n) ++ rest)) := by
  obtain ⟨c, cs, hcons, -⟩ := exists_padDigits width n
  rw [hcons]
  rfl

theorem readFraction?_padDigits (h m s : Nat) (hn : n < second) :
    readFraction? h m s (asciiBytes (padDigits 6 n) ++ []) = some ⟨h, m, s, n, false⟩ := by
  have hlength : (asciiBytes (padDigits 6 n) ++ []).length = 6 := by
    rw [List.append_nil, asciiBytes, List.length_map, Text.length_padDigits (by decide) hn]
  unfold readFraction?
  rw [hlength]
  simp only [Nat.min_self, readDigits?_padDigits (show 0 < 6 by decide) hn]
  exact congrArg (fun micro => some (Clock.mk h m s micro false)) (Nat.mul_one n)

/-- A time to the minute is read, and then what stands after it. -/
theorem readClock?_minutes {h m : Nat} (hh : h < 100) (hm : m < 100) :
    readClock? (asciiBytes (padDigits 2 h) ++ colon :: (asciiBytes (padDigits 2 m) ++ [])) =
      some ⟨h, m, 0, 0, false⟩ := by
  have hcolon (bs : List UInt8) : startsWithByte ':' (colon :: bs) = true := rfl
  have hend : stepAfter? true [] = some (.done false) := rfl
  unfold readClock?
  simp only [Option.bind_eq_bind, Option.bind_some, readDigits?_padDigits Nat.two_pos hh,
    readDigits?_padDigits Nat.two_pos hm, hcolon, stepAfter?_colon, hend]

theorem readClock?_seconds {h m s : Nat} (hh : h < 100) (hm : m < 100) (hs : s < 100) :
    readClock? (asciiBytes (padDigits 2 h) ++ colon :: (asciiBytes (padDigits 2 m) ++
      colon :: (asciiBytes (padDigits 2 s) ++ []))) = some ⟨h, m, s, 0, false⟩ := by
  have hcolon (bs : List UInt8) : startsWithByte ':' (colon :: bs) = true := rfl
  have hend : stepAfter? true [] = some (.done false) := rfl
  unfold readClock?
  simp only [Option.bind_eq_bind, Option.bind_some, readDigits?_padDigits Nat.two_pos hh,
    readDigits?_padDigits Nat.two_pos hm,
    readDigits?_padDigits Nat.two_pos hs, hcolon, stepAfter?_colon, hend]

theorem readClock?_micros {h m s micro : Nat} (hh : h < 100) (hm : m < 100) (hs : s < 100)
    (hmicro : micro < second) :
    readClock? (asciiBytes (padDigits 2 h) ++ colon :: (asciiBytes (padDigits 2 m) ++
      colon :: (asciiBytes (padDigits 2 s) ++ point :: (asciiBytes (padDigits 6 micro) ++ [])))) =
        some ⟨h, m, s, micro, false⟩ := by
  have hcolon (bs : List UInt8) : startsWithByte ':' (colon :: bs) = true := rfl
  unfold readClock?
  simp only [Option.bind_eq_bind, Option.bind_some, readDigits?_padDigits Nat.two_pos hh,
    readDigits?_padDigits Nat.two_pos hm,
    readDigits?_padDigits Nat.two_pos hs, hcolon, stepAfter?_colon, stepAfter?_point,
    readFraction?_padDigits h m s hmicro]

/-! ## The offset -/

theorem minute_eq : minute = 60000000 := rfl

theorem hour_eq : hour = 3600000000 := rfl

theorem day_eq : day = 86400000000 := rfl

/-- The time of an offset, with seconds and their fraction only where there are some. -/
theorem readClock?_offset (h : n < day) :
    readClock? (asciiBytes (padDigits 2 (n / hour) ++ ':' :: padDigits 2 (n / minute % 60) ++
      (if n % minute = 0 then [] else ':' :: padDigits 2 (n / second % 60)) ++
      if n % second = 0 then [] else '.' :: padDigits 6 (n % second))) =
      some ⟨n / hour, n / minute % 60, n / second % 60, n % second, false⟩ := by
  rw [day_eq] at h
  have hh : n / hour < 100 := by
    rw [hour_eq]
    omega
  have hm : n / minute % 60 < 100 := by omega
  have hs : n / second % 60 < 100 := by omega
  by_cases hminute : n % minute = 0
  · have hsecond : n % second = 0 ∧ n / second % 60 = 0 := by
      rw [minute_eq] at hminute
      unfold second
      omega
    rw [if_pos hminute, if_pos hsecond.1, hsecond.1, hsecond.2]
    simp only [Text.asciiBytes_append, List.append_nil]
    have hread := readClock?_minutes hh hm
    rw [List.append_nil] at hread
    exact hread
  · rw [if_neg hminute]
    by_cases hsecond : n % second = 0
    · rw [if_pos hsecond, hsecond]
      have hread := readClock?_seconds hh hm hs
      simp only [Text.asciiBytes_append, List.append_nil, List.append_assoc] at hread ⊢
      exact hread
    · rw [if_neg hsecond]
      have hread := readClock?_micros hh hm hs (Nat.mod_lt n (by decide : 0 < second))
      simp only [Text.asciiBytes_append, List.append_nil, List.append_assoc] at hread ⊢
      exact hread

theorem readOffset?_offsetText {o : Int} (h : IsOffset o) :
    readOffset? (asciiBytes (Stamp.offsetText o)) = some o := by
  have hday : o.natAbs < day := by
    rcases h with rfl | ⟨-, hlt⟩
    · decide
    · exact hlt
  have hclock := readClock?_offset hday
  have hseconds : o.natAbs / hour * 3600 + o.natAbs / minute % 60 * 60 + o.natAbs / second % 60 =
      o.natAbs / second := by
    rw [hour_eq, minute_eq]
    unfold second
    omega
  have htotal : o.natAbs / second * second + o.natAbs % second = o.natAbs := Nat.div_add_mod' _ _
  have hsign : asciiBytes (Stamp.offsetText o) =
      UInt8.ofNat (if o < 0 then '-' else '+').toNat :: asciiBytes (padDigits 2 (o.natAbs / hour) ++
        ':' :: padDigits 2 (o.natAbs / minute % 60) ++
        (if o.natAbs % minute = 0 then [] else ':' :: padDigits 2 (o.natAbs / second % 60)) ++
        if o.natAbs % second = 0 then [] else '.' :: padDigits 6 (o.natAbs % second)) := rfl
  have hnotZ : byteIs 'Z' (UInt8.ofNat (if o < 0 then '-' else '+').toNat) = false := by
    split <;> rfl
  have hminus : byteIs '-' (UInt8.ofNat (if o < 0 then '-' else '+').toNat) = decide (o < 0) := by
    by_cases hneg : o < 0
    · rw [if_pos hneg, decide_eq_true hneg]
      rfl
    · rw [if_neg hneg, decide_eq_false hneg]
      rfl
  rw [hsign]
  unfold readOffset?
  simp only [hnotZ, Bool.false_eq_true, if_false, Option.bind_eq_bind, hclock, Option.bind_some,
    hseconds, htotal, hminus, Nat.not_le.mpr hday]
  split
  · rename_i hzero
    unfold second at hzero
    unfold IsOffset second at h
    exact congrArg some (by omega)
  · refine congrArg some ?_
    by_cases hneg : o < 0
    · rw [if_pos (decide_eq_true hneg)]
      omega
    · rw [if_neg (by simpa using hneg)]
      omega

/-! ## Stamps -/

/-- The time of the day as it is written. -/
def clockText (t : Stamp) : List Char :=
  padDigits 2 t.hourOf ++ ':' :: padDigits 2 t.minuteOf ++ ':' :: padDigits 2 t.secondOf ++
    if t.microsecondOf = 0 then [] else '.' :: padDigits 6 t.microsecondOf

def offsetPart (t : Stamp) : List Char := (t.offset.map Stamp.offsetText).getD []

theorem toList_iso (t : Stamp) :
    t.iso.toList = Stamp.dateText t.date ++ 'T' :: (clockText t ++ offsetPart t) := by
  unfold Stamp.iso Stamp.textWith clockText offsetPart
  rw [String.toList_ofList]
  cases t.offset <;> simp only [List.append_assoc, List.cons_append] <;> rfl

/-- A time of the day is read to the second or its fraction. -/
theorem readClock?_clockText (h : t.sinceMidnight < day) :
    readClock? (asciiBytes (clockText t)) =
      some ⟨t.hourOf, t.minuteOf, t.secondOf, t.microsecondOf, false⟩ := by
  rw [day_eq] at h
  have hh : t.hourOf < 100 := by
    rw [Stamp.hourOf, hour_eq]
    omega
  have hm : t.minuteOf < 100 := by
    unfold Stamp.minuteOf
    omega
  have hs : t.secondOf < 100 := by
    unfold Stamp.secondOf
    omega
  unfold clockText
  by_cases hmicro : t.microsecondOf = 0
  · have hread := readClock?_seconds hh hm hs
    rw [if_pos hmicro, hmicro]
    simp only [Text.asciiBytes_append, List.append_nil, List.append_assoc] at hread ⊢
    exact hread
  · have hread := readClock?_micros hh hm hs
      (Nat.mod_lt t.sinceMidnight (by decide : 0 < second))
    rw [if_neg hmicro]
    simp only [Text.asciiBytes_append, List.append_nil, List.append_assoc] at hread ⊢
    exact hread

theorem of?_fields (h : t.sinceMidnight < day) :
    Stamp.of? t.date t.hourOf t.minuteOf t.secondOf t.microsecondOf t.offset = some t := by
  rw [day_eq] at h
  have hsum : t.hourOf * hour + t.minuteOf * minute + t.secondOf * second + t.microsecondOf =
      t.sinceMidnight := by
    unfold Stamp.hourOf Stamp.minuteOf Stamp.secondOf Stamp.microsecondOf
    rw [hour_eq, minute_eq]
    unfold second
    omega
  unfold Stamp.of?
  rw [if_pos, hsum]
  unfold Stamp.hourOf Stamp.minuteOf Stamp.secondOf Stamp.microsecondOf
  rw [hour_eq, minute_eq]
  unfold second
  omega

/-! ### The characters of a stamp -/

/-- The characters of a time of the day. -/
def IsClockChar (c : Char) : Prop := isAsciiDigit c = true ∨ c = ':' ∨ c = '.'

theorem isClockChar_of_mem_padDigits (h : c ∈ padDigits width n) : IsClockChar c :=
  .inl (Text.isAsciiDigit_of_mem_padDigits h)

theorem isClockChar_of_mem_clockText (h : c ∈ clockText t) : IsClockChar c := by
  unfold clockText at h
  simp only [List.mem_append, List.mem_cons] at h
  rcases h with ((h | rfl | h) | rfl | h) | h
  · exact isClockChar_of_mem_padDigits h
  · exact .inr (.inl rfl)
  · exact isClockChar_of_mem_padDigits h
  · exact .inr (.inl rfl)
  · exact isClockChar_of_mem_padDigits h
  · split at h
    · cases h
    · rcases List.mem_cons.mp h with rfl | h
      · exact .inr (.inr rfl)
      · exact isClockChar_of_mem_padDigits h

theorem IsClockChar.lt (h : IsClockChar c) : c.toNat < 128 := by
  rcases h with h | rfl | rfl
  · exact lt_of_isAsciiDigit h
  · decide
  · decide

theorem IsClockChar.not_isOffsetStart (h : IsClockChar c) :
    isOffsetStart (UInt8.ofNat c.toNat) = false := by
  have hlt := h.lt
  unfold isOffsetStart
  rw [byteIs_ascii hlt, byteIs_ascii hlt, byteIs_ascii hlt]
  rcases h with h | rfl | rfl
  · have hbounds := Text.isAsciiDigit_iff.mp h
    simp only [Bool.or_eq_false_iff, beq_eq_false_iff_ne]
    refine ⟨⟨?_, ?_⟩, ?_⟩
    · change c.toNat ≠ 43
      omega
    · change c.toNat ≠ 45
      omega
    · change c.toNat ≠ 90
      omega
  · rfl
  · rfl

theorem lt_of_mem_offsetText {o : Int} (h : c ∈ Stamp.offsetText o) : c.toNat < 128 := by
  have hdigits {width n : Nat} (hc : c ∈ padDigits width n) : c.toNat < 128 :=
    (isClockChar_of_mem_padDigits hc).lt
  unfold Stamp.offsetText at h
  simp only [List.mem_append, List.mem_cons, List.cons_append] at h
  rcases h with rfl | ((h | rfl | h) | h) | h
  · split <;> decide
  · exact hdigits h
  · decide
  · exact hdigits h
  · split at h
    · cases h
    · rcases List.mem_cons.mp h with rfl | h
      · decide
      · exact hdigits h
  · split at h
    · cases h
    · rcases List.mem_cons.mp h with rfl | h
      · decide
      · exact hdigits h

theorem lt_of_mem_iso (h : c ∈ t.iso.toList) : c.toNat < 128 := by
  have hdigits {width n : Nat} (hc : c ∈ padDigits width n) : c.toNat < 128 :=
    (isClockChar_of_mem_padDigits hc).lt
  rw [toList_iso, List.mem_append, List.mem_cons, List.mem_append] at h
  rcases h with h | rfl | h | h
  · unfold Stamp.dateText at h
    simp only [List.mem_append, List.mem_cons] at h
    rcases h with (h | rfl | h) | rfl | h
    · exact hdigits h
    · decide
    · exact hdigits h
    · decide
    · exact hdigits h
  · decide
  · exact (isClockChar_of_mem_clockText h).lt
  · unfold offsetPart at h
    cases ho : t.offset with
    | none =>
      rw [ho] at h
      cases h
    | some o =>
      rw [ho] at h
      exact lt_of_mem_offsetText h

theorem half?_of_ascii (h : c.toNat < 128) : Text.half? c = none := by
  have hzero : c.toNat - Text.halfShift = 0 := by
    unfold Text.halfShift
    omega
  unfold Text.half?
  rw [hzero]
  rfl

/-- An ASCII text is read by its code points. -/
theorem isoBytes?_of_ascii (h : ∀ c ∈ cs, c.toNat < 128) : isoBytes? cs = some (asciiBytes cs) := by
  have hhalf (i : Nat) : (cs[i]?.bind Text.half?).isSome = false := by
    cases hget : cs[i]? with
    | none => rfl
    | some c =>
      rw [Option.bind_some, half?_of_ascii (h c (List.mem_of_getElem? hget))]
      rfl
  have hplace : separatorPlaces.find? (fun i => (cs[i]?.bind Text.half?).isSome) = none :=
    List.find?_eq_none.mpr fun i _ => by simp [hhalf i]
  have hholds : Text.holdsHalf cs = false := by
    refine List.any_eq_false.mpr fun c hc => ?_
    rw [half?_of_ascii (h c hc)]
    exact Bool.false_ne_true
  unfold isoBytes?
  dsimp only
  rw [hplace]
  dsimp only
  rw [hholds, if_neg Bool.false_ne_true, Text.toUTF8_of_ascii h]

/-! ### Reading a stamp -/

theorem takeWhile_clockText (t : Stamp) {bs : List UInt8} (h : ∀ b ∈ bs.head?, isOffsetStart b = true) :
    (asciiBytes (clockText t) ++ bs).takeWhile (!isOffsetStart ·) = asciiBytes (clockText t) ∧
      (asciiBytes (clockText t) ++ bs).dropWhile (!isOffsetStart ·) = bs := by
  have hclock : ∀ b ∈ asciiBytes (clockText t), (!isOffsetStart b) = true := by
    intro b hb
    obtain ⟨c, hc, rfl⟩ := List.mem_map.mp hb
    rw [(isClockChar_of_mem_clockText hc).not_isOffsetStart]
    rfl
  rw [List.takeWhile_append_of_pos hclock, List.dropWhile_append_of_pos hclock]
  cases bs with
  | nil => exact ⟨List.append_nil _, rfl⟩
  | cons b bs =>
    have hb := h b (Option.mem_some_self b)
    rw [List.takeWhile_cons_of_neg (by simp [hb]), List.dropWhile_cons_of_neg (by simp [hb]),
      List.append_nil]
    exact ⟨rfl, rfl⟩

theorem readTime?_text (h : t.IsValid) :
    readTime? t.date (asciiBytes (clockText t ++ offsetPart t)) = some t := by
  have hstamp := of?_fields h.time
  have hclock := readClock?_clockText h.time
  rw [Text.asciiBytes_append]
  cases ho : t.offset with
  | none =>
    have hpart : offsetPart t = [] := by rw [offsetPart, ho]; rfl
    have hnil : ∀ b ∈ ([] : List UInt8).head?, isOffsetStart b = true := fun b hb => by cases hb
    obtain ⟨htake, hdrop⟩ := takeWhile_clockText t hnil
    rw [hpart]
    change readTime? t.date (asciiBytes (clockText t) ++ []) = some t
    unfold readTime?
    dsimp only
    rw [htake, hdrop, hclock]
    rw [ho] at hstamp
    exact hstamp
  | some o =>
    have hpart : offsetPart t = Stamp.offsetText o := by rw [offsetPart, ho]; rfl
    have hstart : ∀ b ∈ (asciiBytes (Stamp.offsetText o)).head?, isOffsetStart b = true := by
      intro b hb
      unfold Stamp.offsetText at hb
      cases hb
      split <;> rfl
    obtain ⟨htake, hdrop⟩ := takeWhile_clockText t hstart
    have hoffset := readOffset?_offsetText (h.offset o ho)
    have hne : (asciiBytes (Stamp.offsetText o)).isEmpty = false := rfl
    rw [hpart]
    unfold readTime?
    dsimp only
    rw [htake, hdrop, hclock, hne]
    simp only [Option.bind_eq_bind, Option.bind_some, Bool.false_eq_true, if_false, hoffset]
    rw [ho] at hstamp
    exact hstamp

theorem length_dateText {d : Date} (h : d.isValid = true) :
    (asciiBytes (Stamp.dateText d)).length = 10 := by
  obtain ⟨-, hyear, -, hmonth, -, hday⟩ := Date.isValid_iff.mp h
  have hlast := daysInMonth_le d.year d.month
  unfold greatestYear at hyear
  rw [asciiBytes_dateText]
  simp only [List.length_append, List.length_cons, List.length_nil, asciiBytes, List.length_map]
  rw [Text.length_padDigits (by decide) (by omega), Text.length_padDigits (by decide) (by omega),
    Text.length_padDigits (by decide) (by omega)]

/-- A date with hyphens takes ten bytes. -/
theorem dateLength?_dateText {d : Date} (h : d.isValid = true) (rest : List UInt8) :
    dateLength? (asciiBytes (Stamp.dateText d) ++ rest) = some 10 := by
  have hlength := length_dateText h
  have htotal : (asciiBytes (Stamp.dateText d) ++ rest).length = 10 + rest.length := by
    rw [List.length_append, hlength]
  have hyear : (asciiBytes (padDigits 4 d.year)).length = 4 := by
    have hvalid := (Date.isValid_iff.mp h).2.1
    unfold greatestYear at hvalid
    rw [asciiBytes, List.length_map, Text.length_padDigits (by decide) (by omega)]
  have hafter : (asciiBytes (Stamp.dateText d) ++ rest).drop 4 = dash ::
      (asciiBytes (padDigits 2 d.month) ++ (dash :: (asciiBytes (padDigits 2 d.day) ++ []) ++ rest)) := by
    rw [asciiBytes_dateText, List.append_assoc, List.drop_left' hyear, List.cons_append,
      List.append_assoc]
  have hmonth : (asciiBytes (Stamp.dateText d) ++ rest).drop 5 =
      asciiBytes (padDigits 2 d.month) ++ (dash :: (asciiBytes (padDigits 2 d.day) ++ []) ++ rest) := by
    rw [← List.drop_drop (i := 1) (j := 4), hafter]
    rfl
  have hdash : byteAtIs (asciiBytes (Stamp.dateText d) ++ rest) 4 '-' = true := by
    rw [byteAtIs, hafter]
    rfl
  have hweek : byteAtIs (asciiBytes (Stamp.dateText d) ++ rest) 5 'W' = false := by
    rw [byteAtIs, hmonth]
    exact startsWithByte_padDigits rfl 2 _ _
  unfold dateLength?
  rw [if_neg (by omega), if_neg (by omega), hdash, if_pos rfl, hweek]
  rfl

/-- A stamp that is written is read again. -/
theorem ofIso?_iso (h : t.IsValid) : ofIso? t.iso = some t := by
  have hbytes : isoBytes? t.iso.toList = some (asciiBytes (Stamp.dateText t.date) ++
      asciiBytes ('T' :: (clockText t ++ offsetPart t))) := by
    rw [isoBytes?_of_ascii fun c => lt_of_mem_iso, toList_iso, Text.asciiBytes_append]
  have hlength := length_dateText h.date
  unfold ofIso?
  rw [hbytes]
  simp only [Option.bind_eq_bind, Option.bind_some, dateLength?_dateText h.date]
  rw [List.take_left' hlength, List.drop_left' hlength, readDate?_dateText h.date]
  -- the separator is one byte
  have hseparator : characterSize (UInt8.ofNat 'T'.toNat) = 1 := by decide
  have hcons : asciiBytes ('T' :: (clockText t ++ offsetPart t)) =
      UInt8.ofNat 'T'.toNat :: asciiBytes (clockText t ++ offsetPart t) := rfl
  rw [hcons, Option.bind_some]
  dsimp only
  rw [hseparator, Nat.sub_self, List.drop_zero]
  exact readTime?_text h

end PubspecTidy.Time
