import Mathlib
import PubspecTidy.Time.Iso
import PubspecTidy.Proofs.Outcome

/-!
# Points in time that there are

A stamp has a day of the calendar, a time of that day, and an offset of less than a day that is zero
or at least a second. Main statement: every stamp that is read is such a one.
-/
namespace PubspecTidy.Time

variable {d : Date} {t : Stamp} {n year month : Nat}

/-! ## Days of the calendar -/

theorem Date.isValid_iff :
    d.isValid = true ↔ 1 ≤ d.year ∧ d.year ≤ greatestYear ∧ 1 ≤ d.month ∧ d.month ≤ 12 ∧
      1 ≤ d.day ∧ d.day ≤ daysInMonth d.year d.month := by
  simp only [Date.isValid, Bool.and_eq_true, decide_eq_true_eq, and_assoc]

theorem daysInMonth_le (year month : Nat) : daysInMonth year month ≤ 31 := by
  unfold daysInMonth
  rw [List.getD_eq_getElem?_getD]
  cases hget : (monthLengths year)[month - 1]? with
  | none => exact Nat.zero_le 31
  | some length =>
    have hmem := List.mem_of_getElem? hget
    unfold monthLengths at hmem
    simp only [List.mem_cons, List.not_mem_nil, or_false] at hmem
    rw [Option.getD_some]
    split at hmem <;> omega

/-- A day within the months has its place in one of them. -/
theorem Date.monthOfDay_spec {lengths : List Nat} (h : n < lengths.sum) (month : Nat) :
    ∃ i, i < lengths.length ∧ (Date.monthOfDay month lengths n).1 = month + i ∧
      1 ≤ (Date.monthOfDay month lengths n).2 ∧
      (Date.monthOfDay month lengths n).2 ≤ lengths.getD i 0 := by
  induction lengths generalizing n month with
  | nil => cases h
  | cons length lengths ih =>
    unfold Date.monthOfDay
    by_cases hlt : n < length
    · rw [if_pos hlt]
      exact ⟨0, Nat.zero_lt_succ _, rfl, Nat.le_add_left 1 n, hlt⟩
    · rw [if_neg hlt]
      rw [List.sum_cons] at h
      obtain ⟨i, hi, hmonth, hlow, hhigh⟩ := ih (n := n - length) (by omega) (month + 1)
      exact ⟨i + 1, Nat.succ_lt_succ hi, by omega, hlow, hhigh⟩

theorem le_sum_monthLengths (year : Nat) : 365 ≤ (monthLengths year).sum := by
  unfold monthLengths
  cases isLeapYear year <;> decide

/-- The calendar has a date for every number of days up to its last one. -/
theorem Date.ofDaysBefore_isValid (h : n < Date.greatestDayNumber) :
    (Date.ofDaysBefore n).isValid = true := by
  unfold Date.greatestDayNumber at h
  unfold Date.ofDaysBefore
  dsimp only
  split
  · rename_i hlast
    rw [Date.isValid_iff]
    unfold greatestYear
    refine ⟨by dsimp only; omega, by dsimp only; omega, by dsimp only; omega, by dsimp only; omega,
      by dsimp only; omega, ?_⟩
    exact Nat.le_refl 31
  · rename_i hinside
    generalize hyear : n / 146097 * 400 + n % 146097 / 36524 * 100 +
      n % 146097 % 36524 / 1461 * 4 + n % 146097 % 36524 % 1461 / 365 + 1 = year
    have hsum := le_sum_monthLengths year
    have hday : n % 146097 % 36524 % 1461 % 365 < (monthLengths year).sum := by omega
    obtain ⟨i, hi, hmonth, hlow, hhigh⟩ := Date.monthOfDay_spec hday 1
    have hlength : (monthLengths year).length = 12 := rfl
    rw [Date.isValid_iff]
    unfold greatestYear
    dsimp only
    refine ⟨by omega, by omega, by omega, by omega, hlow, ?_⟩
    unfold daysInMonth
    rw [hmonth, Nat.add_sub_cancel_left]
    exact hhigh

theorem Date.ofDayNumber?_isValid {n : Int} (h : Date.ofDayNumber? n = some d) :
    d.isValid = true := by
  unfold Date.ofDayNumber? at h
  split at h
  · cases h
    exact Date.ofDaysBefore_isValid (by omega)
  · cases h

theorem Date.of?_isValid {day : Nat} (h : Date.of? year month day = some d) : d.isValid = true := by
  unfold Date.of? at h
  dsimp only at h
  split at h
  · cases h
    assumption
  · cases h

theorem Date.ofWeek?_isValid {week day : Nat} (h : Date.ofWeek? year week day = some d) :
    d.isValid = true := by
  unfold Date.ofWeek? at h
  split at h
  · cases h
  split at h
  · cases h
  · exact Date.ofDayNumber?_isValid h

theorem readDate?_isValid {bs : List UInt8} (h : readDate? bs = some d) : d.isValid = true := by
  unfold readDate? at h
  obtain ⟨⟨year, rest⟩, -, h⟩ := Option.bind_eq_some_iff.mp h
  dsimp only at h
  obtain ⟨rest, -, h⟩ := Option.bind_eq_some_iff.mp h
  split at h
  · obtain ⟨⟨week, rest⟩, -, h⟩ := Option.bind_eq_some_iff.mp h
    dsimp only at h
    split at h
    · exact Date.ofWeek?_isValid h
    · obtain ⟨rest, -, h⟩ := Option.bind_eq_some_iff.mp h
      obtain ⟨⟨day, rest⟩, -, h⟩ := Option.bind_eq_some_iff.mp h
      exact Date.ofWeek?_isValid h
  · obtain ⟨⟨month, rest⟩, -, h⟩ := Option.bind_eq_some_iff.mp h
    dsimp only at h
    obtain ⟨rest, -, h⟩ := Option.bind_eq_some_iff.mp h
    obtain ⟨⟨day, rest⟩, -, h⟩ := Option.bind_eq_some_iff.mp h
    exact Date.of?_isValid h

/-! ## Stamps -/

/-- Whether an offset is one that a text can state. -/
def IsOffset (o : Int) : Prop := o = 0 ∨ second ≤ o.natAbs ∧ o.natAbs < day

/-- A stamp as there is one. -/
structure Stamp.IsValid (t : Stamp) : Prop where
  date : t.date.isValid = true
  time : t.sinceMidnight < day
  offset : ∀ o ∈ t.offset, IsOffset o

instance (o : Int) : Decidable (IsOffset o) := inferInstanceAs (Decidable (_ ∨ _))

theorem Stamp.of?_isValid {h m s micro : Nat} {offset : Option Int} (hdate : d.isValid = true)
    (hoffset : ∀ o ∈ offset, IsOffset o) (ht : Stamp.of? d h m s micro offset = some t) :
    t.IsValid := by
  unfold Stamp.of? at ht
  split at ht
  · rename_i hbounds
    cases ht
    refine ⟨hdate, ?_, hoffset⟩
    unfold day hour minute second at *
    dsimp only
    omega
  · cases ht

theorem readOffset?_isOffset {bs : List UInt8} {o : Int} (h : readOffset? bs = some o) :
    IsOffset o := by
  unfold readOffset? at h
  split at h
  · cases h
  split at h
  · split at h
    · cases h
      exact .inl rfl
    · cases h
  · obtain ⟨c, -, h⟩ := Option.bind_eq_some_iff.mp h
    split at h
    · cases h
    dsimp only at h
    split at h
    · cases h
      exact .inl rfl
    split at h
    · cases h
    · rename_i hseconds hlt
      cases h
      have hone : 1 * second ≤ (c.hour * 3600 + c.minute * 60 + c.second) * second :=
        Nat.mul_le_mul_right second (by omega)
      right
      split <;> omega

theorem readTime?_isValid {bs : List UInt8} (hdate : d.isValid = true)
    (h : readTime? d bs = some t) : t.IsValid := by
  unfold readTime? at h
  obtain ⟨c, -, h⟩ := Option.bind_eq_some_iff.mp h
  split at h
  · split at h
    · cases h
    · exact Stamp.of?_isValid hdate (fun o ho => by cases ho) h
  · obtain ⟨o, ho, h⟩ := Option.bind_eq_some_iff.mp h
    refine Stamp.of?_isValid hdate (fun o' ho' => ?_) h
    cases ho'
    exact readOffset?_isOffset ho

/-- What is read is a stamp as there is one. -/
theorem ofIso?_isValid {text : String} (h : ofIso? text = some t) : t.IsValid := by
  unfold ofIso? at h
  obtain ⟨bs, -, h⟩ := Option.bind_eq_some_iff.mp h
  obtain ⟨length, -, h⟩ := Option.bind_eq_some_iff.mp h
  obtain ⟨date, hdate, h⟩ := Option.bind_eq_some_iff.mp h
  split at h
  · exact Stamp.of?_isValid (readDate?_isValid hdate) (fun o ho => by cases ho) h
  · exact readTime?_isValid (readDate?_isValid hdate) h

theorem Stamp.IsValid.orUniversal (h : t.IsValid) : t.orUniversal.IsValid := by
  unfold Stamp.orUniversal
  split
  · exact h
  · refine ⟨h.date, h.time, fun o ho => ?_⟩
    cases ho
    exact .inl rfl

theorem Stamp.isSome_orUniversal (t : Stamp) : t.orUniversal.offset.isSome = true := by
  unfold Stamp.orUniversal
  split
  · assumption
  · rfl

end PubspecTidy.Time
