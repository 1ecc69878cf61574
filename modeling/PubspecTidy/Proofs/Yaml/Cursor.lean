import PubspecTidy.Yaml.Cursor
import Mathlib.Data.List.TakeWhile

/-!
# Cursors in a longer text

A text may stand in a longer one: behind other text, which shifts all places, and before more text.
Main statement: as long as a cursor has not come to the end of the shorter text, whose last line is
complete, it moves in the longer text as it does in the shorter one.
-/
namespace PubspecTidy.Yaml

theorem gapAt_append {cs : List Char} (h : cs ≠ []) (more : List Char) :
    gapAt (cs ++ more) = gapAt cs := by
  cases cs with
  | nil => exact absurd rfl h
  | cons c rest => rfl

theorem spaceOrLineEndAt_append {cs : List Char} (h : cs ≠ []) (more : List Char) :
    spaceOrLineEndAt (cs ++ more) = spaceOrLineEndAt cs := by
  cases cs with
  | nil => exact absurd rfl h
  | cons c rest => rfl

theorem takeWhile_append_of_length_lt {p : Char → Bool} {cs : List Char}
    (h : (cs.takeWhile p).length < cs.length) (more : List Char) :
    (cs ++ more).takeWhile p = cs.takeWhile p := by
  induction cs with
  | nil => simp at h
  | cons c rest ih =>
    by_cases hc : p c = true
    · simp only [List.cons_append, List.takeWhile_cons_of_pos hc, List.length_cons,
        Nat.add_lt_add_iff_right] at h ⊢
      rw [ih h]
    · simp [List.takeWhile_cons_of_neg hc]

namespace Cursor

/-- The same place in a longer text, with `more` behind the end. -/
def extend (more : List Char) (index line : Nat) (c : Cursor) : Cursor :=
  ⟨c.rest ++ more, c.index + index, c.line + line, c.column⟩

/-- Nothing comes behind the text, or its last line is complete. -/
def IsComplete (more : List Char) (c : Cursor) : Prop :=
  more = [] ∨ c.rest = [] ∨ c.rest.getLast? = some '\n'

/-- Nothing comes behind the text, or there is some of it left. -/
def IsInside (more : List Char) (c : Cursor) : Prop := more = [] ∨ c.rest ≠ []

/-- A place from which another one is reached by moving on. -/
def Precedes (c c' : Cursor) : Prop := ∃ n, c' = c.skip n

variable {more : List Char} {index line : Nat} {c c' c'' : Cursor}

@[simp] theorem rest_extend : (c.extend more index line).rest = c.rest ++ more := rfl

@[simp] theorem column_extend : (c.extend more index line).column = c.column := rfl

@[simp] theorem index_extend : (c.extend more index line).index = c.index + index := rfl

@[simp] theorem line_extend : (c.extend more index line).line = c.line + line := rfl

/-! ## Moving on -/

theorem rest_next (c : Cursor) : c.next.rest = c.rest.drop 1 := by
  unfold next
  split
  · rename_i h
    simp [h]
  · rename_i h
    split
    · simp [h]
    · split <;> simp [h]

theorem rest_skip (n : Nat) (c : Cursor) : (c.skip n).rest = c.rest.drop n := by
  induction n generalizing c with
  | zero => rfl
  | succ n ih =>
    rw [skip, ih, rest_next, List.drop_drop]
    congr 1
    omega

theorem skip_add (m n : Nat) (c : Cursor) : c.skip (m + n) = (c.skip m).skip n := by
  induction m generalizing c with
  | zero => rw [Nat.zero_add, skip]
  | succ m ih => rw [Nat.succ_add, skip, ih, skip]

theorem skip_one (c : Cursor) : c.skip 1 = c.next := rfl

theorem IsComplete.skip (h : c.IsComplete more) (n : Nat) : (c.skip n).IsComplete more := by
  unfold IsComplete at h ⊢
  rw [rest_skip]
  rcases h with h | h | h
  · exact .inl h
  · exact .inr (.inl (by simp [h]))
  · by_cases hn : n < c.rest.length
    · exact .inr (.inr (by rw [List.getLast?_drop, if_neg (by omega), h]))
    · exact .inr (.inl (List.drop_eq_nil_of_le (by omega)))

theorem IsComplete.next (h : c.IsComplete more) : c.next.IsComplete more := h.skip 1

theorem IsInside.of_skip {n : Nat} (h : (c.skip n).IsInside more) : c.IsInside more := by
  unfold IsInside at h ⊢
  refine h.imp_right fun hrest hnil => hrest ?_
  rw [rest_skip, hnil, List.drop_nil]

theorem precedes_skip (n : Nat) (c : Cursor) : c.Precedes (c.skip n) := ⟨n, rfl⟩

theorem precedes_next (c : Cursor) : c.Precedes c.next := ⟨1, rfl⟩

theorem Precedes.refl (c : Cursor) : c.Precedes c := ⟨0, rfl⟩

theorem Precedes.trans (h : c.Precedes c') (h' : c'.Precedes c'') : c.Precedes c'' := by
  obtain ⟨m, rfl⟩ := h
  obtain ⟨n, rfl⟩ := h'
  exact ⟨m + n, (skip_add m n c).symm⟩

theorem Precedes.length_le (h : c.Precedes c') : c'.rest.length ≤ c.rest.length := by
  obtain ⟨n, rfl⟩ := h
  rw [length_skip]
  omega

theorem Precedes.isInside (h : c.Precedes c') (hin : c'.IsInside more) : c.IsInside more := by
  obtain ⟨n, rfl⟩ := h
  exact hin.of_skip

theorem Precedes.isComplete (h : c.Precedes c') (hc : c.IsComplete more) : c'.IsComplete more := by
  obtain ⟨n, rfl⟩ := h
  exact hc.skip n

theorem line_le_next (c : Cursor) : c.line ≤ c.next.line := by
  unfold next
  split
  · exact Nat.le_refl _
  · split
    · exact Nat.le_succ _
    · split <;> exact Nat.le_refl _

theorem line_le_skip (n : Nat) (c : Cursor) : c.line ≤ (c.skip n).line := by
  induction n generalizing c with
  | zero => exact Nat.le_refl _
  | succ n ih => exact (line_le_next c).trans (ih c.next)

/-- The end of the text. -/
def last (c : Cursor) : Cursor := c.skip c.rest.length

theorem rest_last (c : Cursor) : c.last.rest = [] := by
  rw [last, rest_skip, List.drop_length]

theorem last_of_nil (h : c.rest = []) : c.last = c := by
  unfold last
  rw [h]
  rfl

theorem last_next (c : Cursor) : c.next.last = c.last := by
  unfold last
  rw [length_next]
  cases hc : c.rest with
  | nil =>
    have hnext : c.next = c := by
      unfold next
      split
      · rfl
      · simp_all
    rw [hnext]
    rfl
  | cons ch rest => rfl

theorem last_skip (n : Nat) (c : Cursor) : (c.skip n).last = c.last := by
  induction n generalizing c with
  | zero => rfl
  | succ n ih => rw [skip, ih, last_next]

theorem Precedes.last_eq (h : c.Precedes c') : c'.last = c.last := by
  obtain ⟨k, rfl⟩ := h
  exact last_skip k c

theorem last_eq_next (hlast : c.rest.getLast? = some '\n') :
    ∃ k, (c.skip k).rest = ['\n'] ∧ c.last = (c.skip k).next := by
  have hne : c.rest ≠ [] := by
    rintro hnil
    simp [hnil] at hlast
  obtain ⟨init, hinit⟩ : ∃ init, c.rest = init ++ ['\n'] := by
    refine ⟨c.rest.dropLast, ?_⟩
    rw [List.getLast?_eq_some_getLast hne, Option.some.injEq] at hlast
    rw [← hlast, List.dropLast_concat_getLast]
  have hlength : c.rest.length = init.length + 1 := by simp [hinit]
  refine ⟨init.length, by rw [rest_skip, hinit, List.drop_left], ?_⟩
  rw [last, hlength, skip_add, skip_one]

/-- In a complete text, the end is on a later line. -/
theorem line_lt_last (hlast : c.rest.getLast? = some '\n') : c.line < c.last.line := by
  obtain ⟨k, hrest, hend⟩ := last_eq_next hlast
  have hstep : (c.skip k).line < (c.skip k).next.line := by
    conv => rhs; unfold next
    rw [hrest]
    exact Nat.lt_succ_self _
  rw [hend]
  exact (line_le_skip k c).trans_lt hstep

theorem column_last (hlast : c.rest.getLast? = some '\n') : c.last.column = 0 := by
  obtain ⟨k, hrest, hend⟩ := last_eq_next hlast
  rw [hend, next, hrest]
  rfl

/-- In a complete text, only a line feed stands last. -/
theorem IsComplete.tail_ne_nil {ch : Char} {rest : List Char} (h : c.IsComplete more)
    (hrest : c.rest = ch :: rest) (hch : ch ≠ '\n') : more = [] ∨ rest ≠ [] := by
  rcases h with h | h | h
  · exact .inl h
  · simp [hrest] at h
  · refine .inr fun hnil => hch ?_
    simpa [hrest, hnil] using h

theorem next_extend (h : c.IsComplete more) (hin : c.IsInside more) :
    (c.extend more index line).next = c.next.extend more index line := by
  rcases hc : c.rest with _ | ⟨ch, rest⟩
  · obtain rfl : more = [] := hin.resolve_right (by simp [hc])
    simp [next, extend, hc]
  · have hhead : ch = '\r' → (rest ++ more).head? = rest.head? := by
      rintro rfl
      rcases h.tail_ne_nil hc (by decide) with rfl | hrest
      · simp
      · cases rest with
        | nil => exact absurd rfl hrest
        | cons r rest => rfl
    by_cases hch : ch = '\r'
    · simp only [next, extend, hc, List.cons_append, hhead hch]
      split
      · simp only [Nat.add_right_comm]
      · split <;> simp only [Nat.add_right_comm]
    · simp only [next, extend, hc, List.cons_append, hch, decide_false, Bool.false_and,
        Bool.not_false, Bool.and_true]
      split
      · simp only [Nat.add_right_comm]
      · split <;> simp only [Nat.add_right_comm]

theorem skip_extend {n : Nat} (h : c.IsComplete more) (hn : more = [] ∨ n ≤ c.rest.length) :
    (c.extend more index line).skip n = (c.skip n).extend more index line := by
  induction n generalizing c with
  | zero => rfl
  | succ n ih =>
    have hin : c.IsInside more := by
      refine hn.imp_right fun hn hnil => ?_
      simp [hnil] at hn
    have hn' : more = [] ∨ n ≤ c.next.rest.length := by
      refine hn.imp_right fun hn => ?_
      rw [rest_next, List.length_drop]
      omega
    rw [skip, next_extend h hin, ih h.next hn', skip]

theorem skip_extend_of_inside {n : Nat} (h : c.IsComplete more)
    (hin : (c.skip n).IsInside more) :
    (c.extend more index line).skip n = (c.skip n).extend more index line := by
  refine skip_extend h (hin.imp_right fun hrest => ?_)
  rw [rest_skip] at hrest
  by_contra hn
  exact hrest (List.drop_eq_nil_of_le (by omega))

/-! ## Runs of characters -/

theorem takeWhile_extend {p : Char → Bool} (h : c.IsComplete more)
    (hin : (c.takeWhile p).2.IsInside more) :
    (c.extend more index line).takeWhile p =
      ((c.takeWhile p).1, (c.takeWhile p).2.extend more index line) := by
  have hlist : (c.rest ++ more).takeWhile p = c.rest.takeWhile p := by
    rcases hin with rfl | hrest
    · rw [List.append_nil]
    · refine takeWhile_append_of_length_lt ?_ more
      rw [takeWhile, rest_skip] at hrest
      by_contra hlt
      exact hrest (List.drop_eq_nil_of_le (by omega))
  unfold takeWhile
  rw [rest_extend, hlist]
  exact Prod.ext rfl (skip_extend_of_inside h hin)

theorem skipWhile_extend {p : Char → Bool} (h : c.IsComplete more)
    (hin : (c.skipWhile p).IsInside more) :
    (c.extend more index line).skipWhile p = (c.skipWhile p).extend more index line :=
  congrArg Prod.snd (takeWhile_extend h hin)

theorem skipSpaces_extend (h : c.IsComplete more) (hin : c.skipSpaces.IsInside more) :
    (c.extend more index line).skipSpaces = c.skipSpaces.extend more index line :=
  skipWhile_extend h hin

theorem next_isInside {ch : Char} {rest : List Char} (h : c.IsComplete more)
    (hrest : c.rest = ch :: rest) (hch : ch ≠ '\n') : c.next.IsInside more := by
  unfold IsInside
  rw [rest_next, hrest]
  exact h.tail_ne_nil hrest hch

theorem takeWhile_isInside {p : Char → Bool} (h : c.IsComplete more) (hin : c.IsInside more)
    (hp : p '\n' = false) : (c.takeWhile p).2.IsInside more := by
  rcases h with rfl | hnil | hlast
  · exact .inl rfl
  · exact .inl (hin.resolve_right (absurd hnil ·))
  · refine .inr fun hend => ?_
    simp only [takeWhile, rest_skip, List.drop_eq_nil_iff] at hend
    have hall : c.rest.takeWhile p = c.rest :=
      (List.takeWhile_prefix p).eq_of_length
        (Nat.le_antisymm (List.takeWhile_prefix p).length_le hend)
    have hmem : '\n' ∈ c.rest.takeWhile p := by
      rw [hall]
      exact List.mem_of_getLast? hlast
    exact Bool.false_ne_true (hp ▸ List.mem_takeWhile_imp hmem)

theorem head?_append_of_inside (hin : c.IsInside more) : (c.rest ++ more).head? = c.rest.head? := by
  rcases hin with rfl | hrest
  · rw [List.append_nil]
  · cases hc : c.rest with
    | nil => exact absurd hc hrest
    | cons ch rest => rfl

theorem precedes_takeWhile (p : Char → Bool) (c : Cursor) : c.Precedes (c.takeWhile p).2 :=
  ⟨_, rfl⟩

theorem precedes_skipWhile (p : Char → Bool) (c : Cursor) : c.Precedes (c.skipWhile p) := ⟨_, rfl⟩

theorem precedes_skipSpaces (c : Cursor) : c.Precedes c.skipSpaces := ⟨_, rfl⟩

theorem precedes_skipSpacesTo (column : Nat) (c : Cursor) : c.Precedes (c.skipSpacesTo column) :=
  ⟨_, rfl⟩

theorem precedes_skipComment (c : Cursor) : c.Precedes c.skipComment := by
  unfold skipComment
  split
  · exact precedes_skipWhile _ c
  · exact .refl c

theorem skipComment_extend (h : c.IsComplete more) (hin : c.skipComment.IsInside more) :
    (c.extend more index line).skipComment = c.skipComment.extend more index line := by
  have hin' : c.IsInside more := (precedes_skipComment c).isInside hin
  unfold skipComment at hin ⊢
  rw [rest_extend, head?_append_of_inside hin']
  split
  · rename_i hhash
    rw [if_pos hhash] at hin
    exact skipWhile_extend h hin
  · rfl

theorem skipSpacesTo_extend {column : Nat} (h : c.IsComplete more)
    (hin : (c.skipSpacesTo column).IsInside more) :
    (c.extend more index line).skipSpacesTo column =
      (c.skipSpacesTo column).extend more index line := by
  have hlist : ((c.rest ++ more).takeWhile (· = ' ')).take (column - c.column) =
      (c.rest.takeWhile (· = ' ')).take (column - c.column) := by
    rcases hin with rfl | hrest
    · rw [List.append_nil]
    · rw [skipSpacesTo, rest_skip] at hrest
      by_cases hlt : (c.rest.takeWhile (· = ' ')).length < c.rest.length
      · rw [takeWhile_append_of_length_lt hlt]
      · have hall : c.rest.takeWhile (· = ' ') = c.rest :=
          (List.takeWhile_prefix _).eq_of_length_le (by omega)
        rw [hall] at hrest ⊢
        have hshort : column - c.column < c.rest.length := by
          by_contra hlong
          rw [List.take_of_length_le (by omega)] at hrest
          exact hrest (List.drop_eq_nil_of_le (by omega))
        have hspaces : ∀ ch ∈ c.rest, decide (ch = ' ') = true := by
          rw [← List.takeWhile_eq_self_iff]
          exact hall
        rw [List.takeWhile_append_of_pos hspaces, List.take_append_of_le_length (by omega)]
  unfold skipSpacesTo
  rw [rest_extend, column_extend, hlist]
  exact skip_extend_of_inside h hin

/-! ## Line ends and markers -/

theorem precedes_takeBreak? {b : Char} (h : c.takeBreak? = some (b, c')) :
    c.next.Precedes c' := by
  unfold takeBreak? at h
  split at h
  · cases h
    exact ⟨1, rfl⟩
  · split at h
    · cases h
      exact .refl _
    · split at h
      · cases h
        exact .refl _
      · simp at h
  · simp at h

theorem length_lt_of_takeBreak? {b : Char} (h : c.takeBreak? = some (b, c')) :
    c'.rest.length < c.rest.length := by
  have hle := (precedes_takeBreak? h).length_le
  rw [length_next] at hle
  cases hc : c.rest with
  | nil => simp [takeBreak?, hc] at h
  | cons ch rest =>
    rw [hc, List.length_cons] at hle
    rw [List.length_cons]
    omega

theorem length_next_lt_of_head? {ch : Char} (h : (c.rest.head? == some ch) = true) :
    c.next.rest.length < c.rest.length := by
  rw [length_next]
  cases hc : c.rest with
  | nil => simp [hc] at h
  | cons ch rest => simp

theorem takeBreak?_eq_of_ne_return {ch : Char} {rest : List Char} (hrest : c.rest = ch :: rest)
    (hch : ch ≠ '\r') :
    c.takeBreak? =
      if ch = '\u2028' ∨ ch = '\u2029' then some (ch, c.next)
      else if isBreak ch then some ('\n', c.next)
      else none := by
  unfold takeBreak?
  rw [hrest]
  split
  · rename_i heq
    exact absurd (List.cons.inj heq).1 hch
  · rename_i heq
    obtain ⟨rfl, rfl⟩ := List.cons.inj heq
    rfl
  · rename_i heq
    simp at heq

theorem takeBreak?_isSome {ch : Char} {rest : List Char} (hrest : c.rest = ch :: rest) :
    c.takeBreak?.isSome = isBreak ch := by
  by_cases hch : ch = '\r'
  · subst hch
    unfold takeBreak?
    rw [hrest]
    split
    · rfl
    · rename_i heq
      obtain ⟨rfl, rfl⟩ := List.cons.inj heq
      rfl
    · rename_i heq
      simp at heq
  · rw [takeBreak?_eq_of_ne_return hrest hch]
    split
    · rename_i hsep
      rcases hsep with rfl | rfl <;> rfl
    · split <;> simp_all

theorem takeBreak?_extend (h : c.IsComplete more) (hin : c.IsInside more) :
    (c.extend more index line).takeBreak? =
      c.takeBreak?.map fun t => (t.1, t.2.extend more index line) := by
  rcases hc : c.rest with _ | ⟨ch, rest⟩
  · obtain rfl : more = [] := hin.resolve_right (by simp [hc])
    simp [takeBreak?, hc]
  · have hnext : (c.extend more index line).next = c.next.extend more index line :=
      next_extend h hin
    by_cases hch : ch = '\r'
    · subst hch
      rcases hrest : rest with _ | ⟨r, rest'⟩
      · obtain rfl : more = [] := by
          simpa [hrest] using h.tail_ne_nil hc (by decide)
        simp [takeBreak?, hc, hrest, isBreak, hnext]
      · by_cases hr : r = '\n'
        · subst hr
          have hskip : (c.extend more index line).skip 2 = (c.skip 2).extend more index line :=
            skip_extend h (.inr (by simp [hc, hrest]))
          simp [takeBreak?, hc, hrest, hskip]
        · simp [takeBreak?, hc, hrest, hr, isBreak, hnext]
    · have hrest : (c.extend more index line).rest = ch :: (rest ++ more) := by
        rw [rest_extend, hc, List.cons_append]
      rw [takeBreak?_eq_of_ne_return hrest hch, takeBreak?_eq_of_ne_return hc hch, hnext]
      split
      · rfl
      · split <;> rfl

theorem markerAt_of_no_mark {a b d : Char} {rest : List Char} (hrest : c.rest = a :: b :: d :: rest)
    (hdash : ¬(a = '-' ∧ b = '-' ∧ d = '-')) (hdot : ¬(a = '.' ∧ b = '.' ∧ d = '.')) :
    c.markerAt = false := by
  unfold markerAt
  rw [hrest]
  split
  · simp_all
  · simp_all
  · rfl

theorem markerAt_extend (h : c.IsComplete more) (hin : c.IsInside more) :
    (c.extend more index line).markerAt = c.markerAt := by
  rcases h with rfl | h | h
  · simp [markerAt]
  · obtain rfl := hin.resolve_right (by simp [h])
    simp [markerAt]
  · rcases hc : c.rest with _ | ⟨a, _ | ⟨b, _ | ⟨d, _ | ⟨e, rest⟩⟩⟩⟩
    · simp [hc] at h
    · obtain rfl : a = '\n' := by simpa [hc] using h
      simp [markerAt, hc]
    · obtain rfl : b = '\n' := by simpa [hc] using h
      simp [markerAt, hc]
    · obtain rfl : d = '\n' := by simpa [hc] using h
      simp [markerAt, hc]
    · have hmore : (c.extend more index line).rest = a :: b :: d :: e :: (rest ++ more) := by
        rw [rest_extend, hc]
        rfl
      by_cases hdash : a = '-' ∧ b = '-' ∧ d = '-'
      · obtain ⟨rfl, rfl, rfl⟩ := hdash
        simp [markerAt, hc, gapAt]
      · by_cases hdot : a = '.' ∧ b = '.' ∧ d = '.'
        · obtain ⟨rfl, rfl, rfl⟩ := hdot
          simp [markerAt, hc, gapAt]
        · rw [markerAt_of_no_mark hmore hdash hdot, markerAt_of_no_mark hc hdash hdot]

end Cursor
end PubspecTidy.Yaml
