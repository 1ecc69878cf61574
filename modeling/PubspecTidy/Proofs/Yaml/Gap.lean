import PubspecTidy.Proofs.Yaml.Cursor
import PubspecTidy.Yaml.Token.Scan

/-!
# What is seen next

Spaces, comments and line ends stand between tokens. Main statements: the scanner goes to the next
thing to be seen, wherever in the gap before it the scanner stands, and a gap that goes on behind a
part of a text ends where the gap ends that starts behind the part.
-/
namespace PubspecTidy.Yaml

namespace Cursor

/-- The end of the gap here. -/
def gapEnd : Nat → Cursor → Cursor
  | 0, c => c
  | fuel + 1, c =>
    match c.skipSpaces.skipComment.takeBreak? with
    | some (_, c') => gapEnd fuel c'
    | none => c.skipSpaces.skipComment

/-- The next place where something is to be seen, or the end. -/
def nextSeen (c : Cursor) : Cursor := gapEnd (c.rest.length + 1) c

variable {more : List Char} {index line : Nat} {c c' : Cursor}

theorem precedes_skipBlanks (c : Cursor) : c.Precedes c.skipSpaces.skipComment :=
  (precedes_skipSpaces c).trans (precedes_skipComment _)

theorem length_lt_of_lineEnd {b : Char} (h : c.skipSpaces.skipComment.takeBreak? = some (b, c')) :
    c'.rest.length < c.rest.length :=
  (length_lt_of_takeBreak? h).trans_le (precedes_skipBlanks c).length_le

theorem precedes_gapEnd (fuel : Nat) (c : Cursor) : c.Precedes (gapEnd fuel c) := by
  induction fuel generalizing c with
  | zero => exact .refl c
  | succ fuel ih =>
    unfold gapEnd
    split
    · rename_i hbreak
      exact (precedes_skipBlanks c).trans
        ((precedes_next _).trans ((precedes_takeBreak? hbreak).trans (ih _)))
    · exact precedes_skipBlanks c

theorem precedes_nextSeen (c : Cursor) : c.Precedes c.nextSeen := precedes_gapEnd _ c

theorem gapEnd_eq {fuel fuel' : Nat} (hfuel : c.rest.length < fuel)
    (hfuel' : c.rest.length < fuel') : gapEnd fuel c = gapEnd fuel' c := by
  induction fuel generalizing c fuel' with
  | zero => omega
  | succ fuel ih =>
    obtain ⟨fuel', rfl⟩ : ∃ n, fuel' = n + 1 := ⟨fuel' - 1, by omega⟩
    unfold gapEnd
    split
    · rename_i c' hbreak
      have hlt := length_lt_of_lineEnd hbreak
      exact ih (by omega) (by omega)
    · rfl

theorem gapEnd_eq_nextSeen {fuel : Nat} (hfuel : c.rest.length < fuel) :
    gapEnd fuel c = c.nextSeen := gapEnd_eq hfuel (Nat.lt_succ_self _)

theorem nextSeen_eq (c : Cursor) :
    c.nextSeen =
      match c.skipSpaces.skipComment.takeBreak? with
      | some (_, c') => c'.nextSeen
      | none => c.skipSpaces.skipComment := by
  conv =>
    lhs
    unfold nextSeen gapEnd
  split
  · rename_i hbreak
    exact gapEnd_eq_nextSeen (length_lt_of_lineEnd hbreak)
  · rfl

theorem nextSeen_of_break {b : Char} (h : c.skipSpaces.skipComment.takeBreak? = some (b, c')) :
    c.nextSeen = c'.nextSeen := by
  rw [nextSeen_eq, h]

theorem nextSeen_of_no_break (h : c.skipSpaces.skipComment.takeBreak? = none) :
    c.nextSeen = c.skipSpaces.skipComment := by
  rw [nextSeen_eq, h]

/-! ## The end of a gap -/

theorem isBreak_eq_false_of_takeBreak? {ch : Char} {rest : List Char} (hrest : c.rest = ch :: rest)
    (h : c.takeBreak? = none) : isBreak ch = false := by
  rw [← takeBreak?_isSome hrest, h]
  rfl

theorem rest_skipWhile (p : Char → Bool) (c : Cursor) :
    (c.skipWhile p).rest = c.rest.dropWhile p := by
  have hdrop : (c.rest.takeWhile p ++ c.rest.dropWhile p).drop (c.rest.takeWhile p).length =
      c.rest.dropWhile p := List.drop_left
  rw [List.takeWhile_append_dropWhile] at hdrop
  exact (rest_skip _ c).trans hdrop

theorem not_of_skipWhile {p : Char → Bool} {ch : Char} {rest : List Char}
    (hrest : (c.skipWhile p).rest = ch :: rest) : p ch = false := by
  rw [rest_skipWhile] at hrest
  have hhead := List.head?_dropWhile_not p c.rest
  rwa [hrest] at hhead

/-- Behind the spaces and a comment stands neither a space nor a comment. -/
theorem head_skipBlanks {ch : Char} {rest : List Char}
    (hrest : c.skipSpaces.skipComment.rest = ch :: rest) : ch ≠ ' ' ∧ ch ≠ '#' := by
  unfold skipComment at hrest
  split at hrest
  · have hbreak : isBreak ch = true := by simpa using not_of_skipWhile hrest
    exact ⟨by rintro rfl; exact absurd hbreak (by decide),
      by rintro rfl; exact absurd hbreak (by decide)⟩
  · rename_i hhash
    have hspace : decide (ch = ' ') = false := not_of_skipWhile hrest
    exact ⟨by simpa using hspace, fun hch => hhash (by simp [hrest, hch])⟩

/-- What ends a gap is to be seen. -/
theorem head_nextSeen {ch : Char} {rest : List Char} (hrest : c.nextSeen.rest = ch :: rest) :
    ch ≠ ' ' ∧ ch ≠ '#' ∧ isBreak ch = false := by
  induction hlength : c.rest.length using Nat.strongRecOn generalizing c with
  | ind length ih =>
    subst hlength
    cases hbreak : c.skipSpaces.skipComment.takeBreak? with
    | some t =>
      rw [nextSeen_of_break hbreak] at hrest
      exact ih _ (length_lt_of_lineEnd hbreak) hrest rfl
    | none =>
      rw [nextSeen_of_no_break hbreak] at hrest
      obtain ⟨hspace, hhash⟩ := head_skipBlanks hrest
      exact ⟨hspace, hhash, isBreak_eq_false_of_takeBreak? hrest hbreak⟩

/-! ## Gaps in a longer text -/

theorem skipBlanks_extend (h : c.IsComplete more) (hin : c.skipSpaces.skipComment.IsInside more) :
    (c.extend more index line).skipSpaces.skipComment =
      c.skipSpaces.skipComment.extend more index line := by
  rw [skipSpaces_extend h ((precedes_skipComment _).isInside hin),
    skipComment_extend ((precedes_skipSpaces c).isComplete h) hin]

theorem nextSeen_extend (h : c.IsComplete more) (hin : c.nextSeen.IsInside more) :
    (c.extend more index line).nextSeen = c.nextSeen.extend more index line := by
  induction hlength : c.rest.length using Nat.strongRecOn generalizing c with
  | ind length ih =>
    subst hlength
    have hcomplete := (precedes_skipBlanks c).isComplete h
    cases hbreak : c.skipSpaces.skipComment.takeBreak? with
    | some t =>
      have hprecedes := (precedes_next _).trans (precedes_takeBreak? hbreak)
      rw [nextSeen_of_break hbreak] at hin ⊢
      have hin' := (hprecedes.trans (precedes_nextSeen t.2)).isInside hin
      have hbreak' : (c.extend more index line).skipSpaces.skipComment.takeBreak? =
          some (t.1, t.2.extend more index line) := by
        rw [skipBlanks_extend h hin', takeBreak?_extend hcomplete hin', hbreak]
        rfl
      rw [nextSeen_of_break hbreak']
      exact ih _ (length_lt_of_lineEnd hbreak) (hprecedes.isComplete hcomplete) hin rfl
    | none =>
      rw [nextSeen_of_no_break hbreak] at hin ⊢
      have hbreak' : (c.extend more index line).skipSpaces.skipComment.takeBreak? = none := by
        rw [skipBlanks_extend h hin, takeBreak?_extend hcomplete hin, hbreak]
        rfl
      rw [nextSeen_of_no_break hbreak', skipBlanks_extend h hin]

/-- Spaces and a comment do not reach the end of a complete text. -/
theorem skipBlanks_isInside (h : c.IsComplete more) (hin : c.IsInside more) :
    c.skipSpaces.skipComment.IsInside more := by
  have hspaces : c.skipSpaces.IsInside more := takeWhile_isInside h hin (by decide)
  unfold skipComment
  split
  · exact takeWhile_isInside ((precedes_skipSpaces c).isComplete h) hspaces (by decide)
  · exact hspaces

/-- A gap up to the end goes on behind it. -/
theorem nextSeen_extend_last (h : c.IsComplete more) (hmore : more ≠ [])
    (hend : c.nextSeen.rest = []) :
    (c.extend more index line).nextSeen = (c.last.extend more index line).nextSeen := by
  induction hlength : c.rest.length using Nat.strongRecOn generalizing c with
  | ind length ih =>
    subst hlength
    by_cases hnil : c.rest = []
    · rw [last_of_nil hnil]
    · have hin := skipBlanks_isInside h (.inr hnil)
      have hcomplete := (precedes_skipBlanks c).isComplete h
      cases hbreak : c.skipSpaces.skipComment.takeBreak? with
      | some t =>
        have hprecedes := (precedes_next _).trans (precedes_takeBreak? hbreak)
        rw [nextSeen_of_break hbreak] at hend
        have hbreak' : (c.extend more index line).skipSpaces.skipComment.takeBreak? =
            some (t.1, t.2.extend more index line) := by
          rw [skipBlanks_extend h hin, takeBreak?_extend hcomplete hin, hbreak]
          rfl
        rw [nextSeen_of_break hbreak',
          ih _ (length_lt_of_lineEnd hbreak) (hprecedes.isComplete hcomplete) hend rfl,
          ((precedes_skipBlanks c).trans hprecedes).last_eq]
      | none =>
        rw [nextSeen_of_no_break hbreak] at hend
        exact absurd hend (hin.resolve_left hmore)

/-! ## Going through a gap -/

theorem skipSpaces_next (h : c.rest.head? = some ' ') : c.skipSpaces = c.next.skipSpaces := by
  obtain ⟨rest, hrest⟩ : ∃ rest, c.rest = ' ' :: rest := by
    cases hc : c.rest with
    | nil => simp [hc] at h
    | cons ch rest => exact ⟨rest, by simpa [hc] using h⟩
  unfold skipSpaces skipWhile takeWhile
  rw [rest_next, hrest, List.takeWhile_cons_of_pos (by decide), List.drop_one, List.tail_cons]
  rfl

theorem skipBlanks_of_break {ch : Char} (h : c.rest.head? = some ch) (hch : isBreak ch = true) :
    c.skipSpaces.skipComment = c := by
  obtain ⟨rest, hrest⟩ : ∃ rest, c.rest = ch :: rest := by
    cases hc : c.rest with
    | nil => simp [hc] at h
    | cons ch' rest => exact ⟨rest, by simpa [hc] using h⟩
  have hspaces : c.skipSpaces = c := by
    unfold skipSpaces skipWhile takeWhile
    rw [hrest, List.takeWhile_cons_of_neg]
    · rfl
    · rintro hspace
      obtain rfl : ch = ' ' := by simpa using hspace
      exact absurd hch (by decide)
  rw [hspaces, skipComment, if_neg]
  rw [hrest]
  rintro hhash
  obtain rfl : ch = '#' := by simpa using hhash
  exact absurd hch (by decide)

theorem takeBreak?_cases {ch : Char} {rest : List Char} (hrest : c.rest = ch :: rest)
    (hch : isBreak ch = true) :
    ∃ b, c.takeBreak? = some (b, c.next) ∨
      c.takeBreak? = some (b, c.next.next) ∧ rest.head? = some '\n' := by
  unfold takeBreak?
  rw [hrest]
  split
  · rename_i hrest'
    obtain ⟨rfl, rfl⟩ := List.cons.inj hrest'
    exact ⟨'\n', .inr ⟨rfl, rfl⟩⟩
  · rename_i ch' rest' _ hrest'
    obtain ⟨rfl, rfl⟩ := List.cons.inj hrest'
    split
    · exact ⟨ch, .inl rfl⟩
    · exact ⟨'\n', .inl rfl⟩
  · simp_all

/-- A space or a line end may be left out of a gap. -/
theorem nextSeen_next {ch : Char} (h : c.rest.head? = some ch) (hch : ch = ' ' ∨ isBreak ch = true) :
    c.nextSeen = c.next.nextSeen := by
  rcases hch with rfl | hch
  · rw [nextSeen_eq, nextSeen_eq, skipSpaces_next h]
  · obtain ⟨rest, hrest⟩ : ∃ rest, c.rest = ch :: rest := by
      cases hc : c.rest with
      | nil => simp [hc] at h
      | cons ch' rest => exact ⟨rest, by simpa [hc] using h⟩
    have hblanks := skipBlanks_of_break h hch
    obtain ⟨b, hbreak | ⟨hbreak, hhead⟩⟩ := takeBreak?_cases hrest hch
    · exact nextSeen_of_break (by rw [hblanks]; exact hbreak)
    · have hhead' : c.next.rest.head? = some '\n' := by
        rw [rest_next, hrest]
        exact hhead
      obtain ⟨rest', hrest'⟩ : ∃ rest', c.next.rest = '\n' :: rest' := by
        cases hc : c.next.rest with
        | nil => simp [hc] at hhead'
        | cons ch' rest' => exact ⟨rest', by simpa [hc] using hhead'⟩
      have hbreak' : c.next.takeBreak? = some ('\n', c.next.next) := by
        rw [takeBreak?_eq_of_ne_return hrest' (by decide)]
        rfl
      have hskip : c.nextSeen = c.next.next.nextSeen :=
        nextSeen_of_break (by rw [hblanks]; exact hbreak)
      have hskip' : c.next.nextSeen = c.next.next.nextSeen :=
        nextSeen_of_break (by rw [skipBlanks_of_break hhead' (by decide)]; exact hbreak')
      rw [hskip, hskip']

/-- Only spaces and line ends stand between two places. -/
inductive Blank : Cursor → Cursor → Prop where
  | refl (c : Cursor) : Blank c c
  | next {c c' : Cursor} {ch : Char} (h : c.rest.head? = some ch)
      (hch : ch = ' ' ∨ isBreak ch = true) (hc : Blank c.next c') : Blank c c'

theorem Blank.nextSeen_eq (h : Blank c c') : c.nextSeen = c'.nextSeen := by
  induction h with
  | refl => rfl
  | next h hch _ ih => rw [nextSeen_next h hch, ih]

/-- Something to be seen ends the gap. -/
theorem nextSeen_of_seen {ch : Char} {rest : List Char} (hrest : c.rest = ch :: rest)
    (hspace : ch ≠ ' ') (hhash : ch ≠ '#') (hbreak : isBreak ch = false) : c.nextSeen = c := by
  have hspaces : c.skipSpaces = c := by
    unfold skipSpaces skipWhile takeWhile
    rw [hrest, List.takeWhile_cons_of_neg (by simpa using hspace)]
    rfl
  have hblanks : c.skipSpaces.skipComment = c := by
    rw [hspaces, skipComment, if_neg]
    rw [hrest]
    simpa using hhash
  have hno : c.takeBreak? = none := by
    have hsome := takeBreak?_isSome hrest
    rw [hbreak] at hsome
    simpa using hsome
  rw [nextSeen_of_no_break (by rw [hblanks]; exact hno), hblanks]

theorem Blank.trans {c'' : Cursor} (h : Blank c c') (h' : Blank c' c'') : Blank c c'' := by
  induction h with
  | refl => exact h'
  | next h hch _ ih => exact .next h hch (ih h')

theorem blank_of_takeBreak? {b : Char} (h : c.takeBreak? = some (b, c')) : Blank c c' := by
  cases hrest : c.rest with
  | nil => simp [takeBreak?, hrest] at h
  | cons ch rest =>
    have hch : isBreak ch = true := by rw [← takeBreak?_isSome hrest, h]; rfl
    have hhead : c.rest.head? = some ch := by rw [hrest]; rfl
    obtain ⟨b', hbreak | ⟨hbreak, hnext⟩⟩ := takeBreak?_cases hrest hch
    · obtain ⟨rfl, rfl⟩ := Prod.mk.inj (Option.some.inj (h.symm.trans hbreak))
      exact .next hhead (.inr hch) (.refl _)
    · obtain ⟨rfl, rfl⟩ := Prod.mk.inj (Option.some.inj (h.symm.trans hbreak))
      have hhead' : c.next.rest.head? = some '\n' := by rw [rest_next, hrest]; exact hnext
      exact .next hhead (.inr hch) (.next hhead' (.inr (by decide)) (.refl _))

theorem Blank.precedes (h : Blank c c') : c.Precedes c' := by
  induction h with
  | refl => exact .refl _
  | next h hch _ ih => exact (precedes_next _).trans ih

end Cursor
end PubspecTidy.Yaml
