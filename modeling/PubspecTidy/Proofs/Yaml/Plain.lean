import PubspecTidy.Proofs.Yaml.Cursor
import PubspecTidy.Yaml.Token.Plain

/-!
# Plain scalars in a longer text

Main statement: a plain scalar that ends before the end of a text is the same in every longer text.
-/
namespace PubspecTidy.Yaml.Plain

open Cursor

variable {more : List Char} {index line : Nat} {c : Cursor}

/-! ## Words -/

theorem wordLength_append {cs : List Char} (h : cs.getLast? = some '\n') (inFlow : Bool)
    (more : List Char) : wordLength inFlow (cs ++ more) = wordLength inFlow cs := by
  induction cs with
  | nil => simp at h
  | cons ch rest ih =>
    cases rest with
    | nil =>
      obtain rfl : ch = '\n' := by simpa using h
      rfl
    | cons r rest =>
      have hrest : wordLength inFlow (r :: rest ++ more) = wordLength inFlow (r :: rest) :=
        ih (by simpa using h)
      have hcolon : colonEndsAt inFlow (r :: rest ++ more) = colonEndsAt inFlow (r :: rest) := rfl
      rw [List.cons_append]
      unfold wordLength
      rw [hrest, hcolon]

theorem wordLength_le (inFlow : Bool) (cs : List Char) : wordLength inFlow cs ≤ cs.length := by
  induction cs with
  | nil => rfl
  | cons ch rest ih =>
    unfold wordLength
    split
    · exact Nat.zero_le _
    · exact Nat.succ_le_succ ih

theorem wordLength_extend (h : c.IsComplete more) (hin : c.IsInside more) (inFlow : Bool) :
    wordLength inFlow (c.rest ++ more) = wordLength inFlow c.rest := by
  rcases h with rfl | h | h
  · rw [List.append_nil]
  · obtain rfl := hin.resolve_right (by simp [h])
    rw [List.append_nil]
  · exact wordLength_append h inFlow more

/-! ## Gaps -/

theorem precedes_takeBreaks (fuel : Nat) (c : Cursor) : c.Precedes (takeBreaks fuel c).2 := by
  induction fuel generalizing c with
  | zero => exact .refl c
  | succ fuel ih =>
    unfold takeBreaks
    split
    · exact (precedes_next c).trans (ih c.next)
    · split
      · rename_i b c' hbreak
        have hc' : c.Precedes c' := (precedes_next c).trans (precedes_takeBreak? hbreak)
        split
        · exact hc'
        · exact hc'.trans (ih c')
      · exact .refl c

theorem takeBreaks_extend {fuel fuel' : Nat} (hfuel : c.rest.length < fuel) (hle : fuel ≤ fuel')
    (h : c.IsComplete more) (hin : (takeBreaks fuel c).2.IsInside more) :
    takeBreaks fuel' (c.extend more index line) =
      ((takeBreaks fuel c).1, (takeBreaks fuel c).2.extend more index line) := by
  induction fuel generalizing c fuel' with
  | zero => omega
  | succ fuel ih =>
    obtain ⟨fuel', rfl⟩ : ∃ n, fuel' = n + 1 := ⟨fuel' - 1, by omega⟩
    have hin' : c.IsInside more := (precedes_takeBreaks _ _).isInside hin
    unfold takeBreaks at hin ⊢
    rw [rest_extend, head?_append_of_inside hin', takeBreak?_extend h hin']
    split at hin
    · rename_i hspace
      rw [if_pos hspace, if_pos hspace, next_extend h hin']
      have hlt := length_next_lt_of_head? hspace
      exact ih (by omega) (by omega) h.next hin
    · rename_i hspace
      rw [if_neg hspace, if_neg hspace]
      cases hbreak : c.takeBreak? with
      | none => rfl
      | some t =>
        obtain ⟨b, c'⟩ := t
        have hlt := length_lt_of_takeBreak? hbreak
        have hc' : c'.IsComplete more := (precedes_takeBreak? hbreak).isComplete h.next
        simp only [hbreak, Option.map_some] at hin ⊢
        by_cases hmark : c'.markerAt = true
        · rw [if_pos hmark] at hin ⊢
          rw [markerAt_extend hc' hin, if_pos hmark]
        · rw [if_neg hmark] at hin ⊢
          have hin₂ : (takeBreaks fuel c').2.IsInside more := hin
          have hrec := ih (by omega : c'.rest.length < fuel) (by omega : fuel ≤ fuel') hc' hin₂
          rw [markerAt_extend hc' ((precedes_takeBreaks _ _).isInside hin₂), if_neg hmark, hrec]

theorem precedes_takeGap_of_spaces (c : Cursor) :
    (c.takeWhile (· = ' ')).2.Precedes (takeGap c).2 := by
  unfold takeGap
  dsimp only
  split
  · exact .refl _
  · rename_i b c' hbreak
    have hc' := (precedes_next _).trans (precedes_takeBreak? hbreak)
    split
    · exact hc'
    · have hbreaks := hc'.trans (precedes_takeBreaks (c'.rest.length + 1) c')
      split
      · exact hbreaks
      · split
        · exact hbreaks
        · split <;> exact hbreaks

theorem precedes_takeGap (c : Cursor) : c.Precedes (takeGap c).2 :=
  (precedes_takeWhile _ c).trans (precedes_takeGap_of_spaces c)

theorem takeGap_extend (h : c.IsComplete more) (hin : (takeGap c).2.IsInside more) :
    takeGap (c.extend more index line) =
      ((takeGap c).1, (takeGap c).2.extend more index line) := by
  have hspaces := (precedes_takeGap_of_spaces c).isInside hin
  have hafter : (c.takeWhile (· = ' ')).2.IsComplete more :=
    (precedes_takeWhile _ c).isComplete h
  unfold takeGap at hin ⊢
  rw [takeWhile_extend h hspaces]
  dsimp only at hin ⊢
  rw [takeBreak?_extend hafter hspaces]
  cases hbreak : (c.takeWhile (· = ' ')).2.takeBreak? with
  | none => rfl
  | some t =>
    obtain ⟨b, c'⟩ := t
    have hc' : c'.IsComplete more := (precedes_takeBreak? hbreak).isComplete hafter.next
    simp only [hbreak, Option.map_some] at hin ⊢
    by_cases hmark : c'.markerAt = true
    · rw [if_pos hmark] at hin ⊢
      rw [markerAt_extend hc' hin, if_pos hmark]
    · rw [if_neg hmark] at hin ⊢
      have hbreaks : (takeBreaks (c'.rest.length + 1) c').2.IsInside more := by
        split at hin
        · exact hin
        · split at hin
          · exact hin
          · split at hin <;> exact hin
      have hrec : takeBreaks ((c'.extend more index line).rest.length + 1)
          (c'.extend more index line) = _ :=
        takeBreaks_extend (Nat.lt_succ_self _) (by simp) hc' hbreaks
      rw [markerAt_extend hc' ((precedes_takeBreaks _ _).isInside hbreaks), if_neg hmark, hrec]
      dsimp only
      split
      · rfl
      · split
        · rfl
        · split <;> rfl

/-! ## Scalars -/

/-- The length of the word here, which a comment is not. -/
def wordAt (inFlow : Bool) (c : Cursor) : Nat :=
  if c.rest.head? == some '#' then 0 else wordLength inFlow c.rest

theorem wordAt_le (inFlow : Bool) (c : Cursor) : wordAt inFlow c ≤ c.rest.length := by
  have hle := wordLength_le inFlow c.rest
  unfold wordAt
  split <;> omega

theorem wordAt_extend (h : c.IsComplete more) (hin : c.IsInside more) (inFlow : Bool) :
    wordAt inFlow (c.extend more index line) = wordAt inFlow c := by
  unfold wordAt
  rw [rest_extend, head?_append_of_inside hin, wordLength_extend h hin]

/-- Whether the scalar ends here, behind a gap. -/
def endsAt (inFlow : Bool) (indent : Int) (c : Cursor) : Bool :=
  c.rest.head? == some '#' || (!inFlow && decide ((c.column : Int) < indent))

theorem endsAt_extend (hin : c.IsInside more) (inFlow : Bool) (indent : Int) :
    endsAt inFlow indent (c.extend more index line) = endsAt inFlow indent c := by
  unfold endsAt
  rw [rest_extend, head?_append_of_inside hin, column_extend]

theorem takeWords_succ (inFlow : Bool) (indent : Int) (fuel : Nat) (gap : List Char) (broken : Bool)
    (c : Cursor) :
    takeWords inFlow indent (fuel + 1) gap broken c =
      if wordAt inFlow c = 0 then (⟨[], broken⟩, c)
      else
        let word := c.rest.take (wordAt inFlow c)
        let after := takeGap (c.skip (wordAt inFlow c))
        match after.1.text with
        | some text =>
          if endsAt inFlow indent after.2 then (⟨gap ++ word, after.1.hasBreak⟩, after.2)
          else
            let taken := takeWords inFlow indent fuel text after.1.hasBreak after.2
            (⟨gap ++ word ++ taken.1.text, taken.1.brokenAfter⟩, taken.2)
        | none => (⟨gap ++ word, after.1.hasBreak⟩, after.2) := rfl

theorem precedes_takeWords (inFlow : Bool) (indent : Int) (fuel : Nat) (gap : List Char)
    (broken : Bool) (c : Cursor) : c.Precedes (takeWords inFlow indent fuel gap broken c).2 := by
  induction fuel generalizing gap broken c with
  | zero => exact .refl c
  | succ fuel ih =>
    have hgap := (precedes_skip (wordAt inFlow c) c).trans (precedes_takeGap _)
    rw [takeWords_succ]
    split
    · exact .refl c
    · dsimp only
      split
      · split
        · exact hgap
        · exact hgap.trans (ih _ _ _)
      · exact hgap

/-- Behind a word there are fewer characters left. -/
theorem length_takeGap_lt (inFlow : Bool) (hword : wordAt inFlow c ≠ 0) :
    (takeGap (c.skip (wordAt inFlow c))).2.rest.length < c.rest.length := by
  have hle := (precedes_takeGap (c.skip (wordAt inFlow c))).length_le
  have hlength := wordAt_le inFlow c
  rw [length_skip] at hle
  omega

theorem takeWords_extend {inFlow : Bool} {indent : Int} {fuel fuel' : Nat} {gap : List Char}
    {broken : Bool} (hfuel : c.rest.length < fuel) (hle : fuel ≤ fuel') (h : c.IsComplete more)
    (hin : (takeWords inFlow indent fuel gap broken c).2.IsInside more) :
    takeWords inFlow indent fuel' gap broken (c.extend more index line) =
      ((takeWords inFlow indent fuel gap broken c).1,
        (takeWords inFlow indent fuel gap broken c).2.extend more index line) := by
  induction fuel generalizing c fuel' gap broken with
  | zero => omega
  | succ fuel ih =>
    obtain ⟨fuel', rfl⟩ : ∃ n, fuel' = n + 1 := ⟨fuel' - 1, by omega⟩
    have hin' : c.IsInside more := (precedes_takeWords ..).isInside hin
    rw [takeWords_succ] at hin
    rw [takeWords_succ, takeWords_succ, wordAt_extend h hin']
    by_cases hn : wordAt inFlow c = 0
    · rw [if_pos hn, if_pos hn]
    · rw [if_neg hn] at hin
      rw [if_neg hn, if_neg hn]
      dsimp only at hin ⊢
      have hgap : (takeGap (c.skip (wordAt inFlow c))).2.IsInside more := by
        split at hin
        · split at hin
          · exact hin
          · exact (precedes_takeWords ..).isInside hin
        · exact hin
      have hlt := length_takeGap_lt inFlow hn
      rw [rest_extend, List.take_append_of_le_length (wordAt_le inFlow c),
        skip_extend h (.inr (wordAt_le inFlow c)), takeGap_extend (h.skip _) hgap]
      dsimp only
      split
      · rename_i text htext
        simp only [htext] at hin
        rw [endsAt_extend hgap]
        split
        · rfl
        · rename_i hgoes
          rw [if_neg hgoes] at hin
          have hrec := ih (by omega : _ < fuel) (by omega : fuel ≤ fuel')
            ((precedes_takeGap _).isComplete (h.skip _)) hin
          rw [hrec]
      · rfl

/-- A scalar with a first word takes at least its first character. -/
theorem next_precedes_take {inFlow : Bool} (indent : Int) (hword : 0 < wordAt inFlow c) :
    c.next.Precedes (take inFlow indent c).2 := by
  obtain ⟨k, hk⟩ : ∃ k, wordAt inFlow c = k + 1 := ⟨_, (Nat.succ_pred (by omega)).symm⟩
  have hskip : c.next.Precedes (c.skip (k + 1)) := ⟨k, rfl⟩
  have hgap := hskip.trans (precedes_takeGap (c.skip (k + 1)))
  unfold take
  rw [takeWords_succ, hk, if_neg (Nat.succ_ne_zero k)]
  dsimp only
  split
  · split
    · exact hgap
    · exact hgap.trans (precedes_takeWords ..)
  · exact hgap

/-- A plain scalar that ends before the text does is the same in a longer text. -/
theorem take_extend {inFlow : Bool} {indent : Int} (h : c.IsComplete more)
    (hin : (take inFlow indent c).2.IsInside more) :
    take inFlow indent (c.extend more index line) =
      ((take inFlow indent c).1, (take inFlow indent c).2.extend more index line) :=
  takeWords_extend (Nat.lt_succ_self _) (by simp) h hin

end PubspecTidy.Yaml.Plain
