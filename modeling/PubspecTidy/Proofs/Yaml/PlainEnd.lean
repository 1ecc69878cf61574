import PubspecTidy.Proofs.Yaml.Gap
import PubspecTidy.Proofs.Yaml.Plain

/-!
# Plain scalars at the end of a part

A plain scalar takes the gap behind it, so the one at the end of a part looks at what comes next.
Main statement: if that stands no deeper than the block around, the scalar is the one that the part
alone has.
-/
namespace PubspecTidy.Yaml.Plain
open Cursor

variable {more : List Char} {index line : Nat} {c : Cursor}

/-- Whether a gap of a plain scalar cannot go on here. -/
def EndsGap (c : Cursor) : Prop := ∀ ch, c.rest.head? = some ch → ch ≠ ' ' ∧ isBreak ch = false

theorem markerAt_of_nil (h : c.rest = []) : c.markerAt = false := by
  unfold markerAt
  rw [h]

theorem takeBreaks_blank (fuel : Nat) (c : Cursor) (hfuel : c.rest.length < fuel) :
    Blank c (takeBreaks fuel c).2 ∧
      ((takeBreaks fuel c).1.2 = false → EndsGap (takeBreaks fuel c).2) := by
  induction fuel generalizing c with
  | zero => omega
  | succ fuel ih =>
    unfold takeBreaks
    split
    · rename_i hspace
      have hlt := length_next_lt_of_head? hspace
      obtain ⟨hblank, hends⟩ := ih c.next (by omega)
      exact ⟨.next (by simpa using hspace) (.inl rfl) hblank, hends⟩
    · rename_i hspace
      split
      · rename_i b c' hbreak
        have hlt := length_lt_of_takeBreak? hbreak
        split
        · exact ⟨blank_of_takeBreak? hbreak, fun h => absurd h (by simp)⟩
        · obtain ⟨hblank, hends⟩ := ih c' (by omega)
          exact ⟨(blank_of_takeBreak? hbreak).trans hblank, hends⟩
      · rename_i hbreak
        refine ⟨.refl c, fun _ ch hch => ?_⟩
        cases hrest : c.rest with
        | nil => simp [hrest] at hch
        | cons ch' rest =>
          obtain rfl : ch' = ch := by simpa [hrest] using hch
          refine ⟨fun hspace' => hspace (by simp [hrest, hspace']), ?_⟩
          exact isBreak_eq_false_of_takeBreak? hrest hbreak

theorem takeBreaks_extend_last {fuel fuel' : Nat} (hfuel : c.rest.length < fuel)
    (hfuel' : (c.rest ++ more).length < fuel') (h : c.IsComplete more)
    (hend : (takeBreaks fuel c).2.rest = []) :
    Blank (c.last.extend more index line) (takeBreaks fuel' (c.extend more index line)).2 ∧
      ((takeBreaks fuel' (c.extend more index line)).1.2 = false →
        EndsGap (takeBreaks fuel' (c.extend more index line)).2) := by
  induction fuel generalizing c fuel' with
  | zero => omega
  | succ fuel ih =>
    by_cases hnil : c.rest = []
    · rw [last_of_nil hnil]
      exact takeBreaks_blank fuel' _ hfuel'
    · obtain ⟨fuel', rfl⟩ : ∃ n, fuel' = n + 1 := ⟨fuel' - 1, by omega⟩
      rw [List.length_append] at hfuel'
      have hin : c.IsInside more := .inr hnil
      unfold takeBreaks at hend ⊢
      rw [rest_extend, head?_append_of_inside hin, takeBreak?_extend h hin]
      split at hend
      · rename_i hspace
        have hlt := length_next_lt_of_head? hspace
        rw [if_pos hspace, next_extend h hin, ← last_next]
        exact ih (by omega) (by rw [List.length_append]; omega) h.next hend
      · rename_i hspace
        rw [if_neg hspace]
        cases hbreak : c.takeBreak? with
        | none =>
          simp only [hbreak] at hend
          exact absurd hend hnil
        | some t =>
          obtain ⟨b, c'⟩ := t
          have hlt := length_lt_of_takeBreak? hbreak
          have hc' : c'.IsComplete more := (precedes_takeBreak? hbreak).isComplete h.next
          have hlast : c'.last = c.last :=
            ((precedes_next c).trans (precedes_takeBreak? hbreak)).last_eq
          simp only [hbreak, Option.map_some] at hend ⊢
          split
          · -- only behind the part a mark can stand that the part alone does not have
            rename_i hmark
            have hnil' : c'.rest = [] := by
              by_contra hne
              rw [markerAt_extend hc' (.inr hne)] at hmark
              rw [if_pos hmark] at hend
              exact hne hend
            rw [← hlast, last_of_nil hnil']
            exact ⟨.refl _, fun hno => absurd hno (by simp)⟩
          · have hend' : (takeBreaks fuel c').2.rest = [] := by
              split at hend
              · rename_i hmark'
                rw [markerAt_of_nil hend] at hmark'
                simp at hmark'
              · exact hend
            rw [← hlast]
            exact ih (by omega) (by rw [List.length_append]; omega) hc' hend'

/-- What the gap after a first line end is read as. -/
def gapText (b : Char) (breaks : List Char × Bool) : Option (List Char) :=
  if breaks.2 then none
  else if b ≠ '\n' then some (b :: breaks.1)
  else if breaks.1.isEmpty then some [' ']
  else some breaks.1

/-- The gap behind a first line end. -/
def afterBreak (b : Char) (c : Cursor) : Gap × Cursor :=
  if c.markerAt then (⟨none, true⟩, c)
  else
    let breaks := takeBreaks (c.rest.length + 1) c
    (⟨gapText b breaks.1, true⟩, breaks.2)

theorem takeGap_of_break {b : Char} {c' : Cursor}
    (h : (c.takeWhile (· = ' ')).2.takeBreak? = some (b, c')) : takeGap c = afterBreak b c' := by
  unfold takeGap afterBreak gapText
  dsimp only
  simp only [h]
  split
  · rfl
  · split
    · rfl
    · split
      · rfl
      · split <;> rfl

theorem hasBreak_afterBreak (b : Char) (c : Cursor) : (afterBreak b c).1.hasBreak = true := by
  unfold afterBreak
  split <;> rfl

theorem gapText_eq_none {b : Char} {breaks : List Char × Bool} (h : breaks.2 = true) :
    gapText b breaks = none := if_pos h

theorem afterBreak_extend_last {b : Char} (h : c.IsComplete more)
    (hend : (afterBreak b c).2.rest = []) :
    Blank (c.last.extend more index line) (afterBreak b (c.extend more index line)).2 ∧
      ((afterBreak b (c.extend more index line)).1.text ≠ none →
        EndsGap (afterBreak b (c.extend more index line)).2) := by
  unfold afterBreak at hend ⊢
  by_cases hmark : (c.extend more index line).markerAt = true
  · have hnil : c.rest = [] := by
      by_contra hne
      rw [markerAt_extend h (.inr hne)] at hmark
      rw [if_pos hmark] at hend
      exact hne hend
    rw [if_pos hmark, last_of_nil hnil]
    exact ⟨.refl _, fun hno => absurd rfl hno⟩
  · have hend' : (takeBreaks (c.rest.length + 1) c).2.rest = [] := by
      split at hend
      · rename_i hmark'
        rw [markerAt_of_nil hend] at hmark'
        simp at hmark'
      · exact hend
    obtain ⟨hblank, hends⟩ := @takeBreaks_extend_last more index line c _
      ((c.rest ++ more).length + 1) (Nat.lt_succ_self _) (Nat.lt_succ_self _) h hend'
    rw [if_neg hmark]
    refine ⟨hblank, fun hsome => hends ?_⟩
    by_contra hstop
    exact hsome (gapText_eq_none (by simpa using hstop))

/-- The gap at the end of a part goes on behind it; with it the line has ended. -/
theorem takeGap_extend_last (h : c.IsComplete more) (hmore : more ≠ []) (hne : c.rest ≠ [])
    (hend : (takeGap c).2.rest = []) :
    (takeGap c).1.hasBreak = true ∧ (takeGap (c.extend more index line)).1.hasBreak = true ∧
      Blank (c.last.extend more index line) (takeGap (c.extend more index line)).2 ∧
      ((takeGap (c.extend more index line)).1.text ≠ none →
        EndsGap (takeGap (c.extend more index line)).2) := by
  have hspaces : (c.takeWhile (· = ' ')).2.IsInside more :=
    takeWhile_isInside h (.inr hne) (by decide)
  have hcomplete := (precedes_takeWhile (· = ' ') c).isComplete h
  cases hbreak : (c.takeWhile (· = ' ')).2.takeBreak? with
  | none =>
    unfold takeGap at hend
    simp only [hbreak] at hend
    exact absurd hend (hspaces.resolve_left hmore)
  | some t =>
    obtain ⟨b, c'⟩ := t
    have hprecedes := (precedes_next _).trans (precedes_takeBreak? hbreak)
    have hbreak' : ((c.extend more index line).takeWhile (· = ' ')).2.takeBreak? =
        some (b, c'.extend more index line) := by
      rw [takeWhile_extend h hspaces]
      dsimp only
      rw [takeBreak?_extend hcomplete hspaces, hbreak]
      rfl
    rw [takeGap_of_break hbreak] at hend ⊢
    rw [takeGap_of_break hbreak', ← ((precedes_takeWhile _ c).trans hprecedes).last_eq]
    exact ⟨hasBreak_afterBreak _ _, hasBreak_afterBreak _ _,
      afterBreak_extend_last (hprecedes.isComplete hcomplete) hend⟩

/-! ## Scalars -/

theorem wordLength_lt {cs : List Char} (h : cs.getLast? = some '\n') (inFlow : Bool) :
    wordLength inFlow cs < cs.length := by
  induction cs with
  | nil => simp at h
  | cons ch rest ih =>
    unfold wordLength
    split
    · simp
    · rename_i hword
      cases rest with
      | nil =>
        obtain rfl : ch = '\n' := by simpa using h
        exact absurd hword (by simp [isGap, isBreak])
      | cons r rest => simpa using ih (by simpa using h)

theorem wordAt_lt (h : c.rest.getLast? = some '\n') (inFlow : Bool) :
    wordAt inFlow c < c.rest.length := by
  have hlt := wordLength_lt h inFlow
  unfold wordAt
  split <;> omega

theorem wordAt_of_nil (h : c.rest = []) (inFlow : Bool) : wordAt inFlow c = 0 := by
  unfold wordAt
  rw [h]
  rfl

/-- Where what comes next stands no deeper than the block, a scalar cannot go on. -/
theorem endsAt_of_follows {indent : Int} {e d : Cursor} (hblank : Blank e d) (hends : EndsGap d)
    (hnext : e.nextSeen.rest = [] ∨ (e.nextSeen.column : Int) ≤ indent) :
    d.rest = [] ∨ endsAt false (indent + 1) d = true := by
  cases hrest : d.rest with
  | nil => exact .inl rfl
  | cons ch rest =>
    refine .inr ?_
    unfold endsAt
    by_cases hhash : ch = '#'
    · simp [hrest, hhash]
    · obtain ⟨hspace, hbreak⟩ := hends ch (by rw [hrest]; rfl)
      have hseen : e.nextSeen = d :=
        hblank.nextSeen_eq.trans (nextSeen_of_seen hrest hspace hhash hbreak)
      rw [hseen] at hnext
      have hcolumn : (d.column : Int) < indent + 1 := by
        have := hnext.resolve_left (by simp [hrest])
        omega
      simp [hcolumn]

theorem takeWords_of_nil (h : c.rest = []) (inFlow : Bool) (indent : Int) (fuel : Nat)
    (gap : List Char) (broken : Bool) :
    takeWords inFlow indent fuel gap broken c = (⟨[], broken⟩, c) := by
  cases fuel with
  | zero => rfl
  | succ fuel => rw [takeWords_succ, if_pos (wordAt_of_nil h inFlow)]

/-- A word behind which the scalar ends. -/
theorem takeWords_of_last_word {inFlow : Bool} {indent : Int} (fuel : Nat) (gap : List Char)
    (broken : Bool) (hword : wordAt inFlow c ≠ 0)
    (hbreak : (takeGap (c.skip (wordAt inFlow c))).1.hasBreak = true)
    (hends : (takeGap (c.skip (wordAt inFlow c))).1.text ≠ none →
      (takeGap (c.skip (wordAt inFlow c))).2.rest = [] ∨
        endsAt inFlow indent (takeGap (c.skip (wordAt inFlow c))).2 = true) :
    takeWords inFlow indent (fuel + 1) gap broken c =
      (⟨gap ++ c.rest.take (wordAt inFlow c), true⟩,
        (takeGap (c.skip (wordAt inFlow c))).2) := by
  rw [takeWords_succ, if_neg hword]
  generalize takeGap (c.skip (wordAt inFlow c)) = after at hbreak hends ⊢
  dsimp only
  cases htext : after.1.text with
  | none => rw [hbreak]
  | some text =>
    dsimp only
    split
    · rw [hbreak]
    · rename_i hno
      have hnil := (hends (by simp [htext])).resolve_right hno
      rw [takeWords_of_nil hnil, hbreak, List.append_nil]

/-- A last word whose gap reaches the end of the part is the last one in the whole text too. -/
theorem takeWords_extend_of_last_word {indent : Int} (fuel fuel' : Nat) (gap : List Char)
    (broken : Bool) (h : c.IsComplete more) (hmore : more ≠ []) (hword : wordAt false c ≠ 0)
    (hskip : (c.skip (wordAt false c)).rest ≠ [])
    (hgap : (takeGap (c.skip (wordAt false c))).2.rest = [])
    (hnext : (c.last.extend more index line).nextSeen.rest = [] ∨
      ((c.last.extend more index line).nextSeen.column : Int) ≤ indent) :
    (takeWords false (indent + 1) (fuel + 1) gap broken c).1.brokenAfter = true ∧
      ∃ d, Blank (c.last.extend more index line) d ∧
        takeWords false (indent + 1) (fuel' + 1) gap broken (c.extend more index line) =
          ((takeWords false (indent + 1) (fuel + 1) gap broken c).1, d) := by
  have hin : c.IsInside more := (precedes_skip (wordAt false c) c).isInside (.inr hskip)
  have hword' : wordAt false (c.extend more index line) = wordAt false c := wordAt_extend h hin _
  have hskip' : (c.extend more index line).skip (wordAt false c) =
      (c.skip (wordAt false c)).extend more index line := skip_extend h (.inr (wordAt_le _ c))
  obtain ⟨hbroken, hbroken', hblank, hends⟩ :=
    @takeGap_extend_last more index line _ (h.skip (wordAt false c)) hmore hskip hgap
  rw [last_skip] at hblank
  have halone : takeWords false (indent + 1) (fuel + 1) gap broken c = _ :=
    takeWords_of_last_word fuel gap broken hword hbroken fun _ => .inl hgap
  have hwhole : takeWords false (indent + 1) (fuel' + 1) gap broken (c.extend more index line) =
      _ := takeWords_of_last_word fuel' gap broken (by rwa [hword']) (by rwa [hword', hskip'])
      (by
        rw [hword', hskip']
        exact fun hsome => endsAt_of_follows hblank (hends hsome) hnext)
  rw [halone, hwhole, hword', hskip', rest_extend, List.take_append_of_le_length (wordAt_le _ c)]
  exact ⟨rfl, _, hblank, rfl⟩

theorem takeWords_extend_last {indent : Int} {fuel fuel' : Nat}
    {gap : List Char} {broken : Bool} (hfuel : c.rest.length < fuel) (hle : fuel ≤ fuel')
    (h : c.IsComplete more) (hmore : more ≠ []) (hne : c.rest ≠ [])
    (hend : (takeWords false (indent + 1) fuel gap broken c).2.rest = [])
    (hnext : (c.last.extend more index line).nextSeen.rest = [] ∨
      ((c.last.extend more index line).nextSeen.column : Int) ≤ indent) :
    (takeWords false (indent + 1) fuel gap broken c).1.brokenAfter = true ∧
      ∃ d, Blank (c.last.extend more index line) d ∧
        takeWords false (indent + 1) fuel' gap broken (c.extend more index line) =
          ((takeWords false (indent + 1) fuel gap broken c).1, d) := by
  induction fuel generalizing c fuel' gap broken with
  | zero => omega
  | succ fuel ih =>
    obtain ⟨fuel', rfl⟩ : ∃ n, fuel' = n + 1 := ⟨fuel' - 1, by omega⟩
    have hlastChar : c.rest.getLast? = some '\n' := (h.resolve_left hmore).resolve_left hne
    have hlt := wordAt_lt hlastChar false
    by_cases hn : wordAt false c = 0
    · rw [takeWords_succ, if_pos hn] at hend
      exact absurd hend hne
    · have hskip : (c.skip (wordAt false c)).rest ≠ [] := by
        rw [rest_skip]
        exact fun hnil => by simp at hnil; omega
      by_cases hgap : (takeGap (c.skip (wordAt false c))).2.rest = []
      · exact takeWords_extend_of_last_word fuel fuel' gap broken h hmore hn hskip hgap hnext
      · have hshort := length_takeGap_lt false hn
        rw [takeWords_succ, if_neg hn] at hend ⊢
        rw [takeWords_succ, wordAt_extend h (.inr hne), if_neg hn,
          skip_extend h (.inr (wordAt_le _ c)), takeGap_extend (h.skip _) (.inr hgap),
          rest_extend, List.take_append_of_le_length (wordAt_le _ c)]
        dsimp only at hend ⊢
        cases hgapText : (takeGap (c.skip (wordAt false c))).1.text with
        | none =>
          simp only [hgapText] at hend
          exact absurd hend hgap
        | some text =>
          simp only [hgapText] at hend ⊢
          rw [endsAt_extend (.inr hgap)]
          split at hend
          · exact absurd hend hgap
          · rename_i hgoes
            rw [← ((precedes_skip _ c).trans (precedes_takeGap _)).last_eq] at hnext ⊢
            obtain ⟨hbroken, d, hblank, hwhole⟩ := ih (by omega : _ < fuel)
              (by omega : fuel ≤ fuel') ((precedes_takeGap _).isComplete (h.skip _)) hgap hend hnext
            rw [if_neg hgoes, if_neg hgoes, hwhole]
            exact ⟨hbroken, d, hblank, rfl⟩

/-- A plain scalar that goes up to the end of a part is the same in the whole text, and with it the
line has ended. -/
theorem take_extend_last {indent : Int} (h : c.IsComplete more) (hmore : more ≠ [])
    (hne : c.rest ≠ []) (hend : (take false indent c).2.rest = [])
    (hnext : (c.last.extend more index line).nextSeen.rest = [] ∨
      ((c.last.extend more index line).nextSeen.column : Int) ≤ indent) :
    (take false indent c).1.brokenAfter = true ∧
      ∃ d, Blank (c.last.extend more index line) d ∧
        take false indent (c.extend more index line) = ((take false indent c).1, d) :=
  takeWords_extend_last (Nat.lt_succ_self _) (by simp) h hmore hne hend hnext

end PubspecTidy.Yaml.Plain
