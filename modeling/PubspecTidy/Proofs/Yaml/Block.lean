import PubspecTidy.Proofs.Outcome
import PubspecTidy.Proofs.Yaml.Cursor
import PubspecTidy.Yaml.Token.Block

/-!
# Block scalars in a longer text

Main statement: a block scalar that ends before the end of a text is the same in every longer text.
-/
namespace PubspecTidy.Yaml.Block

open Cursor

variable {more : List Char} {index line : Nat} {c c' : Cursor}

/-! ## The header -/

theorem precedes_takeChomping (c : Cursor) : c.Precedes (takeChomping c).2 := by
  unfold takeChomping
  split
  · exact precedes_next c
  · exact .refl c

theorem takeChomping_extend (h : c.IsComplete more) (hin : c.IsInside more) :
    takeChomping (c.extend more index line) =
      ((takeChomping c).1, (takeChomping c).2.extend more index line) := by
  unfold takeChomping
  rw [rest_extend, head?_append_of_inside hin]
  split
  · rw [next_extend h hin]
  · rfl

theorem precedes_takeIndent {indent : Option Nat} (h : takeIndent c = .ok (indent, c')) :
    c.Precedes c' := by
  unfold takeIndent at h
  split at h
  · obtain ⟨n, -, h⟩ := map_eq_ok.mp h
    cases h
    exact precedes_next c
  · cases h
    exact .refl c

theorem takeIndent_extend {indent : Option Nat} (h : c.IsComplete more) (hin : c.IsInside more)
    (htake : takeIndent c = .ok (indent, c')) :
    takeIndent (c.extend more index line) = .ok (indent, c'.extend more index line) := by
  unfold takeIndent at htake ⊢
  rw [rest_extend, head?_append_of_inside hin]
  split at htake
  · rename_i n hn
    obtain ⟨k, rfl, htake⟩ := map_eq_ok.mp htake
    cases htake
    rw [next_extend h hin]
    rfl
  · cases htake
    rfl

theorem precedes_takeSettings {settings : Chomping × Option Nat}
    (h : takeSettings c = .ok (settings, c')) : c.Precedes c' := by
  unfold takeSettings at h
  split at h
  · obtain ⟨⟨indent, c₁⟩, hindent, h⟩ := bind_eq_ok.mp h
    cases h
    exact (precedes_next c).trans (precedes_takeIndent hindent)
  · obtain ⟨⟨indent, c₁⟩, hindent, h⟩ := bind_eq_ok.mp h
    dsimp only at h
    split at h
    · cases h
      exact (precedes_takeIndent hindent).trans (precedes_takeChomping c₁)
    · cases h
      exact precedes_takeIndent hindent

theorem takeSettings_extend {settings : Chomping × Option Nat} (h : c.IsComplete more)
    (hin : c'.IsInside more) (htake : takeSettings c = .ok (settings, c')) :
    takeSettings (c.extend more index line) = .ok (settings, c'.extend more index line) := by
  have hin' := (precedes_takeSettings htake).isInside hin
  unfold takeSettings at htake ⊢
  rw [rest_extend, head?_append_of_inside hin', next_extend h hin']
  split at htake
  · obtain ⟨⟨indent, c₁⟩, hindent, htake⟩ := bind_eq_ok.mp htake
    cases htake
    rw [takeIndent_extend h.next ((precedes_takeIndent hindent).isInside hin) hindent]
    rfl
  · obtain ⟨⟨indent, c₁⟩, hindent, htake⟩ := bind_eq_ok.mp htake
    rw [takeIndent_extend h hin' hindent]
    dsimp only [bind, Except.bind] at htake ⊢
    by_cases hsome : indent.isSome = true
    · rw [if_pos hsome] at htake ⊢
      cases htake
      have hc₁ := (precedes_takeChomping c₁).isInside hin
      rw [takeChomping_extend ((precedes_takeIndent hindent).isComplete h) hc₁]
      rfl
    · rw [if_neg hsome] at htake ⊢
      cases htake
      rfl

theorem precedes_takeHeaderEnd (h : takeHeaderEnd c = .ok c') : c.Precedes c' := by
  have hspaces := (precedes_skipSpaces c).trans (precedes_skipComment _)
  unfold takeHeaderEnd at h
  split at h
  · simp at h
  · dsimp only at h
    split at h
    · rename_i hbreak
      cases h
      exact hspaces.trans ((precedes_next _).trans (precedes_takeBreak? hbreak))
    · split at h
      · cases h
        exact hspaces
      · simp at h

theorem skipComment_precedes_takeHeaderEnd (h : takeHeaderEnd c = .ok c') :
    c.skipSpaces.skipComment.Precedes c' := by
  unfold takeHeaderEnd at h
  split at h
  · simp at h
  · dsimp only at h
    split at h
    · rename_i hbreak
      cases h
      exact (precedes_next _).trans (precedes_takeBreak? hbreak)
    · split at h
      · cases h
        exact .refl _
      · simp at h

theorem takeHeaderEnd_extend (h : c.IsComplete more) (hin : c'.IsInside more)
    (htake : takeHeaderEnd c = .ok c') :
    takeHeaderEnd (c.extend more index line) = .ok (c'.extend more index line) := by
  have hin₂ := (skipComment_precedes_takeHeaderEnd htake).isInside hin
  have hin₁ := (precedes_skipComment _).isInside hin₂
  have hin' := (precedes_skipSpaces c).isInside hin₁
  have hspaces := (precedes_skipSpaces c).isComplete h
  have hend : spaceOrLineEndAt (c.rest ++ more) = spaceOrLineEndAt c.rest := by
    rcases hin' with rfl | hrest
    · rw [List.append_nil]
    · exact spaceOrLineEndAt_append hrest more
  unfold takeHeaderEnd at htake ⊢
  rw [rest_extend, hend, skipSpaces_extend h hin₁, skipComment_extend hspaces hin₂]
  split at htake
  · simp at htake
  · rename_i hspace
    rw [if_neg hspace]
    dsimp only at htake ⊢
    rw [takeBreak?_extend ((precedes_skipComment _).isComplete hspaces) hin₂]
    split at htake
    · rename_i hbreak
      cases htake
      rw [hbreak]
      rfl
    · rename_i hbreak
      rw [hbreak]
      split at htake
      · rename_i hempty
        cases htake
        rcases hin with rfl | hrest
        · simp [hempty]
        · simp [List.isEmpty_iff.mp hempty] at hrest
      · simp at htake

/-! ## Empty lines -/

theorem precedes_takeLead (fuel deepest : Nat) (c : Cursor) :
    c.Precedes (takeLead fuel deepest c).2 := by
  induction fuel generalizing deepest c with
  | zero => exact .refl c
  | succ fuel ih =>
    unfold takeLead
    split
    · exact (precedes_next c).trans (ih _ _)
    · split
      · rename_i b c₁ hbreak
        exact (precedes_next c).trans ((precedes_takeBreak? hbreak).trans (ih deepest c₁))
      · exact .refl c

theorem takeLead_extend {fuel fuel' deepest : Nat} (hfuel : c.rest.length < fuel)
    (hle : fuel ≤ fuel') (h : c.IsComplete more)
    (hin : (takeLead fuel deepest c).2.IsInside more) :
    takeLead fuel' deepest (c.extend more index line) =
      ((takeLead fuel deepest c).1, (takeLead fuel deepest c).2.extend more index line) := by
  induction fuel generalizing c fuel' deepest with
  | zero => omega
  | succ fuel ih =>
    obtain ⟨fuel', rfl⟩ : ∃ n, fuel' = n + 1 := ⟨fuel' - 1, by omega⟩
    have hin' := (precedes_takeLead _ _ c).isInside hin
    unfold takeLead at hin ⊢
    rw [rest_extend, head?_append_of_inside hin', takeBreak?_extend h hin', next_extend h hin']
    by_cases hspace : (c.rest.head? == some ' ') = true
    · rw [if_pos hspace] at hin ⊢
      rw [if_pos hspace]
      have hlt := length_next_lt_of_head? hspace
      exact ih (by omega) (by omega) h.next hin
    · rw [if_neg hspace] at hin ⊢
      rw [if_neg hspace]
      cases hbreak : c.takeBreak? with
      | none => rfl
      | some t =>
        obtain ⟨b, c₁⟩ := t
        rw [hbreak] at hin
        have hlt := length_lt_of_takeBreak? hbreak
        have hc₁ := (precedes_takeBreak? hbreak).isComplete h.next
        have hrec := ih (by omega : c₁.rest.length < fuel) (by omega : fuel ≤ fuel') hc₁ hin
        simp only [Option.map_some, hrec]

theorem precedes_takeBreaks (indent fuel : Nat) (c : Cursor) :
    c.Precedes (takeBreaks indent fuel c).2 := by
  induction fuel generalizing c with
  | zero => exact .refl c
  | succ fuel ih =>
    have hspaces := precedes_skipSpacesTo indent c
    unfold takeBreaks
    dsimp only
    split
    · rename_i b c₁ hbreak
      exact hspaces.trans ((precedes_next _).trans ((precedes_takeBreak? hbreak).trans (ih c₁)))
    · exact hspaces

theorem skipSpacesTo_precedes_takeBreaks (indent fuel : Nat) (c : Cursor) :
    (c.skipSpacesTo indent).Precedes (takeBreaks indent (fuel + 1) c).2 := by
  unfold takeBreaks
  dsimp only
  split
  · rename_i b c₁ hbreak
    exact (precedes_next _).trans ((precedes_takeBreak? hbreak).trans (precedes_takeBreaks _ _ c₁))
  · exact .refl _

theorem takeBreaks_extend {indent fuel fuel' : Nat} (hfuel : c.rest.length < fuel)
    (hle : fuel ≤ fuel') (h : c.IsComplete more)
    (hin : (takeBreaks indent fuel c).2.IsInside more) :
    takeBreaks indent fuel' (c.extend more index line) =
      ((takeBreaks indent fuel c).1, (takeBreaks indent fuel c).2.extend more index line) := by
  induction fuel generalizing c fuel' with
  | zero => omega
  | succ fuel ih =>
    obtain ⟨fuel', rfl⟩ : ∃ n, fuel' = n + 1 := ⟨fuel' - 1, by omega⟩
    have hin' := (skipSpacesTo_precedes_takeBreaks indent fuel c).isInside hin
    have hspaces := (precedes_skipSpacesTo indent c).isComplete h
    have hlen := (precedes_skipSpacesTo indent c).length_le
    unfold takeBreaks at hin ⊢
    rw [skipSpacesTo_extend h hin']
    dsimp only at hin ⊢
    rw [takeBreak?_extend hspaces hin']
    cases hbreak : (c.skipSpacesTo indent).takeBreak? with
    | none => rfl
    | some t =>
      obtain ⟨b, c₁⟩ := t
      rw [hbreak] at hin
      have hlt := length_lt_of_takeBreak? hbreak
      have hc₁ := (precedes_takeBreak? hbreak).isComplete hspaces.next
      have hrec := ih (by omega : c₁.rest.length < fuel) (by omega : fuel ≤ fuel') hc₁ hin
      simp only [Option.map_some, hrec]

/-! ## Lines -/

theorem startsBlank_extend (hin : c.IsInside more) :
    startsBlank (c.extend more index line) = startsBlank c := by
  unfold startsBlank
  rw [rest_extend, head?_append_of_inside hin]

theorem isEmpty_append_of_inside (hin : c.IsInside more) :
    (c.rest ++ more).isEmpty = c.rest.isEmpty := by
  rcases hin with rfl | hrest
  · rw [List.append_nil]
  · cases hc : c.rest with
    | nil => exact absurd hc hrest
    | cons ch rest => rfl

/-- The line end here, if there is one. -/
def takeLineEnd (c : Cursor) : List Char × Cursor :=
  match c.takeBreak? with
  | some (b, c) => ([b], c)
  | none => ([], c)

/-- A line with its line end, and the empty lines after it. -/
def takeLine (indent : Nat) (c : Cursor) : (List Char × List Char × List Char) × Cursor :=
  let line := c.takeWhile (!isBreak ·)
  let b := takeLineEnd line.2
  let later := takeBreaks indent (b.2.rest.length + 1) b.2
  ((line.1, b.1, later.1), later.2)

theorem takeLines_succ (folded : Bool) (indent fuel : Nat) (empty : List Char) (c : Cursor) :
    takeLines folded indent (fuel + 1) empty c =
      let ((line, b, later), c') := takeLine indent c
      if c'.column = indent ∧ !c'.rest.isEmpty then
        let joint := between folded b (startsBlank c) (startsBlank c') later
        let (lines, c) := takeLines folded indent fuel later c'
        (⟨empty ++ line ++ joint ++ lines.text, lines.lastBreak, lines.trailing⟩, c)
      else (⟨empty ++ line, b, later⟩, c') := by
  conv =>
    lhs
    unfold takeLines
  rfl

theorem precedes_takeLineEnd (c : Cursor) : c.Precedes (takeLineEnd c).2 := by
  unfold takeLineEnd
  split
  · rename_i hbreak
    exact (precedes_next c).trans (precedes_takeBreak? hbreak)
  · exact .refl c

theorem takeLineEnd_extend (h : c.IsComplete more) (hin : c.IsInside more) :
    takeLineEnd (c.extend more index line) =
      ((takeLineEnd c).1, (takeLineEnd c).2.extend more index line) := by
  unfold takeLineEnd
  rw [takeBreak?_extend h hin]
  cases c.takeBreak? <;> rfl

theorem precedes_takeLine (indent : Nat) (c : Cursor) : c.Precedes (takeLine indent c).2 :=
  (precedes_takeWhile _ c).trans ((precedes_takeLineEnd _).trans (precedes_takeBreaks indent _ _))

theorem takeLine_extend {indent : Nat} (h : c.IsComplete more)
    (hin : (takeLine indent c).2.IsInside more) :
    takeLine indent (c.extend more index line) =
      ((takeLine indent c).1, (takeLine indent c).2.extend more index line) := by
  have hend : (takeLineEnd (c.takeWhile (!isBreak ·)).2).2.IsInside more :=
    (precedes_takeBreaks indent _ _).isInside hin
  have hline : (c.takeWhile (!isBreak ·)).2.IsInside more :=
    (precedes_takeLineEnd _).isInside hend
  have hcomplete : (c.takeWhile (!isBreak ·)).2.IsComplete more :=
    (precedes_takeWhile _ c).isComplete h
  unfold takeLine at hin ⊢
  rw [takeWhile_extend h hline]
  dsimp only at hin ⊢
  rw [takeLineEnd_extend hcomplete hline]
  dsimp only
  rw [takeBreaks_extend (Nat.lt_succ_self _) (by simp)
    ((precedes_takeLineEnd _).isComplete hcomplete) hin]

theorem precedes_takeLines (folded : Bool) (indent fuel : Nat) (empty : List Char) (c : Cursor) :
    c.Precedes (takeLines folded indent fuel empty c).2 := by
  induction fuel generalizing empty c with
  | zero => exact .refl c
  | succ fuel ih =>
    rw [takeLines_succ]
    dsimp only
    split
    · exact (precedes_takeLine indent c).trans (ih _ _)
    · exact precedes_takeLine indent c

theorem length_takeLine_lt (indent : Nat) (h : c.rest ≠ []) :
    (takeLine indent c).2.rest.length < c.rest.length := by
  have hbreaks := (precedes_takeBreaks indent
    ((takeLineEnd (c.takeWhile (!isBreak ·)).2).2.rest.length + 1)
    (takeLineEnd (c.takeWhile (!isBreak ·)).2).2).length_le
  have hend := (precedes_takeLineEnd (c.takeWhile (!isBreak ·)).2).length_le
  refine Nat.lt_of_le_of_lt hbreaks ?_
  cases hc : c.rest with
  | nil => exact absurd hc h
  | cons ch rest =>
    by_cases hch : isBreak ch = true
    · have hstay : (c.takeWhile (!isBreak ·)).2 = c := by
        unfold Cursor.takeWhile
        rw [hc, List.takeWhile_cons_of_neg (by simp [hch])]
        rfl
      rw [hstay, takeLineEnd]
      obtain ⟨⟨b, c₁⟩, hbreak⟩ :=
        Option.isSome_iff_exists.mp ((takeBreak?_isSome hc).trans hch)
      rw [hbreak, ← hc]
      exact length_lt_of_takeBreak? hbreak
    · refine Nat.lt_of_le_of_lt hend ?_
      unfold Cursor.takeWhile
      dsimp only
      rw [length_skip, hc, List.takeWhile_cons_of_pos (by simp [hch])]
      simp only [List.length_cons]
      omega

theorem takeLines_extend {folded : Bool} {indent fuel fuel' : Nat} {empty : List Char}
    (hfuel : c.rest.length < fuel) (hle : fuel ≤ fuel') (h : c.IsComplete more)
    (hin : (takeLines folded indent fuel empty c).2.IsInside more) :
    takeLines folded indent fuel' empty (c.extend more index line) =
      ((takeLines folded indent fuel empty c).1,
        (takeLines folded indent fuel empty c).2.extend more index line) := by
  induction fuel generalizing c fuel' empty with
  | zero => omega
  | succ fuel ih =>
    obtain ⟨fuel', rfl⟩ : ∃ n, fuel' = n + 1 := ⟨fuel' - 1, by omega⟩
    have hin' := (precedes_takeLines _ _ _ _ c).isInside hin
    have hline : (takeLine indent c).2.IsInside more := by
      rw [takeLines_succ] at hin
      dsimp only at hin
      split at hin
      · exact (precedes_takeLines ..).isInside hin
      · exact hin
    have hcomplete := (precedes_takeLine indent c).isComplete h
    rw [takeLines_succ] at hin
    rw [takeLines_succ, takeLines_succ, takeLine_extend h hline, startsBlank_extend hin']
    dsimp only at hin ⊢
    rw [column_extend, rest_extend, isEmpty_append_of_inside hline, startsBlank_extend hline]
    split at hin
    · rename_i hgoes
      rw [if_pos hgoes, if_pos hgoes]
      have hne : c.rest ≠ [] := by
        intro hnil
        have := (precedes_takeLine indent c).length_le
        simp_all
      have hlt := length_takeLine_lt indent hne
      rw [ih (by omega) (by omega : fuel ≤ fuel') hcomplete hin]
    · rename_i hstops
      rw [if_neg hstops, if_neg hstops]

/-! ## The scalar -/

/-- The empty lines before the first line with text, and the indentation that holds from there. -/
def takeFirst (least : Nat) (increment : Option Nat) (c : Cursor) : (List Char × Nat) × Cursor :=
  match increment with
  | some n =>
    let breaks := takeBreaks (least + n - 1) (c.rest.length + 1) c
    ((breaks.1, least + n - 1), breaks.2)
  | none =>
    let lead := takeLead (c.rest.length + 1) 0 c
    ((lead.1.1, max least lead.1.2), lead.2)

/-- The lines of the scalar after the empty ones before them. -/
def takeBody (folded : Bool) (chomping : Chomping) (empty : List Char) (indent : Nat) (c : Cursor) :
    String × Cursor :=
  if c.column = indent ∧ !c.rest.isEmpty then
    let lines := takeLines folded indent (c.rest.length + 1) empty c
    (String.ofList (chomp chomping lines.1), lines.2)
  else (String.ofList (chomp chomping ⟨[], [], empty⟩), c)

theorem take_eq (folded : Bool) (indent : Int) (c : Cursor) :
    take folded indent c = do
      let (settings, c) ← takeSettings c.next
      let c ← takeHeaderEnd c
      let first := takeFirst (max 1 (indent + 1).toNat) settings.2 c
      return takeBody folded settings.1 first.1.1 first.1.2 first.2 := by
  unfold take
  cases takeSettings c.next with
  | error e => rfl
  | ok t =>
    obtain ⟨⟨chomping, increment⟩, c₁⟩ := t
    simp only [bind, Except.bind]
    cases takeHeaderEnd c₁ with
    | error e => rfl
    | ok c₂ =>
      cases increment with
      | none => exact (apply_ite pure _ _ _).symm
      | some n => exact (apply_ite pure _ _ _).symm

theorem precedes_takeFirst (least : Nat) (increment : Option Nat) (c : Cursor) :
    c.Precedes (takeFirst least increment c).2 := by
  cases increment with
  | none => exact precedes_takeLead _ _ c
  | some n => exact precedes_takeBreaks _ _ c

theorem takeFirst_extend {least : Nat} {increment : Option Nat} (h : c.IsComplete more)
    (hin : (takeFirst least increment c).2.IsInside more) :
    takeFirst least increment (c.extend more index line) =
      ((takeFirst least increment c).1,
        (takeFirst least increment c).2.extend more index line) := by
  cases increment with
  | none =>
    unfold takeFirst at hin ⊢
    dsimp only at hin ⊢
    rw [takeLead_extend (Nat.lt_succ_self _) (by simp) h hin]
  | some n =>
    unfold takeFirst at hin ⊢
    dsimp only at hin ⊢
    rw [takeBreaks_extend (Nat.lt_succ_self _) (by simp) h hin]

theorem precedes_takeBody (folded : Bool) (chomping : Chomping) (empty : List Char) (indent : Nat)
    (c : Cursor) : c.Precedes (takeBody folded chomping empty indent c).2 := by
  unfold takeBody
  split
  · exact precedes_takeLines ..
  · exact .refl c

theorem takeBody_extend {folded : Bool} {chomping : Chomping} {empty : List Char} {indent : Nat}
    (h : c.IsComplete more) (hin : (takeBody folded chomping empty indent c).2.IsInside more) :
    takeBody folded chomping empty indent (c.extend more index line) =
      ((takeBody folded chomping empty indent c).1,
        (takeBody folded chomping empty indent c).2.extend more index line) := by
  have hin' := (precedes_takeBody _ _ _ _ c).isInside hin
  unfold takeBody at hin ⊢
  rw [column_extend, rest_extend, isEmpty_append_of_inside hin']
  split at hin
  · rename_i hlines
    rw [if_pos hlines, if_pos hlines]
    dsimp only
    rw [takeLines_extend (Nat.lt_succ_self _) (by simp) h hin]
  · rename_i hlines
    rw [if_neg hlines, if_neg hlines]

theorem precedes_take {folded : Bool} {indent : Int} {text : String}
    (h : take folded indent c = .ok (text, c')) : c.next.Precedes c' := by
  rw [take_eq] at h
  obtain ⟨⟨settings, c₁⟩, hsettings, h⟩ := bind_eq_ok.mp h
  obtain ⟨c₂, hheader, h⟩ := bind_eq_ok.mp h
  have hbody : (takeBody folded settings.1 _ _ _).2 = c' := congrArg Prod.snd (Except.ok.inj h)
  rw [← hbody]
  exact (precedes_takeSettings hsettings).trans ((precedes_takeHeaderEnd hheader).trans
    ((precedes_takeFirst ..).trans (precedes_takeBody ..)))

/-- A block scalar that ends before the text does is the same in a longer text. -/
theorem take_extend {folded : Bool} {indent : Int} {text : String} (h : c.IsComplete more)
    (hin : c'.IsInside more) (htake : take folded indent c = .ok (text, c')) :
    take folded indent (c.extend more index line) = .ok (text, c'.extend more index line) := by
  have hin' := (precedes_next c).isInside ((precedes_take htake).isInside hin)
  rw [take_eq] at htake ⊢
  obtain ⟨⟨settings, c₁⟩, hsettings, htake⟩ := bind_eq_ok.mp htake
  obtain ⟨c₂, hheader, htake⟩ := bind_eq_ok.mp htake
  have hbody : takeBody folded settings.1 _ _ _ = (text, c') := Except.ok.inj htake
  have hbody₂ : (takeBody folded settings.1 _ _ _).2 = c' := congrArg Prod.snd hbody
  have hc₁ := (precedes_takeSettings hsettings).isComplete h.next
  have hc₂ := (precedes_takeHeaderEnd hheader).isComplete hc₁
  rw [← hbody₂] at hin
  have hfirst := (precedes_takeBody ..).isInside hin
  have hin₂ := (precedes_takeFirst ..).isInside hfirst
  have hin₁ := (precedes_takeHeaderEnd hheader).isInside hin₂
  rw [next_extend h hin', takeSettings_extend h.next hin₁ hsettings]
  simp only [bind, Except.bind]
  rw [takeHeaderEnd_extend hc₁ hin₂ hheader]
  dsimp only
  rw [takeFirst_extend hc₂ hfirst]
  dsimp only
  rw [takeBody_extend ((precedes_takeFirst ..).isComplete hc₂) hin, hbody]
  rfl

end PubspecTidy.Yaml.Block
