import PubspecTidy.Proofs.Yaml.Block
import PubspecTidy.Proofs.Yaml.Gap

/-!
# Block scalars at the end of a part

A block scalar takes all empty lines behind it, so the one at the end of a part looks at what comes
next. Main statement: if something is to be seen right there, at the start of the line, the scalar is
the one that the part alone has.
-/
namespace PubspecTidy.Yaml.Block
open Cursor

/-- Something is to be seen at once. -/
def IsSeen (cs : List Char) : Prop := ∃ ch rest, cs = ch :: rest ∧ ch ≠ ' ' ∧ isBreak ch = false

variable {more : List Char} {index line : Nat} {c c' : Cursor}

theorem IsSeen.head?_ne_space (hseen : IsSeen more) : more.head? ≠ some ' ' := by
  obtain ⟨ch, rest, rfl, hspace, -⟩ := hseen
  simpa using hspace

theorem takeBreak?_extend_of_nil (hseen : IsSeen more) (hnil : c.rest = []) :
    (c.extend more index line).takeBreak? = none := by
  obtain ⟨ch, rest, rfl, -, hbreak⟩ := hseen
  have hrest : (c.extend (ch :: rest) index line).rest = ch :: rest := by simp [hnil]
  have hsome := takeBreak?_isSome hrest
  rw [hbreak] at hsome
  simpa using hsome

theorem takeBreak?_of_nil (hnil : c.rest = []) : c.takeBreak? = none := by
  simp [takeBreak?, hnil]

/-! ## Empty lines -/

theorem takeLead_extend_seen (hseen : IsSeen more) {fuel fuel' deepest : Nat}
    (hfuel : c.rest.length < fuel) (hle : fuel ≤ fuel') (h : c.IsComplete more) :
    takeLead fuel' deepest (c.extend more index line) =
      ((takeLead fuel deepest c).1, (takeLead fuel deepest c).2.extend more index line) := by
  induction fuel generalizing c fuel' deepest with
  | zero => omega
  | succ fuel ih =>
    obtain ⟨fuel', rfl⟩ : ∃ n, fuel' = n + 1 := ⟨fuel' - 1, by omega⟩
    unfold takeLead
    by_cases hnil : c.rest = []
    · rw [takeBreak?_extend_of_nil hseen hnil, takeBreak?_of_nil hnil, rest_extend, hnil,
        List.nil_append, if_neg (by simpa using hseen.head?_ne_space), if_neg (by simp)]
    · have hin : c.IsInside more := .inr hnil
      rw [rest_extend, head?_append_of_inside hin, takeBreak?_extend h hin, next_extend h hin]
      split
      · rename_i hspace
        have hlt := length_next_lt_of_head? hspace
        exact ih (by omega) (by omega) h.next
      · cases hbreak : c.takeBreak? with
        | none => rfl
        | some t =>
          have hlt := length_lt_of_takeBreak? hbreak
          have hrec := @ih t.2 fuel' deepest (by omega) (by omega)
            ((precedes_takeBreak? hbreak).isComplete h.next)
          simp only [Option.map_some]
          rw [hrec]

theorem skipSpacesTo_extend_of_nil (hseen : IsSeen more) (hnil : c.rest = []) (column : Nat) :
    (c.extend more index line).skipSpacesTo column = c.extend more index line := by
  obtain ⟨ch, rest, rfl, hspace, -⟩ := hseen
  unfold skipSpacesTo
  rw [rest_extend, hnil, List.nil_append, List.takeWhile_cons_of_neg (by simpa using hspace)]
  simp [skip]

theorem skipSpacesTo_of_nil (hnil : c.rest = []) (column : Nat) : c.skipSpacesTo column = c := by
  unfold skipSpacesTo
  rw [hnil]
  simp [skip]

theorem skipSpacesTo_isInside (h : c.IsComplete more) (hne : c.rest ≠ []) (column : Nat) :
    (c.skipSpacesTo column).IsInside more := by
  have hspaces : (c.takeWhile (· = ' ')).2.IsInside more :=
    takeWhile_isInside h (.inr hne) (by decide)
  have hle : ((c.rest.takeWhile (· = ' ')).take (column - c.column)).length ≤
      (c.rest.takeWhile (· = ' ')).length := by
    rw [List.length_take]
    exact Nat.min_le_right ..
  refine Precedes.isInside ⟨(c.rest.takeWhile (· = ' ')).length -
    ((c.rest.takeWhile (· = ' ')).take (column - c.column)).length, ?_⟩ hspaces
  rw [skipSpacesTo, ← skip_add, Nat.add_sub_cancel' hle]
  rfl

theorem takeBreaks_extend_seen (hseen : IsSeen more) {indent fuel fuel' : Nat}
    (hfuel : c.rest.length < fuel) (hle : fuel ≤ fuel') (h : c.IsComplete more) :
    takeBreaks indent fuel' (c.extend more index line) =
      ((takeBreaks indent fuel c).1, (takeBreaks indent fuel c).2.extend more index line) := by
  induction fuel generalizing c fuel' with
  | zero => omega
  | succ fuel ih =>
    obtain ⟨fuel', rfl⟩ : ∃ n, fuel' = n + 1 := ⟨fuel' - 1, by omega⟩
    unfold takeBreaks
    by_cases hnil : c.rest = []
    · rw [skipSpacesTo_extend_of_nil hseen hnil, skipSpacesTo_of_nil hnil]
      dsimp only
      rw [takeBreak?_extend_of_nil hseen hnil, takeBreak?_of_nil hnil]
    · have hin : (c.skipSpacesTo indent).IsInside more := skipSpacesTo_isInside h hnil indent
      have hcomplete := (precedes_skipSpacesTo indent c).isComplete h
      rw [skipSpacesTo_extend h hin]
      dsimp only
      rw [takeBreak?_extend hcomplete hin]
      cases hbreak : (c.skipSpacesTo indent).takeBreak? with
      | none => rfl
      | some t =>
        have hlt := length_lt_of_takeBreak? hbreak
        have hle' := (precedes_skipSpacesTo indent c).length_le
        have hrec := ih (by omega) (by omega : fuel ≤ fuel')
          ((precedes_takeBreak? hbreak).isComplete hcomplete.next)
        simp only [Option.map_some]
        rw [hrec]

/-! ## Lines -/

theorem takeLine_extend_seen (hseen : IsSeen more) (indent : Nat) (h : c.IsComplete more)
    (hne : c.rest ≠ []) :
    takeLine indent (c.extend more index line) =
      ((takeLine indent c).1, (takeLine indent c).2.extend more index line) := by
  have hline : (c.takeWhile (!isBreak ·)).2.IsInside more :=
    takeWhile_isInside h (.inr hne) (by decide)
  have hcomplete := (precedes_takeWhile (!isBreak ·) c).isComplete h
  unfold takeLine
  rw [takeWhile_extend h hline]
  dsimp only
  rw [takeLineEnd_extend hcomplete hline]
  dsimp only
  rw [takeBreaks_extend_seen hseen (Nat.lt_succ_self _) (by simp)
    ((precedes_takeLineEnd _).isComplete hcomplete)]

/-- A line goes on where text stands at the indentation, and behind the part none does. -/
theorem goesOn_extend {indent : Nat} (hindent : 0 < indent) (hcolumn : c.rest = [] → c.column = 0) :
    ((c.extend more index line).column = indent ∧ !(c.extend more index line).rest.isEmpty) ↔
      c.column = indent ∧ !c.rest.isEmpty := by
  by_cases hnil : c.rest = []
  · have hzero := hcolumn hnil
    simp [hnil, hzero, Nat.ne_of_lt hindent]
  · rw [column_extend, rest_extend, isEmpty_append_of_inside (.inr hnil)]

theorem takeLines_extend_seen (hseen : IsSeen more) {folded : Bool} {indent fuel fuel' : Nat}
    {empty : List Char} (hindent : 0 < indent) (hfuel : c.rest.length < fuel) (hle : fuel ≤ fuel')
    (h : c.IsComplete more) (hne : c.rest ≠ []) (hcolumn : c.last.column = 0) :
    takeLines folded indent fuel' empty (c.extend more index line) =
      ((takeLines folded indent fuel empty c).1,
        (takeLines folded indent fuel empty c).2.extend more index line) := by
  induction fuel generalizing c fuel' empty with
  | zero => omega
  | succ fuel ih =>
    obtain ⟨fuel', rfl⟩ : ∃ n, fuel' = n + 1 := ⟨fuel' - 1, by omega⟩
    have hcomplete := (precedes_takeLine indent c).isComplete h
    have hlast := (precedes_takeLine indent c).last_eq
    have hcolumn' : (takeLine indent c).2.rest = [] → (takeLine indent c).2.column = 0 := by
      intro hnil
      rw [← last_of_nil hnil, hlast, hcolumn]
    rw [takeLines_succ, takeLines_succ, takeLine_extend_seen hseen indent h hne,
      startsBlank_extend (.inr hne)]
    dsimp only
    by_cases hgoes : (takeLine indent c).2.column = indent ∧ !(takeLine indent c).2.rest.isEmpty
    · have hne' : (takeLine indent c).2.rest ≠ [] := by
        intro hnil
        simp [hnil] at hgoes
      have hlt := length_takeLine_lt indent hne
      rw [if_pos ((goesOn_extend hindent hcolumn').mpr hgoes), if_pos hgoes,
        startsBlank_extend (.inr hne'),
        ih (by omega) (by omega : fuel ≤ fuel') hcomplete hne' (by rw [hlast, hcolumn])]
    · rw [if_neg fun hno => hgoes ((goesOn_extend hindent hcolumn').mp hno), if_neg hgoes]

/-! ## The scalar -/

theorem takeFirst_extend_seen (hseen : IsSeen more) (least : Nat) (increment : Option Nat)
    (h : c.IsComplete more) :
    takeFirst least increment (c.extend more index line) =
      ((takeFirst least increment c).1,
        (takeFirst least increment c).2.extend more index line) := by
  cases increment with
  | none =>
    unfold takeFirst
    dsimp only
    rw [takeLead_extend_seen hseen (Nat.lt_succ_self _) (by simp) h]
  | some n =>
    unfold takeFirst
    dsimp only
    rw [takeBreaks_extend_seen hseen (Nat.lt_succ_self _) (by simp) h]

theorem takeBody_extend_seen (hseen : IsSeen more) {folded : Bool} {chomping : Chomping}
    {empty : List Char} {indent : Nat} (hindent : 0 < indent) (h : c.IsComplete more)
    (hcolumn : c.last.column = 0) :
    takeBody folded chomping empty indent (c.extend more index line) =
      ((takeBody folded chomping empty indent c).1,
        (takeBody folded chomping empty indent c).2.extend more index line) := by
  have hcolumn' : c.rest = [] → c.column = 0 := fun hnil => by rw [← last_of_nil hnil, hcolumn]
  unfold takeBody
  by_cases hgoes : c.column = indent ∧ !c.rest.isEmpty
  · have hne : c.rest ≠ [] := by
      intro hnil
      simp [hnil] at hgoes
    rw [if_pos ((goesOn_extend hindent hcolumn').mpr hgoes), if_pos hgoes]
    dsimp only
    rw [takeLines_extend_seen hseen hindent (Nat.lt_succ_self _) (by simp) h hne hcolumn]
  · rw [if_neg fun hno => hgoes ((goesOn_extend hindent hcolumn').mp hno), if_neg hgoes]

/-! ## The header -/

theorem takeChomping_isInside (h : c.IsComplete more) (hin : c.IsInside more) :
    (takeChomping c).2.IsInside more := by
  unfold takeChomping
  split
  · rename_i chomping hchomping
    cases hrest : c.rest with
    | nil => simp [hrest] at hchomping
    | cons ch rest =>
      refine next_isInside h hrest ?_
      rintro rfl
      simp [hrest, chomping?] at hchomping
  · exact hin

theorem takeIndent_isInside {indent : Option Nat} (h : c.IsComplete more) (hin : c.IsInside more)
    (htake : takeIndent c = .ok (indent, c')) : c'.IsInside more := by
  unfold takeIndent at htake
  split at htake
  · rename_i n hn
    obtain ⟨k, rfl, htake⟩ := map_eq_ok.mp htake
    cases htake
    cases hrest : c.rest with
    | nil => simp [hrest] at hn
    | cons ch rest =>
      refine next_isInside h hrest ?_
      rintro rfl
      have hno : indentDigit? '\n' = none := by decide
      simp [hrest, hno] at hn
  · cases htake
    exact hin

theorem pos_of_takeIndent {n : Nat} (htake : takeIndent c = .ok (some n, c')) : 0 < n := by
  unfold takeIndent at htake
  split at htake
  · rename_i r hr
    obtain ⟨k, rfl, htake⟩ := map_eq_ok.mp htake
    cases htake
    cases hrest : c.rest with
    | nil => simp [hrest] at hr
    | cons ch rest =>
      simp only [hrest, List.head?_cons, Option.bind_some, indentDigit?] at hr
      split at hr
      · cases hr
      · rename_i hdigit
        split at hr
        · cases hr
        · rename_i hzero
          obtain rfl := Except.ok.inj (Option.some.inj hr)
          have hlow : '0'.toNat ≤ ch.toNat := by
            simp only [Text.isAsciiDigit, Bool.not_eq_true', Bool.and_eq_false_iff, not_or,
              Bool.not_eq_false, decide_eq_true_eq] at hdigit
            exact hdigit.1
          have hne : ch.toNat ≠ '0'.toNat := fun heq => hzero (Char.toNat_inj.mp heq)
          have hvalue : '0'.toNat = 48 := by decide
          omega
  · cases htake

theorem takeSettings_isInside {settings : Chomping × Option Nat} (h : c.IsComplete more)
    (hin : c.IsInside more) (htake : takeSettings c = .ok (settings, c')) : c'.IsInside more := by
  unfold takeSettings at htake
  split at htake
  · rename_i chomping hchomping
    obtain ⟨⟨indent, c₁⟩, hindent, htake⟩ := bind_eq_ok.mp htake
    cases htake
    refine takeIndent_isInside h.next ?_ hindent
    cases hrest : c.rest with
    | nil => simp [hrest] at hchomping
    | cons ch rest =>
      refine next_isInside h hrest ?_
      rintro rfl
      simp [hrest, chomping?] at hchomping
  · obtain ⟨⟨indent, c₁⟩, hindent, htake⟩ := bind_eq_ok.mp htake
    have hin₁ := takeIndent_isInside h hin hindent
    dsimp only at htake
    split at htake
    · cases htake
      exact takeChomping_isInside ((precedes_takeIndent hindent).isComplete h) hin₁
    · cases htake
      exact hin₁

theorem pos_of_takeSettings {chomping : Chomping} {n : Nat}
    (htake : takeSettings c = .ok ((chomping, some n), c')) : 0 < n := by
  unfold takeSettings at htake
  split at htake
  · obtain ⟨⟨indent, c₁⟩, hindent, htake⟩ := bind_eq_ok.mp htake
    cases htake
    exact pos_of_takeIndent hindent
  · obtain ⟨⟨indent, c₁⟩, hindent, htake⟩ := bind_eq_ok.mp htake
    dsimp only at htake
    split at htake
    · cases htake
      exact pos_of_takeIndent hindent
    · cases htake

theorem takeHeaderEnd_extend_seen (h : c.IsComplete more) (hmore : more ≠ [])
    (hin : c.IsInside more) (htake : takeHeaderEnd c = .ok c') :
    takeHeaderEnd (c.extend more index line) = .ok (c'.extend more index line) := by
  have hblanks := skipBlanks_isInside h hin
  have hcomplete := (precedes_skipBlanks c).isComplete h
  unfold takeHeaderEnd at htake ⊢
  rw [rest_extend, spaceOrLineEndAt_append (hin.resolve_left hmore), skipBlanks_extend h hblanks]
  split at htake
  · simp at htake
  · rename_i hspace
    rw [if_neg hspace]
    dsimp only at htake ⊢
    rw [takeBreak?_extend hcomplete hblanks]
    split at htake
    · rename_i hbreak
      cases htake
      rw [hbreak]
      rfl
    · split at htake
      · rename_i hempty
        exact absurd (List.isEmpty_iff.mp hempty) (hblanks.resolve_left hmore)
      · simp at htake

/-- A block scalar that goes up to the end of a part is the same in the whole text. -/
theorem take_extend_seen (hseen : IsSeen more) {folded : Bool} {indent : Int} {text : String}
    (h : c.IsComplete more) (hnext : c.next.IsInside more) (hlast : c.rest.getLast? = some '\n')
    (htake : take folded indent c = .ok (text, c')) :
    take folded indent (c.extend more index line) = .ok (text, c'.extend more index line) := by
  have hmore : more ≠ [] := by
    obtain ⟨ch, rest, rfl, -⟩ := hseen
    exact List.cons_ne_nil _ _
  rw [take_eq] at htake ⊢
  obtain ⟨⟨⟨chomping, increment⟩, c₁⟩, hsettings, htake⟩ := bind_eq_ok.mp htake
  obtain ⟨c₂, hheader, htake⟩ := bind_eq_ok.mp htake
  have hbody : takeBody folded chomping _ _ _ = (text, c') := Except.ok.inj htake
  have hin₁ := takeSettings_isInside h.next hnext hsettings
  have hc₁ := (precedes_takeSettings hsettings).isComplete h.next
  have hc₂ := (precedes_takeHeaderEnd hheader).isComplete hc₁
  have hfirst := precedes_takeFirst (max 1 (indent + 1).toNat) increment c₂
  have hindent : 0 < (takeFirst (max 1 (indent + 1).toNat) increment c₂).1.2 := by
    have hleast : 0 < max 1 (indent + 1).toNat := by omega
    cases increment with
    | none => exact hleast.trans_le (Nat.le_max_left ..)
    | some n =>
      have hpos := pos_of_takeSettings hsettings
      change 0 < max 1 (indent + 1).toNat + n - 1
      omega
  have hcolumn : (takeFirst (max 1 (indent + 1).toNat) increment c₂).2.last.column = 0 := by
    rw [(((precedes_next c).trans (precedes_takeSettings hsettings)).trans
      ((precedes_takeHeaderEnd hheader).trans hfirst)).last_eq, column_last hlast]
  rw [next_extend h ((precedes_next c).isInside hnext), takeSettings_extend h.next hin₁ hsettings]
  simp only [bind, Except.bind]
  rw [takeHeaderEnd_extend_seen hc₁ hmore hin₁ hheader]
  dsimp only
  rw [takeFirst_extend_seen hseen _ _ hc₂]
  dsimp only
  rw [takeBody_extend_seen hseen hindent (hfirst.isComplete hc₂) hcolumn, hbody]
  rfl

end PubspecTidy.Yaml.Block
