import PubspecTidy.Proofs.Manifest.Sections

/-!
# The body of a section

What the lines of a section say does not hang on where the section stands. Main statements: where
the first content is not deeper than a column, no block of that column goes on; what stands between
a header and the next one does not matter to the body of the other section; and a section lists the
names that its body does.
-/
namespace PubspecTidy.Manifest

variable {n : Nat} {name line : String} {lines inner rest post : List String}
  {kind kind' : SectionKind} {s : Section}

/-- The first line that is not blank, if any, is not deeper than a column. -/
def Shallow (n : Nat) (lines : List String) : Prop :=
  ∀ line, firstContent? lines = some line → indentation line ≤ n

/-! ## The first line that is not blank -/

theorem firstContent?_append (lines rest : List String) :
    firstContent? (lines ++ rest) = (firstContent? lines).or (firstContent? rest) := by
  induction lines with
  | nil => rfl
  | cons line lines ih =>
    rw [List.cons_append, firstContent?, firstContent?]
    split
    · exact ih
    · rfl

theorem Shallow.append (h : Shallow n lines) (h' : Shallow n rest) : Shallow n (lines ++ rest) := by
  intro line hline
  rw [firstContent?_append] at hline
  cases hfirst : firstContent? lines with
  | none =>
    rw [hfirst, Option.none_or] at hline
    exact h' line hline
  | some found =>
    rw [hfirst, Option.some_or] at hline
    cases hline
    exact h line hfirst

theorem shallow_of_prefix (h : Shallow n lines) (hpart : rest <+: lines) : Shallow n rest := by
  obtain ⟨more, rfl⟩ := hpart
  intro line hline
  refine h line ?_
  rw [firstContent?_append, hline, Option.some_or]

theorem shallow_cons (h : isBlankLine line = true ∨ indentation line ≤ n) (hrest : Shallow n rest) :
    Shallow n (line :: rest) := by
  intro found hfound
  rw [firstContent?] at hfound
  split at hfound
  · exact hrest found hfound
  · rename_i hblank
    obtain rfl := Option.some.inj hfound
    exact h.resolve_left hblank

theorem shallow_nil : Shallow n [] := fun _ h => nomatch h

theorem shallow_blank : Shallow n [""] := shallow_cons (.inl (by decide)) shallow_nil

theorem isBlankLine_of_isDependencyLine (h : isDependencyLine line = true) :
    isBlankLine line = false := by
  unfold isDependencyLine at h
  simp only [Bool.and_eq_true] at h
  unfold isBlankLine
  rw [List.isEmpty_eq_false_iff]
  intro hnil
  rw [hnil] at h
  exact absurd h.1.2 (by decide)

/-! ## Open lines -/

theorem openLines_eq_zero_iff : openLines n lines = 0 ↔ Shallow n lines := by
  cases lines with
  | nil => exact iff_of_true rfl shallow_nil
  | cons line rest =>
    rw [openLines, Shallow, firstContent?]
    split
    · cases firstContent? rest <;> simp
    · simp

theorem openLines_of_shallow (h : Shallow n lines) : openLines n lines = 0 :=
  (openLines_eq_zero_iff).mpr h

/-- A blank line goes on with a block just if a line behind it does. -/
theorem openLines_of_isBlankLine (h : isBlankLine line = true) (n : Nat) (rest : List String) :
    openLines n (line :: rest) = if openLines n rest = 0 then 0 else openLines n rest + 1 := by
  have hshallow : openLines n rest = 0 ↔ Shallow n rest := openLines_eq_zero_iff
  rw [Shallow] at hshallow
  rw [openLines, if_pos h]
  cases hnext : firstContent? rest with
  | none => rw [if_pos (hshallow.mpr (by simp [hnext]))]
  | some next =>
    have hends : openLines n rest = 0 ↔ ¬ n < indentation next := by
      simpa [hnext] using hshallow
    simp only [hends, ite_not]

theorem openLines_of_deeper (hcontent : isBlankLine line = false) (h : n < indentation line)
    (rest : List String) : openLines n (line :: rest) = openLines n rest + 1 := by
  rw [openLines, hcontent, if_neg Bool.false_ne_true, if_pos h]

theorem openLines_of_ends (hcontent : isBlankLine line = false) (h : indentation line ≤ n)
    (rest : List String) : openLines n (line :: rest) = 0 := by
  rw [openLines, hcontent, if_neg Bool.false_ne_true, if_neg (Nat.not_lt.mpr h)]

theorem openLines_append (h : openLines n inner = inner.length) :
    openLines n (inner ++ post) = inner.length + openLines n post := by
  induction inner with
  | nil => rw [List.nil_append, List.length_nil, Nat.zero_add]
  | cons line inner ih =>
    rw [List.length_cons] at h ⊢
    rw [List.cons_append]
    cases hblank : isBlankLine line with
    | true =>
      rw [openLines_of_isBlankLine hblank] at h
      split at h
      · cases h
      · rw [openLines_of_isBlankLine hblank, ih (by omega), if_neg (by omega)]
        omega
    | false =>
      rcases Nat.lt_or_ge n (indentation line) with hdeep | hends
      · rw [openLines_of_deeper hblank hdeep] at h
        rw [openLines_of_deeper hblank hdeep, ih (by omega)]
        omega
      · rw [openLines_of_ends hblank hends] at h
        cases h

/-! ## The body of a section -/

/-- The lines of a section after its header, wherever it stands. -/
def bodyOf? (name : String) : List String → Option (List String)
  | [] => none
  | line :: rest =>
    if isHeaderOf name line then some (rest.takeWhile (!isHeader ·)) else bodyOf? name rest

theorem map_body_findFrom (name : String) (index : Nat) (lines : List String) :
    (findFrom name index lines).map
        (fun s => (lines.drop (s.header + 1 - index)).take (s.last - s.header)) =
      bodyOf? name lines := by
  induction lines generalizing index with
  | nil => rfl
  | cons line rest ih =>
    rw [findFrom, bodyOf?]
    split
    · have hprefix := List.takeWhile_prefix (!isHeader ·) (l := rest)
      rw [Option.map_some, Nat.add_sub_cancel_left, Nat.add_sub_cancel_left, List.drop_succ_cons,
        List.drop_zero, ← List.prefix_iff_eq_take.mp hprefix]
    · rw [← ih (index + 1)]
      refine Option.map_congr fun s hs => ?_
      obtain ⟨before, _, _, -, -, hheader, -⟩ := findFrom_eq_some hs
      have hdrop : s.header + 1 - index = s.header + 1 - (index + 1) + 1 := by omega
      rw [hdrop, List.drop_succ_cons]

theorem map_body_findSection? (name : String) (lines : List String) :
    (findSection? lines name).map (·.body lines) = bodyOf? name lines := by
  rw [← map_body_findFrom name 0 lines]
  refine Option.map_congr fun s _ => ?_
  rw [Section.body, linesBetween, Nat.sub_zero, Nat.add_sub_add_right]

theorem bodyOf?_append_of_noHeader (h : NoHeader lines) (kind : SectionKind)
    (after : List String) : bodyOf? kind.name (lines ++ after) = bodyOf? kind.name after := by
  induction lines with
  | nil => rfl
  | cons line rest ih =>
    have hline := h.not_isHeaderOf kind line List.mem_cons_self
    rw [List.cons_append, bodyOf?, if_neg (by simp [hline])]
    exact ih fun l hl => h l (List.mem_cons_of_mem line hl)

/-- What stands between the header of one section and the next header does not matter to the body
of the other section. -/
theorem bodyOf?_other (hne : kind' ≠ kind) {header : String}
    (hheader : isHeaderOf kind.name header = true) {old new : List String} (hold : NoHeader old)
    (hnew : NoHeader new) (before after : List String) :
    bodyOf? kind'.name (before ++ header :: (new ++ after)) =
      bodyOf? kind'.name (before ++ header :: (old ++ after)) := by
  induction before with
  | nil =>
    have hother : ¬ isHeaderOf kind'.name header = true := fun h =>
      hne (kind_eq_of_isHeaderOf h hheader)
    rw [List.nil_append, List.nil_append, bodyOf?, bodyOf?, if_neg hother, if_neg hother,
      bodyOf?_append_of_noHeader hnew, bodyOf?_append_of_noHeader hold]
  | cons line rest ih =>
    have hends := isHeader_of_isHeaderOf hheader
    rw [List.cons_append, List.cons_append, bodyOf?, bodyOf?, ih, takeWhile_append_header hends,
      takeWhile_append_header hends]

/-! ## The names in a body -/

namespace Section

theorem entriesFrom_skip (index : Nat) (skipped lines : List String) :
    entriesFrom index skipped.length (skipped ++ lines) =
      entriesFrom (index + skipped.length) 0 lines := by
  induction skipped generalizing index with
  | nil => rfl
  | cons line skipped ih =>
    rw [List.length_cons, List.cons_append, entriesFrom, ih, Nat.add_right_comm, Nat.add_assoc]

theorem names_entriesFrom (index index' skip : Nat) (lines : List String) :
    (entriesFrom index skip lines).map (·.name) = (entriesFrom index' skip lines).map (·.name) := by
  induction lines generalizing index index' skip with
  | nil => cases skip <;> rfl
  | cons line rest ih =>
    cases skip with
    | succ skip => exact ih (index + 1) (index' + 1) skip
    | zero =>
      rw [entriesFrom, entriesFrom]
      split
      · split
        · rw [List.map_cons, List.map_cons, ih (index + 1) (index' + 1)]
        · exact ih (index + 1) (index' + 1) _
      · exact ih (index + 1) (index' + 1) 0

/-- The names of a section are those of its body. -/
theorem locate?_isSome :
    (s.locate? lines name).isSome = true ↔
      name ∈ (entriesFrom 0 0 (s.body lines)).map (·.name) := by
  rw [names_entriesFrom 0 (s.header + 1)]
  simp [locate?, entries]

end Section

end PubspecTidy.Manifest
