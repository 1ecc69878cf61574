import PubspecTidy.Proofs.Manifest.Bodies

/-!
# The names among the lines of a section

A section is read in one pass: of the lines before, all that matters to a line is the indentation of
the block that is open. So the names of a text come piece by piece. Main statements: the entries of
a section have just these names; without the block of an entry the section lists all names but
that one; and a block that comes in behind or before an entry adds no name but its own, though it
may hide others, and be hidden.
-/
namespace PubspecTidy.Manifest

variable {base : Option Nat} {index n : Nat} {name line : String}
  {lines before rest after : List String} {entry : Entry}

/-! ## One pass -/

/-- Whether a line goes on with the block that is open before it, if there is one. -/
def goesOn (base : Option Nat) (line : String) : Bool :=
  base.any fun n => decide (n < indentation line)

/-- The block that is open after a line, by the indentation of its declaration. -/
def openAfter (base : Option Nat) (line : String) : Option Nat :=
  if isBlankLine line || goesOn base line then base
  else if isDependencyLine line then some (indentation line)
  else none

/-- The name that a line adds to those before it. -/
def nameAt? (base : Option Nat) (line : String) : Option String :=
  if isDependencyLine line && !goesOn base line then declaredName? line else none

/-- The names that lines declare where a block may be open before them. -/
def namesFrom : Option Nat → List String → List String
  | _, [] => []
  | base, line :: rest => (nameAt? base line).toList ++ namesFrom (openAfter base line) rest

theorem goesOn_iff : goesOn (some n) line = true ↔ n < indentation line := by
  simp [goesOn]

theorem goesOn_eq_false_iff : goesOn (some n) line = false ↔ indentation line ≤ n := by
  simp [goesOn]

/-- The block that is open after some lines. -/
def openAfterAll (base : Option Nat) (lines : List String) : Option Nat :=
  lines.foldl openAfter base

theorem namesFrom_append (base : Option Nat) (lines rest : List String) :
    namesFrom base (lines ++ rest) =
      namesFrom base lines ++ namesFrom (openAfterAll base lines) rest := by
  induction lines generalizing base with
  | nil => rfl
  | cons line lines ih =>
    rw [List.cons_append, namesFrom, namesFrom, ih, List.append_assoc]
    rfl

theorem nameAt?_of_isBlankLine (h : isBlankLine line = true) (base : Option Nat) :
    nameAt? base line = none := by
  refine if_neg fun hadds => ?_
  rw [Bool.and_eq_true] at hadds
  rw [isBlankLine_of_isDependencyLine hadds.1] at h
  cases h

theorem openAfter_of_isBlankLine (h : isBlankLine line = true) (base : Option Nat) :
    openAfter base line = base := by
  rw [openAfter, h, Bool.true_or, if_pos rfl]

theorem nameAt?_of_goesOn (h : goesOn base line = true) : nameAt? base line = none := by
  rw [nameAt?, h, Bool.not_true, Bool.and_false]
  rfl

theorem openAfter_of_goesOn (h : goesOn base line = true) : openAfter base line = base := by
  rw [openAfter, h, Bool.or_true, if_pos rfl]

theorem of_nameAt?_eq_some (h : nameAt? base line = some name) :
    isDependencyLine line = true ∧ goesOn base line = false ∧ declaredName? line = some name := by
  rw [nameAt?] at h
  split at h
  · rename_i hadds
    rw [Bool.and_eq_true, Bool.not_eq_true'] at hadds
    exact ⟨hadds.1, hadds.2, h⟩
  · cases h

/-- Where a line does not go on with the open block, it does not matter which block that is. -/
theorem nameAt?_of_ends (h : goesOn base line = false) : nameAt? base line = nameAt? none line := by
  rw [nameAt?, nameAt?, h]
  rfl

theorem openAfter_of_ends (hcontent : isBlankLine line = false) (h : goesOn base line = false) :
    openAfter base line = openAfter none line := by
  rw [openAfter, openAfter, hcontent, h]
  rfl

theorem openAfter_of_declares (hline : isDependencyLine line = true)
    (h : goesOn base line = false) : openAfter base line = some (indentation line) := by
  rw [openAfter, isBlankLine_of_isDependencyLine hline, h, Bool.false_or, if_neg (by simp),
    if_pos hline]

/-- The lines that go on with a block. -/
def AllGoOn (n : Nat) (lines : List String) : Prop :=
  ∀ line ∈ lines, isBlankLine line = true ∨ n < indentation line

theorem AllGoOn.mono {m : Nat} (h : AllGoOn n lines) (hle : m ≤ n) : AllGoOn m lines :=
  fun line hline => (h line hline).imp_right hle.trans_lt

theorem AllGoOn.namesFrom_append (h : AllGoOn n lines) (rest : List String) :
    namesFrom (some n) (lines ++ rest) = namesFrom (some n) rest := by
  induction lines with
  | nil => rfl
  | cons line lines ih =>
    have hlines := ih fun l hl => h l (List.mem_cons_of_mem line hl)
    rw [List.cons_append, namesFrom]
    rcases h line List.mem_cons_self with hblank | hdeep
    · rw [nameAt?_of_isBlankLine hblank, openAfter_of_isBlankLine hblank, hlines]
      rfl
    · have hgoes : goesOn (some n) line = true := (goesOn_iff).mpr hdeep
      rw [nameAt?_of_goesOn hgoes, openAfter_of_goesOn hgoes, hlines]
      rfl

theorem AllGoOn.openAfterAll_eq (h : AllGoOn n lines) :
    openAfterAll (some n) lines = some n := by
  induction lines with
  | nil => rfl
  | cons line lines ih =>
    have hline : openAfter (some n) line = some n := by
      rcases h line List.mem_cons_self with hblank | hdeep
      · exact openAfter_of_isBlankLine hblank _
      · exact openAfter_of_goesOn ((goesOn_iff).mpr hdeep)
    rw [openAfterAll, List.foldl_cons, hline]
    exact ih fun l hl => h l (List.mem_cons_of_mem line hl)

theorem goesOn_of_shallow (h : Shallow n (line :: lines)) (hcontent : isBlankLine line = false)
    (hbase : ∀ m ∈ base, n ≤ m) : goesOn base line = false := by
  have hle : indentation line ≤ n :=
    h line (by rw [firstContent?, hcontent, if_neg Bool.false_ne_true])
  cases base with
  | none => rfl
  | some m => exact (goesOn_eq_false_iff).mpr (hle.trans (hbase m rfl))

/-- Where the first content ends the open block, it does not matter which block that was. -/
theorem namesFrom_of_shallow (h : Shallow n lines) (hbase : ∀ m ∈ base, n ≤ m) :
    namesFrom base lines = namesFrom none lines := by
  induction lines with
  | nil => rfl
  | cons line lines ih =>
    rw [namesFrom, namesFrom]
    by_cases hblank : isBlankLine line = true
    · have hrest : Shallow n lines := fun next hnext => h next (by rwa [firstContent?, if_pos hblank])
      rw [nameAt?_of_isBlankLine hblank, nameAt?_of_isBlankLine hblank,
        openAfter_of_isBlankLine hblank, openAfter_of_isBlankLine hblank, ih hrest]
    · have hends := goesOn_of_shallow h (by simpa using hblank) hbase
      rw [nameAt?_of_ends hends, openAfter_of_ends (by simpa using hblank) hends]

/-- A block that is open from further left on hides names, and no more than that. -/
theorem namesFrom_suffix (hbase : ∀ m ∈ base, n ≤ m) (lines : List String) :
    namesFrom (some n) lines <:+ namesFrom base lines := by
  induction lines generalizing base with
  | nil => exact List.suffix_refl _
  | cons line lines ih =>
    by_cases hblank : isBlankLine line = true
    · rw [namesFrom, namesFrom, nameAt?_of_isBlankLine hblank, nameAt?_of_isBlankLine hblank,
        openAfter_of_isBlankLine hblank, openAfter_of_isBlankLine hblank]
      exact ih hbase
    by_cases hdeep : n < indentation line
    · have hgoes : goesOn (some n) line = true := (goesOn_iff).mpr hdeep
      rw [namesFrom, namesFrom, nameAt?_of_goesOn hgoes, openAfter_of_goesOn hgoes]
      refine (ih ?_).trans (List.suffix_append _ _)
      intro m hm
      by_cases hother : goesOn base line = true
      · rw [openAfter_of_goesOn hother] at hm
        exact hbase m hm
      · rw [openAfter_of_ends (by simpa using hblank) (by simpa using hother), openAfter] at hm
        split at hm
        · cases hm
        split at hm
        · cases hm
          exact hdeep.le
        · cases hm
    · have hends : goesOn (some n) line = false := (goesOn_eq_false_iff).mpr (Nat.not_lt.mp hdeep)
      have hother : goesOn base line = false := by
        cases base with
        | none => rfl
        | some m =>
          exact (goesOn_eq_false_iff).mpr ((Nat.not_lt.mp hdeep).trans (hbase m rfl))
      have hcontent : isBlankLine line = false := by simpa using hblank
      have hsame : namesFrom (some n) (line :: lines) = namesFrom base (line :: lines) := by
        rw [namesFrom, namesFrom, nameAt?_of_ends hends, nameAt?_of_ends hother,
          openAfter_of_ends hcontent hends, openAfter_of_ends hcontent hother]
      exact hsame ▸ List.suffix_refl _

/-! ## The entries of a body -/

/-- How many lines go on with the open block. -/
def openCount : Option Nat → List String → Nat
  | none, _ => 0
  | some n, lines => openLines n lines

namespace Section

theorem entriesFrom_nil (index skip : Nat) : entriesFrom index skip [] = [] := by
  cases skip <;> rfl

/-- A blank line is no entry. It belongs to the open block only if a deeper line is the next content,
and else the block ends in either case. -/
theorem entriesFrom_blank (hblank : isBlankLine line = true) (index : Nat) (base : Option Nat)
    (rest : List String) : entriesFrom index (openCount base (line :: rest)) (line :: rest) =
      entriesFrom (index + 1) (openCount base rest) rest := by
  have hnone : ¬ isDependencyLine line = true := fun h => by
    rw [isBlankLine_of_isDependencyLine h] at hblank
    cases hblank
  cases base with
  | none => rw [openCount, openCount, entriesFrom, if_neg hnone]
  | some n =>
    rw [openCount, openCount, openLines_of_isBlankLine hblank]
    split
    · rename_i hrest
      rw [hrest, entriesFrom, if_neg hnone]
    · rfl

/-- The entries among lines, from one line to the next. -/
theorem entriesFrom_cons (index : Nat) (base : Option Nat) (line : String) (rest : List String) :
    entriesFrom index (openCount base (line :: rest)) (line :: rest) =
      ((nameAt? base line).map fun name =>
          (⟨name, ⟨index, index + 1 + openLines (indentation line) rest⟩⟩ : Entry)).toList ++
        entriesFrom (index + 1) (openCount (openAfter base line) rest) rest := by
  by_cases hblank : isBlankLine line = true
  · rw [entriesFrom_blank hblank, nameAt?_of_isBlankLine hblank, openAfter_of_isBlankLine hblank]
    rfl
  by_cases hgoes : goesOn base line = true
  · rw [nameAt?_of_goesOn hgoes, openAfter_of_goesOn hgoes]
    cases base with
    | none => cases hgoes
    | some n =>
      have hdeep : n < indentation line := (goesOn_iff).mp hgoes
      rw [openCount, openCount, openLines_of_deeper (by simpa using hblank) hdeep]
      rfl
  · have hends : goesOn base line = false := by simpa using hgoes
    have hcount : openCount base (line :: rest) = 0 := by
      cases base with
      | none => rfl
      | some n =>
        have hends : indentation line ≤ n := (goesOn_eq_false_iff).mp hends
        rw [openCount, openLines_of_ends (by simpa using hblank) hends]
    rw [hcount, entriesFrom]
    by_cases hline : isDependencyLine line = true
    · rw [if_pos hline, openAfter_of_declares hline hends, nameAt?, hline, hends]
      dsimp only [openCount]
      cases declaredName? line <;> rfl
    · have hafter : openAfter base line = none := by
        rw [openAfter, hends, Bool.or_false, if_neg hblank, if_neg hline]
      have hname : nameAt? base line = none := by
        rw [nameAt?, if_neg (by simp [hline])]
      rw [if_neg hline, hafter, hname]
      rfl

theorem names_entriesFrom_openCount (index : Nat) (base : Option Nat) (lines : List String) :
    (entriesFrom index (openCount base lines) lines).map (·.name) = namesFrom base lines := by
  induction lines generalizing index base with
  | nil => rw [entriesFrom_nil]; rfl
  | cons line rest ih =>
    rw [entriesFrom_cons, List.map_append, ih, namesFrom]
    cases nameAt? base line <;> rfl

theorem names_entriesFrom_eq (index : Nat) (lines : List String) :
    (entriesFrom index 0 lines).map (·.name) = namesFrom none lines :=
  names_entriesFrom_openCount index none lines

end Section

/-! ## Blocks -/

/-- The first line declares the name, and the rest goes on with it. -/
structure IsBlock (name line : String) (rest : List String) : Prop where
  declares : isDependencyLine line = true
  declared : declaredName? line = some name
  allGoOn : AllGoOn (indentation line) rest

theorem allGoOn_take (n : Nat) (lines : List String) : AllGoOn n (lines.take (openLines n lines)) :=
  fun _ hl => blank_or_deeper_of_mem_take hl

/-- The lines that are open stay open without those after them. -/
theorem openLines_take (n : Nat) (lines : List String) :
    openLines n (lines.take (openLines n lines)) = openLines n lines := by
  induction lines with
  | nil => rfl
  | cons line rest ih =>
    cases hblank : isBlankLine line with
    | true =>
      rw [openLines_of_isBlankLine hblank]
      split
      · rfl
      · rename_i hopen
        rw [List.take_succ_cons, openLines_of_isBlankLine hblank, ih, if_neg hopen]
    | false =>
      rcases Nat.lt_or_ge n (indentation line) with hdeep | hends
      · rw [openLines_of_deeper hblank hdeep, List.take_succ_cons,
          openLines_of_deeper hblank hdeep, ih]
      · rw [openLines_of_ends hblank hends]
        rfl

theorem shallow_drop_openLines (n : Nat) (lines : List String) :
    Shallow n (lines.drop (openLines n lines)) := by
  induction lines with
  | nil => exact shallow_nil
  | cons line rest ih =>
    rcases openLines_cons n line rest with hnone | hopen
    · rw [hnone]
      exact openLines_eq_zero_iff.mp hnone
    · rw [hopen]
      exact ih

namespace IsBlock

theorem nameAt?_eq (h : IsBlock name line rest) (hends : goesOn base line = false) :
    nameAt? base line = some name := by
  rw [nameAt?, h.declares, hends, ← h.declared]
  rfl

theorem namesFrom_append (h : IsBlock name line rest) (hends : goesOn base line = false)
    (after : List String) : namesFrom base (line :: rest ++ after) =
      name :: namesFrom (some (indentation line)) after := by
  rw [List.cons_append, namesFrom, h.nameAt?_eq hends, openAfter_of_declares h.declares hends,
    h.allGoOn.namesFrom_append]
  rfl

/-- A block is open behind its lines. -/
theorem openAfterAll_append (h : IsBlock name line rest)
    (hends : goesOn (openAfterAll base before) line = false) :
    openAfterAll base (before ++ (line :: rest)) = some (indentation line) := by
  have hline := openAfter_of_declares h.declares hends
  have hrest := h.allGoOn.openAfterAll_eq
  rw [openAfterAll] at hline hrest ⊢
  rw [List.foldl_append, List.foldl_cons, hline, hrest]

/-- A block that is deeper than the one before it is lost in it. -/
theorem namesFrom_append_of_goesOn (h : IsBlock name line rest) (hgoes : goesOn base line = true)
    (after : List String) : namesFrom base (line :: rest ++ after) = namesFrom base after := by
  obtain ⟨n, rfl⟩ : ∃ n, base = some n := by
    cases base with
    | none => cases hgoes
    | some n => exact ⟨n, rfl⟩
  have hdeep : n < indentation line := (goesOn_iff).mp hgoes
  rw [List.cons_append, namesFrom, nameAt?_of_goesOn hgoes, openAfter_of_goesOn hgoes,
    (h.allGoOn.mono hdeep.le).namesFrom_append]
  rfl

end IsBlock

/-- No block goes on from the lines before a place to those after it. -/
def IsPlace (base : Option Nat) (before after : List String) : Prop :=
  ∀ n ∈ openAfterAll base before, Shallow n after

theorem IsPlace.namesFrom_after (h : IsPlace base before after) :
    namesFrom (openAfterAll base before) after = namesFrom none after := by
  cases hopen : openAfterAll base before with
  | none => rfl
  | some n => exact namesFrom_of_shallow (h n hopen) fun m hm => (Option.some.inj hm).le

theorem IsPlace.namesFrom_eq (h : IsPlace base before after) :
    namesFrom base (before ++ after) = namesFrom base before ++ namesFrom none after := by
  rw [namesFrom_append, h.namesFrom_after]

/-- There is a place before a line that does not go on with the open block. -/
theorem isPlace_of_ends (hcontent : isBlankLine line = false)
    (hends : goesOn (openAfterAll base before) line = false) (rest : List String) :
    IsPlace base before (line :: rest) := by
  intro n hn found hfound
  rw [firstContent?, hcontent, if_neg Bool.false_ne_true, Option.some.injEq] at hfound
  rw [hn] at hends
  exact hfound ▸ (goesOn_eq_false_iff).mp hends

theorem IsBlock.isPlace_before (h : IsBlock name line rest)
    (hends : goesOn (openAfterAll base before) line = false) (more : List String) :
    IsPlace base before (line :: more) :=
  isPlace_of_ends (isBlankLine_of_isDependencyLine h.declares) hends more

/-- A block that comes in adds its name at most. -/
theorem IsPlace.sublist_insert (h : IsPlace base before after) (hblock : IsBlock name line rest) :
    (namesFrom base (before ++ (line :: rest) ++ after)).Sublist
      (namesFrom base before ++ name :: namesFrom none after) := by
  rw [List.append_assoc, namesFrom_append]
  refine List.Sublist.append_left ?_ _
  by_cases hgoes : goesOn (openAfterAll base before) line = true
  · rw [hblock.namesFrom_append_of_goesOn hgoes, h.namesFrom_after]
    exact List.sublist_cons_self name _
  · rw [hblock.namesFrom_append (by simpa using hgoes)]
    have hhidden : namesFrom (some (indentation line)) after <:+ namesFrom none after :=
      namesFrom_suffix (by rintro m ⟨⟩) after
    exact hhidden.sublist.cons_cons name

/-- Between other lines, a block stands as an entry: it does not go on with the block before it, and
nothing behind it goes on with it. -/
structure Stands (base : Option Nat) (name : String) (before : List String) (line : String)
    (rest after : List String) : Prop where
  isBlock : IsBlock name line rest
  whole : openLines (indentation line) rest = rest.length
  ends : goesOn (openAfterAll base before) line = false
  shallow : Shallow (indentation line) after

namespace Stands

theorem isPlace_behind (h : Stands base name before line rest after) :
    IsPlace base (before ++ (line :: rest)) after := by
  intro n hn
  cases (h.isBlock.openAfterAll_append h.ends).symm.trans hn
  exact h.shallow

/-- Where a block stands, there is a place for it once it is gone. -/
theorem isPlace_without (h : Stands base name before line rest after) :
    IsPlace base before after := by
  intro n hn next hnext
  have hends := h.ends
  rw [hn] at hends
  have hle : indentation line ≤ n := (goesOn_eq_false_iff).mp hends
  exact (h.shallow next hnext).trans hle

theorem namesFrom_eq (h : Stands base name before line rest after) :
    namesFrom base (before ++ (line :: rest) ++ after) =
      namesFrom base before ++ name :: namesFrom none after := by
  rw [List.append_assoc, namesFrom_append, h.isBlock.namesFrom_append h.ends,
    namesFrom_of_shallow h.shallow fun m hm => (Option.some.inj hm).le]

end Stands

namespace Section

/-- An entry among lines stands there with its block, behind the lines of all entries before it. -/
theorem exists_of_entriesFrom_eq {above below : List Entry} (base : Option Nat)
    (h : entriesFrom index (openCount base lines) lines = above ++ entry :: below) :
    ∃ before line rest after, lines = before ++ (line :: rest) ++ after ∧
      Stands base entry.name before line rest after ∧
      namesFrom base before = above.map (·.name) ∧
      entry.extent = ⟨index + before.length, index + before.length + (line :: rest).length⟩ := by
  induction lines generalizing index base above with
  | nil =>
    rw [entriesFrom_nil] at h
    simp at h
  | cons first lines ih =>
    -- The entry is that of the first line, or one further down, with the first name before it.
    have hsplit : (∃ found, nameAt? base first = some found ∧ above = [] ∧
          entry = ⟨found, ⟨index, index + 1 + openLines (indentation first) lines⟩⟩) ∨
        ∃ later, entriesFrom (index + 1) (openCount (openAfter base first) lines) lines =
          later ++ entry :: below ∧
            above.map (·.name) = (nameAt? base first).toList ++ later.map (·.name) := by
      rw [entriesFrom_cons] at h
      cases hname : nameAt? base first with
      | none =>
        rw [hname] at h
        exact .inr ⟨above, h, rfl⟩
      | some found =>
        rw [hname] at h
        cases above with
        | nil => exact .inl ⟨found, rfl, rfl, (List.cons.inj h).1.symm⟩
        | cons other above =>
          obtain ⟨rfl, hrest⟩ := List.cons.inj h
          exact .inr ⟨above, hrest, rfl⟩
    rcases hsplit with ⟨found, hname, rfl, rfl⟩ | ⟨later, hlater, habove⟩
    · obtain ⟨hdeclares, hends, hdeclared⟩ := of_nameAt?_eq_some hname
      have hle := openLines_le (indentation first) lines
      have hlength : (lines.take (openLines (indentation first) lines)).length =
          openLines (indentation first) lines := by rw [List.length_take, Nat.min_eq_left hle]
      refine ⟨[], first, lines.take (openLines (indentation first) lines),
        lines.drop (openLines (indentation first) lines), ?_,
        ⟨⟨hdeclares, hdeclared, allGoOn_take _ _⟩, ?_, hends, shallow_drop_openLines _ _⟩, rfl, ?_⟩
      · rw [List.nil_append, List.cons_append, List.take_append_drop]
      · rw [hlength, openLines_take]
      · rw [List.length_cons, hlength, List.length_nil]
        simp only [Nat.add_zero, Extent.mk.injEq, true_and]
        omega
    · obtain ⟨before, line, rest, after, rfl, hstands, hbefore, hextent⟩ := ih _ hlater
      have hrest : Stands base entry.name (first :: before) line rest after :=
        ⟨hstands.isBlock, hstands.whole, hstands.ends, hstands.shallow⟩
      refine ⟨first :: before, line, rest, after, rfl, hrest, ?_, ?_⟩
      · rw [namesFrom, hbefore, habove]
      · rw [hextent]
        simp only [List.length_cons, Extent.mk.injEq]
        omega

/-- The first entry among lines whose name is one of some, with its block. -/
theorem exists_of_find? {p : String → Bool} (base : Option Nat)
    (h : (entriesFrom index (openCount base lines) lines).find? (p ·.name) = some entry) :
    ∃ before line rest after, lines = before ++ (line :: rest) ++ after ∧
      Stands base entry.name before line rest after ∧ (∀ n ∈ namesFrom base before, p n = false) ∧
      entry.extent = ⟨index + before.length, index + before.length + (line :: rest).length⟩ := by
  obtain ⟨-, above, below, hsplit, habove⟩ := List.find?_eq_some_iff_append.mp h
  obtain ⟨before, line, rest, after, hlines, hstands, hnames, hextent⟩ :=
    exists_of_entriesFrom_eq base hsplit
  refine ⟨before, line, rest, after, hlines, hstands, ?_, hextent⟩
  rw [hnames]
  intro n hn
  obtain ⟨other, hother, rfl⟩ := List.mem_map.mp hn
  simpa using habove other hother

/-- Behind the last entry there is a place, with no name after it. -/
theorem exists_of_getLast? (base : Option Nat) (h : (entriesFrom index (openCount base lines)
      lines).getLast? = some entry) :
    ∃ before after, lines = before ++ after ∧ IsPlace base before after ∧
      namesFrom none after = [] ∧ entry.extent.stop = index + before.length := by
  obtain ⟨above, hsplit⟩ := List.getLast?_eq_some_iff.mp h
  obtain ⟨before, line, rest, after, rfl, hstands, hnames, hextent⟩ :=
    exists_of_entriesFrom_eq base hsplit
  refine ⟨before ++ (line :: rest), after, rfl, hstands.isPlace_behind, ?_, ?_⟩
  · have hall := names_entriesFrom_openCount index base (before ++ (line :: rest) ++ after)
    rw [hsplit, List.map_append, hstands.namesFrom_eq, hnames, List.append_cancel_left_eq] at hall
    exact (List.cons.inj hall).2.symm
  · rw [hextent, List.length_append, Nat.add_assoc]

end Section
end PubspecTidy.Manifest
