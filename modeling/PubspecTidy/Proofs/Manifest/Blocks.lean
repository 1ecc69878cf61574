import PubspecTidy.Proofs.Manifest.Listing

/-!
# Entries with the lines of their blocks

What the lines of a section declare, name by name, each with its block. Main statements: the blocks of
a text come piece by piece where no block goes on from one piece to the next; without the block of an
entry a section has all others as they were; and a block that comes in is one of its own, and leaves
the others as they were, just where it is not deeper than the block that is open before it and no
deeper content stands behind it.
-/
namespace PubspecTidy.Manifest

variable {base : Option Nat} {n : Nat} {name line : String} {p : String → Bool}
  {lines before rest after above below : List String} {kind : SectionKind} {s : Section}

/-- The names that lines declare where a block may be open before them, each with its block. -/
def blocksFrom : Option Nat → List String → List (String × List String)
  | _, [] => []
  | base, line :: rest =>
    ((nameAt? base line).map fun name =>
        (name, line :: rest.take (openLines (indentation line) rest))).toList ++
      blocksFrom (openAfter base line) rest

theorem map_fst_blocksFrom (base : Option Nat) (lines : List String) :
    (blocksFrom base lines).map Prod.fst = namesFrom base lines := by
  induction lines generalizing base with
  | nil => rfl
  | cons line rest ih =>
    rw [blocksFrom, List.map_append, ih, namesFrom]
    cases nameAt? base line <;> rfl

/-- The entries among lines have these names and blocks. -/
theorem map_entriesFrom {all : List String} {index : Nat} (base : Option Nat)
    (hall : all.drop index = lines ++ below) :
    (Section.entriesFrom index (openCount base lines) lines).map
        (fun entry => (entry.name, entry.extent.lines all)) = blocksFrom base lines := by
  induction lines generalizing index base with
  | nil =>
    rw [Section.entriesFrom_nil]
    rfl
  | cons line rest ih =>
    have hrest : all.drop (index + 1) = rest ++ below := by
      rw [← List.drop_drop, hall]
      rfl
    have hle := openLines_le (indentation line) rest
    have hblock : Extent.lines ⟨index, index + 1 + openLines (indentation line) rest⟩ all =
        line :: rest.take (openLines (indentation line) rest) := by
      have hsize : index + 1 + openLines (indentation line) rest - index =
          openLines (indentation line) rest + 1 := by omega
      rw [Extent.lines, Extent.size, hall, hsize, List.cons_append, List.take_succ_cons,
        List.take_append_of_le_length hle]
    rw [Section.entriesFrom_cons, List.map_append, ih _ hrest, blocksFrom]
    cases nameAt? base line with
    | none => rfl
    | some name => exact congrArg (fun block => (name, block) :: _) hblock

theorem map_entries (s : Section) (lines : List String) :
    (s.entries lines).map (fun entry => (entry.name, entry.extent.lines lines)) =
      blocksFrom none (s.body lines) := by
  have hbody : lines.drop (s.header + 1) = s.body lines ++
      (lines.drop (s.header + 1)).drop (s.last + 1 - (s.header + 1)) :=
    (List.take_append_drop _ _).symm
  exact map_entriesFrom none hbody

/-! ## Piece by piece -/

/-- A block does not go on behind a place. -/
theorem IsPlace.openLines_append (h : IsPlace (some n) before after) :
    openLines n (before ++ after) = openLines n before := by
  induction before with
  | nil => exact openLines_of_shallow (h n rfl)
  | cons line before ih =>
    rw [List.cons_append]
    cases hblank : isBlankLine line with
    | true =>
      have hrest : IsPlace (some n) before after := by
        rwa [IsPlace, openAfterAll, List.foldl_cons, openAfter_of_isBlankLine hblank] at h
      rw [openLines_of_isBlankLine hblank, openLines_of_isBlankLine hblank, ih hrest]
    | false =>
      rcases Nat.lt_or_ge n (indentation line) with hdeep | hends
      · have hgoes : goesOn (some n) line = true := goesOn_iff.mpr hdeep
        have hrest : IsPlace (some n) before after := by
          rwa [IsPlace, openAfterAll, List.foldl_cons, openAfter_of_goesOn hgoes] at h
        rw [openLines_of_deeper hblank hdeep, openLines_of_deeper hblank hdeep, ih hrest]
      · rw [openLines_of_ends hblank hends, openLines_of_ends hblank hends]

theorem blocksFrom_of_shallow (h : Shallow n lines) (hbase : ∀ m ∈ base, n ≤ m) :
    blocksFrom base lines = blocksFrom none lines := by
  induction lines with
  | nil => rfl
  | cons line lines ih =>
    rw [blocksFrom, blocksFrom]
    by_cases hblank : isBlankLine line = true
    · have hrest : Shallow n lines := fun next hnext => h next (by rwa [firstContent?, if_pos hblank])
      rw [nameAt?_of_isBlankLine hblank, nameAt?_of_isBlankLine hblank,
        openAfter_of_isBlankLine hblank, openAfter_of_isBlankLine hblank, ih hrest]
    · have hends := goesOn_of_shallow h (by simpa using hblank) hbase
      rw [nameAt?_of_ends hends, openAfter_of_ends (by simpa using hblank) hends]

/-- Where no block goes on from one piece of a text to the next, the text has the blocks of both. -/
theorem IsPlace.blocksFrom_append (h : IsPlace base before after) :
    blocksFrom base (before ++ after) = blocksFrom base before ++ blocksFrom none after := by
  induction before generalizing base with
  | nil =>
    cases base with
    | none => rfl
    | some n => exact blocksFrom_of_shallow (h n rfl) fun m hm => (Option.some.inj hm).le
  | cons line before ih =>
    have hrest : IsPlace (openAfter base line) before after := h
    rw [List.cons_append, blocksFrom, blocksFrom, ih hrest, List.append_assoc]
    cases hname : nameAt? base line with
    | none => rfl
    | some name =>
      obtain ⟨hdeclares, hends, -⟩ := of_nameAt?_eq_some hname
      rw [openAfter_of_declares hdeclares hends] at hrest
      rw [hrest.openLines_append, List.take_append_of_le_length (openLines_le _ _)]

/-! ## One block among others -/

theorem AllGoOn.blocksFrom_append (h : AllGoOn n lines) (after : List String) :
    blocksFrom (some n) (lines ++ after) = blocksFrom (some n) after := by
  induction lines with
  | nil => rfl
  | cons line lines ih =>
    have hlines := ih fun l hl => h l (List.mem_cons_of_mem line hl)
    rw [List.cons_append, blocksFrom]
    rcases h line List.mem_cons_self with hblank | hdeep
    · rw [nameAt?_of_isBlankLine hblank, openAfter_of_isBlankLine hblank, hlines]
      rfl
    · have hgoes : goesOn (some n) line = true := goesOn_iff.mpr hdeep
      rw [nameAt?_of_goesOn hgoes, openAfter_of_goesOn hgoes, hlines]
      rfl

/-- A block takes in what is deeper behind it. -/
theorem IsBlock.blocksFrom_append (h : IsBlock name line rest)
    (hrest : openLines (indentation line) rest = rest.length) (hends : goesOn base line = false)
    (after : List String) :
    blocksFrom base (line :: rest ++ after) =
      (name, line :: rest ++ after.take (openLines (indentation line) after)) ::
        blocksFrom (some (indentation line)) after := by
  rw [List.cons_append, blocksFrom, h.nameAt?_eq hends, openAfter_of_declares h.declares hends,
    h.allGoOn.blocksFrom_append, openLines_append hrest, List.take_length_add_append]
  rfl

/-- A block that stands is one of its own, and all others are as if it was not there. -/
theorem Stands.blocksFrom_eq (h : Stands base name before line rest after) :
    blocksFrom base (before ++ (line :: rest) ++ after) =
      blocksFrom base before ++ (name, line :: rest) :: blocksFrom none after := by
  have hbefore : IsPlace base before (line :: rest ++ after) := h.isBlock.isPlace_before h.ends _
  rw [List.append_assoc, hbefore.blocksFrom_append, h.isBlock.blocksFrom_append h.whole rfl,
    openLines_of_shallow h.shallow, List.take_zero, List.append_nil,
    blocksFrom_of_shallow h.shallow fun m hm => (Option.some.inj hm).le]

/-- A block that comes in is one of its own and leaves the others as they were just where it does
not go on with the block before it, and nothing behind it goes on with it. -/
theorem IsBlock.blocksFrom_insert_iff (h : IsBlock name line rest)
    (hrest : openLines (indentation line) rest = rest.length) (hplace : IsPlace base before after) :
    blocksFrom base (before ++ (line :: rest) ++ after) =
        blocksFrom base before ++ (name, line :: rest) :: blocksFrom none after ↔
      goesOn (openAfterAll base before) line = false ∧ Shallow (indentation line) after := by
  constructor
  · intro hblocks
    cases hgoes : goesOn (openAfterAll base before) line with
    | true =>
      -- The block is lost in the one before it, so that a name is missing.
      have hnames := congrArg (List.map Prod.fst) hblocks
      rw [map_fst_blocksFrom, List.append_assoc, Manifest.namesFrom_append,
        h.namesFrom_append_of_goesOn hgoes, hplace.namesFrom_after, List.map_append,
        map_fst_blocksFrom, List.append_cancel_left_eq, List.map_cons, map_fst_blocksFrom] at hnames
      exact absurd hnames.symm (List.cons_ne_self name _)
    | false =>
      refine ⟨rfl, ?_⟩
      have hbefore : IsPlace base before (line :: rest ++ after) := h.isPlace_before hgoes _
      rw [List.append_assoc, hbefore.blocksFrom_append, h.blocksFrom_append hrest rfl,
        List.append_cancel_left_eq, List.cons.injEq, Prod.mk.injEq] at hblocks
      have htaken : after.take (openLines (indentation line) after) = [] :=
        List.append_right_eq_self.mp hblocks.1.2
      have hdropped := List.take_append_drop (openLines (indentation line) after) after
      rw [htaken, List.nil_append] at hdropped
      rw [← hdropped]
      exact shallow_drop_openLines _ _
  · rintro ⟨hends, hafter⟩
    exact Stands.blocksFrom_eq ⟨h, hrest, hends, hafter⟩

end PubspecTidy.Manifest
