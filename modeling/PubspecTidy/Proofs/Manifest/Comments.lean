import PubspecTidy.Proofs.Manifest.Blocks

/-!
# Comments among the lines of a section

Main statement: a comment that comes in anywhere in a section leaves every entry with its name and
the content of its block, unless it is not deeper than the declaration of the block that it stands
in while content of that block is still to come. There it ends the block, and the entry is cut short.
-/
namespace PubspecTidy.Manifest

variable {base : Option Nat} {n k : Nat} {name line : String}
  {lines before after : List String} {kind : SectionKind} {s : Section} {entry : Entry}

/-! ## Comments -/

/-- A comment on a line of its own, after some blanks. -/
def commentLine (k : Nat) (text : String) : String :=
  String.ofList (List.replicate k ' ' ++ '#' :: text.toList)

/-- Whether a line is neither blank nor a comment. -/
def isContent (line : String) : Bool :=
  !isBlankLine line && (Text.trim line.toList).head? != some '#'

theorem toList_commentLine (k : Nat) (text : String) :
    (commentLine k text).toList = List.replicate k ' ' ++ '#' :: text.toList :=
  String.toList_ofList

theorem indentation_commentLine (k : Nat) (text : String) :
    indentation (commentLine k text) = k := by
  rw [indentation, toList_commentLine]
  induction k with
  | zero => rfl
  | succ k ih => exact congrArg (· + 1) ih

theorem head?_trim_commentLine (k : Nat) (text : String) :
    (Text.trim (commentLine k text).toList).head? = some '#' := by
  have hspaces : ∀ c ∈ List.replicate k ' ', Text.isBlank c = true := fun c hc => by
    rw [List.eq_of_mem_replicate hc]
    decide
  have hhash := Text.trim_cons_of_not_blank (c := '#') (by decide) text.toList
  rw [toList_commentLine]
  unfold Text.trim Text.trimStart at hhash ⊢
  rw [List.dropWhile_append_of_pos hspaces, hhash, List.head?_cons]

theorem isBlankLine_commentLine (k : Nat) (text : String) :
    isBlankLine (commentLine k text) = false := by
  have hhead := head?_trim_commentLine k text
  unfold isBlankLine
  cases htrim : Text.trim (commentLine k text).toList with
  | nil =>
    rw [htrim] at hhead
    cases hhead
  | cons c cs => rfl

theorem isDependencyLine_commentLine (k : Nat) (text : String) :
    isDependencyLine (commentLine k text) = false := by
  unfold isDependencyLine
  dsimp only
  rw [head?_trim_commentLine]
  rfl

theorem isContent_commentLine (k : Nat) (text : String) :
    isContent (commentLine k text) = false := by
  unfold isContent
  rw [head?_trim_commentLine, isBlankLine_commentLine]
  rfl

theorem isHeader_commentLine (k : Nat) (text : String) :
    isHeader (commentLine k text) = false := by
  unfold isHeader
  rw [toList_commentLine]
  cases k with
  | zero => rfl
  | succ k => rfl

theorem isContent_of_isBlankLine (h : isBlankLine line = true) : isContent line = false := by
  rw [isContent, h]
  rfl

theorem isContent_of_isDependencyLine (h : isDependencyLine line = true) :
    isContent line = true := by
  have hblank := isBlankLine_of_isDependencyLine h
  simp only [isDependencyLine, Bool.and_eq_true] at h
  rw [isContent, hblank, h.1.1]
  rfl

/-! ## The content of a block -/

/-- The content among the lines that go on with a block. -/
def openContent (n : Nat) (lines : List String) : List String :=
  (lines.take (openLines n lines)).filter isContent

theorem openContent_of_isBlankLine (h : isBlankLine line = true) (n : Nat) (rest : List String) :
    openContent n (line :: rest) = openContent n rest := by
  unfold openContent
  rw [openLines_of_isBlankLine h]
  split
  · rename_i hrest
    rw [hrest]
    rfl
  · rw [List.take_succ_cons, List.filter_cons_of_neg (by simp [isContent_of_isBlankLine h])]

theorem openContent_of_deeper (hcontent : isBlankLine line = false) (h : n < indentation line)
    (rest : List String) : openContent n (line :: rest) =
      (if isContent line then [line] else []) ++ openContent n rest := by
  unfold openContent
  rw [openLines_of_deeper hcontent h, List.take_succ_cons]
  cases hline : isContent line with
  | true => rw [List.filter_cons_of_pos hline]; rfl
  | false => rw [List.filter_cons_of_neg (by simp [hline])]; rfl

theorem openContent_of_ends (hcontent : isBlankLine line = false) (h : indentation line ≤ n)
    (rest : List String) : openContent n (line :: rest) = [] := by
  unfold openContent
  rw [openLines_of_ends hcontent h]
  rfl

/-- A comment of some indentation changes nothing behind some lines: it is deeper than the block that
is open there, or that block has no content any more. -/
def IsInert (base : Option Nat) (k : Nat) (before after : List String) : Prop :=
  ∀ n ∈ openAfterAll base before, n < k ∨ openContent n after = []

/-- The content of a block with a comment in it. -/
theorem openContent_insert (h : IsInert (some n) k before after) (text : String) :
    openContent n (before ++ commentLine k text :: after) = openContent n (before ++ after) := by
  have hcontent := isBlankLine_commentLine k text
  have hindentation := indentation_commentLine k text
  induction before with
  | nil =>
    by_cases hdeep : n < k
    · rw [List.nil_append, openContent_of_deeper hcontent (by rwa [hindentation]),
        isContent_commentLine]
      rfl
    · have hnone : openContent n after = [] := (h n rfl).resolve_left hdeep
      rw [List.nil_append, openContent_of_ends hcontent (by omega), List.nil_append, hnone]
  | cons line before ih =>
    have hrest (hopen : openAfter (some n) line = some n) : IsInert (some n) k before after := by
      rwa [IsInert, openAfterAll, List.foldl_cons, hopen] at h
    rw [List.cons_append, List.cons_append]
    by_cases hblank : isBlankLine line = true
    · rw [openContent_of_isBlankLine hblank, openContent_of_isBlankLine hblank,
        ih (hrest (openAfter_of_isBlankLine hblank _))]
    rw [Bool.not_eq_true] at hblank
    by_cases hdeep : n < indentation line
    · have hgoes : goesOn (some n) line = true := goesOn_iff.mpr hdeep
      rw [openContent_of_deeper hblank hdeep, openContent_of_deeper hblank hdeep,
        ih (hrest (openAfter_of_goesOn hgoes))]
    · rw [openContent_of_ends hblank (by omega), openContent_of_ends hblank (by omega)]

/-! ## The contents of a section -/

/-- The names that lines declare where a block may be open before them, each with the content of its
block. -/
def contentsFrom (base : Option Nat) (lines : List String) : List (String × List String) :=
  (blocksFrom base lines).map fun b => (b.1, b.2.filter isContent)

theorem contentsFrom_cons (base : Option Nat) (line : String) (rest : List String) :
    contentsFrom base (line :: rest) =
      ((nameAt? base line).map fun name => (name, line :: openContent (indentation line) rest)).toList ++
        contentsFrom (openAfter base line) rest := by
  unfold contentsFrom
  rw [blocksFrom, List.map_append]
  cases hname : nameAt? base line with
  | none => rfl
  | some name =>
    have hline := isContent_of_isDependencyLine (of_nameAt?_eq_some hname).1
    simp only [Option.map_some, Option.toList_some, List.map_cons, List.map_nil,
      List.filter_cons_of_pos hline]
    rfl

/-- Lines without content declare nothing, whether the block before them is open or not. -/
theorem contentsFrom_of_openContent (h : openContent n lines = []) :
    contentsFrom (some n) lines = contentsFrom none lines := by
  induction lines with
  | nil => rfl
  | cons line rest ih =>
    rw [contentsFrom_cons, contentsFrom_cons]
    by_cases hblank : isBlankLine line = true
    · rw [openContent_of_isBlankLine hblank] at h
      rw [nameAt?_of_isBlankLine hblank, nameAt?_of_isBlankLine hblank,
        openAfter_of_isBlankLine hblank, openAfter_of_isBlankLine hblank, ih h]
    rw [Bool.not_eq_true] at hblank
    by_cases hdeep : n < indentation line
    · rw [openContent_of_deeper hblank hdeep, List.append_eq_nil_iff] at h
      have hline : isDependencyLine line = false := by
        rw [← Bool.not_eq_true]
        intro hline
        rw [isContent_of_isDependencyLine hline] at h
        cases h.1
      have hgoes : goesOn (some n) line = true := goesOn_iff.mpr hdeep
      have hname : nameAt? none line = none := by rw [nameAt?, hline]; rfl
      have hafter : openAfter none line = none := by rw [openAfter, hblank, hline]; rfl
      rw [nameAt?_of_goesOn hgoes, openAfter_of_goesOn hgoes, hname, hafter, ih h.2]
    · have hends : goesOn (some n) line = false := goesOn_eq_false_iff.mpr (Nat.not_lt.mp hdeep)
      rw [nameAt?_of_ends hends, openAfter_of_ends hblank hends]

/-- An inert comment leaves all names and all content. -/
theorem contentsFrom_insert (h : IsInert base k before after) (text : String) :
    contentsFrom base (before ++ commentLine k text :: after) =
      contentsFrom base (before ++ after) := by
  induction before generalizing base with
  | nil =>
    have hname : nameAt? base (commentLine k text) = none := by
      rw [nameAt?, isDependencyLine_commentLine]
      rfl
    rw [List.nil_append, List.nil_append, contentsFrom_cons, hname]
    cases base with
    | none =>
      have hafter : openAfter none (commentLine k text) = none := by
        rw [openAfter, isBlankLine_commentLine, isDependencyLine_commentLine]
        rfl
      rw [hafter]
      rfl
    | some n =>
      by_cases hdeep : n < k
      · have hgoes : goesOn (some n) (commentLine k text) = true :=
          goesOn_iff.mpr (by rwa [indentation_commentLine])
        rw [openAfter_of_goesOn hgoes]
        rfl
      · have hends : goesOn (some n) (commentLine k text) = false :=
          goesOn_eq_false_iff.mpr (by rwa [indentation_commentLine, ← Nat.not_lt])
        have hafter : openAfter (some n) (commentLine k text) = none := by
          rw [openAfter, isBlankLine_commentLine, isDependencyLine_commentLine, hends]
          rfl
        rw [hafter, contentsFrom_of_openContent ((h n rfl).resolve_left hdeep)]
        rfl
  | cons line before ih =>
    have hrest : IsInert (openAfter base line) k before after := h
    rw [List.cons_append, List.cons_append, contentsFrom_cons, contentsFrom_cons, ih hrest]
    cases hname : nameAt? base line with
    | none => rfl
    | some name =>
      obtain ⟨hdeclares, hends, -⟩ := of_nameAt?_eq_some hname
      rw [openAfter_of_declares hdeclares hends] at hrest
      rw [openContent_insert hrest]

theorem IsPlace.contentsFrom_append (h : IsPlace base before after) :
    contentsFrom base (before ++ after) = contentsFrom base before ++ contentsFrom none after := by
  rw [contentsFrom, h.blocksFrom_append, List.map_append]
  rfl

/-- What goes on with a block is part of its content. -/
theorem AllGoOn.openContent_append (h : AllGoOn n lines) (after : List String) :
    openContent n (lines ++ after) = lines.filter isContent ++ openContent n after := by
  induction lines with
  | nil => rfl
  | cons line lines ih =>
    have hlines := ih fun l hl => h l (List.mem_cons_of_mem line hl)
    rw [List.cons_append, List.filter_cons]
    by_cases hblank : isBlankLine line = true
    · rw [openContent_of_isBlankLine hblank, hlines, isContent_of_isBlankLine hblank,
        if_neg Bool.false_ne_true]
    · have hdeep := (h line List.mem_cons_self).resolve_left hblank
      rw [openContent_of_deeper (by simpa using hblank) hdeep, hlines]
      split <;> rfl

/-- In a block, a comment is inert just where it goes on with the block, or no content of the block
stands behind it. -/
theorem IsBlock.contentsFrom_insert_iff (h : IsBlock name line lines)
    (hends : goesOn (openAfterAll base before) line = false) (k : Nat) (text : String)
    (after : List String) :
    contentsFrom base (before ++ (line :: lines) ++ commentLine k text :: after) =
        contentsFrom base (before ++ (line :: lines) ++ after) ↔
      indentation line < k ∨ openContent (indentation line) after = [] := by
  constructor
  · intro heq
    rw [List.append_assoc, List.append_assoc, List.cons_append, List.cons_append,
      (h.isPlace_before hends _).contentsFrom_append,
      (h.isPlace_before hends _).contentsFrom_append, List.append_cancel_left_eq,
      contentsFrom_cons, contentsFrom_cons, h.nameAt?_eq rfl] at heq
    have hcontent : openContent (indentation line) (commentLine k text :: after) =
        openContent (indentation line) after := by
      have hblock := congrArg Prod.snd (List.cons.inj heq).1
      rw [List.cons.injEq, h.allGoOn.openContent_append, h.allGoOn.openContent_append,
        List.append_cancel_left_eq] at hblock
      exact hblock.2
    refine or_iff_not_imp_left.mpr fun hshallow => ?_
    rw [← hcontent, openContent_of_ends (isBlankLine_commentLine k text)
      (by rw [indentation_commentLine]; omega)]
  · intro hinert
    refine contentsFrom_insert (fun n hn => ?_) text
    cases (h.openAfterAll_append hends).symm.trans hn
    exact hinert

/-! ## Sections with one more comment -/

/-- The lines with a comment before line `p`. -/
def withComment (p k : Nat) (text : String) (lines : List String) : List String :=
  lines.take p ++ commentLine k text :: lines.drop p

theorem noHeader_commentLine (k : Nat) (text : String) : NoHeader [commentLine k text] :=
  fun _ hline => List.mem_singleton.mp hline ▸ isHeader_commentLine k text

namespace Section

/-- The names of the entries, each with the lines of its block that are neither blank nor a
comment. -/
def contents (s : Section) (lines : List String) : List (String × List String) :=
  (s.entries lines).map fun entry => (entry.name, (entry.extent.lines lines).filter isContent)

theorem contents_eq (s : Section) (lines : List String) :
    s.contents lines = contentsFrom none (s.body lines) := by
  rw [contentsFrom, ← map_entries, List.map_map]
  rfl

/-- The section with one more line in it. -/
def grown (s : Section) : Section := ⟨s.header, s.last + 1⟩

/-- The lines of the section before line `p` and those from there on. -/
def bodyBefore (s : Section) (p : Nat) (lines : List String) : List String :=
  (s.body lines).take (p - (s.header + 1))

def bodyFrom (s : Section) (p : Nat) (lines : List String) : List String :=
  (s.body lines).drop (p - (s.header + 1))

theorem length_bodyBefore (h : findSection? lines kind.name = some s) {p : Nat}
    (hafter : s.header < p) (hinside : p ≤ s.last + 1) :
    s.header + 1 + (s.bodyBefore p lines).length = p := by
  have hlast := last_lt_length h
  rw [bodyBefore, body, linesBetween, List.length_take, List.length_take, List.length_drop]
  omega

theorem findSection?_withComment (h : findSection? lines kind.name = some s) {p : Nat}
    (hafter : s.header < p) (hinside : p ≤ s.last + 1) (k : Nat) (text : String) :
    findSection? (withComment p k text lines) kind.name = some s.grown := by
  have hlast := last_lt_length h
  have hfound := findSection?_insert kind (noHeader_commentLine k text) (lines.take p)
    (lines.drop p)
  rw [List.take_append_drop, h, List.append_assoc, List.length_take, Nat.min_eq_left (by omega),
    Option.map_some, widen, if_neg (by omega), if_pos hinside] at hfound
  exact hfound

theorem body_withComment (h : findSection? lines kind.name = some s) {p : Nat}
    (hafter : s.header < p) (hinside : p ≤ s.last + 1) (k : Nat) (text : String) :
    s.grown.body (withComment p k text lines) =
      s.bodyBefore p lines ++ commentLine k text :: s.bodyFrom p lines := by
  have hbody : s.body lines = s.bodyBefore p lines ++ [] ++ s.bodyFrom p lines := by
    rw [List.append_nil, bodyBefore, bodyFrom, List.take_append_drop]
  have hreplaced := bodyOf?_replace h hbody (noHeader_commentLine k text) kind
  rw [length_bodyBefore h hafter hinside, List.length_nil, Nat.add_zero, if_pos rfl,
    List.append_assoc, List.append_assoc, ← map_body_findSection?] at hreplaced
  have hfound := findSection?_withComment h hafter hinside k text
  rw [withComment] at hfound ⊢
  rw [List.singleton_append, hfound] at hreplaced
  exact Option.some.inj hreplaced

/-- Inside the block of an entry, the section comes apart into what stands above the block, its
declaration, the lines of the block above line `p` and below, and what stands below the block. -/
theorem exists_of_mem_entries (h : findSection? lines kind.name = some s)
    (hentry : entry ∈ s.entries lines) {p : Nat} (hstart : entry.extent.start < p)
    (hstop : p < entry.extent.stop) (hline : lines[entry.extent.start]? = some line) :
    ∃ before inner outer after, s.bodyBefore p lines = before ++ (line :: inner) ∧
      s.bodyFrom p lines = outer ++ after ∧ IsBlock entry.name line inner ∧
      goesOn (openAfterAll none before) line = false ∧ AllGoOn (indentation line) outer ∧
      Shallow (indentation line) after ∧ Extent.lines ⟨p, entry.extent.stop⟩ lines = outer := by
  obtain ⟨above, below, hsplit⟩ := List.append_of_mem hentry
  obtain ⟨before, first, rest, after, hbody, ⟨hblock, -, hends, hshallow⟩, -, hextent⟩ :=
    exists_of_entriesFrom_eq none hsplit
  have hfirst : first = line := by
    have hlines := congrArg List.head? (lines_of_body h hbody)
    rw [← hextent, Extent.lines, List.head?_take, List.head?_drop, hline] at hlines
    simpa [Extent.size, hextent] using hlines.symm
  subst hfirst
  rw [hextent] at hstart hstop ⊢
  simp only [List.length_cons] at hstart hstop
  obtain ⟨inner, outer, rfl, hinner⟩ : ∃ inner outer, rest = inner ++ outer ∧
      p = s.header + 1 + (before ++ (first :: inner)).length := by
    refine ⟨rest.take (p - (s.header + 1 + before.length + 1)),
      rest.drop (p - (s.header + 1 + before.length + 1)), (List.take_append_drop _ _).symm, ?_⟩
    rw [List.length_append, List.length_cons, List.length_take]
    omega
  have hparts : s.body lines = before ++ (first :: inner) ++ outer ++ after := by
    rw [hbody]
    simp only [List.append_assoc, List.cons_append]
  have hdistance : p - (s.header + 1) = (before ++ (first :: inner)).length := by omega
  refine ⟨before, inner, outer, after, ?_, ?_, ⟨hblock.declares, hblock.declared, ?_⟩, hends, ?_,
    hshallow, ?_⟩
  · rw [bodyBefore, hdistance, hparts, List.append_assoc, List.take_left]
  · rw [bodyFrom, hdistance, hparts, List.append_assoc, List.drop_left]
  · exact fun l hl => hblock.allGoOn l (List.mem_append_left outer hl)
  · exact fun l hl => hblock.allGoOn l (List.mem_append_right inner hl)
  · have hend : s.header + 1 + before.length + (first :: (inner ++ outer)).length =
        s.header + 1 + (before ++ (first :: inner)).length + outer.length := by
      simp only [List.length_append, List.length_cons]
      omega
    rw [hinner, hend, lines_of_body h hparts]

/-- A comment anywhere in a section: the section is found with one more line. If the comment is inert
where it stands, every entry has the name and the content that it had. Within the block of an entry,
this is so just where the comment is deeper than the declaration, or no content of the block is left
below it. -/
theorem contents_withComment (h : findSection? lines kind.name = some s) {p : Nat}
    (hafter : s.header < p) (hinside : p ≤ s.last + 1) (k : Nat) (text : String) :
    findSection? (withComment p k text lines) kind.name = some s.grown ∧
      (IsInert none k (s.bodyBefore p lines) (s.bodyFrom p lines) →
        s.grown.contents (withComment p k text lines) = s.contents lines) ∧
      ∀ entry ∈ s.entries lines, entry.extent.start < p → p < entry.extent.stop →
        ∀ line, lines[entry.extent.start]? = some line →
          (s.grown.contents (withComment p k text lines) = s.contents lines ↔
            indentation line < k ∨
              (Extent.lines ⟨p, entry.extent.stop⟩ lines).filter isContent = []) := by
  refine ⟨findSection?_withComment h hafter hinside k text, ?_, ?_⟩
  · intro hinert
    rw [contents_eq, contents_eq, body_withComment h hafter hinside, contentsFrom_insert hinert,
      bodyBefore, bodyFrom, List.take_append_drop]
  · intro entry hentry hstart hstop line hline
    obtain ⟨before, inner, outer, after, hbefore, hfrom, hblock, hends, houter, hshallow, hlines⟩ :=
      exists_of_mem_entries h hentry hstart hstop hline
    have hcontent : openContent (indentation line) (outer ++ after) = outer.filter isContent := by
      rw [houter.openContent_append, openContent, openLines_of_shallow hshallow, List.take_zero,
        List.filter_nil, List.append_nil]
    have hbody : s.body lines = before ++ (line :: inner) ++ (outer ++ after) := by
      rw [← hbefore, ← hfrom, bodyBefore, bodyFrom, List.take_append_drop]
    rw [contents_eq, contents_eq, body_withComment h hafter hinside, hbefore, hfrom, hbody,
      hblock.contentsFrom_insert_iff hends, hcontent, hlines]

/-- A package with more of its declaration than one line. -/
def nestedLines : List String :=
  ["dependencies:", "  foo:", "    git:", "      url: x", "  bar: 1", ""]

theorem contents_withComment_nested :
    findSection? nestedLines SectionKind.dependencies.name = some ⟨0, 5⟩ ∧ 0 < 3 ∧ 3 ≤ 5 + 1 ∧
      Section.contents ⟨0, 6⟩ (withComment 3 4 " note" nestedLines) =
        [("foo", ["  foo:", "    git:", "      url: x"]), ("bar", ["  bar: 1"])] ∧
      Section.contents ⟨0, 6⟩ (withComment 3 2 " note" nestedLines) ≠
        [("foo", ["  foo:", "    git:", "      url: x"]), ("bar", ["  bar: 1"])] := by
  have hs : findSection? nestedLines SectionKind.dependencies.name = some ⟨0, 5⟩ := by
    decide
  have hcontents : Section.contents ⟨0, 5⟩ nestedLines =
      [("foo", ["  foo:", "    git:", "      url: x"]), ("bar", ["  bar: 1"])] := by
    decide
  have hfoo : (⟨"foo", ⟨1, 4⟩⟩ : Entry) ∈ Section.entries ⟨0, 5⟩ nestedLines := by decide
  have hdeep : IsInert none 4 (bodyBefore ⟨0, 5⟩ 3 nestedLines) (bodyFrom ⟨0, 5⟩ 3 nestedLines) := by
    have hopen : openAfterAll none (bodyBefore ⟨0, 5⟩ 3 nestedLines) = some 2 := by decide
    intro n hn
    cases hopen.symm.trans hn
    exact .inl (by decide)
  have hinert := (contents_withComment hs (p := 3) (by decide) (by decide) 4 " note").2.1 hdeep
  have hwithin := (contents_withComment hs (p := 3) (by decide) (by decide) 2 " note").2.2
    ⟨"foo", ⟨1, 4⟩⟩ hfoo (by decide) (by decide) "  foo:" rfl
  refine ⟨hs, by decide, by decide, hinert.trans hcontents, fun heq => ?_⟩
  rcases hwithin.mp (heq.trans hcontents.symm) with hdeeper | hnone
  · exact absurd hdeeper (by decide)
  · exact absurd hnone (by decide)

/-- A comment in the first column ends the block that it stands in. -/
theorem not_all_comments_inert :
    ¬ ∀ (lines : List String) (kind : SectionKind) (s : Section) (p k : Nat) (text : String),
      findSection? lines kind.name = some s → s.header < p → p ≤ s.last + 1 →
      ∃ s', findSection? (withComment p k text lines) kind.name = some s' ∧
        s'.contents (withComment p k text lines) = s.contents lines := by
  intro h
  have hs : findSection? nestedLines SectionKind.dependencies.name = some ⟨0, 5⟩ := by
    decide
  have hs' : findSection? (withComment 3 0 " note" nestedLines) SectionKind.dependencies.name =
      some ⟨0, 6⟩ := by decide
  obtain ⟨s', hfound, hcontents⟩ := h nestedLines .dependencies ⟨0, 5⟩ 3 0 " note" hs (by decide)
    (by decide)
  cases hs'.symm.trans hfound
  have hnames := congrArg (List.map Prod.fst) hcontents
  have hold : (Section.contents ⟨0, 5⟩ nestedLines).map Prod.fst = ["foo", "bar"] := by
    decide
  have hnew : (Section.contents ⟨0, 6⟩ (withComment 3 0 " note" nestedLines)).map Prod.fst =
      ["foo", "url", "bar"] := by decide
  rw [hold, hnew] at hnames
  exact absurd hnames (by decide)

end Section
end PubspecTidy.Manifest
