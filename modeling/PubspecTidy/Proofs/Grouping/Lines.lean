import PubspecTidy.Grouping.Sections
import PubspecTidy.Proofs.Manifest.Bodies
import PubspecTidy.Proofs.Text.Lines

/-!
# The lines of a regrouped manifest

A category that is one line can do no more than head its group. Main statement: where each grouped
package has a block in its section, every line of the regrouped manifest is blank, a comment or a
line of the manifest, so that no category adds a declaration or changes one.
-/
namespace PubspecTidy

/-! ## Blocks of packages -/

namespace Grouping

open Manifest (NoHeader Section SectionKind bodyOf? findSection? isBlankLine isDependencyLine
  isHeader startsBlank)

variable {all : List String} {kind kind' : SectionKind} {g : Grouping} {s : Section}
  {line lineEnd : String}

/-- Every grouped package has a block in its section. -/
def Located (all : List String) (kind : SectionKind) (g : Grouping) : Prop :=
  ∀ f ∈ g.packages, ∃ s ∈ findSection? all kind.name, (s.locate? all f.name).isSome = true

instance (all : List String) (kind : SectionKind) (g : Grouping) : Decidable (Located all kind g) :=
  inferInstanceAs (Decidable (∀ f ∈ g.packages, _))

theorem located_iff :
    Located all kind g ↔ ∀ f ∈ g.packages, ∃ body ∈ bodyOf? kind.name all,
      f.name ∈ (Section.entriesFrom 0 0 body).map (·.name) := by
  refine forall₂_congr fun f _ => ?_
  rw [← Manifest.map_body_findSection?]
  simp [Section.locate?_isSome]

theorem mem_packages {category : String} {f : Finding} (h : f ∈ g.group category) :
    f ∈ g.packages := by
  unfold group Table.getD at h
  cases hgroup : Table.get? g.groups category with
  | none =>
    rw [hgroup] at h
    cases h
  | some group =>
    rw [hgroup] at h
    exact List.mem_flatten.mpr ⟨group, List.mem_map_of_mem (Table.mem_of_get? hgroup), h⟩

/-! ## What is written -/

/-- Whether the line is a comment. -/
def isCommentLine (line : String) : Bool := (Text.trimStart line.toList).head? == some '#'

theorem not_comment_of_isDependencyLine (h : isDependencyLine line = true) :
    isBlankLine line = false ∧ isCommentLine line = false := by
  simp only [isDependencyLine, Bool.and_eq_true, bne_iff_ne] at h
  obtain ⟨⟨hhead, hcolon⟩, -⟩ := h
  constructor
  · rw [← Bool.not_eq_true]
    intro hblank
    rw [List.isEmpty_iff.mp hblank] at hcolon
    cases hcolon
  · rw [← Bool.not_eq_true]
    intro hcomment
    obtain ⟨rest, hrest⟩ := List.head?_eq_some_iff.mp (beq_iff_eq.mp hcomment)
    rw [Text.trim, hrest, Text.trimEnd_cons_of_not_blank (by decide)] at hhead
    exact hhead rfl

/-- A line that regrouping may write between a header and what follows its section. -/
structure Harmless (all : List String) (line : String) : Prop where
  known : isBlankLine line = true ∨ isCommentLine line = true ∨ line ∈ all
  inside : isHeader line = false
  one : Text.IsOneLine line

/-- What a new line may end with. -/
def IsLineEnd (lineEnd : String) : Prop := lineEnd = "" ∨ lineEnd = "\r"

theorem IsLineEnd.harmless (h : IsLineEnd lineEnd) (all : List String) : Harmless all lineEnd := by
  rcases h with rfl | rfl
  · exact ⟨.inl (by decide), by decide, by decide⟩
  · exact ⟨.inl (by decide), by decide, by decide⟩

/-! ### Headings -/

/-- Blanks that no header starts with. -/
structure IsIndent (indent : String) : Prop where
  blank : ∀ c ∈ indent.toList, Text.isBlank c = true
  starts : startsBlank indent = true
  one : Text.IsOneLine indent

theorem isIndent_usualIndent : IsIndent usualIndent := by
  constructor
  · intro c hc
    have hspace : c = ' ' := by simpa [usualIndent] using hc
    rw [hspace]
    decide
  · decide
  · decide

theorem startsBlank_append (h : startsBlank line = true) (rest : String) :
    startsBlank (line ++ rest) = true := by
  unfold startsBlank at h ⊢
  rw [String.toList_append]
  split at h
  · rename_i hline
    rw [hline]
    rfl
  · rename_i hline
    rw [hline]
    rfl
  · cases h

theorem isBlank_of_mem_leadingBlanks {c : Char} (h : c ∈ (leadingBlanks line).toList) :
    Text.isBlank c = true := by
  rw [leadingBlanks, String.toList_ofList] at h
  exact List.mem_takeWhile_imp h

theorem startsBlank_leadingBlanks (hline : isDependencyLine line = true) :
    startsBlank (leadingBlanks line) = true := by
  have hstarts := Manifest.startsBlank_of_isDependencyLine hline
  unfold startsBlank leadingBlanks at *
  rw [String.toList_ofList]
  split at hstarts
  · rename_i hcs
    rw [hcs, List.takeWhile_cons_of_pos (by decide)]
    rfl
  · rename_i hcs
    rw [hcs, List.takeWhile_cons_of_pos (by decide)]
    rfl
  · cases hstarts

theorem isIndent_leadingBlanks (hline : isDependencyLine line = true) (hone : Text.IsOneLine line) :
    IsIndent (leadingBlanks line) where
  blank _ hc := isBlank_of_mem_leadingBlanks hc
  starts := startsBlank_leadingBlanks hline
  one hmem := by
    rw [leadingBlanks, String.toList_ofList] at hmem
    exact hone ((List.takeWhile_sublist _).subset hmem)

theorem isCommentLine_heading {indent : String} (h : ∀ c ∈ indent.toList, Text.isBlank c = true)
    (category lineEnd : String) : isCommentLine (indent ++ "# " ++ category ++ lineEnd) = true := by
  unfold isCommentLine Text.trimStart
  simp only [String.toList_append, List.append_assoc]
  rw [List.dropWhile_append_of_pos h]
  rfl

/-- A heading is a comment, if its category is one line. -/
theorem IsIndent.harmless {indent category : String} (hindent : IsIndent indent)
    (hcategory : Text.IsOneLine category) (hend : IsLineEnd lineEnd) (all : List String) :
    Harmless all (indent ++ "# " ++ category ++ lineEnd) := by
  constructor
  · exact .inr (.inl (isCommentLine_heading hindent.blank category lineEnd))
  · apply Manifest.isHeader_of_startsBlank
    simp only [String.append_assoc]
    exact startsBlank_append hindent.starts _
  · exact ((hindent.one.append (by decide)).append hcategory).append (hend.harmless all).one

/-! ### Entries -/

/-- The block of an entry starts with a declaration. -/
theorem head?_block {e : Manifest.Entry} (h : e ∈ s.entries all) :
    ∃ line rest, e.extent.lines all = line :: rest ∧ isDependencyLine line = true := by
  obtain ⟨before, line, rest, after, rfl, hline, -, hstart, hstop, -, -⟩ := Section.mem_entries h
  have hsize : e.extent.size = Manifest.openLines (Manifest.indentation line) rest + 1 := by
    rw [Manifest.Extent.size]
    omega
  refine ⟨line, (rest ++ after).take (Manifest.openLines (Manifest.indentation line) rest), ?_,
    hline⟩
  rw [Manifest.Extent.lines, hsize, hstart, List.drop_left, List.take_succ_cons]

theorem mem_of_mem_block {e : Manifest.Entry} (h : line ∈ e.extent.lines all) : line ∈ all :=
  List.mem_of_mem_drop (List.mem_of_mem_take h)

theorem harmless_block (hall : ∀ line ∈ all, Text.IsOneLine line) {e : Manifest.Entry}
    (he : e ∈ s.entries all) (h : line ∈ e.extent.lines all) : Harmless all line where
  known := .inr (.inr (mem_of_mem_block h))
  inside := Section.noHeader_lines he line h
  one := hall line (mem_of_mem_block h)

theorem isIndent_indentOf {blocks : List (List String)}
    (h : ∀ block ∈ blocks, ∃ line rest, block = line :: rest ∧ isDependencyLine line = true ∧
      Text.IsOneLine line) : IsIndent (indentOf blocks) := by
  cases blocks with
  | nil => exact isIndent_usualIndent
  | cons block rest =>
    obtain ⟨line, lines, rfl, hline, hone⟩ := h block List.mem_cons_self
    change IsIndent (if (leadingBlanks line).isEmpty then usualIndent else leadingBlanks line)
    split
    · exact isIndent_usualIndent
    · exact isIndent_leadingBlanks hline hone

theorem isIndent_entriesOf (hall : ∀ line ∈ all, Text.IsOneLine line) (s : Section) :
    IsIndent (entriesOf all (some s)).indent := by
  apply isIndent_indentOf
  rw [List.map_map]
  intro block hblock
  obtain ⟨e, he, rfl⟩ := List.mem_map.mp hblock
  obtain ⟨line, rest, hlines, hline⟩ := head?_block he
  have hmem : line ∈ e.extent.lines all := by
    rw [hlines]
    exact List.mem_cons_self
  exact ⟨line, rest, hlines, hline, hall line (mem_of_mem_block hmem)⟩

/-- Each block in the table of a section is the block of one of its entries. -/
theorem mem_blocks {name : String} {block : List String}
    (h : (name, block) ∈ (entriesOf all (some s)).blocks) :
    ∃ e ∈ s.entries all, e.name = name ∧ e.extent.lines all = block := by
  obtain ⟨e, he, hpair⟩ := List.mem_map.mp (Table.mem_of_mem_ofList h)
  cases hpair
  exact ⟨e, he, rfl, rfl⟩

/-- A package with a block is written as its block. -/
theorem harmless_packageLines (hall : ∀ line ∈ all, Text.IsOneLine line) {f : Finding}
    (hlocated : (s.locate? all f.name).isSome = true)
    (h : line ∈ packageLines (entriesOf all (some s)) lineEnd f) : Harmless all line := by
  have hkey : f.name ∈ Table.keys (entriesOf all (some s)).blocks := by
    rw [Section.locate?_isSome, Section.names_entriesFrom 0 (s.header + 1)] at hlocated
    refine Table.mem_keys_ofList.mpr ?_
    rw [List.map_map]
    exact hlocated
  unfold packageLines at h
  cases hblock : Table.get? (entriesOf all (some s)).blocks f.name with
  | none => exact absurd hkey ((Table.get?_eq_none_iff _ _).mp hblock)
  | some block =>
    obtain ⟨e, he, -, rfl⟩ := mem_blocks (Table.mem_of_get? hblock)
    obtain ⟨first, rest, hlines, -⟩ := head?_block he
    rw [hblock, hlines] at h
    exact harmless_block hall he (by rw [hlines]; exact h)

/-! ### A section -/

theorem mem_separate {groups : List (List String)} (h : line ∈ separate lineEnd groups) :
    line = lineEnd ∨ ∃ group ∈ groups, line ∈ group := by
  induction groups with
  | nil => cases h
  | cons first rest ih =>
    have hfirst (h : line ∈ first) : ∃ group ∈ first :: rest, line ∈ group :=
      ⟨first, List.mem_cons_self, h⟩
    cases rest with
    | nil => exact .inr (hfirst h)
    | cons second rest =>
      rcases List.mem_append.mp h with h | h
      · exact .inr (hfirst h)
      rcases List.mem_cons.mp h with h | h
      · exact .inl h
      · refine (ih h).imp_right fun ⟨group, hgroup, hline⟩ => ?_
        exact ⟨group, List.mem_cons_of_mem first hgroup, hline⟩

/-- What a line is that comes in for the entries of a section. -/
theorem mem_sectionBody (h : line ∈ sectionBody all s g) :
    ∃ lineEnd, IsLineEnd lineEnd ∧ (line = lineEnd ∨ (∃ e ∈ s.entries all, line ∈ e.extent.lines all) ∨
      (∃ c ∈ g.shown, line = (entriesOf all (some s)).indent ++ "# " ++ c ++ lineEnd) ∨
      ∃ f ∈ g.packages, line ∈ packageLines (entriesOf all (some s)) lineEnd f) := by
  unfold sectionBody at h
  dsimp only at h
  generalize hend : (if Text.endsWith (all[s.header]?.getD "") "\r" then "\r" else "") = lineEnd
    at h
  refine ⟨lineEnd, ?_, ?_⟩
  · rw [← hend]
    split
    · exact .inr rfl
    · exact .inl rfl
  rcases List.mem_append.mp h with h | h
  · split at h
    · cases h
    rcases List.mem_append.mp h with h | h
    · obtain ⟨⟨name, block⟩, hblock, hline⟩ := List.mem_flatMap.mp h
      obtain ⟨e, he, -, rfl⟩ := mem_blocks (List.mem_filter.mp hblock).1
      exact .inr (.inl ⟨e, he, hline⟩)
    · exact .inl (List.mem_singleton.mp h)
  · rcases mem_separate h with h | ⟨lines, hlines, hline⟩
    · exact .inl h
    obtain ⟨category, hcategory, rfl⟩ := List.mem_map.mp hlines
    rcases List.mem_cons.mp hline with h | hline
    · exact .inr (.inr (.inl ⟨category, hcategory, h⟩))
    · obtain ⟨f, hf, hline⟩ := List.mem_flatMap.mp hline
      exact .inr (.inr (.inr ⟨f, mem_packages hf, hline⟩))

theorem harmless_sectionBody (hall : ∀ line ∈ all, Text.IsOneLine line)
    (hlocated : ∀ f ∈ g.packages, (s.locate? all f.name).isSome = true)
    (hcategories : ∀ c ∈ g.shown, Text.IsOneLine c) (h : line ∈ sectionBody all s g) :
    Harmless all line := by
  obtain ⟨lineEnd, hend, rfl | ⟨e, he, hline⟩ | ⟨c, hc, rfl⟩ | ⟨f, hf, hline⟩⟩ := mem_sectionBody h
  · exact hend.harmless all
  · exact harmless_block hall he hline
  · exact (isIndent_entriesOf hall s).harmless (hcategories c hc) hend all
  · exact harmless_packageLines hall (hlocated f hf) hline

/-! ### A manifest -/

/-- The parts of a text around the entries of a section. -/
theorem exists_parts (hs : findSection? all kind.name = some s) :
    ∃ before header old after, all = before ++ header :: (old ++ after) ∧
      Manifest.isHeaderOf kind.name header = true ∧ NoHeader old ∧
      all.take (s.header + 1) = before ++ [header] ∧ all.drop (s.entriesEnd all) = after := by
  obtain ⟨before, header, rest, hparts, hheader, hplace, hlast⟩ := Manifest.findSection?_eq_some hs
  have hlow := Section.header_lt_entriesEnd s all
  have hhigh : s.entriesEnd all ≤ s.last + 1 :=
    Section.entriesEnd_le_last (Manifest.header_le_last hs)
  obtain ⟨n, hn⟩ : ∃ n, s.entriesEnd all = before.length + (n + 1) :=
    ⟨s.entriesEnd all - before.length - 1, by omega⟩
  refine ⟨before, header, rest.take n, rest.drop n, ?_, hheader, ?_, ?_, ?_⟩
  · rw [List.take_append_drop]
    exact hparts
  · intro line hline
    have hle : n ≤ (rest.takeWhile (!isHeader ·)).length := by omega
    rw [← List.takeWhile_append_dropWhile (p := (!isHeader ·)) (l := rest),
      List.take_append_of_le_length hle] at hline
    exact Manifest.noHeader_takeWhile rest line (List.mem_of_mem_take hline)
  · rw [hparts, hplace, List.take_length_add_append, List.take_succ_cons, List.take_zero]
  · rw [hn, hparts, ← List.drop_drop, List.drop_left, List.drop_succ_cons]

theorem regroupSection_eq (hs : findSection? all kind.name = some s) (hg : g.isEmpty = false) :
    regroupSection kind g all =
      all.take (s.header + 1) ++ sectionBody all s g ++ all.drop (s.entriesEnd all) := by
  rw [regroupSection, hs]
  exact if_neg (by simp [hg])

/-- A section is left as it is, or only what stands between its header and the rest is written
anew. -/
theorem regroupSection_cases (hall : ∀ line ∈ all, Text.IsOneLine line)
    (hlocated : Located all kind g) (hcategories : ∀ c ∈ g.shown, Text.IsOneLine c) :
    regroupSection kind g all = all ∨
      ∃ before header old new after, all = before ++ header :: (old ++ after) ∧
        Manifest.isHeaderOf kind.name header = true ∧ NoHeader old ∧
        regroupSection kind g all = before ++ header :: (new ++ after) ∧
        ∀ line ∈ new, Harmless all line := by
  cases hs : findSection? all kind.name with
  | none =>
    left
    rw [regroupSection, hs]
  | some s =>
    cases hg : g.isEmpty with
    | true =>
      left
      rw [regroupSection, hs]
      exact if_pos hg
    | false =>
      right
      obtain ⟨before, header, old, after, hparts, hheader, hold, htake, hdrop⟩ := exists_parts hs
      refine ⟨before, header, old, sectionBody all s g, after, hparts, hheader, hold, ?_, ?_⟩
      · rw [regroupSection_eq hs hg, htake, hdrop]
        simp
      · refine fun line hline => harmless_sectionBody hall (fun f hf => ?_) hcategories hline
        obtain ⟨s', hs', hlocated⟩ := hlocated f hf
        obtain rfl := Option.some.inj (hs.symm.trans hs')
        exact hlocated

/-- What is known of every line of a text that a section was regrouped in. -/
theorem known_regroupSection (hall : ∀ line ∈ all, Text.IsOneLine line)
    (hlocated : Located all kind g) (hcategories : ∀ c ∈ g.shown, Text.IsOneLine c) :
    ∀ line ∈ regroupSection kind g all, Text.IsOneLine line ∧
      (isBlankLine line = true ∨ isCommentLine line = true ∨ line ∈ all) := by
  intro line hline
  rcases regroupSection_cases hall hlocated hcategories with
    hsame | ⟨before, header, old, new, after, hparts, -, -, hnew, hharmless⟩
  · rw [hsame] at hline
    exact ⟨hall line hline, .inr (.inr hline)⟩
  · have hkept (h : line ∈ all) : Text.IsOneLine line ∧
        (isBlankLine line = true ∨ isCommentLine line = true ∨ line ∈ all) :=
      ⟨hall line h, .inr (.inr h)⟩
    rw [hnew, List.mem_append, List.mem_cons, List.mem_append] at hline
    rcases hline with h | h | h | h
    · exact hkept (by simp [hparts, h])
    · exact hkept (by simp [hparts, h])
    · exact ⟨(hharmless line h).one, (hharmless line h).known⟩
    · exact hkept (by simp [hparts, h])

/-- Regrouping one section leaves the packages of the other one where they can be found. -/
theorem Located.regroupSection {g' : Grouping} (hall : ∀ line ∈ all, Text.IsOneLine line)
    (hlocated : Located all kind g) (hcategories : ∀ c ∈ g.shown, Text.IsOneLine c)
    (hne : kind' ≠ kind) (h : Located all kind' g') :
    Located (Grouping.regroupSection kind g all) kind' g' := by
  rw [located_iff] at h ⊢
  rcases regroupSection_cases hall hlocated hcategories with
    hsame | ⟨before, header, old, new, after, hparts, hheader, hold, hnew, hharmless⟩
  · rw [hsame]
    exact h
  · have hnoHeader : NoHeader new := fun line hline => (hharmless line hline).inside
    rw [hnew, Manifest.bodyOf?_other hne hheader hold hnoHeader, ← hparts]
    exact h

theorem regroupSection_ne_nil (hne : all ≠ []) : regroupSection kind g all ≠ [] := by
  cases hs : findSection? all kind.name with
  | none =>
    rw [regroupSection, hs]
    exact hne
  | some s =>
    cases hg : g.isEmpty with
    | true =>
      rw [regroupSection, hs]
      exact ne_of_eq_of_ne (if_pos hg) hne
    | false =>
      obtain ⟨before, header, old, after, -, -, -, htake, -⟩ := exists_parts hs
      rw [regroupSection_eq hs hg, htake]
      simp

variable {manifest : String} {dependencies dev : Grouping}

/-- Every line of a regrouped manifest is blank, a comment or one of its lines; a declaration is one
of its lines. -/
theorem regroup_lines
    (hdependencies : Located (Text.splitLines manifest) .dependencies dependencies)
    (hdev : Located (Text.splitLines manifest) .devDependencies dev)
    (hcategories : ∀ c ∈ dependencies.shown ++ dev.shown, Text.IsOneLine c) :
    ∀ line ∈ Text.splitLines (regroup manifest dependencies dev),
      (isBlankLine line = true ∨ isCommentLine line = true ∨ line ∈ Text.splitLines manifest) ∧
      (isDependencyLine line = true → line ∈ Text.splitLines manifest) := by
  have hall : ∀ line ∈ Text.splitLines manifest, Text.IsOneLine line :=
    fun line => Text.isOneLine_of_mem_splitLines
  have hcategories₁ : ∀ c ∈ dev.shown, Text.IsOneLine c :=
    fun c hc => hcategories c (List.mem_append_right _ hc)
  have hcategories₂ : ∀ c ∈ dependencies.shown, Text.IsOneLine c :=
    fun c hc => hcategories c (List.mem_append_left _ hc)
  -- the development dependencies are regrouped first
  have hfirst := known_regroupSection hall hdev hcategories₁
  have hlocated : Located (regroupSection .devDependencies dev (Text.splitLines manifest))
      .dependencies dependencies :=
    hdev.regroupSection hall hcategories₁ (by decide) hdependencies
  have hsecond := known_regroupSection (fun line hline => (hfirst line hline).1) hlocated
    hcategories₂
  have hne : regroupSection .dependencies dependencies
      (regroupSection .devDependencies dev (Text.splitLines manifest)) ≠ [] :=
    regroupSection_ne_nil (regroupSection_ne_nil (Text.splitLines_ne_nil manifest))
  intro line hline
  rw [regroup, Text.splitLines_joinLines hne fun line hline => (hsecond line hline).1] at hline
  have hknown : isBlankLine line = true ∨ isCommentLine line = true ∨
      line ∈ Text.splitLines manifest := by
    rcases (hsecond line hline).2 with hblank | hcomment | hline
    · exact .inl hblank
    · exact .inr (.inl hcomment)
    · exact (hfirst line hline).2
  refine ⟨hknown, fun hdeclares => ?_⟩
  obtain ⟨hblank, hcomment⟩ := not_comment_of_isDependencyLine hdeclares
  rw [hblank, hcomment] at hknown
  simpa using hknown

/-! ### Two categories -/

def twoPackages : String := "dependencies:\n  path: 1\n  dio:\n    git: x\n"

def findingOf (name version : String) : Finding := ⟨name, version, .dependencies, .used, {}⟩

/-- The packages in two groups. -/
def grouped (category : String) : Grouping where
  groups := [(category, [findingOf "path" "1"]), ("Networking", [findingOf "dio" "git: x"])]
  order := ["Networking", category]

/-- Regrouping a text of which the lines are known, and what they come to. -/
theorem regroup_of_lines {manifest result : String} {lines lines' : List String}
    {dependencies dev : Grouping} (hsplit : Text.splitLines manifest = lines)
    (hlines : regroupSection .dependencies dependencies (regroupSection .devDependencies dev lines) =
      lines') (hresult : Text.joinLines lines' = result) :
    regroup manifest dependencies dev = result := by
  rw [regroup, hsplit, hlines, hresult]

theorem splitLines_twoPackages : Text.splitLines twoPackages =
    ["dependencies:", "  path: 1", "  dio:", "    git: x", ""] :=
  Text.splitLines_of_eq_ofList rfl rfl

theorem regroup_lines_two_packages :
    Located (Text.splitLines twoPackages) .dependencies (grouped "Utilities") ∧
    Located (Text.splitLines twoPackages) .devDependencies .empty ∧
    (∀ c ∈ (grouped "Utilities").shown ++ Grouping.empty.shown, Text.IsOneLine c) ∧
    ∀ line ∈ Text.splitLines (regroup twoPackages (grouped "Utilities") .empty),
      (isBlankLine line = true ∨ isCommentLine line = true ∨ line ∈ Text.splitLines twoPackages) ∧
      (isDependencyLine line = true → line ∈ Text.splitLines twoPackages) := by
  have hdependencies :
      Located (Text.splitLines twoPackages) .dependencies (grouped "Utilities") := by
    rw [splitLines_twoPackages]
    decide
  have hdev : Located (Text.splitLines twoPackages) .devDependencies .empty := by
    rw [splitLines_twoPackages]
    decide
  have hcategories : ∀ c ∈ (grouped "Utilities").shown ++ Grouping.empty.shown,
      Text.IsOneLine c := by
    decide
  exact ⟨hdependencies, hdev, hcategories, regroup_lines hdependencies hdev hcategories⟩

/-- A category of two lines declares a package with its second one. -/
theorem declares_by_category :
    Located (Text.splitLines twoPackages) .dependencies (grouped "Utilities\n  evil: 1") ∧
    Located (Text.splitLines twoPackages) .devDependencies .empty ∧
    ∃ line ∈ Text.splitLines (regroup twoPackages (grouped "Utilities\n  evil: 1") .empty),
      isDependencyLine line = true ∧ isBlankLine line = false ∧ isCommentLine line = false ∧
        line ∉ Text.splitLines twoPackages := by
  have hlines : regroupSection .dependencies (grouped "Utilities\n  evil: 1")
      (regroupSection .devDependencies .empty
        ["dependencies:", "  path: 1", "  dio:", "    git: x", ""]) =
      ["dependencies:", "  # Networking", "  dio:", "    git: x", "", "  # Utilities\n  evil: 1",
        "  path: 1", ""] := by
    decide
  have hregroup : regroup twoPackages (grouped "Utilities\n  evil: 1") .empty =
      "dependencies:\n  # Networking\n  dio:\n    git: x\n\n  # Utilities\n  evil: 1\n  path: 1\n" :=
    regroup_of_lines splitLines_twoPackages hlines rfl
  have hsplit : Text.splitLines (regroup twoPackages (grouped "Utilities\n  evil: 1") .empty) =
      ["dependencies:", "  # Networking", "  dio:", "    git: x", "", "  # Utilities", "  evil: 1",
        "  path: 1", ""] := by
    rw [hregroup]
    exact Text.splitLines_of_eq_ofList rfl rfl
  rw [hsplit, splitLines_twoPackages]
  refine ⟨by decide, by decide, "  evil: 1", ?_⟩
  decide

end Grouping
end PubspecTidy
