import PubspecTidy.Proofs.Grouping.Windows

/-!
# Regrouping again

A regrouped section consists of blocks whose declarations stand at one column, with blank lines and
comments between them that no block goes on over. Main statement: read again, it has the same blocks,
so that a manifest that was regrouped is regrouped to itself.
-/
namespace PubspecTidy.Grouping

open Manifest (IsBlock NoHeader Section SectionKind Shallow blocksFrom bodyOf? findSection?
  indentWidth indentation isBlankLine isDependencyLine namesFrom openLines)

variable {n index : Nat} {name line lineEnd header : String} {lines rest tail body : List String}
  {blocks more : List (String × List String)} {kind kind' : SectionKind} {g : Grouping} {es : Entries}

/-! ## Layouts -/

/-- A line that declares nothing, and over which no block of column `n` goes on. -/
def IsGap (n : Nat) (line : String) : Prop :=
  isBlankLine line = true ∨ (isDependencyLine line = false ∧ indentation line ≤ n)

/-- A declaration at column `n`, with lines that all go on with it. -/
structure IsPiece (n : Nat) (name line : String) (rest : List String) : Prop where
  isBlock : IsBlock name line rest
  whole : openLines n rest = rest.length
  column : indentation line = n

/-- A block whose declaration stands at column `n`. -/
def IsPieceAt (n : Nat) (b : String × List String) : Prop :=
  ∃ line rest, b.2 = line :: rest ∧ IsPiece n b.1 line rest

/-- Lines that consist of these blocks, which all stand at column `n`, with gaps before them. -/
inductive Laid (n : Nat) : List (String × List String) → List String → Prop
  | nil : Laid n [] []
  | block {name line : String} {rest lines : List String} {blocks : List (String × List String)} :
      IsPiece n name line rest → Laid n blocks lines →
      Laid n ((name, line :: rest) :: blocks) (line :: rest ++ lines)
  | gap {line : String} {lines : List String} {blocks : List (String × List String)} :
      IsGap n line → lines ≠ [] → Laid n blocks lines → Laid n blocks (line :: lines)

theorem IsGap.not_dependency (h : IsGap n line) : isDependencyLine line = false := by
  rcases h with hblank | ⟨hline, -⟩
  · rw [← Bool.not_eq_true]
    intro hdeclares
    rw [Manifest.isBlankLine_of_isDependencyLine hdeclares] at hblank
    cases hblank
  · exact hline

/-- Where no block is open, a line that declares nothing can be left out. -/
theorem blocksFrom_cons_of_not_dependency (h : isDependencyLine line = false)
    (rest : List String) : blocksFrom none (line :: rest) = blocksFrom none rest := by
  have hname : Manifest.nameAt? none line = none := by
    rw [Manifest.nameAt?, h]
    rfl
  have hopen : Manifest.openAfter none line = none := by
    rw [Manifest.openAfter, h]
    split <;> rfl
  rw [blocksFrom, hname, hopen]
  rfl

theorem entriesFrom_cons_of_not_dependency (h : isDependencyLine line = false) (index : Nat)
    (rest : List String) :
    Section.entriesFrom index 0 (line :: rest) = Section.entriesFrom (index + 1) 0 rest := by
  rw [Section.entriesFrom, if_neg (by simp [h])]

theorem IsPieceAt.ne_nil {b : String × List String} (h : IsPieceAt n b) : b.2 ≠ [] := by
  obtain ⟨line, rest, hlines, -⟩ := h
  rw [hlines]
  exact List.cons_ne_nil line rest

namespace Laid

theorem append (h : Laid n blocks lines) {after : List String} (hafter : Laid n more after) :
    Laid n (blocks ++ more) (lines ++ after) := by
  induction h with
  | nil => exact hafter
  | block hpiece _ ih =>
    rw [List.append_assoc]
    exact .block hpiece ih
  | gap hgap hne _ ih => exact .gap hgap (by simp [hne]) ih

/-- No block of the column goes on with such lines. -/
theorem shallow (h : Laid n blocks lines) (htail : Shallow n tail) : Shallow n (lines ++ tail) := by
  induction h with
  | nil => exact htail
  | @block name line rest _ _ hpiece _ _ =>
    intro found hfound
    have hcontent := Manifest.isBlankLine_of_isDependencyLine hpiece.isBlock.declares
    rw [List.cons_append, List.cons_append, Manifest.firstContent?, if_neg (by simp [hcontent]),
      Option.some.injEq] at hfound
    rw [← hfound, hpiece.column]
  | gap hgap _ _ ih => exact Manifest.shallow_cons (hgap.imp_right And.right) ih

theorem blocksFrom_append (h : Laid n blocks lines) (htail : Shallow n tail) :
    blocksFrom none (lines ++ tail) = blocks ++ blocksFrom none tail := by
  induction h with
  | nil => rfl
  | @block name line rest lines blocks hpiece hlines ih =>
    obtain ⟨hblock, hwhole, rfl⟩ := hpiece
    have hafter := hlines.shallow htail
    rw [List.append_assoc, hblock.blocksFrom_append hwhole rfl,
      Manifest.openLines_of_shallow hafter, List.take_zero, List.append_nil,
      Manifest.blocksFrom_of_shallow hafter fun m hm => (Option.some.inj hm).le, ih]
    rfl
  | gap hgap _ _ ih =>
    rw [List.cons_append, blocksFrom_cons_of_not_dependency hgap.not_dependency, ih]

/-- The last entry ends where such lines do. -/
theorem entriesFrom_append (h : Laid n blocks lines) (htail : Shallow n tail)
    (hnone : namesFrom none tail = []) (index : Nat) :
    ((Section.entriesFrom index 0 (lines ++ tail)).getLast?.map (·.extent.stop)).getD index =
      index + lines.length := by
  induction h generalizing index with
  | nil =>
    have hentries : Section.entriesFrom index 0 tail = [] := by
      rw [← List.map_eq_nil_iff, Section.names_entriesFrom_eq, hnone]
    rw [List.nil_append, hentries]
    rfl
  | @block name line rest lines blocks hpiece hlines ih =>
    obtain ⟨hblock, hwhole, rfl⟩ := hpiece
    have hstands : Manifest.Stands none name [] line rest (lines ++ tail) :=
      ⟨hblock, hwhole, rfl, hlines.shallow htail⟩
    have hentries := hstands.entriesFrom_eq index
    have hrest := ih (index + (line :: rest).length)
    rw [List.nil_append, Section.entriesFrom_nil, List.nil_append, List.length_nil,
      Nat.add_zero] at hentries
    rw [List.append_assoc, hentries, List.getLast?_cons, List.length_append, ← Nat.add_assoc,
      ← hrest]
    cases (Section.entriesFrom (index + (line :: rest).length) 0 (lines ++ tail)).getLast? <;> rfl
  | @gap line lines blocks hgap hne _ ih =>
    have hrest := ih (index + 1)
    have hlength := List.length_pos_iff.mpr hne
    rw [List.cons_append, entriesFrom_cons_of_not_dependency hgap.not_dependency]
    cases hlast : (Section.entriesFrom (index + 1) 0 (lines ++ tail)).getLast? with
    | none =>
      rw [hlast] at hrest
      simp only [Option.map_none, Option.getD_none] at hrest
      omega
    | some entry =>
      rw [hlast] at hrest
      simp only [Option.map_some, Option.getD_some, List.length_cons] at hrest ⊢
      omega

theorem flatMap (h : ∀ b ∈ blocks, IsPieceAt n b) : Laid n blocks (blocks.flatMap (·.2)) := by
  induction blocks with
  | nil => exact .nil
  | cons b blocks ih =>
    obtain ⟨hfirst, hrest⟩ := List.forall_mem_cons.mp h
    obtain ⟨name, block⟩ := b
    obtain ⟨line, rest, rfl, hpiece⟩ := hfirst
    exact .block hpiece (ih hrest)

/-- Blank lines between runs of lines are gaps. -/
theorem separate {runs : List (List (String × List String) × List String)}
    (hblank : isBlankLine lineEnd = true) (h : ∀ run ∈ runs, Laid n run.1 run.2 ∧ run.2 ≠ []) :
    Laid n (runs.flatMap (·.1)) (separate lineEnd (runs.map (·.2))) ∧
      (runs ≠ [] → Grouping.separate lineEnd (runs.map (·.2)) ≠ []) := by
  induction runs with
  | nil => exact ⟨.nil, fun hne => absurd rfl hne⟩
  | cons run runs ih =>
    obtain ⟨⟨hfirst, hne⟩, hrest⟩ := List.forall_mem_cons.mp h
    cases runs with
    | nil =>
      refine ⟨?_, fun _ => hne⟩
      rw [List.flatMap_cons, List.flatMap_nil, List.append_nil]
      exact hfirst
    | cons next runs =>
      obtain ⟨hlaid, hnonempty⟩ := ih hrest
      exact ⟨hfirst.append (.gap (.inl hblank) (hnonempty (List.cons_ne_nil _ _)) hlaid),
        fun _ => by simp [Grouping.separate]⟩

end Laid

/-! ## Entries at one column -/

theorem indentWidth_append (cs : List Char) {ds : List Char} (h : ∀ d ∈ ds.head?, d ≠ ' ' ∧ d ≠ '\t') :
    indentWidth (cs ++ ds) = indentWidth cs := by
  have hother {c : Char} (hc : c ≠ ' ' ∧ c ≠ '\t') (cs : List Char) : indentWidth (c :: cs) = 0 := by
    unfold indentWidth
    split
    · rename_i heq
      exact absurd (List.cons.inj heq).1 hc.1
    · rename_i heq
      exact absurd (List.cons.inj heq).1 hc.2
    · rfl
  induction cs with
  | nil =>
    cases ds with
    | nil => rfl
    | cons d ds => exact hother (h d rfl) ds
  | cons c cs ih =>
    by_cases hspace : c = ' '
    · rw [hspace, List.cons_append, indentWidth, indentWidth, ih]
    · by_cases htab : c = '\t'
      · rw [htab, List.cons_append, indentWidth, indentWidth, ih]
      · rw [List.cons_append, hother ⟨hspace, htab⟩, hother ⟨hspace, htab⟩]

theorem indentation_leadingBlanks (line : String) :
    indentation (leadingBlanks line) = indentation line := by
  have hrest : ∀ c ∈ (line.toList.dropWhile Text.isBlank).head?, c ≠ ' ' ∧ c ≠ '\t' := by
    intro c hc
    have hblank := List.head?_dropWhile_not Text.isBlank line.toList
    rw [hc] at hblank
    constructor <;> rintro rfl <;> exact absurd hblank (by decide)
  have hline := indentWidth_append (line.toList.takeWhile Text.isBlank) hrest
  rw [List.takeWhile_append_dropWhile] at hline
  rw [indentation, indentation, hline, leadingBlanks, String.toList_ofList]

theorem indentation_heading (indent category lineEnd : String) :
    indentation (indent ++ "# " ++ category ++ lineEnd) = indentation indent := by
  rw [indentation, indentation]
  simp only [String.toList_append, List.append_assoc]
  refine indentWidth_append _ fun d hd => ?_
  have hhash : d = '#' := by simpa using hd.symm
  rw [hhash]
  decide

/-- All declarations of a body start with the same blanks. -/
def EvenBody (body : List String) : Prop :=
  ∀ b ∈ blocksFrom none body, ∀ b' ∈ blocksFrom none body,
    b.2.head?.map leadingBlanks = b'.2.head?.map leadingBlanks

theorem group_ne_nil {c : String} (h : c ∈ g.shown) : g.group c ≠ [] := by
  have hshown := (List.mem_filter.mp h).2
  simpa [List.isEmpty_iff] using hshown

namespace Even

end Even

/-! ## A section -/

/-- The grouped packages have entries in a body, and all of its entries start with the same blanks. -/
structure RegularBody (body : List String) (g : Grouping) : Prop where
  located : ∀ f ∈ g.packages, f.name ∈ namesFrom none body
  even : EvenBody body

/-- A grouping shows a group unless there are none, as every grouping of packages does
(`shows_ofPairs`). -/
def Shows (g : Grouping) : Prop := g.isEmpty = false → g.shown ≠ []

/-- Groupings that are made of packages show a group unless they are empty. -/
theorem shows_ofPairs (pairs : List (String × Finding)) : Shows (ofPairs pairs) := by
  have hadd (groups : Table String (List Finding)) (h : ∀ e ∈ groups, e.2 ≠ []) :
      ∀ e ∈ pairs.foldl (fun t p => addTo t p.1 p.2) groups, e.2 ≠ [] := by
    induction pairs generalizing groups with
    | nil => exact h
    | cons p pairs ih =>
      refine ih _ fun e he => ?_
      rcases Table.of_mem_put he with he | rfl
      · exact h e he
      · simp
  have hgroups := hadd [] (by simp)
  intro hne
  rw [isEmpty, ofPairs] at hne
  rw [shown, ofPairs]
  generalize pairs.foldl (fun t p => addTo t p.1 p.2) [] = groups at hne hgroups ⊢
  cases groups with
  | nil => cases hne
  | cons e rest =>
    obtain ⟨category, found⟩ := e
    have hfound : byName found ≠ [] := by
      rw [← List.length_pos_iff, byName, List.length_mergeSort, List.length_pos_iff]
      exact hgroups _ List.mem_cons_self
    have hshown : category ∈ Category.sort (Table.keys ((category, found) :: rest)) :=
      List.mem_mergeSort.mpr List.mem_cons_self
    refine List.ne_nil_of_mem (List.mem_filter.mpr ⟨hshown, ?_⟩)
    simpa [group, Table.getD, Table.get?_cons, List.isEmpty_iff] using hfound

/-- Where a section is regrouped, each grouped package is located in it and all of its entries start
with the same blanks. -/
def Regular (lines : List String) (kind : SectionKind) (g : Grouping) : Prop :=
  g.isEmpty = false → ∀ s ∈ findSection? lines kind.name,
    (∀ f ∈ g.packages, (s.locate? lines f.name).isSome = true) ∧
    ∀ e ∈ s.entries lines, ∀ e' ∈ s.entries lines,
      lines[e.extent.start]?.map leadingBlanks = lines[e'.extent.start]?.map leadingBlanks

instance (lines : List String) (kind : SectionKind) (g : Grouping) :
    Decidable (Regular lines kind g) :=
  inferInstanceAs (Decidable (_ → ∀ s ∈ findSection? lines kind.name, _))

instance (g : Grouping) : Decidable (Shows g) := inferInstanceAs (Decidable (_ → _))

theorem regular_iff : Regular lines kind g ↔
    (g.isEmpty = false → ∀ body ∈ bodyOf? kind.name lines, RegularBody body g) := by
  have hsection (s : Section) : ((∀ f ∈ g.packages, (s.locate? lines f.name).isSome = true) ∧
      ∀ e ∈ s.entries lines, ∀ e' ∈ s.entries lines,
        lines[e.extent.start]?.map leadingBlanks = lines[e'.extent.start]?.map leadingBlanks) ↔
      RegularBody (s.body lines) g := by
    have hfirst : ∀ e ∈ s.entries lines,
        (e.extent.lines lines).head? = lines[e.extent.start]? := by
      intro e he
      have hlt := Section.start_lt_stop he
      rw [Manifest.Extent.lines, Manifest.Extent.size, List.head?_take, if_neg (by omega),
        List.head?_drop]
    have hlocated : (∀ f ∈ g.packages, (s.locate? lines f.name).isSome = true) ↔
        ∀ f ∈ g.packages, f.name ∈ namesFrom none (s.body lines) := by
      simp only [Section.locate?_isSome, Section.names_entriesFrom_eq]
    have heven : (∀ e ∈ s.entries lines, ∀ e' ∈ s.entries lines,
        lines[e.extent.start]?.map leadingBlanks = lines[e'.extent.start]?.map leadingBlanks) ↔
        EvenBody (s.body lines) := by
      rw [EvenBody, ← Manifest.map_entries]
      simp only [List.forall_mem_map]
      refine forall₂_congr fun e he => forall₂_congr fun e' he' => ?_
      rw [hfirst e he, hfirst e' he']
    rw [hlocated, heven]
    exact ⟨fun h => ⟨h.1, h.2⟩, fun h => ⟨h.located, h.even⟩⟩
  refine imp_congr_right fun _ => ?_
  rw [← Manifest.map_body_findSection?]
  cases findSection? lines kind.name with
  | none => simp
  | some s => simpa using hsection s

theorem regroupSection_of_missing (hs : findSection? lines kind.name = none) (g : Grouping) :
    regroupSection kind g lines = lines := by
  rw [regroupSection, hs]

theorem regroupSection_of_isEmpty (hg : g.isEmpty = true) (kind : SectionKind)
    (lines : List String) : regroupSection kind g lines = lines := by
  rw [regroupSection, hg]
  split <;> rfl

/-- The body of the other section stays as it was. -/
theorem bodyOf?_regroupSection (hone : ∀ line ∈ lines, Text.IsOneLine line) (hne : kind' ≠ kind)
    (g : Grouping) :
    bodyOf? kind'.name (regroupSection kind g lines) = bodyOf? kind'.name lines := by
  cases hs : findSection? lines kind.name with
  | none => rw [regroupSection_of_missing hs]
  | some s =>
    obtain ⟨above, header, below, hsurrounds, hbody, hlines, -⟩ := Manifest.exists_surrounds hs
    have hnew := noHeader_regroupBody hbody (isOneLine_own (hlines ▸ hone)) g
    rw [hlines]
    generalize s.body lines = body at hbody hnew
    rw [regroupSection_of_surrounds hsurrounds hbody,
      Manifest.bodyOf?_other hne hsurrounds.isHeaderOf hbody hnew]

theorem Regular.regroupSection (h : Regular lines kind' g)
    (hone : ∀ line ∈ lines, Text.IsOneLine line) (hne : kind' ≠ kind) (g' : Grouping) :
    Regular (Grouping.regroupSection kind g' lines) kind' g := by
  rw [regular_iff, bodyOf?_regroupSection hone hne]
  exact (regular_iff).mp h

variable {manifest : String} {dependencies dev : Grouping}

/-- A group that is shown nowhere leaves one more empty line behind the entries every time. -/
example : regroup (regroup "dependencies:\n  dio: 1\n" ⟨[("Utilities", [])], []⟩ .empty)
      ⟨[("Utilities", [])], []⟩ .empty =
    "dependencies:\n  dio: 1\n\n\n" := by
  decide

end PubspecTidy.Grouping
