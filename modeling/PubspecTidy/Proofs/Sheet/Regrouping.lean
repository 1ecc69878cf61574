import PubspecTidy.Proofs.Analysis.Planning
import PubspecTidy.Proofs.Sheet.Groups
import PubspecTidy.Proofs.Sheet.Meaning

/-!
# What regrouping does to the meaning of a sheet

Regrouping a section changes the order of its blocks and the lines between them. Main statement: on a
sheet whose parts can be read on their own, this keeps the meaning. The regrouped manifest can be
read, each section holds the same entries as before, and outside of the sections nothing has changed.
-/
namespace PubspecTidy.Grouping

open Manifest (Block Declarations HoldsOutside HoldsUnder IsLegible Part SectionKind Sound Stretch
  blocksOf declaredOf exists_sheet_manifestWithTest isDependencyLine isSilent load manifestWithTest
  othersOf readDeclarations sectionOf sectionReadings?)
open Category (Resolver)
open Time (Stamp)
open Yaml (Document Reading)

variable {n : Nat} {line header indent : String} {kind : SectionKind} {g : Grouping} {b : Block}
  {bs : List Block} {parts : List Part} {above below sheet sheet' : List Stretch}

/-! ## A section -/

/-- A category that a comment can hold as it is. -/
def IsHeading (category : String) : Prop := ∀ c ∈ category.toList,
  Yaml.isPermitted c = true ∧ c ≠ Yaml.byteOrderMark ∧ Yaml.isBreak c = false

/-- Decided from the characters of the category, not from all characters. -/
instance (category : String) : Decidable (IsHeading category) :=
  decidable_of_iff ((category.toList.all fun c => decide
      (Yaml.isPermitted c = true ∧ c ≠ Yaml.byteOrderMark ∧ Yaml.isBreak c = false)) = true)
    (by unfold IsHeading; simp)

/-- A line that starts with no blanks but spaces. -/
def StartsWithSpaces (line : String) : Prop := ∀ c ∈ (leadingBlanks line).toList, c = ' '

instance (line : String) : Decidable (StartsWithSpaces line) :=
  decidable_of_iff (((leadingBlanks line).toList.all (· == ' ')) = true)
    (by unfold StartsWithSpaces; simp)

theorem isSilent_heading (hindent : ∀ c ∈ indent.toList, c = ' ') {c : String}
    (hc : IsHeading c) : isSilent (indent ++ "# " ++ c) = true := by
  have hrest : ∀ x ∈ ' ' :: c.toList, Yaml.isBreak x = false := by
    rw [List.forall_mem_cons]
    exact ⟨by decide, fun x hx => (hc x hx).2.2⟩
  have hline : (indent ++ "# " ++ c).toList.dropWhile (· = ' ') = '#' :: ' ' :: c.toList := by
    rw [String.toList_append, String.toList_append, List.append_assoc,
      List.dropWhile_append_of_pos fun x hx => decide_eq_true (hindent x hx)]
    rfl
  rw [isSilent, hline]
  simpa using hrest

theorem isLegible_heading (hindent : ∀ c ∈ indent.toList, c = ' ') {c : String}
    (hc : IsHeading c) : IsLegible (indent ++ "# " ++ c) := by
  intro x hx
  rw [String.toList_append, String.toList_append, List.mem_append, List.mem_append] at hx
  rcases hx with (hx | hx) | hx
  · rw [hindent x hx]
    decide
  · have hmark : x = '#' ∨ x = ' ' := by simpa using hx
    rcases hmark with rfl | rfl <;> decide
  · obtain ⟨hpermitted, hmark, hbreak⟩ := hc x hx
    refine ⟨hpermitted, hmark, ?_, ?_⟩ <;>
      · rintro rfl
        exact absurd hbreak (by decide)

/-- The indent of a section with blocks is that of one of them. -/
theorem exists_indent (hne : bs ≠ []) (hfits : ∀ b ∈ bs, b.Fits n) :
    ∃ b ∈ bs, indentOf (bs.map Block.lines) = leadingBlanks b.first := by
  cases bs with
  | nil => exact absurd rfl hne
  | cons b bs =>
    refine ⟨b, List.mem_cons_self, ?_⟩
    change (if (leadingBlanks b.first).isEmpty then usualIndent else leadingBlanks b.first) = _
    refine if_neg fun hempty => ?_
    have hstarts := startsBlank_leadingBlanks (hfits b List.mem_cons_self).declares
    rw [String.isEmpty_iff.mp hempty] at hstarts
    cases hstarts

/-- The parts that come in place of the blocks of a section can stand there. -/
theorem Places.fits_writtenParts (h : g.Places bs) (hnodup : (bs.map Block.name).Nodup)
    (hfits : ∀ b ∈ bs, b.Fits n) (hlegible : ∀ b ∈ bs, ∀ line ∈ b.lines, IsLegible line)
    (hspaces : ∀ b ∈ bs, StartsWithSpaces b.first) (hheadings : ∀ c ∈ g.shown, IsHeading c) :
    ∀ part ∈ writtenParts bs g, part.Fits n ∧ ∀ line ∈ part.lines, IsLegible line := by
  intro part hpart
  rcases mem_writtenParts hpart with rfl | ⟨c, hc, rfl⟩ | ⟨b, hb, rfl⟩
  · refine ⟨⟨by decide, .inl (by decide)⟩, fun line hline => ?_⟩
    rw [List.mem_singleton.mp hline]
    decide
  · -- a group that is shown has a package, and this one has a block
    have hne : bs ≠ [] := by
      obtain ⟨f, hf⟩ := List.exists_mem_of_ne_nil _ (group_ne_nil hc)
      obtain ⟨b, hb, -⟩ := h.found f (mem_packages hf)
      exact List.ne_nil_of_mem hb
    obtain ⟨b, hb, hindent⟩ := exists_indent hne hfits
    have hcolumn := indentation_heading (leadingBlanks b.first) c ""
    rw [String.append_empty, indentation_leadingBlanks, (hfits b hb).column] at hcolumn
    rw [hindent]
    refine ⟨⟨isSilent_heading (hspaces b hb) (hheadings c hc), .inr hcolumn.le⟩,
      fun line hline => ?_⟩
    rw [List.mem_singleton.mp hline]
    exact isLegible_heading (hspaces b hb) (hheadings c hc)
  · have hb := (h.perm_blocks hnodup).mem_iff.mp hb
    exact ⟨hfits b hb, hlegible b hb⟩

/-- A sheet with the blocks of its sections in other orders. -/
structure Reordered (n : Nat) (sheet sheet' : List Stretch) : Prop where
  sound : Sound n sheet'
  others : othersOf sheet' = othersOf sheet
  blocks : ∀ k, (blocksOf sheet' k).Perm (blocksOf sheet k)
  readings : ∀ k, Option.Rel List.Perm (sectionReadings? sheet' k) (sectionReadings? sheet k)

theorem sectionReadings?_split (above below : List Stretch) (kind k : SectionKind) (header : String)
    (parts : List Part) : sectionReadings? (above ++ .listed kind header parts :: below) k =
      ((sectionReadings? above k).or
        (if kind = k then some ((Part.blocks parts).map Block.reading) else none)).or
          (sectionReadings? below k) := by
  unfold sectionReadings?
  rw [List.findSome?_append, List.findSome?_cons, Option.or_assoc]
  refine congrArg (Option.or _) ?_
  dsimp only
  by_cases hk : kind = k
  · rw [if_pos hk]
    rfl
  · rw [if_neg hk]
    rfl

theorem endsWith_return_of_isLegible (h : IsLegible line) : Text.endsWith line "\r" = false := by
  rw [← Bool.not_eq_true, Text.endsWith, List.isSuffixOf_iff_suffix]
  exact fun hends => (h '\r' (hends.subset (by decide))).2.2.2 rfl

/-- In the lines of a sheet, the parts of a section up to its last block are written anew. -/
theorem exists_written (h : Sound n (above ++ .listed kind header parts :: below))
    (habove : ∀ st ∈ above, st.kind? ≠ some kind) (hg : g.isEmpty = false)
    (hfound : ∀ c ∈ g.shown, Found (Part.blocks parts) (g.group c)) :
    ∃ before after, parts = before ++ after ∧ Part.blocks after = [] ∧
      regroupSection kind g
          (Stretch.linesOf (above ++ .listed kind header parts :: below) ++ [""]) =
        Stretch.linesOf (above ++ .listed kind header
          (writtenParts (Part.blocks parts) g ++ after) :: below) ++ [""] := by
  obtain ⟨before, after, hparts, hafter, hstop⟩ :=
    Part.exists_stop ((Stretch.linesOf above).length + 1) parts
  refine ⟨before, after, hparts, hafter, ?_⟩
  have hsplit := Manifest.linesOf_split above below kind header parts
  have hbody := linesOf_writtenParts hfound
  have hheader : Text.endsWith header "\r" = false :=
    endsWith_return_of_isLegible (h.legible header (List.mem_flatMap.mpr
      ⟨.listed kind header parts, by simp, List.mem_cons_self⟩))
  have htake : (Stretch.linesOf (above ++ .listed kind header parts :: below) ++ [""]).take
      ((sectionOf above below parts).header + 1) = Stretch.linesOf above ++ [header] := by
    rw [hsplit, sectionOf, List.take_length_add_append, List.take_succ_cons, List.take_zero]
  have hdrop : (Stretch.linesOf (above ++ .listed kind header parts :: below) ++ [""]).drop
      ((sectionOf above below parts).entriesEnd
        (Stretch.linesOf (above ++ .listed kind header parts :: below) ++ [""])) =
        Part.linesOf after ++ (Stretch.linesOf below ++ [""]) := by
    have hend : (sectionOf above below parts).entriesEnd
        (Stretch.linesOf (above ++ .listed kind header parts :: below) ++ [""]) =
          (Manifest.linesBefore above header before).length := by
      rw [Manifest.Section.entriesEnd, Manifest.entries_sectionOf h.fits,
        Manifest.length_linesBefore]
      exact hstop
    rw [hend, hparts, Manifest.linesOf_cut, List.drop_left]
  have hreturn : (if Text.endsWith ((Stretch.linesOf (above ++ .listed kind header parts :: below) ++
      [""])[(sectionOf above below parts).header]?.getD "") "\r" then "\r" else "") = "" := by
    rw [hsplit, sectionOf, List.getElem?_append_right (Nat.le_refl _), Nat.sub_self,
      List.getElem?_cons_zero, Option.getD_some, hheader]
    rfl
  rw [regroupSection_eq (Manifest.findSection?_sheet h.fits habove) hg, htake, hdrop,
    sectionBody_eq_written, hreturn, entriesOf_sheet h.fits h.sound_blocks.2, ← hbody,
    Manifest.linesOf_split, Part.linesOf_append]
  simp only [List.append_assoc, List.cons_append, List.nil_append]

theorem Reordered.refl (h : Sound n sheet) : Reordered n sheet sheet where
  sound := h
  others := rfl
  blocks _ := List.Perm.refl _
  readings k := by
    cases sectionReadings? sheet k with
    | none => exact .none
    | some rs => exact .some (List.Perm.refl rs)

theorem Reordered.trans {sheet'' : List Stretch} (h : Reordered n sheet sheet')
    (h' : Reordered n sheet' sheet'') : Reordered n sheet sheet'' where
  sound := h'.sound
  others := h'.others.trans h.others
  blocks k := (h'.blocks k).trans (h.blocks k)
  readings k := by
    have hlast := h'.readings k
    have hfirst := h.readings k
    generalize sectionReadings? sheet k = rs at hfirst
    generalize sectionReadings? sheet' k = rs' at hfirst hlast
    generalize sectionReadings? sheet'' k = rs'' at hlast
    cases hfirst with
    | none => exact hlast
    | some hperm =>
      cases hlast with
      | some hperm' => exact .some (hperm'.trans hperm)

/-- The blocks of a section in another order, with other lines between them. -/
theorem reordered_of_perm (h : Sound n (above ++ .listed kind header parts :: below))
    {parts' : List Part} (hperm : (Part.blocks parts').Perm (Part.blocks parts))
    (hparts : ∀ part ∈ parts', part.Fits n ∧ ∀ line ∈ part.lines, IsLegible line) :
    Reordered n (above ++ .listed kind header parts :: below)
      (above ++ .listed kind header parts' :: below) where
  sound := by
    obtain ⟨hblocks, hnames⟩ := h.sound_blocks
    have hanchors := h.anchors
    rw [Manifest.readingsOf_split] at hanchors
    refine h.replace (fun part hpart => (hparts part hpart).1)
      (fun b hb => hblocks b (hperm.mem_iff.mp hb)) ((hperm.map _).nodup_iff.mpr hnames)
      (fun line hline => ?_) ?_
    · obtain ⟨part, hpart, hline⟩ := List.mem_flatMap.mp hline
      exact (hparts part hpart).2 line hline
    · rw [Manifest.readingsOf_split]
      exact ((((hperm.map _).append_right _).append_left _).pairwise_iff
        Manifest.anchorsDiffer_symm).mpr hanchors
  others := by rw [Manifest.othersOf_split, Manifest.othersOf_split]
  blocks k := by
    rw [Manifest.blocksOf_split, Manifest.blocksOf_split]
    refine List.Perm.append_left _ (List.Perm.append_right _ ?_)
    split
    · exact hperm
    · exact List.Perm.refl _
  readings k := by
    rw [sectionReadings?_split, sectionReadings?_split]
    cases sectionReadings? above k with
    | some rs => exact .some (List.Perm.refl rs)
    | none =>
      by_cases hk : kind = k
      · rw [if_pos hk, if_pos hk]
        exact .some (hperm.map _)
      · rw [if_neg hk, if_neg hk]
        cases sectionReadings? below k with
        | none => exact .none
        | some rs => exact .some (List.Perm.refl rs)

/-- Regrouping a section of a sheet changes the order of its blocks. -/
theorem exists_reordered (h : Sound n sheet) (hplaces : g.Places (blocksOf sheet kind))
    (hspaces : ∀ b ∈ blocksOf sheet kind, StartsWithSpaces b.first)
    (hheadings : ∀ c ∈ g.shown, IsHeading c) :
    ∃ sheet', regroupSection kind g (Stretch.linesOf sheet ++ [""]) =
      Stretch.linesOf sheet' ++ [""] ∧ Reordered n sheet sheet' := by
  by_cases hkind : ∃ st ∈ sheet, st.kind? = some kind
  · cases hg : g.isEmpty with
    | true => exact ⟨sheet, regroupSection_of_isEmpty hg _ _, .refl h⟩
    | false =>
      obtain ⟨above, header, parts, below, rfl, habove⟩ := Stretch.exists_first hkind
      rw [h.blocksOf_eq] at hplaces hspaces
      obtain ⟨hblocks, hnames⟩ := h.sound_blocks
      obtain ⟨before, after, hparts, hafter, hwritten⟩ := exists_written h habove hg
        fun c _ f hf => hplaces.found f (mem_packages hf)
      refine ⟨_, hwritten, reordered_of_perm h ?_ ?_⟩
      · rw [Part.blocks_append, hafter, List.append_nil]
        exact hplaces.perm_blocks hnames
      · have hlegible {part : Part} (hpart : part ∈ parts) : ∀ line ∈ part.lines, IsLegible line :=
          fun line hline => h.legible_parts line (List.mem_flatMap.mpr ⟨part, hpart, hline⟩)
        rw [List.forall_mem_append]
        refine ⟨hplaces.fits_writtenParts hnames (fun b hb => (hblocks b hb).toFits) (fun b hb => ?_)
          hspaces hheadings, fun part hpart => ?_⟩
        · exact hlegible (Part.mem_of_mem_blocks hb)
        · have hmem : part ∈ parts := by
            rw [hparts]
            exact List.mem_append_right _ hpart
          exact ⟨h.fits_parts part hmem, hlegible hmem⟩
  · have hnone : ∀ st ∈ sheet, st.kind? ≠ some kind := fun st hst hk => hkind ⟨st, hst, hk⟩
    exact ⟨sheet, regroupSection_of_missing (Manifest.findSection?_none h.fits hnone) g, .refl h⟩

/-! ## A manifest -/

/-- A document says what a sheet does: it has the entries of the blocks of a section in some order
under the name of the section, and outside of the sections the entries of the other stretches. -/
structure HoldsSheet (sheet : List Stretch) (s : Reading) : Prop where
  outside : HoldsOutside (othersOf sheet) s
  under : ∀ kind : SectionKind, ∃ found, Option.Rel List.Perm found (sectionReadings? sheet kind) ∧
    Option.Rel (HoldsUnder s) found (Document.field? s.top kind.name)

/-- A sheet with its blocks in other orders can be read as well, and says the same. -/
theorem Reordered.exists_document (h : Reordered n sheet sheet') : ∃ s ds,
    load (Text.joinLines (Stretch.linesOf sheet' ++ [""])) = .ok (s.document, s.top) ∧
      HoldsSheet sheet s ∧
      readDeclarations (Text.joinLines (Stretch.linesOf sheet' ++ [""])) = .ok ds ∧
      ∀ kind, (ds.declared kind).Perm (declaredOf sheet kind) := by
  obtain ⟨s, ds, hload, houtside, hunder, hds, hdeclared⟩ := h.sound.exists_document
  rw [h.others] at houtside
  refine ⟨s, ds, hload, ⟨houtside, fun kind => ⟨_, h.readings kind, hunder kind⟩⟩, hds,
    fun kind => ?_⟩
  rw [hdeclared]
  exact (h.blocks kind).map _

section Grouped

variable {r : Resolver} {overrides : Table String String} {now : Stamp} {st : Resolver.State}
  {usages : Usage.Usages} {sdk : String} {ds : Declarations}

/-- The packages of a section that are looked at have blocks there. -/
theorem places_of (h : Sound n sheet) (hlabels : ds.Labelled)
    (hdeclared : ds.declared = declaredOf sheet)
    (hg : (of r overrides now st ((Analysis.ofDeclarations ds usages sdk).ofKind kind)).1 = .ok g) :
    g.Places (blocksOf sheet kind) := by
  have hnodup := h.nodup_blocksOf kind
  have hfindings : ((Analysis.ofDeclarations ds usages sdk).ofKind kind).map Finding.name =
      ((ds.ofKind kind).filter (·.name != sdk)).map (·.name) := by
    rw [Analysis.ofKind, Analysis.filter_findings hlabels, List.map_map]
    rfl
  have hnames : (ds.ofKind kind).map (·.name) = (blocksOf sheet kind).map Block.name := by
    have hkind := congrArg (List.map Prod.fst) (congrFun hdeclared kind)
    rwa [declaredOf, Declarations.declared, List.map_map, List.map_map] at hkind
  have hdistinct : (((Analysis.ofDeclarations ds usages sdk).ofKind kind).map Finding.name).Nodup := by
    rw [hfindings]
    exact (hnames ▸ hnodup).sublist (List.filter_sublist.map _)
  obtain ⟨category, hpartitions⟩ := exists_partitions hdistinct hg
  refine hpartitions.places hdistinct fun f hf => ?_
  have hname := List.mem_map_of_mem (f := Finding.name) hf
  rw [hfindings] at hname
  obtain ⟨d, hd, hname⟩ := List.mem_map.mp hname
  have hmem : d.name ∈ (blocksOf sheet kind).map Block.name := by
    rw [← hnames]
    exact List.mem_map_of_mem (List.mem_of_mem_filter hd)
  rw [hname] at hmem
  exact List.mem_map.mp hmem

/-- Regrouping keeps the meaning of a manifest, if the manifest is a sheet whose parts can be read on
their own, the declarations in it start with spaces, and a comment can hold the categories. -/
theorem regroup_sheet (h : Sound n sheet) {text : String}
    (htext : text = Text.joinLines (Stretch.linesOf sheet ++ [""]))
    (hspaces : ∀ line ∈ Text.splitLines text, isDependencyLine line = true → StartsWithSpaces line)
    (hds : readDeclarations text = .ok ds) {dependencies dev : Grouping} {st' : Resolver.State}
    (hdependencies : (of r overrides now st
      ((Analysis.ofDeclarations ds usages sdk).ofKind .dependencies)).1 = .ok dependencies)
    (hdev : (of r overrides now st'
      ((Analysis.ofDeclarations ds usages sdk).ofKind .devDependencies)).1 = .ok dev)
    (hheadings : ∀ c ∈ dependencies.shown ++ dev.shown, IsHeading c) :
    ∃ s s' ds', load text = .ok (s.document, s.top) ∧
      load (regroup text dependencies dev) = .ok (s'.document, s'.top) ∧
      HoldsSheet sheet s ∧ HoldsSheet sheet s' ∧
      readDeclarations (regroup text dependencies dev) = .ok ds' ∧
      ∀ kind, (ds'.declared kind).Perm (ds.declared kind) := by
  subst htext
  obtain ⟨-, found, -, -, -, hfound, hdeclared⟩ := h.exists_document
  obtain rfl : found = ds := Except.ok.inj (hfound.symm.trans hds)
  obtain ⟨s, -, hload, hholds, -, -⟩ := (Reordered.refl h).exists_document
  have hlabels := Manifest.labelled_readDeclarations hds
  have hlines := Manifest.splitLines_sheet h
  rw [hlines] at hspaces
  rw [List.forall_mem_append] at hheadings
  have hblocks (kind : SectionKind) : ∀ b ∈ blocksOf sheet kind, StartsWithSpaces b.first := by
    intro b hb
    obtain ⟨header, parts, hst, hpart⟩ := Manifest.exists_of_mem_blocksOf hb
    have hfits : b.Fits n := (h.fits _ hst).2 _ hpart
    refine hspaces b.first (List.mem_append_left _ (List.mem_flatMap.mpr ⟨_, hst, ?_⟩)) hfits.declares
    exact List.mem_cons_of_mem _ (List.mem_flatMap.mpr ⟨_, hpart, List.mem_cons_self⟩)
  -- the development dependencies are regrouped first
  obtain ⟨first, hfirst, hfirstSame⟩ := exists_reordered h (places_of h hlabels hdeclared hdev)
    (hblocks .devDependencies) hheadings.2
  have hperm := hfirstSame.blocks .dependencies
  obtain ⟨last, hlast, hlastSame⟩ := exists_reordered hfirstSame.sound
    ((places_of h hlabels hdeclared hdependencies).of_perm hperm)
    (fun b hb => hblocks .dependencies b (hperm.mem_iff.mp hb)) hheadings.1
  obtain ⟨s', ds', hload', hholds', hds', hdeclared'⟩ :=
    (hfirstSame.trans hlastSame).exists_document
  have hregroup : regroup (Text.joinLines (Stretch.linesOf sheet ++ [""])) dependencies dev =
      Text.joinLines (Stretch.linesOf last ++ [""]) := by
    rw [regroup, hlines, hfirst, hlast]
  rw [hregroup, hdeclared]
  exact ⟨s, s', ds', hload, hload', hholds, hholds', hds', hdeclared'⟩

end Grouped

/-! ### Two groups -/

/-- What the manifest `manifestWithTest` declares. -/
def withTest : Declarations where
  dependencies :=
    [⟨"http", .plain (some "1"), .dependencies⟩, ⟨"test", .plain (some "any"), .dependencies⟩]
  devDependencies := []

def unusedPackage (name version : String) : Finding := ⟨name, version, .dependencies, .unused, {}⟩

/-- A group that is found and one that is set, which come in another order than their packages. -/
def webAndTesting : Grouping where
  groups := [("Web", [unusedPackage "http" "1"]), ("Testing", [unusedPackage "test" "any"])]
  order := ["Testing", "Web"]

theorem ofPairs_webAndTesting :
    ofPairs [("Web", unusedPackage "http" "1"), ("Testing", unusedPackage "test" "any")] =
      webAndTesting := by
  have horder : Category.sort ["Web", "Testing"] = ["Testing", "Web"] :=
    (Category.sort_eq_of_perm (List.Perm.swap _ _ _)).trans
      (List.mergeSort_of_pairwise (by decide))
  have hbuckets : [("Web", unusedPackage "http" "1"), ("Testing", unusedPackage "test" "any")].foldl
      (fun t p => addTo t p.1 p.2) [] = webAndTesting.groups := by
    decide
  unfold ofPairs
  rw [hbuckets]
  dsimp only [webAndTesting, Table.keys, List.map, byName]
  rw [List.mergeSort_singleton, List.mergeSort_singleton, horder]

theorem ofPairs_nil : ofPairs [] = .empty := by
  unfold ofPairs Category.sort
  exact congrArg (Grouping.mk []) List.mergeSort_nil

theorem regroup_sheet_two_groups : ∃ sheet, Sound 2 sheet ∧
    manifestWithTest = Text.joinLines (Stretch.linesOf sheet ++ [""]) ∧
    (∀ line ∈ Text.splitLines manifestWithTest, isDependencyLine line = true →
      StartsWithSpaces line) ∧
    (∀ c ∈ webAndTesting.shown ++ Grouping.empty.shown, IsHeading c) ∧
    regroup manifestWithTest webAndTesting .empty =
      "name: app\ndependencies:\n  # Testing\n  test: any\n\n  # Web\n  http: 1\n" ∧
    ∃ s s' ds', load manifestWithTest = .ok (s.document, s.top) ∧
      load (regroup manifestWithTest webAndTesting .empty) = .ok (s'.document, s'.top) ∧
      HoldsSheet sheet s ∧ HoldsSheet sheet s' ∧
      readDeclarations (regroup manifestWithTest webAndTesting .empty) = .ok ds' ∧
      ∀ kind, (ds'.declared kind).Perm (withTest.declared kind) := by
  obtain ⟨sheet, hsound, htext⟩ := exists_sheet_manifestWithTest
  have hspaces : ∀ line ∈ Text.splitLines manifestWithTest, isDependencyLine line = true →
      StartsWithSpaces line := by
    rw [Manifest.splitLines_manifestWithTest]
    decide
  have hds : readDeclarations manifestWithTest = .ok withTest :=
    Manifest.readDeclarations_manifestWithTest
  have hdependencies : (of {} [("http", "Web")] midday knowing
      ((Analysis.ofDeclarations withTest [] "flutter").ofKind .dependencies)).1 =
        .ok webAndTesting := by
    have hfindings : (Analysis.ofDeclarations withTest [] "flutter").ofKind .dependencies =
        [unusedPackage "http" "1", unusedPackage "test" "any"] := by
      decide
    have htest : localCategory [("http", "Web")] knowing.cache midday "test" = "Testing" := by
      decide
    rw [hfindings, of_offline rfl, groupedBy, ← ofPairs_webAndTesting, ← htest]
    rfl
  have hdev : (of {} [("http", "Web")] midday knowing
      ((Analysis.ofDeclarations withTest [] "flutter").ofKind .devDependencies)).1 =
        .ok .empty := by
    rw [of_offline rfl, ← ofPairs_nil]
    rfl
  have hheadings : ∀ c ∈ webAndTesting.shown ++ Grouping.empty.shown, IsHeading c := by
    decide
  have hlines : regroupSection .dependencies webAndTesting (regroupSection .devDependencies .empty
      ["name: app", "dependencies:", "  http: 1", "  test: any", ""]) =
        ["name: app", "dependencies:", "  # Testing", "  test: any", "", "  # Web", "  http: 1",
          ""] := by
    decide
  exact ⟨sheet, hsound, htext, hspaces, hheadings,
    regroup_of_lines Manifest.splitLines_manifestWithTest hlines
      (Text.joinLines_of_eq_ofList rfl rfl),
    regroup_sheet hsound htext hspaces hds hdependencies hdev hheadings⟩

/-! ### A header that is not seen -/

/-- A manifest with a comment behind one of its headers. -/
def commentedHeader : String :=
  "dependencies:\n  b: 1\n  a: 2\ndev_dependencies: # tools\n  test: 3\n"

def withTools : Declarations where
  dependencies :=
    [⟨"b", .plain (some "1"), .dependencies⟩, ⟨"a", .plain (some "2"), .dependencies⟩]
  devDependencies := [⟨"test", .plain (some "3"), .devDependencies⟩]

def utilities : Grouping where
  groups := [("Utilities", [unusedPackage "a" "2", unusedPackage "b" "1"])]
  order := ["Utilities"]

def tools : Grouping where
  groups := [("Testing", [⟨"test", "3", .devDependencies, .used, {}⟩])]
  order := ["Testing"]

theorem ofPairs_utilities :
    ofPairs [("Utilities", unusedPackage "b" "1"), ("Utilities", unusedPackage "a" "2")] =
      utilities := by
  have hsorted : byName [unusedPackage "b" "1", unusedPackage "a" "2"] =
      [unusedPackage "a" "2", unusedPackage "b" "1"] :=
    (byName_eq_of_perm (List.Perm.swap _ _ _) (by decide)).trans
      (List.mergeSort_of_pairwise (by decide))
  have hbuckets : [("Utilities", unusedPackage "b" "1"), ("Utilities", unusedPackage "a" "2")].foldl
      (fun t p => addTo t p.1 p.2) [] =
        [("Utilities", [unusedPackage "b" "1", unusedPackage "a" "2"])] := by
    decide
  unfold ofPairs
  rw [hbuckets]
  dsimp only [Table.keys, List.map]
  rw [hsorted, Category.sort, List.mergeSort_singleton]
  rfl

theorem ofPairs_tools :
    ofPairs [("Testing", ⟨"test", "3", .devDependencies, .used, {}⟩)] = tools := by
  have hbuckets : [("Testing", (⟨"test", "3", .devDependencies, .used, {}⟩ : Finding))].foldl
      (fun t p => addTo t p.1 p.2) [] = tools.groups := by
    decide
  unfold ofPairs
  rw [hbuckets]
  dsimp only [tools, Table.keys, List.map, byName]
  rw [List.mergeSort_singleton, Category.sort, List.mergeSort_singleton]

/-- A header with a comment behind it is lost, and its section with it. -/
theorem regroup_drops_section :
    readDeclarations commentedHeader = .ok withTools ∧
    (of {} [] midday knowing
      ((Analysis.ofDeclarations withTools [] "flutter").ofKind .dependencies)).1 = .ok utilities ∧
    (of {} [] midday knowing
      ((Analysis.ofDeclarations withTools [] "flutter").ofKind .devDependencies)).1 = .ok tools ∧
    (∀ c ∈ utilities.shown ++ tools.shown, IsHeading c) ∧
    regroup commentedHeader utilities tools =
      "dependencies:\n  test: 3\n\n  # Utilities\n  a: 2\n  b: 1\n" ∧
    ((load commentedHeader).map fun p =>
      (Document.field? p.2 SectionKind.devDependencies.name).isSome) = .ok true ∧
    ((load (regroup commentedHeader utilities tools)).map fun p =>
      (Document.field? p.2 SectionKind.devDependencies.name).isSome) = .ok false := by
  have hdependencies : ((Analysis.ofDeclarations withTools [] "flutter").ofKind .dependencies).map
      (fun f => (localCategory [] knowing.cache midday f.name, f)) =
        [("Utilities", unusedPackage "b" "1"), ("Utilities", unusedPackage "a" "2")] := by
    decide
  have hdev : ((Analysis.ofDeclarations withTools [] "flutter").ofKind .devDependencies).map
      (fun f => (localCategory [] knowing.cache midday f.name, f)) =
        [("Testing", ⟨"test", "3", .devDependencies, .used, {}⟩)] := by
    decide
  have hsplit : Text.splitLines commentedHeader =
      ["dependencies:", "  b: 1", "  a: 2", "dev_dependencies: # tools", "  test: 3", ""] :=
    Text.splitLines_of_eq_ofList rfl rfl
  have hlines : regroupSection .dependencies utilities (regroupSection .devDependencies tools
      ["dependencies:", "  b: 1", "  a: 2", "dev_dependencies: # tools", "  test: 3", ""]) =
        ["dependencies:", "  test: 3", "", "  # Utilities", "  a: 2", "  b: 1", ""] := by
    decide
  have hregroup : regroup commentedHeader utilities tools =
      "dependencies:\n  test: 3\n\n  # Utilities\n  a: 2\n  b: 1\n" :=
    regroup_of_lines hsplit hlines (Text.joinLines_of_eq_ofList rfl rfl)
  refine ⟨by decide +kernel, ?_, ?_, by decide, hregroup, by decide +kernel, ?_⟩
  · rw [of_offline rfl, groupedBy, hdependencies, ofPairs_utilities]
  · rw [of_offline rfl, groupedBy, hdev, ofPairs_tools]
  · rw [hregroup]
    decide +kernel

end PubspecTidy.Grouping
