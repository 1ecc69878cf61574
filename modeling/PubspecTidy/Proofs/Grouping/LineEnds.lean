import PubspecTidy.Proofs.Grouping.Windows
import PubspecTidy.Proofs.Manifest.LineEnds

/-!
# Line ends of a regrouped manifest

A block that is kept brings its own line ends along, and what is written anew ends as the header of
the section does. Main statement: with a carriage return in front of every line feed a manifest that
ends in a line feed is regrouped to the same text, but for a carriage return in front of every line
feed.
-/
namespace PubspecTidy.Grouping

open Manifest (Extent NoHeader Section SectionKind findSection? isDependencyLine isHeader)
open Text (allReturned returnedLines)

variable {all : List String} {kind : SectionKind} {g : Grouping} {s : Section} {line : String}

/-! ## The entries of a section -/

theorem lines_returnedLines {x : Extent} (hle : x.start ≤ x.stop) (h : x.stop < all.length) :
    x.lines (returnedLines all) = allReturned (x.lines all) := by
  have hsize : x.size < (all.drop x.start).length := by
    rw [List.length_drop, Extent.size]
    omega
  rw [Extent.lines, Extent.lines, Text.drop_returnedLines (hle.trans_lt h),
    Text.take_returnedLines hsize]

/-- The blanks that a declaration starts with end before its carriage return. -/
theorem leadingBlanks_append_return (h : isDependencyLine line = true) :
    leadingBlanks (line ++ "\r") = leadingBlanks line := by
  have hlist : (line ++ "\r").toList = line.toList ++ ['\r'] := String.toList_append
  have hpart : ¬ (line.toList.takeWhile Text.isBlank).length = line.toList.length := by
    intro hlength
    have hall := (List.takeWhile_prefix Text.isBlank (l := line.toList)).eq_of_length hlength
    have hnone : line.toList.dropWhile Text.isBlank = [] :=
      List.dropWhile_eq_nil_iff.mpr (List.takeWhile_eq_self_iff.mp hall)
    have hblank : Manifest.isBlankLine line = true := by
      rw [Manifest.isBlankLine, Text.trim, Text.trimStart, hnone]
      rfl
    rw [Manifest.isBlankLine_of_isDependencyLine h] at hblank
    cases hblank
  rw [leadingBlanks, leadingBlanks, hlist, List.takeWhile_append, if_neg hpart]

theorem indentOf_map_allReturned {blocks : List (List String)}
    (h : ∀ block ∈ blocks, ∃ line rest, block = line :: rest ∧ isDependencyLine line = true) :
    indentOf (blocks.map allReturned) = indentOf blocks := by
  cases blocks with
  | nil => rfl
  | cons block blocks =>
    obtain ⟨line, rest, rfl, hline⟩ := h block List.mem_cons_self
    have hhead {line : String} {rest : List String} {blocks : List (List String)} :
        indentOf ((line :: rest) :: blocks) =
          if (leadingBlanks line).isEmpty then usualIndent else leadingBlanks line := rfl
    rw [List.map_cons, allReturned, List.map_cons, hhead, hhead, leadingBlanks_append_return hline]

/-- Entries with a carriage return at the end of each line. -/
def Entries.returned (es : Entries) : Entries :=
  ⟨es.blocks.map fun e => (e.1, allReturned e.2), es.indent⟩

theorem entriesOf_returnedLines (hlast : all.getLast? = some "") (s : Section) :
    entriesOf (returnedLines all) (some s) = (entriesOf all (some s)).returned := by
  have hentries : s.entries (returnedLines all) = s.entries all :=
    Section.entries_eq (Manifest.Editor.readsAs_returnedLines all) s
  have hblocks : (s.entries all).map (fun e => (e.name, e.extent.lines (returnedLines all))) =
      ((s.entries all).map fun e => (e.name, e.extent.lines all)).map
        fun e => (e.1, allReturned e.2) := by
    rw [List.map_map]
    refine List.map_congr_left fun e he => congrArg (Prod.mk e.name) ?_
    exact lines_returnedLines (Section.start_lt_stop he).le (Manifest.stop_lt_length hlast he)
  have hdeclared : ∀ block ∈ ((s.entries all).map fun e => (e.name, e.extent.lines all)).map (·.2),
      ∃ line rest, block = line :: rest ∧ isDependencyLine line = true := by
    intro block hblock
    rw [List.map_map] at hblock
    obtain ⟨e, he, rfl⟩ := List.mem_map.mp hblock
    exact head?_block he
  have hindent := indentOf_map_allReturned hdeclared
  rw [List.map_map] at hindent
  unfold entriesOf Entries.returned
  dsimp only
  rw [hentries, hblocks, Table.ofList_map, List.map_map, ← hindent]
  rfl

/-! ## What is written -/

theorem packageLines_returned (es : Entries) (f : Finding) :
    packageLines es.returned "\r" f = allReturned (packageLines es "" f) := by
  unfold packageLines
  rw [Entries.returned, Table.get?_map]
  dsimp only
  rcases Table.get? es.blocks f.name with _ | _ | ⟨line, lines⟩
  · simp [allReturned]
  · simp [allReturned]
  · rfl

theorem flatMap_allReturned {α : Type} (xs : List α) (f : α → List String) :
    (xs.flatMap fun x => allReturned (f x)) = allReturned (xs.flatMap f) :=
  (List.map_flatMap ..).symm

theorem groupLines_returned (es : Entries) (category : String) (group : List Finding) :
    groupLines es.returned "\r" category group = allReturned (groupLines es "" category group) := by
  have hpackages : group.flatMap (packageLines es.returned "\r") =
      allReturned (group.flatMap (packageLines es "")) := by
    rw [← flatMap_allReturned]
    exact congrArg (group.flatMap ·) (funext (packageLines_returned es))
  rw [groupLines, groupLines, hpackages, allReturned, allReturned, List.map_cons,
    String.append_empty]
  rfl

theorem separate_returned (groups : List (List String)) :
    separate "\r" (groups.map allReturned) = allReturned (separate "" groups) := by
  induction groups with
  | nil => rfl
  | cons first rest ih =>
    cases rest with
    | nil => rfl
    | cons second rest =>
      have hcons (lineEnd : String) (first second : List String) (rest : List (List String)) :
          separate lineEnd (first :: second :: rest) =
            first ++ lineEnd :: separate lineEnd (second :: rest) := rfl
      rw [List.map_cons, List.map_cons, hcons, ← List.map_cons, ih, hcons]
      simp [allReturned]

theorem lines_returned (g : Grouping) (es : Entries) :
    g.lines es.returned "\r" = allReturned (g.lines es "") := by
  rw [lines, lines, ← separate_returned, List.map_map]
  exact congrArg _ (List.map_congr_left fun c _ => groupLines_returned es c (g.group c))

theorem written_returned (es : Entries) (g : Grouping) :
    written es.returned "\r" g = allReturned (written es "" g) := by
  have houtside : (outside es.returned.blocks g).flatMap (·.2) =
      allReturned ((outside es.blocks g).flatMap (·.2)) := by
    rw [outside, Entries.returned, List.filter_map, List.flatMap_map, ← flatMap_allReturned]
    rfl
  rw [written, written, houtside, lines_returned]
  cases (outside es.blocks g).flatMap (·.2) with
  | nil => rfl
  | cons line rest => simp [allReturned]

/-! ## One section -/

/-- Lines of a text that ends in a line feed and has no carriage return at the end of a header. -/
structure IsPlain (all : List String) : Prop where
  one : ∀ line ∈ all, Text.IsOneLine line
  last : all.getLast? = some ""
  bare : ∀ line ∈ all, isHeader line = true → Text.endsWith line "\r" = false

/-- A grouping whose texts are all one line. -/
structure IsOneLine (g : Grouping) : Prop where
  categories : ∀ c ∈ g.shown, Text.IsOneLine c
  packages : ∀ f ∈ g.packages, Text.IsOneLine f.name ∧ Text.IsOneLine f.version

theorem endsWith_append_return (line : String) : Text.endsWith (line ++ "\r") "\r" = true := by
  rw [Text.endsWith, List.isSuffixOf_iff_suffix, String.toList_append]
  exact List.suffix_append _ _

theorem sectionBody_returnedLines (h : IsPlain all) (hs : findSection? all kind.name = some s)
    (g : Grouping) :
    sectionBody (returnedLines all) s g = allReturned (sectionBody all s g) := by
  obtain ⟨header, hheader, hof⟩ := Manifest.header_of_findSection? hs
  have hplace : s.header + 1 < all.length :=
    Nat.lt_of_le_of_lt (Section.header_lt_entriesEnd s all)
      (Manifest.entriesEnd_lt_length h.last hs)
  have hbare := h.bare header (List.mem_of_getElem? hheader) (Manifest.isHeader_of_isHeaderOf hof)
  rw [sectionBody_eq_written, sectionBody_eq_written, entriesOf_returnedLines h.last,
    Text.getElem?_returnedLines hplace, hheader]
  simp only [Option.map_some, Option.getD_some, endsWith_append_return, hbare, if_true]
  exact written_returned _ g

/-- Regrouping a section leaves the carriage returns where the lines end. -/
theorem regroupSection_returnedLines (h : IsPlain all) (kind : SectionKind) (g : Grouping) :
    regroupSection kind g (returnedLines all) = returnedLines (regroupSection kind g all) := by
  have hfind : findSection? (returnedLines all) kind.name = findSection? all kind.name :=
    Manifest.findFrom_eq (Manifest.Editor.readsAs_returnedLines all) _ _
  unfold regroupSection
  rw [hfind]
  cases hs : findSection? all kind.name with
  | none => rfl
  | some s =>
    dsimp only
    split
    · rfl
    have hend := Manifest.entriesEnd_lt_length h.last hs
    have hheader := Nat.lt_of_le_of_lt (Section.header_lt_entriesEnd s all) hend
    have hplace : s.entriesEnd (returnedLines all) = s.entriesEnd all :=
      Section.entriesEnd_eq (Manifest.Editor.readsAs_returnedLines all) s
    have hrest : all.drop (s.entriesEnd all) ≠ [] := by
      rw [ne_eq, List.drop_eq_nil_iff, not_le]
      exact hend
    rw [hplace, Text.take_returnedLines hheader, sectionBody_returnedLines h hs,
      Text.drop_returnedLines hend, Text.returnedLines_append _ hrest, allReturned, allReturned,
      allReturned, List.map_append]

theorem isOneLine_of_mem_packageLines {es : Entries} {lineEnd : String} {f : Finding}
    (hblocks : ∀ e ∈ es.blocks, ∀ line ∈ e.2, Text.IsOneLine line)
    (hindent : Text.IsOneLine es.indent) (hend : Text.IsOneLine lineEnd)
    (hname : Text.IsOneLine f.name) (hversion : Text.IsOneLine f.version)
    (h : line ∈ packageLines es lineEnd f) : Text.IsOneLine line := by
  unfold packageLines at h
  split at h
  · rename_i first rest hblock
    exact hblocks _ (Table.mem_of_get? hblock) line h
  · rw [List.mem_singleton.mp h]
    exact (((hindent.append hname).append (by decide)).append hversion).append hend

theorem isOneLine_of_mem_sectionBody (hone : ∀ line ∈ all, Text.IsOneLine line) (hg : g.IsOneLine)
    (h : line ∈ sectionBody all s g) : Text.IsOneLine line := by
  have hindent := isIndent_entriesOf hone s
  obtain ⟨lineEnd, hend, rfl | ⟨e, he, hline⟩ | ⟨c, hc, rfl⟩ | ⟨f, hf, hline⟩⟩ := mem_sectionBody h
  · exact (hend.harmless all).one
  · exact hone line (mem_of_mem_block hline)
  · exact (hindent.harmless (hg.categories c hc) hend all).one
  · obtain ⟨hname, hversion⟩ := hg.packages f hf
    refine isOneLine_of_mem_packageLines (fun e he line hline => ?_) hindent.one
      (hend.harmless all).one hname hversion hline
    obtain ⟨entry, hentry, -, hlines⟩ := mem_blocks he
    rw [← hlines] at hline
    exact hone line (mem_of_mem_block hline)

theorem IsPlain.regroupSection (h : IsPlain all) (hg : g.IsOneLine) (kind : SectionKind) :
    IsPlain (Grouping.regroupSection kind g all) := by
  unfold Grouping.regroupSection
  cases hs : findSection? all kind.name with
  | none => exact h
  | some s =>
    dsimp only
    split
    · exact h
    have hend := Manifest.entriesEnd_lt_length h.last hs
    have hold {line : String}
        (hline : line ∈ all.take (s.header + 1) ∨ line ∈ all.drop (s.entriesEnd all)) : line ∈ all :=
      hline.elim List.mem_of_mem_take List.mem_of_mem_drop
    have hmem {line : String} (hline : line ∈ all.take (s.header + 1) ++ sectionBody all s g ++
        all.drop (s.entriesEnd all)) : line ∈ all ∨ line ∈ sectionBody all s g := by
      rw [List.mem_append, List.mem_append] at hline
      rcases hline with (hline | hline) | hline
      · exact .inl (hold (.inl hline))
      · exact .inr hline
      · exact .inl (hold (.inr hline))
    refine ⟨fun line hline => ?_, ?_, fun line hline hheader => ?_⟩
    · rcases hmem hline with hline | hline
      · exact h.one line hline
      · exact isOneLine_of_mem_sectionBody h.one hg hline
    · rw [List.getLast?_append, List.getLast?_drop, if_neg (Nat.not_le.mpr hend), h.last]
      rfl
    · rcases hmem hline with hline | hline
      · exact h.bare line hline hheader
      · rw [noHeader_sectionBody h.one s g line hline] at hheader
        cases hheader

/-! ## A manifest -/

theorem isPlain_splitLines {text : String} (hreturn : '\r' ∉ text.toList)
    (hend : Text.endsWith text "\n" = true) : IsPlain (Text.splitLines text) where
  one _ hline := Text.isOneLine_of_mem_splitLines hline
  last := Text.getLast?_splitLines hend
  bare _ hline _ := not_endsWith_return hreturn hline

/-- With a carriage return in front of every line feed, a manifest without one that ends in a line
feed is regrouped as before, with a carriage return in front of every line feed. -/
theorem regroup_withReturns {text : String} {dependencies dev : Grouping}
    (hreturn : '\r' ∉ text.toList) (hend : Text.endsWith text "\n" = true)
    (hdependencies : dependencies.IsOneLine) (hdev : dev.IsOneLine) :
    regroup (Text.withReturns text) dependencies dev =
      Text.withReturns (regroup text dependencies dev) := by
  have hplain := isPlain_splitLines hreturn hend
  have hfirst := hplain.regroupSection hdev .devDependencies
  have hsecond := hfirst.regroupSection hdependencies .dependencies
  rw [regroup, regroup, Text.splitLines_withReturns, regroupSection_returnedLines hplain,
    regroupSection_returnedLines hfirst, Text.withReturns_joinLines hsecond.one]

/-- Both sections, with entries that are in no group, a package that has an entry and one that has
none. -/
theorem regroup_withReturns_both_sections :
    '\r' ∉ bothSections.toList ∧ Text.endsWith bothSections "\n" = true ∧
    (oneGroup "Networking" "args").IsOneLine ∧ (oneGroup "Testing" "test").IsOneLine ∧
    regroup (Text.withReturns bothSections) (oneGroup "Networking" "args")
        (oneGroup "Testing" "test") =
      "dev_dependencies:\r\n  lints: 1\r\n\r\n  # Testing\r\n  test: 2\r\n# end\r\n" ++
        "dependencies:\r\n  sdk:\r\n    x: y\r\n  dio: 3\r\n\r\n" ++
        "  # Networking\r\n  args: 1\r\n" := by
  have hchars := Text.toList_of_eq_ofList (rfl : bothSections = String.ofList _)
  have hreturn : '\r' ∉ bothSections.toList := by
    rw [hchars]
    decide
  have hend : Text.endsWith bothSections "\n" = true := by
    rw [Text.endsWith, hchars]
    decide
  have hdependencies : (oneGroup "Networking" "args").IsOneLine := ⟨by decide, by decide⟩
  have hdev : (oneGroup "Testing" "test").IsOneLine := ⟨by decide, by decide⟩
  have hlines : regroupSection .dependencies (oneGroup "Networking" "args")
      (regroupSection .devDependencies (oneGroup "Testing" "test") bothLines) =
        ["dev_dependencies:", "  lints: 1", "", "  # Testing", "  test: 2", "# end",
          "dependencies:", "  sdk:", "    x: y", "  dio: 3", "", "  # Networking", "  args: 1",
          ""] := by
    decide
  refine ⟨hreturn, hend, hdependencies, hdev, ?_⟩
  rw [regroup_withReturns hreturn hend hdependencies hdev, regroup, splitLines_bothSections, hlines,
    Text.withReturns_joinLines (by decide)]
  exact Text.joinLines_of_eq_ofList (Text.append_eq_ofList (Text.append_eq_ofList rfl rfl) rfl) rfl

end PubspecTidy.Grouping
