import PubspecTidy.Proofs.Sheet.Lines

/-!
# Editing a sheet

Main statements: a cut takes just one block out of a sheet, a paste puts one into a section, and a
new section takes over the lines behind the last block of the one before it.
-/
namespace PubspecTidy.Manifest

variable {n : Nat} {b : Block} {parts before after : List Part} {sheet above below : List Stretch}
  {kind source target : SectionKind} {header name : String} {e : Editor}

namespace Editor

/-- The lines of an editor are those of a sheet and a final line feed. -/
structure Shows (e : Editor) (sheet : List Stretch) : Prop where
  lines : e.lines = Stretch.linesOf sheet ++ [""]
  tracked : e.Tracked
  lineEnd : e.lineEnd = ""

namespace Shows

theorem sectionAt_eq (h : e.Shows (above ++ .listed kind header parts :: below))
    (hfits : ∀ st ∈ above ++ .listed kind header parts :: below, st.Fits n)
    (habove : ∀ st ∈ above, st.kind? ≠ some kind) :
    e.sectionAt kind = some (sectionOf above below parts) := by
  rw [h.tracked kind, h.lines, findSection?_sheet hfits habove]

theorem sectionAt_eq_none (h : e.Shows sheet) (hfits : ∀ st ∈ sheet, st.Fits n)
    (hkind : ∀ st ∈ sheet, st.kind? ≠ some kind) : e.sectionAt kind = none := by
  rw [h.tracked kind, h.lines, findSection?_none hfits hkind]

/-- A block that is cut out. -/
theorem cut (h : e.Shows (above ++ .listed kind header (before ++ .block b :: after) :: below))
    (hfits : ∀ st ∈ above ++ .listed kind header (before ++ .block b :: after) :: below, st.Fits n)
    (habove : ∀ st ∈ above, st.kind? ≠ some kind)
    (hname : ∀ b' ∈ Part.blocks before, b'.name ≠ b.name) :
    ∃ e', e.cut? kind b.name = some (b.lines, e') ∧
      e'.Shows (above ++ .listed kind header (before ++ after) :: below) := by
  have hsection := h.sectionAt_eq hfits habove
  have hentries := entries_sectionOf hfits
  rw [← h.lines] at hentries
  have hlocate : e.locate? kind b.name =
      some ⟨(Stretch.linesOf above).length + 1 + (Part.linesOf before).length,
        (Stretch.linesOf above).length + 1 + (Part.linesOf before).length + b.lines.length⟩ := by
    rw [locate?, hsection, Option.bind_some, Section.locate?, hentries,
      Part.find?_entries_split hname, Option.map_some]
  have hsplit : e.lines = linesBefore above header before ++
      (b.lines ++ (Part.linesOf after ++ (Stretch.linesOf below ++ [""]))) := by
    rw [h.lines, linesOf_cut, Part.linesOf_block, List.append_assoc]
  rw [← length_linesBefore above header] at hlocate
  generalize hplace : (linesBefore above header before).length = place at hlocate
  have hcut : e.cut? kind b.name =
      some (b.lines, e.delete ⟨place, place + b.lines.length⟩ kind) := by
    rw [cut?, hlocate, Option.map_some, Extent.lines, Extent.size, hsplit]
    dsimp only
    rw [← hplace, List.drop_left, Nat.add_sub_cancel_left, List.take_left]
  refine ⟨_, hcut, ?_, (h.tracked.cut hcut).1, h.lineEnd⟩
  rw [delete]
  dsimp only
  rw [hsplit, ← hplace, List.take_left, ← List.drop_drop, List.drop_left, List.drop_left,
    linesOf_cut]

theorem cut_eq_none (h : e.Shows sheet) (hfits : ∀ st ∈ sheet, st.Fits n)
    (hname : ∀ b ∈ blocksOf sheet kind, b.name ≠ name) : e.cut? kind name = none := by
  have hlocate : e.locate? kind name = none := by
    by_cases hkind : ∃ st ∈ sheet, st.kind? = some kind
    · obtain ⟨above, header, parts, below, rfl, habove⟩ := Stretch.exists_first hkind
      have hentries := entries_sectionOf hfits
      rw [← h.lines] at hentries
      have hnone : ∀ b ∈ Part.blocks parts, b.name ≠ name := fun b hb => hname b (by
        simp [blocksOf, Stretch.blocksIn, hb])
      rw [locate?, h.sectionAt_eq hfits habove, Option.bind_some, Section.locate?, hentries,
        Part.find?_entries_none hnone, Option.map_none]
    · rw [locate?, h.sectionAt_eq_none hfits fun st hst hk => hkind ⟨st, hst, hk⟩]
      rfl
  rw [cut?, hlocate, Option.map_none]

/-- A block that is pasted into a section. -/
theorem paste (h : e.Shows (above ++ .listed kind header parts :: below))
    (hfits : ∀ st ∈ above ++ .listed kind header parts :: below, st.Fits n)
    (habove : ∀ st ∈ above, st.kind? ≠ some kind) (hb : b.Fits n) :
    ∃ before after, parts = before ++ after ∧ (e.paste kind b.name b.lines).Shows
      (above ++ .listed kind header (before ++ .block b :: after) :: below) := by
  have hsection := h.sectionAt_eq hfits habove
  have hentries := entries_sectionOf hfits
  rw [← h.lines] at hentries
  obtain ⟨before, after, rfl, hplace⟩ : ∃ before after, parts = before ++ after ∧
      e.insertionPlace (sectionOf above below parts) b.name =
        (Stretch.linesOf above).length + 1 + (Part.linesOf before).length := by
    unfold insertionPlace
    split
    · rename_i entry hfind
      rw [hentries] at hfind
      exact Part.exists_start hfind
    · obtain ⟨before, after, hparts, -, hstop⟩ :=
        Part.exists_stop ((Stretch.linesOf above).length + 1) parts
      refine ⟨before, after, hparts, ?_⟩
      rw [Section.entriesEnd, hentries]
      exact hstop
  refine ⟨before, after, rfl, ?_, h.tracked.paste kind b.name hb.noHeader, ?_⟩
  · rw [Editor.paste, hsection]
    dsimp only
    rw [hplace, ← length_linesBefore above header, insert]
    dsimp only
    rw [h.lines, linesOf_cut, List.take_left, List.drop_left, linesOf_cut, Part.linesOf_block]
    simp only [List.append_assoc]
  · rw [Editor.paste, hsection]
    exact h.lineEnd

/-- A section that is created behind another one. -/
theorem createSection (h : e.Shows (above ++ .listed source header parts :: below))
    (hfits : ∀ st ∈ above ++ .listed source header parts :: below, st.Fits n)
    (target : SectionKind) :
    ∃ before after, parts = before ++ after ∧ Part.blocks after = [] ∧
      (e.createSection target (some (sectionOf above below parts))).Shows
        (above ++ .listed source header (before ++ [Part.gap ""]) ::
          .listed target (target.name ++ ":") after :: below) := by
  have hentries := entries_sectionOf hfits
  rw [← h.lines] at hentries
  obtain ⟨before, after, rfl, hafter, hstop⟩ :=
    Part.exists_stop ((Stretch.linesOf above).length + 1) parts
  refine ⟨before, after, rfl, hafter, ?_, tracked_writeHeader _ _ _, h.lineEnd⟩
  have hplace : e.headerPlace (some (sectionOf above below (before ++ after))) =
      (linesBefore above header before).length := by
    rw [headerPlace, Section.entriesEnd, hentries, length_linesBefore]
    exact hstop
  rw [Editor.createSection, writeHeader, rescan]
  dsimp only
  rw [hplace, h.lines, linesOf_cut, List.take_left, List.drop_left, h.lineEnd, linesOf_cut]
  simp [Stretch.linesOf, Stretch.lines, Part.linesOf, Part.lines]

end Shows
end Editor
end PubspecTidy.Manifest
