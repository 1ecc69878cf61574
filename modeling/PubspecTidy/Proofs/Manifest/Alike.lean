import PubspecTidy.Proofs.Manifest.Bodies
import PubspecTidy.Proofs.Manifest.Splices
import PubspecTidy.Proofs.Text.Returns
import Mathlib.Data.List.Forall2

/-!
# Lines that read alike

The editor looks at a line through a few readings only, and none of them sees a carriage return at
its end. Main statement: over lines that read alike, the same changes take effect and come to the
same splices.
-/
namespace PubspecTidy.Manifest

/-- Two lines that the editor cannot tell apart where it looks for sections and entries. -/
structure ReadsAs (line line' : String) : Prop where
  trim_eq : Text.trim line'.toList = Text.trim line.toList
  indentation_eq : indentation line' = indentation line
  isIndented_eq : isIndented line' = isIndented line
  startsBlank_eq : startsBlank line' = startsBlank line
  isHeader_eq : isHeader line' = isHeader line

/-! ## One line -/

theorem indentWidth_append_return (cs : List Char) :
    indentWidth (cs ++ ['\r']) = indentWidth cs := by
  induction cs using indentWidth.induct with
  | case1 cs ih => exact congrArg (· + 1) ih
  | case2 cs ih => exact congrArg (· + 2) ih
  | case3 cs hblank htab =>
    cases cs with
    | nil => rfl
    | cons c cs =>
      rw [List.cons_append, indentWidth, indentWidth]
      · exact hblank
      · exact htab
      · exact fun _ heq => hblank cs (by rw [(List.cons.inj heq).1])
      · exact fun _ heq => htab cs (by rw [(List.cons.inj heq).1])

namespace ReadsAs

variable {line line' : String}

theorem refl (line : String) : ReadsAs line line := ⟨rfl, rfl, rfl, rfl, rfl⟩

/-- A carriage return at the end of a line is not seen. -/
theorem append_return (line : String) : ReadsAs line (line ++ "\r") := by
  have hlist : (line ++ "\r").toList = line.toList ++ ['\r'] := String.toList_append
  have htrim := Text.trim_append_return line.toList
  refine ⟨by rw [hlist, htrim], ?_, ?_, ?_, ?_⟩
  · rw [indentation, hlist, indentWidth_append_return, indentation]
  · unfold isIndented
    rw [hlist]
    rcases line.toList with _ | ⟨c, _ | ⟨d, cs⟩⟩
    · rfl
    · by_cases htab : c = '\t' <;> by_cases hspace : c = ' ' <;> simp_all
    · by_cases htab : c = '\t' <;> by_cases hspace : c = ' ' <;> by_cases hnext : d = ' ' <;>
        simp_all
  · unfold startsBlank
    rw [hlist]
    rcases line.toList with _ | ⟨c, cs⟩
    · rfl
    · by_cases htab : c = '\t' <;> by_cases hspace : c = ' ' <;> simp_all
  · unfold isHeader
    rw [hlist, htrim]
    rcases line.toList with _ | ⟨c, cs⟩
    · rfl
    · rw [List.cons_append]

theorem isBlankLine_eq (h : ReadsAs line line') : isBlankLine line' = isBlankLine line := by
  rw [isBlankLine, isBlankLine, h.trim_eq]

theorem isDependencyLine_eq (h : ReadsAs line line') :
    isDependencyLine line' = isDependencyLine line := by
  rw [isDependencyLine, isDependencyLine, h.trim_eq, h.isIndented_eq]

theorem declaredName?_eq (h : ReadsAs line line') : declaredName? line' = declaredName? line := by
  rw [declaredName?, declaredName?, h.trim_eq]

theorem isHeaderOf_eq (h : ReadsAs line line') (name : String) :
    isHeaderOf name line' = isHeaderOf name line := by
  rw [isHeaderOf, isHeaderOf, h.trim_eq, h.startsBlank_eq]

end ReadsAs

/-! ## Many lines -/

section Lines

variable {lines lines' : List String} (h : List.Forall₂ ReadsAs lines lines')
include h

theorem openLines_eq (base : Nat) : openLines base lines' = openLines base lines := by
  induction h with
  | nil => rfl
  | @cons line line' _ _ hline _ ih =>
    cases hblank : isBlankLine line with
    | true =>
      have hblank' : isBlankLine line' = true := hline.isBlankLine_eq.trans hblank
      rw [openLines_of_isBlankLine hblank, openLines_of_isBlankLine hblank', ih]
    | false =>
      have hcontent' : isBlankLine line' = false := hline.isBlankLine_eq.trans hblank
      rcases Nat.lt_or_ge base (indentation line) with hdeep | hends
      · rw [openLines_of_deeper hblank hdeep,
          openLines_of_deeper hcontent' (hline.indentation_eq ▸ hdeep), ih]
      · rw [openLines_of_ends hblank hends,
          openLines_of_ends hcontent' (hline.indentation_eq ▸ hends)]

theorem length_takeWhile_eq :
    (lines'.takeWhile (!isHeader ·)).length = (lines.takeWhile (!isHeader ·)).length := by
  induction h with
  | nil => rfl
  | cons hline _ ih =>
    rw [List.takeWhile_cons, List.takeWhile_cons, hline.isHeader_eq]
    split
    · exact congrArg (· + 1) ih
    · rfl

theorem findFrom_eq (name : String) (index : Nat) :
    findFrom name index lines' = findFrom name index lines := by
  induction h generalizing index with
  | nil => rfl
  | cons hline hrest ih =>
    rw [findFrom, findFrom, hline.isHeaderOf_eq, length_takeWhile_eq hrest, ih]

theorem linesBetween_forall₂ (start last : Nat) :
    List.Forall₂ ReadsAs (linesBetween lines start last) (linesBetween lines' start last) :=
  List.forall₂_take _ (List.forall₂_drop _ h)

namespace Section

theorem entriesFrom_eq (index skip : Nat) :
    entriesFrom index skip lines' = entriesFrom index skip lines := by
  induction h generalizing index skip with
  | nil => cases skip <;> rfl
  | cons hline hrest ih =>
    cases skip with
    | succ skip => exact ih (index + 1) skip
    | zero =>
      rw [entriesFrom, entriesFrom, hline.isDependencyLine_eq, hline.declaredName?_eq,
        hline.indentation_eq, openLines_eq hrest]
      simp only [ih]

theorem entries_eq (s : Section) : s.entries lines' = s.entries lines :=
  entriesFrom_eq (linesBetween_forall₂ h _ _) _ _

theorem locate?_eq (s : Section) (name : String) : s.locate? lines' name = s.locate? lines name := by
  rw [locate?, locate?, entries_eq h]

theorem entriesEnd_eq (s : Section) : s.entriesEnd lines' = s.entriesEnd lines := by
  rw [entriesEnd, entriesEnd, entries_eq h]

end Section

end Lines

/-! ## Editors -/

namespace Editor

/-- An editor whose lines read as those of another one; new lines may differ by a carriage return at
their end. -/
structure ReadsAs (e e' : Editor) : Prop where
  lines : List.Forall₂ Manifest.ReadsAs e.lines e'.lines
  sectionAt_eq : ∀ kind, e'.sectionAt kind = e.sectionAt kind
  lineEnd : e'.lineEnd = e.lineEnd ∨ e'.lineEnd = e.lineEnd ++ "\r"

namespace ReadsAs

variable {e e' : Editor} (h : e.ReadsAs e')
include h

theorem locate?_eq (kind : SectionKind) (name : String) :
    e'.locate? kind name = e.locate? kind name := by
  rw [Editor.locate?, Editor.locate?, h.sectionAt_eq]
  exact congrArg _ (funext fun s => Section.locate?_eq h.lines s name)

theorem insertionPlace_eq (s : Section) (name : String) :
    e'.insertionPlace s name = e.insertionPlace s name := by
  rw [insertionPlace, insertionPlace, Section.entries_eq h.lines, Section.entriesEnd_eq h.lines]

theorem placeIn_eq (kind : SectionKind) (name : String) :
    e'.placeIn kind name = e.placeIn kind name := by
  rw [placeIn, placeIn, h.sectionAt_eq, h.lines.length_eq]
  exact congrArg (fun f => ((e.sectionAt kind).map f).getD e'.lines.length)
    (funext fun s => h.insertionPlace_eq s name)

theorem headerPlace_eq (s : Section) : e'.headerPlace (some s) = e.headerPlace (some s) :=
  Section.entriesEnd_eq h.lines s

/-! ### What the editor does -/

theorem within (x : Extent) : List.Forall₂ Manifest.ReadsAs (x.lines e.lines) (x.lines e'.lines) :=
  List.forall₂_take _ (List.forall₂_drop _ h.lines)

theorem delete (x : Extent) (owner : SectionKind) : (e.delete x owner).ReadsAs (e'.delete x owner)
    where
  lines := List.rel_append (List.forall₂_take _ h.lines) (List.forall₂_drop _ h.lines)
  sectionAt_eq kind := by rw [sectionAt_delete, sectionAt_delete, h.sectionAt_eq]
  lineEnd := h.lineEnd

theorem insert (place : Nat) {block block' : List String}
    (hblock : List.Forall₂ Manifest.ReadsAs block block') (owner : SectionKind) :
    (e.insert place block owner).ReadsAs (e'.insert place block' owner) where
  lines := List.rel_append (List.rel_append (List.forall₂_take _ h.lines) hblock)
    (List.forall₂_drop _ h.lines)
  sectionAt_eq kind := by
    rw [sectionAt_insert, sectionAt_insert, h.sectionAt_eq, hblock.length_eq]
  lineEnd := h.lineEnd

theorem append_lineEnd (line : String) :
    Manifest.ReadsAs (line ++ e.lineEnd) (line ++ e'.lineEnd) := by
  rcases h.lineEnd with hend | hend
  · rw [hend]
    exact .refl _
  · rw [hend, ← String.append_assoc]
    exact .append_return _

theorem createSection (kind : SectionKind) (s : Section) :
    (e.createSection kind (some s)).ReadsAs (e'.createSection kind (some s)) := by
  have hheader : List.Forall₂ Manifest.ReadsAs [e.lineEnd, kind.name ++ ":" ++ e.lineEnd]
      [e'.lineEnd, kind.name ++ ":" ++ e'.lineEnd] := by
    have hempty := h.append_lineEnd ""
    rw [String.empty_append, String.empty_append] at hempty
    exact .cons hempty (.cons (h.append_lineEnd _) .nil)
  have hlines : List.Forall₂ Manifest.ReadsAs (e.createSection kind (some s)).lines
      (e'.createSection kind (some s)).lines := by
    have hplace := h.headerPlace_eq s
    unfold Editor.createSection writeHeader rescan
    dsimp only
    rw [hplace]
    exact List.rel_append (List.rel_append (List.forall₂_take _ h.lines) hheader)
      (List.forall₂_drop _ h.lines)
  refine ⟨hlines, fun kind' => ?_, h.lineEnd⟩
  have htracked (e : Editor) : (e.createSection kind (some s)).Tracked := tracked_writeHeader e _ _
  rw [htracked, htracked]
  exact findFrom_eq hlines _ _

theorem removeFrom (kind : SectionKind) (name : String) :
    (e'.removeFrom kind name).1 = (e.removeFrom kind name).1 ∧
      (e.removeFrom kind name).2.ReadsAs (e'.removeFrom kind name).2 := by
  have hlocate := h.locate?_eq kind name
  unfold Editor.removeFrom cut?
  rw [hlocate]
  cases e.locate? kind name with
  | none => exact ⟨rfl, h⟩
  | some x => exact ⟨rfl, h.delete x kind⟩

theorem cutsOf_eq (kind : SectionKind) (name : String) :
    e'.cutsOf kind name = e.cutsOf kind name := by
  rw [cutsOf, cutsOf, h.locate?_eq]

theorem paste (kind : SectionKind) (name : String) {block block' : List String}
    (hblock : List.Forall₂ Manifest.ReadsAs block block') :
    (e.paste kind name block).ReadsAs (e'.paste kind name block') := by
  unfold Editor.paste
  rw [h.sectionAt_eq]
  cases e.sectionAt kind with
  | none => exact h
  | some s =>
    dsimp only
    rw [h.insertionPlace_eq]
    exact h.insert _ hblock kind

/-- A move that opens the target section does so behind a section that is there. -/
theorem move (name : String) (source target : SectionKind) :
    (e'.move name source target).1 = (e.move name source target).1 ∧
      (e.move name source target).2.ReadsAs (e'.move name source target).2 ∧
      e'.carriesOf name source target = e.carriesOf name source target := by
  have hlocate := h.locate?_eq source name
  unfold Editor.move cut? carriesOf
  rw [hlocate]
  cases hx : e.locate? source name with
  | none => exact ⟨rfl, h, rfl⟩
  | some x =>
    have hrest := h.delete x source
    obtain ⟨s, hs⟩ : ∃ s, (e.delete x source).sectionAt source = some s := by
      obtain ⟨s, hs, -⟩ := Option.bind_eq_some_iff.mp hx
      exact ⟨_, by rw [sectionAt_delete, hs, Option.map_some]⟩
    have hopened := hrest.createSection target s
    dsimp only [Option.map_some]
    rw [hrest.sectionAt_eq target, hrest.sectionAt_eq source, hs, hrest.placeIn_eq,
      hopened.placeIn_eq, hrest.headerPlace_eq]
    split
    · exact ⟨rfl, hrest.paste target name (h.within x), rfl⟩
    · exact ⟨rfl, hopened.paste target name (h.within x), rfl⟩

theorem perform (c : Change) :
    (e'.perform c).1 = (e.perform c).1 ∧ (e.perform c).2.ReadsAs (e'.perform c).2 ∧
      e'.splicesOf c = e.splicesOf c := by
  obtain ⟨name, action, version⟩ := c
  cases action with
  | remove =>
    obtain ⟨hfirst, hmiddle⟩ := h.removeFrom .dependencies name
    obtain ⟨hsecond, hlast⟩ := hmiddle.removeFrom .devDependencies name
    exact ⟨congrArg₂ (· || ·) hfirst hsecond, hlast,
      congrArg₂ (· ++ ·) (h.cutsOf_eq _ name) (hmiddle.cutsOf_eq _ name)⟩
  | moveTo target => exact h.move name target.other target
  | removeFrom kind =>
    obtain ⟨hdone, hrest⟩ := h.removeFrom kind name
    exact ⟨hdone, hrest, h.cutsOf_eq kind name⟩

theorem apply (changes : List Change) :
    (e'.apply changes).1 = (e.apply changes).1 ∧ e'.splices changes = e.splices changes := by
  induction changes generalizing e e' with
  | nil => exact ⟨rfl, rfl⟩
  | cons c cs ih =>
    obtain ⟨hdone, hnext, hsplices⟩ := h.perform c
    obtain ⟨happlied, hrest⟩ := ih hnext
    refine ⟨?_, congrArg₂ (· ++ ·) hsplices hrest⟩
    rw [Editor.apply, Editor.apply]
    dsimp only
    rw [hdone, happlied]

end ReadsAs

/-- Editors of lines that read alike. -/
theorem readsAs_ofLines {lines lines' : List String} (h : List.Forall₂ Manifest.ReadsAs lines lines')
    (hend : (ofLines lines).lineEnd = "" ∨ (ofLines lines').lineEnd = "\r") :
    (ofLines lines).ReadsAs (ofLines lines') where
  lines := h
  sectionAt_eq kind := by cases kind <;> exact findFrom_eq h _ _
  lineEnd := by
    have hline := hasLineEnd_ofLines lines
    have hline' := hasLineEnd_ofLines lines'
    unfold HasLineEnd at hline hline'
    rcases hend with hend | hend
    · rw [hend]
      exact hline'
    · rw [hend]
      rcases hline with hline | hline
      · rw [hline]
        exact .inr rfl
      · rw [hline]
        exact .inl rfl

end Editor
end PubspecTidy.Manifest
