import PubspecTidy.Proofs.Sheet.Edits
import PubspecTidy.Proofs.Sheet.Reading
import PubspecTidy.Proofs.Text.Lines

/-!
# What an edit does to the meaning of a sheet

Main statement: on a sheet whose parts can be read on their own, the editor edits the meaning as it
edits the lines. The edited manifest can be read, it declares what the changes that took effect make
of the declarations before, and outside of the sections it has the same entries.
-/
namespace PubspecTidy.Manifest

open Yaml (Reading Token Value)

variable {n : Nat} {b : Block} {parts before after : List Part} {sheet above below : List Stretch}
  {kind source target : SectionKind} {header name : String} {e : Editor}

theorem anchorsDiffer_symm {r r' : Reading} (h : r.AnchorsDiffer r') : r'.AnchorsDiffer r :=
  fun x hx' hx => h x hx hx'

/-! ## Other parts in a section -/

theorem readingsOf_split (above below : List Stretch) (kind : SectionKind) (header : String)
    (parts : List Part) : readingsOf (above ++ .listed kind header parts :: below) =
      readingsOf above ++ ((Part.blocks parts).map Block.reading ++ readingsOf below) := by
  simp [readingsOf, Stretch.readings]

/-- What stands outside of the sections does not depend on them. -/
theorem othersOf_split (above below : List Stretch) (kind : SectionKind) (header : String)
    (parts : List Part) : othersOf (above ++ .listed kind header parts :: below) =
      othersOf above ++ othersOf below := by
  unfold othersOf
  rw [List.filterMap_append, List.filterMap_cons]
  rfl

theorem readingsOf_perm (above below : List Stretch) (kind : SectionKind) (header : String)
    (before after : List Part) (b : Block) :
    (readingsOf (above ++ .listed kind header (before ++ .block b :: after) :: below)).Perm
      (b.reading :: readingsOf (above ++ .listed kind header (before ++ after) :: below)) := by
  rw [readingsOf_split, readingsOf_split, Part.blocks_append, Part.blocks_append, Part.blocks_block,
    List.map_append, List.map_append, List.map_cons, List.append_assoc, List.append_assoc,
    List.cons_append, ← List.append_assoc, ← List.append_assoc]
  exact List.perm_middle

namespace Sound

/-- A section may get other parts that can be read on their own too. -/
theorem replace (h : Sound n (above ++ .listed kind header parts :: below)) {parts' : List Part}
    (hfits : ∀ part ∈ parts', part.Fits n) (hblocks : ∀ b ∈ Part.blocks parts', b.Sound n)
    (hnames : ((Part.blocks parts').map Block.name).Nodup)
    (hlegible : ∀ line ∈ Part.linesOf parts', IsLegible line)
    (hanchors : (readingsOf (above ++ .listed kind header parts' :: below)).Pairwise
      Reading.AnchorsDiffer) :
    Sound n (above ++ .listed kind header parts' :: below) where
  column := h.column
  inhabited := by simp
  fits := by
    obtain ⟨habove, hheader, -, hbelow⟩ := fits_split h.fits
    rw [List.forall_mem_append, List.forall_mem_cons]
    exact ⟨habove, ⟨hheader, hfits⟩, hbelow⟩
  each := by
    have heach := h.each
    rw [List.forall_mem_append, List.forall_mem_cons] at heach ⊢
    exact ⟨heach.1, ⟨heach.2.1.1, hblocks, hnames⟩, heach.2.2⟩
  legible := by
    have hall := h.legible
    unfold Stretch.linesOf at hall ⊢
    rw [List.flatMap_append, List.flatMap_cons, Stretch.lines, List.cons_append,
      List.forall_mem_append, List.forall_mem_cons, List.forall_mem_append] at hall ⊢
    exact ⟨hall.1, hall.2.1, hlegible, hall.2.2.2⟩
  kinds := by
    have hkinds := h.kinds
    rw [List.filterMap_append, List.filterMap_cons] at hkinds ⊢
    exact hkinds
  keys := by
    have hkeys := h.keys
    rw [othersOf_split] at hkeys ⊢
    exact hkeys
  anchors := hanchors
  seen := by
    have hseen := h.seen
    rw [List.map_append, List.map_cons] at hseen ⊢
    exact hseen

theorem fits_parts (h : Sound n (above ++ .listed kind header parts :: below)) :
    ∀ part ∈ parts, part.Fits n := (fits_split h.fits).2.2.1

theorem sound_blocks (h : Sound n (above ++ .listed kind header parts :: below)) :
    (∀ b ∈ Part.blocks parts, b.Sound n) ∧ ((Part.blocks parts).map Block.name).Nodup := by
  have hsound : (Stretch.listed kind header parts).Sound n := h.each _ (by simp)
  exact hsound.2

theorem legible_parts (h : Sound n (above ++ .listed kind header parts :: below)) :
    ∀ line ∈ Part.linesOf parts, IsLegible line := fun line hline => by
  refine h.legible line (List.mem_flatMap.mpr ⟨.listed kind header parts, by simp, ?_⟩)
  exact List.mem_cons_of_mem _ hline

/-- A sheet without one of its blocks. -/
theorem cut (h : Sound n (above ++ .listed kind header (before ++ .block b :: after) :: below)) :
    Sound n (above ++ .listed kind header (before ++ after) :: below) ∧
      ∀ r ∈ readingsOf (above ++ .listed kind header (before ++ after) :: below),
        b.reading.AnchorsDiffer r := by
  have hanchors := ((readingsOf_perm above below kind header before after b).pairwise_iff
    anchorsDiffer_symm).mp h.anchors
  obtain ⟨hapart, hrest⟩ := List.pairwise_cons.mp hanchors
  obtain ⟨hblocks, hnames⟩ := h.sound_blocks
  have hparts : (before ++ after).Sublist (before ++ .block b :: after) :=
    (List.sublist_cons_self _ _).append_left _
  have hsub : (Part.blocks (before ++ after)).Sublist
      (Part.blocks (before ++ .block b :: after)) := hparts.filterMap _
  refine ⟨h.replace (fun part hpart => h.fits_parts part (hparts.subset hpart))
    (fun b' hb' => hblocks b' (hsub.subset hb')) (hnames.sublist (hsub.map _))
    (fun line hline => ?_) hrest, hapart⟩
  obtain ⟨part, hpart, hline⟩ := List.mem_flatMap.mp hline
  exact h.legible_parts line (List.mem_flatMap.mpr ⟨part, hparts.subset hpart, hline⟩)

/-- A sheet with one more block. -/
theorem paste (h : Sound n (above ++ .listed kind header (before ++ after) :: below))
    (hb : b.Sound n) (hlegible : ∀ line ∈ b.lines, IsLegible line)
    (hname : ∀ b' ∈ Part.blocks (before ++ after), b'.name ≠ b.name)
    (hanchors : ∀ r ∈ readingsOf (above ++ .listed kind header (before ++ after) :: below),
      b.reading.AnchorsDiffer r) :
    Sound n (above ++ .listed kind header (before ++ .block b :: after) :: below) := by
  obtain ⟨hblocks, hnames⟩ := h.sound_blocks
  have hfits := h.fits_parts
  have hlines := h.legible_parts
  rw [Part.blocks_append, List.forall_mem_append] at hblocks hname
  rw [Part.blocks_append, List.map_append] at hnames
  rw [List.forall_mem_append] at hfits
  rw [Part.linesOf_append, List.forall_mem_append] at hlines
  refine h.replace ?_ ?_ ?_ ?_ ?_
  · rw [List.forall_mem_append, List.forall_mem_cons]
    exact ⟨hfits.1, hb.toFits, hfits.2⟩
  · rw [Part.blocks_append, Part.blocks_block, List.forall_mem_append, List.forall_mem_cons]
    exact ⟨hblocks.1, hb, hblocks.2⟩
  · rw [Part.blocks_append, Part.blocks_block, List.map_append, List.map_cons, List.nodup_middle,
      List.nodup_cons, List.mem_append, not_or]
    refine ⟨⟨fun hmem => ?_, fun hmem => ?_⟩, hnames⟩
    · obtain ⟨b', hb', heq⟩ := List.mem_map.mp hmem
      exact hname.1 b' hb' heq
    · obtain ⟨b', hb', heq⟩ := List.mem_map.mp hmem
      exact hname.2 b' hb' heq
  · rw [Part.linesOf_append, Part.linesOf_block, List.forall_mem_append, List.forall_mem_append]
    exact ⟨hlines.1, hlegible, hlines.2⟩
  · refine ((readingsOf_perm above below kind header before after b).pairwise_iff
      anchorsDiffer_symm).mpr ?_
    exact List.pairwise_cons.mpr ⟨hanchors, h.anchors⟩

theorem isHeaderText_name (kind : SectionKind) :
    Yaml.Scanner.IsHeaderText (wholeLines [kind.name ++ ":"]) kind.name.toList := by
  refine ⟨?_, ['\n'], ?_, by simp [Yaml.isBreak], rfl⟩
  · cases kind <;> decide
  · cases kind <;> decide

/-- A sheet with a new section that has no block yet. -/
theorem insert (h : Sound n (above ++ .listed source header before :: below))
    (hfits : ∀ part ∈ after, part.Fits n) (hafter : Part.blocks after = [])
    (hlegible : ∀ line ∈ Part.linesOf after, IsLegible line)
    (htarget : ∀ st ∈ above ++ .listed source header before :: below, st.kind? ≠ some target) :
    Sound n (above ++ .listed source header before ::
      .listed target (target.name ++ ":") after :: below) where
  column := h.column
  inhabited := by simp
  fits := by
    have hall := h.fits
    rw [List.forall_mem_append, List.forall_mem_cons] at hall
    rw [List.forall_mem_append, List.forall_mem_cons, List.forall_mem_cons]
    have hheader : isHeaderOf target.name (target.name ++ ":") = true := by
      cases target <;> decide
    exact ⟨hall.1, hall.2.1, ⟨hheader, hfits⟩, hall.2.2⟩
  each := by
    have hall := h.each
    rw [List.forall_mem_append, List.forall_mem_cons] at hall
    rw [List.forall_mem_append, List.forall_mem_cons, List.forall_mem_cons]
    refine ⟨hall.1, hall.2.1, ⟨isHeaderText_name target, ?_, ?_⟩, hall.2.2⟩
    · rw [hafter]
      intro b hb
      cases hb
    · rw [hafter]
      exact List.nodup_nil
  legible := by
    have hall := h.legible
    unfold Stretch.linesOf at hall ⊢
    rw [List.flatMap_append, List.flatMap_cons, List.forall_mem_append,
      List.forall_mem_append] at hall
    rw [List.flatMap_append, List.flatMap_cons, List.flatMap_cons, Stretch.lines, Stretch.lines,
      List.forall_mem_append, List.forall_mem_append, List.forall_mem_append,
      List.forall_mem_cons (a := target.name ++ ":")]
    have hheader : IsLegible (target.name ++ ":") := by
      cases target <;> decide
    exact ⟨hall.1, hall.2.1, ⟨hheader, hlegible⟩, hall.2.2⟩
  kinds := by
    have hkinds := h.kinds
    have hnew : target ∉ (above ++ Stretch.listed source header before :: below).filterMap
        Stretch.kind? := fun hmem => by
      obtain ⟨st, hst, hkind⟩ := List.mem_filterMap.mp hmem
      exact htarget st hst hkind
    rw [List.filterMap_append, List.filterMap_cons_some (f := Stretch.kind?) rfl] at hkinds hnew
    rw [List.filterMap_append, List.filterMap_cons_some (f := Stretch.kind?) rfl,
      List.filterMap_cons_some (f := Stretch.kind?) rfl, List.append_cons, List.nodup_middle,
      ← List.append_cons]
    exact List.nodup_cons.mpr ⟨hnew, hkinds⟩
  keys := by
    have hkeys := h.keys
    rw [othersOf_split] at hkeys ⊢
    exact hkeys
  anchors := by
    have hanchors := h.anchors
    unfold readingsOf at hanchors ⊢
    rw [List.flatMap_append, List.flatMap_cons] at hanchors
    rw [List.flatMap_append, List.flatMap_cons, List.flatMap_cons, Stretch.readings,
      Stretch.readings, hafter]
    exact hanchors
  seen := by
    have hseen := h.seen
    rw [List.map_append, List.map_cons, List.isChain_split] at hseen
    rw [List.map_append, List.map_cons, List.map_cons, List.isChain_split]
    exact ⟨hseen.1, List.isChain_cons_cons.mpr ⟨fun hscalar => (by cases hscalar), hseen.2⟩⟩

/-- A section that is created takes over what stands behind the last block of another one. -/
theorem create (h : Sound n (above ++ .listed source header (before ++ after) :: below))
    (hafter : Part.blocks after = [])
    (htarget : ∀ st ∈ above ++ .listed source header (before ++ after) :: below,
      st.kind? ≠ some target) :
    Sound n (above ++ .listed source header (before ++ [Part.gap ""]) ::
      .listed target (target.name ++ ":") after :: below) := by
  obtain ⟨hblocks, hnames⟩ := h.sound_blocks
  have hfits := h.fits_parts
  have hlines := h.legible_parts
  have hanchors := h.anchors
  rw [readingsOf_split] at hanchors
  rw [Part.blocks_append, hafter, List.append_nil] at hblocks hnames hanchors
  rw [List.forall_mem_append] at hfits
  rw [Part.linesOf_append, List.forall_mem_append] at hlines
  have hgap : Part.blocks (before ++ [Part.gap ""]) = Part.blocks before := by
    rw [Part.blocks_append]
    exact List.append_nil _
  have hreplaced : Sound n (above ++ .listed source header (before ++ [Part.gap ""]) :: below) := by
    refine h.replace ?_ ?_ ?_ ?_ ?_
    · rw [List.forall_mem_append, List.forall_mem_singleton]
      exact ⟨hfits.1, by decide, .inl (by decide)⟩
    · rwa [hgap]
    · rwa [hgap]
    · rw [Part.linesOf_append, List.forall_mem_append]
      refine ⟨hlines.1, fun line hline => ?_⟩
      rw [List.mem_singleton.mp hline]
      intro c hc
      cases hc
    · rwa [readingsOf_split, hgap]
  refine hreplaced.insert hfits.2 hafter hlines.2 fun st hst => ?_
  rcases List.mem_append.mp hst with hst | hst
  · exact htarget st (List.mem_append_left _ hst)
  rcases List.mem_cons.mp hst with rfl | hst
  · exact htarget (.listed source header (before ++ after)) (by simp)
  · exact htarget st (List.mem_append_right _ (List.mem_cons_of_mem _ hst))

end Sound

/-! ## Blocks by their names -/

theorem filter_ne_of_forall {bs : List Block} (h : ∀ b ∈ bs, b.name ≠ name) :
    bs.filter (·.name != name) = bs :=
  List.filter_eq_self.mpr fun b hb => by simpa using h b hb

theorem filter_eq_of_forall {bs : List Block} (h : ∀ b ∈ bs, b.name ≠ name) :
    bs.filter (·.name == name) = [] :=
  List.filter_eq_nil_iff.mpr fun b hb => by simpa using h b hb

/-- A package has one block at most. -/
theorem filter_split {bs more : List Block} (h : ((bs ++ b :: more).map Block.name).Nodup) :
    (bs ++ b :: more).filter (·.name != b.name) = bs ++ more ∧
      (bs ++ b :: more).filter (·.name == b.name) = [b] := by
  rw [List.map_append, List.map_cons, List.nodup_middle, List.nodup_cons, List.mem_append,
    not_or] at h
  have hfirst : ∀ b' ∈ bs, b'.name ≠ b.name := fun b' hb' heq =>
    h.1.1 (List.mem_map.mpr ⟨b', hb', heq⟩)
  have hmore : ∀ b' ∈ more, b'.name ≠ b.name := fun b' hb' heq =>
    h.1.2 (List.mem_map.mpr ⟨b', hb', heq⟩)
  constructor
  · rw [List.filter_append, List.filter_cons_of_neg (by simp), filter_ne_of_forall hfirst,
      filter_ne_of_forall hmore]
  · rw [List.filter_append, List.filter_cons_of_pos (by simp), filter_eq_of_forall hfirst,
      filter_eq_of_forall hmore, List.nil_append]

/-! ## The steps of the editor -/

/-- A sheet from which a block was taken. -/
structure Taken (n : Nat) (kind : SectionKind) (b : Block) (sheet sheet' : List Stretch) :
    Prop where
  sound : Sound n sheet'
  block : b.Sound n
  legible : ∀ line ∈ b.lines, IsLegible line
  apart : ∀ r ∈ readingsOf sheet', b.reading.AnchorsDiffer r
  only : (blocksOf sheet kind).filter (·.name == b.name) = [b]
  blocks : ∀ k, blocksOf sheet' k =
    if k = kind then (blocksOf sheet k).filter (·.name != b.name) else blocksOf sheet k
  others : othersOf sheet' = othersOf sheet
  source : ∃ st ∈ sheet', st.kind? = some kind

theorem taken_of_split
    (h : Sound n (above ++ .listed kind header (before ++ .block b :: after) :: below)) :
    Taken n kind b (above ++ .listed kind header (before ++ .block b :: after) :: below)
      (above ++ .listed kind header (before ++ after) :: below) where
  sound := h.cut.1
  block := h.sound_blocks.1 b (by simp [Part.blocks_append])
  legible line hline := by
    refine h.legible_parts line ?_
    rw [Part.linesOf_append, Part.linesOf_block]
    exact List.mem_append_right _ (List.mem_append_left _ hline)
  apart := h.cut.2
  only := by
    have hnames := h.sound_blocks.2
    rw [h.blocksOf_eq]
    rw [Part.blocks_append, Part.blocks_block] at hnames ⊢
    exact (filter_split hnames).2
  blocks k := by
    by_cases hk : k = kind
    · subst hk
      have hnames := h.sound_blocks.2
      rw [Part.blocks_append, Part.blocks_block] at hnames
      rw [if_pos rfl, h.blocksOf_eq, h.cut.1.blocksOf_eq, Part.blocks_append before after,
        Part.blocks_append before (.block b :: after), Part.blocks_block, (filter_split hnames).1]
    · rw [if_neg hk, blocksOf_split, blocksOf_split, if_neg (Ne.symm hk), if_neg (Ne.symm hk)]
  others := by rw [othersOf_split, othersOf_split]
  source := ⟨.listed kind header (before ++ after), by simp, rfl⟩

namespace Editor.Shows

/-- The editor cuts the block of a package out, if there is one. -/
theorem exists_taken (h : e.Shows sheet) (hsound : Sound n sheet) (kind : SectionKind)
    (name : String) :
    (e.cut? kind name = none ∧ ∀ b ∈ blocksOf sheet kind, b.name ≠ name) ∨
      ∃ b e' sheet', b.name = name ∧ e.cut? kind name = some (b.lines, e') ∧ e'.Shows sheet' ∧
        Taken n kind b sheet sheet' := by
  by_cases hname : ∃ b ∈ blocksOf sheet kind, b.name = name
  · right
    obtain ⟨b, hb, rfl⟩ := hname
    have hkind : ∃ st ∈ sheet, st.kind? = some kind := by
      by_contra hnone
      rw [blocksOf_eq_nil fun st hst hk => hnone ⟨st, hst, hk⟩] at hb
      cases hb
    obtain ⟨above, header, parts, below, rfl, habove⟩ := Stretch.exists_first hkind
    rw [hsound.blocksOf_eq] at hb
    obtain ⟨before, after, rfl⟩ := List.append_of_mem (Part.mem_of_mem_blocks hb)
    have hnames := hsound.sound_blocks.2
    rw [Part.blocks_append, Part.blocks_block, List.map_append, List.map_cons,
      List.nodup_middle, List.nodup_cons, List.mem_append, not_or] at hnames
    have hbefore : ∀ b' ∈ Part.blocks before, b'.name ≠ b.name := fun b' hb' heq =>
      hnames.1.1 (List.mem_map.mpr ⟨b', hb', heq⟩)
    obtain ⟨e', hcut, hshows⟩ := h.cut hsound.fits habove hbefore
    exact ⟨b, e', _, rfl, hcut, hshows, taken_of_split hsound⟩
  · left
    have hnone : ∀ b ∈ blocksOf sheet kind, b.name ≠ name := fun b hb heq => hname ⟨b, hb, heq⟩
    exact ⟨h.cut_eq_none hsound.fits hnone, hnone⟩

/-- The editor pastes a block into a section. -/
theorem exists_pasted (h : e.Shows sheet) (hsound : Sound n sheet)
    (hkind : ∃ st ∈ sheet, st.kind? = some kind) (hb : b.Sound n)
    (hlegible : ∀ line ∈ b.lines, IsLegible line)
    (hname : ∀ b' ∈ blocksOf sheet kind, b'.name ≠ b.name)
    (hanchors : ∀ r ∈ readingsOf sheet, b.reading.AnchorsDiffer r) :
    ∃ sheet', (e.paste kind b.name b.lines).Shows sheet' ∧ Sound n sheet' ∧
      othersOf sheet' = othersOf sheet ∧ (blocksOf sheet' kind).Perm (b :: blocksOf sheet kind) ∧
      ∀ k, k ≠ kind → blocksOf sheet' k = blocksOf sheet k := by
  obtain ⟨above, header, parts, below, rfl, habove⟩ := Stretch.exists_first hkind
  obtain ⟨before, after, rfl, hshows⟩ := h.paste hsound.fits habove hb.toFits
  rw [hsound.blocksOf_eq] at hname
  have hpasted := hsound.paste hb hlegible hname hanchors
  refine ⟨_, hshows, hpasted, ?_, ?_, fun k hk => ?_⟩
  · rw [othersOf_split, othersOf_split]
  · rw [hsound.blocksOf_eq, hpasted.blocksOf_eq, Part.blocks_append, Part.blocks_append,
      Part.blocks_block]
    exact List.perm_middle
  · rw [blocksOf_split, blocksOf_split, if_neg (Ne.symm hk), if_neg (Ne.symm hk)]

/-- The editor creates a section behind another one. -/
theorem exists_created (h : e.Shows sheet) (hsound : Sound n sheet)
    (hsource : ∃ st ∈ sheet, st.kind? = some source)
    (htarget : ∀ st ∈ sheet, st.kind? ≠ some target) :
    ∃ sheet', (e.createSection target (e.sectionAt source)).Shows sheet' ∧ Sound n sheet' ∧
      (∃ st ∈ sheet', st.kind? = some target) ∧ othersOf sheet' = othersOf sheet ∧
      readingsOf sheet' = readingsOf sheet ∧ ∀ k, blocksOf sheet' k = blocksOf sheet k := by
  obtain ⟨above, header, parts, below, rfl, habove⟩ := Stretch.exists_first hsource
  have hsection := h.sectionAt_eq hsound.fits habove
  obtain ⟨before, after, rfl, hafter, hshows⟩ := h.createSection hsound.fits target
  have hgap : Part.blocks (before ++ [Part.gap ""]) = Part.blocks (before ++ after) := by
    rw [Part.blocks_append, Part.blocks_append, hafter]
    rfl
  rw [hsection]
  refine ⟨_, hshows, hsound.create hafter htarget,
    ⟨.listed target (target.name ++ ":") after, by simp, rfl⟩, ?_, ?_, fun k => ?_⟩
  · rw [othersOf_split, othersOf_split]
    rfl
  · rw [readingsOf_split, readingsOf_split, hgap]
    simp [readingsOf, Stretch.readings, hafter]
  · rw [blocksOf_split, blocksOf_split, hgap]
    simp [blocksOf, Stretch.blocksIn, hafter]

/-- The editor removes a package from a section. -/
theorem exists_removed (h : e.Shows sheet) (hsound : Sound n sheet) (kind : SectionKind)
    (name : String) :
    ∃ sheet', (e.removeFrom kind name).2.Shows sheet' ∧ Sound n sheet' ∧
      othersOf sheet' = othersOf sheet ∧
      (∀ k, blocksOf sheet' k = if k = kind then (blocksOf sheet k).filter (·.name != name)
        else blocksOf sheet k) ∧ ((e.removeFrom kind name).1 = false → sheet' = sheet) := by
  unfold Editor.removeFrom
  rcases h.exists_taken hsound kind name with
    ⟨hcut, hnone⟩ | ⟨b, e', sheet', rfl, hcut, hshows, htaken⟩
  · rw [hcut]
    refine ⟨sheet, h, hsound, rfl, fun k => ?_, fun _ => rfl⟩
    by_cases hk : k = kind
    · subst hk
      rw [if_pos rfl, filter_ne_of_forall hnone]
    · rw [if_neg hk]
  · rw [hcut]
    exact ⟨sheet', hshows, htaken.sound, htaken.others, htaken.blocks, fun hdone => by cases hdone⟩

end Editor.Shows

/-! ## Changes -/

/-- What a change makes of a sheet. -/
structure Changed (n : Nat) (c : Change) (sheet sheet' : List Stretch) : Prop where
  sound : Sound n sheet'
  others : othersOf sheet' = othersOf sheet
  declared : ∀ kind, (declaredOf sheet' kind).Perm (c.make (declaredOf sheet) kind)

theorem declared_filter_ne (bs : List Block) (name : String) :
    (bs.filter (·.name != name)).map (fun b => (b.name, b.version)) =
      (bs.map fun b => (b.name, b.version)).filter (·.1 != name) := by
  rw [List.filter_map]
  rfl

theorem declared_filter_eq (bs : List Block) (name : String) :
    (bs.filter (·.name == name)).map (fun b => (b.name, b.version)) =
      (bs.map fun b => (b.name, b.version)).filter (·.1 == name) := by
  rw [List.filter_map]
  rfl

namespace Editor.Shows

variable {c : Change}

theorem perform_remove (h : e.Shows sheet) (hsound : Sound n sheet) (hc : c.action = .remove) :
    ∃ sheet', (e.perform c).2.Shows sheet' ∧ Changed n c sheet sheet' ∧
      ((e.perform c).1 = false → sheet' = sheet) := by
  obtain ⟨first, hfirst, hfirstSound, hfirstOthers, hfirstBlocks, hfirstSame⟩ :=
    h.exists_removed hsound .dependencies c.package
  obtain ⟨second, hsecond, hsecondSound, hsecondOthers, hsecondBlocks, hsecondSame⟩ :=
    hfirst.exists_removed hfirstSound .devDependencies c.package
  have hperform : e.perform c = e.remove c.package := by rw [Editor.perform, hc]
  rw [hperform]
  refine ⟨second, hsecond, ⟨hsecondSound, hsecondOthers.trans hfirstOthers, fun kind => ?_⟩,
    fun hdone => ?_⟩
  · have hblocks : blocksOf second kind = (blocksOf sheet kind).filter (·.name != c.package) := by
      rw [hsecondBlocks, hfirstBlocks]
      cases kind <;> rfl
    rw [Change.make, hc]
    dsimp only
    rw [declaredOf, hblocks, declared_filter_ne]
    exact List.Perm.refl _
  · obtain ⟨hdone, hdone'⟩ := Bool.or_eq_false_iff.mp hdone
    exact (hsecondSame hdone').trans (hfirstSame hdone)

theorem perform_removeFrom (h : e.Shows sheet) (hsound : Sound n sheet)
    (hc : c.action = .removeFrom source) :
    ∃ sheet', (e.perform c).2.Shows sheet' ∧ Changed n c sheet sheet' ∧
      ((e.perform c).1 = false → sheet' = sheet) := by
  obtain ⟨sheet', hshows, hsound', hothers, hblocks, hsame⟩ :=
    h.exists_removed hsound source c.package
  have hperform : e.perform c = e.removeFrom source c.package := by rw [Editor.perform, hc]
  rw [hperform]
  refine ⟨sheet', hshows, ⟨hsound', hothers, fun kind => ?_⟩, hsame⟩
  rw [Change.make, hc]
  dsimp only
  rw [declaredOf, hblocks]
  by_cases hk : kind = source
  · rw [if_pos hk, if_pos hk, declared_filter_ne]
    exact List.Perm.refl _
  · rw [if_neg hk, if_neg hk]
    exact List.Perm.refl _

/-- The target of a move is there, or is created behind the source. -/
theorem exists_target (h : e.Shows sheet) (hsound : Sound n sheet)
    (hsource : ∃ st ∈ sheet, st.kind? = some source) (target : SectionKind) :
    ∃ sheet', (if (e.sectionAt target).isSome then e
        else e.createSection target (e.sectionAt source)).Shows sheet' ∧ Sound n sheet' ∧
      (∃ st ∈ sheet', st.kind? = some target) ∧ othersOf sheet' = othersOf sheet ∧
      readingsOf sheet' = readingsOf sheet ∧ ∀ k, blocksOf sheet' k = blocksOf sheet k := by
  by_cases htarget : ∃ st ∈ sheet, st.kind? = some target
  · obtain ⟨above, header, parts, below, rfl, habove⟩ := Stretch.exists_first htarget
    rw [h.sectionAt_eq hsound.fits habove]
    exact ⟨_, h, hsound, htarget, rfl, rfl, fun _ => rfl⟩
  · have hnone : ∀ st ∈ sheet, st.kind? ≠ some target := fun st hst hk => htarget ⟨st, hst, hk⟩
    rw [h.sectionAt_eq_none hsound.fits hnone]
    exact h.exists_created hsound hsource hnone

theorem perform_moveTo (h : e.Shows sheet) (hsound : Sound n sheet)
    (hc : c.action = .moveTo target)
    (honce : ∀ b ∈ blocksOf sheet target.other, b.name = c.package →
      ∀ b' ∈ blocksOf sheet target, b'.name ≠ c.package) :
    ∃ sheet', (e.perform c).2.Shows sheet' ∧ Changed n c sheet sheet' ∧
      ((e.perform c).1 = false → sheet' = sheet) := by
  have hperform : e.perform c = e.move c.package target.other target := by rw [Editor.perform, hc]
  have hne : target.other ≠ target := by cases target <;> decide
  rw [hperform, Editor.move]
  rcases h.exists_taken hsound target.other c.package with
    ⟨hcut, hnone⟩ | ⟨b, e', taken, hname, hcut, hshows, htaken⟩
  · rw [hcut]
    refine ⟨sheet, h, ⟨hsound, rfl, fun kind => ?_⟩, fun _ => rfl⟩
    rw [Change.make, hc]
    dsimp only
    by_cases hk : kind = target
    · subst hk
      rw [if_pos rfl, declaredOf, declaredOf, ← declared_filter_eq, filter_eq_of_forall hnone,
        List.map_nil, List.append_nil]
    · rw [if_neg hk, SectionKind.eq_other_of_ne hk, declaredOf, ← declared_filter_ne,
        filter_ne_of_forall hnone]
  · rw [hcut]
    obtain ⟨opened, hopened, hopenedSound, hopenedKind, hopenedOthers, hopenedReadings,
      hopenedBlocks⟩ := hshows.exists_target htaken.sound htaken.source target
    have hmem : b ∈ blocksOf sheet target.other := by
      refine List.mem_of_mem_filter (p := (·.name == b.name)) ?_
      rw [htaken.only]
      exact List.mem_singleton_self b
    have htarget : blocksOf opened target = blocksOf sheet target := by
      rw [hopenedBlocks, htaken.blocks, if_neg hne.symm]
    have hfresh : ∀ b' ∈ blocksOf opened target, b'.name ≠ b.name := by
      rw [htarget, hname]
      exact honce b hmem hname
    obtain ⟨pasted, hpasted, hpastedSound, hpastedOthers, hpastedBlocks, hpastedRest⟩ :=
      hopened.exists_pasted hopenedSound hopenedKind htaken.block htaken.legible hfresh
        (by rw [hopenedReadings]; exact htaken.apart)
    rw [hname] at hpasted
    refine ⟨pasted, hpasted, ⟨hpastedSound,
      hpastedOthers.trans (hopenedOthers.trans htaken.others), fun kind => ?_⟩,
      fun hdone => by cases hdone⟩
    rw [Change.make, hc]
    dsimp only
    by_cases hk : kind = target
    · subst hk
      have hmade : (declaredOf sheet kind.other).filter (·.1 == c.package) =
          [(b.name, b.version)] := by
        rw [declaredOf, ← declared_filter_eq, ← hname, htaken.only, List.map_singleton]
      have hperm := hpastedBlocks.map fun b => (b.name, b.version)
      rw [htarget, List.map_cons] at hperm
      rw [if_pos rfl, hmade]
      exact hperm.trans (List.perm_append_singleton _ _).symm
    · rw [if_neg hk, SectionKind.eq_other_of_ne hk, declaredOf, hpastedRest _ hne, hopenedBlocks,
        htaken.blocks, if_pos rfl, hname, declared_filter_ne]
      exact List.Perm.refl _

/-- The editor changes the meaning of a sheet as it changes the lines. -/
theorem perform (h : e.Shows sheet) (hsound : Sound n sheet)
    (honce : ∀ target, c.action = .moveTo target → ∀ b ∈ blocksOf sheet target.other,
      b.name = c.package → ∀ b' ∈ blocksOf sheet target, b'.name ≠ c.package) :
    ∃ sheet', (e.perform c).2.Shows sheet' ∧ Changed n c sheet sheet' ∧
      ((e.perform c).1 = false → sheet' = sheet) := by
  cases hc : c.action with
  | remove => exact h.perform_remove hsound hc
  | removeFrom source => exact h.perform_removeFrom hsound hc
  | moveTo target => exact h.perform_moveTo hsound hc (honce target hc)

/-- Changes one after the other make of the declarations of a sheet what those that take effect
make of them. -/
theorem apply {changes : List Change} (h : e.Shows sheet) (hsound : Sound n sheet)
    (honce : ∀ c ∈ changes, ∀ target, c.action = .moveTo target →
      ¬ DeclaredTwice (declaredOf sheet) c.package) :
    ∃ sheet', (e.apply changes).2.Shows sheet' ∧ Sound n sheet' ∧
      othersOf sheet' = othersOf sheet ∧ ∀ kind,
        (declaredOf sheet' kind).Perm (makeAll (e.apply changes).1 (declaredOf sheet) kind) := by
  induction changes generalizing e sheet with
  | nil => exact ⟨sheet, h, hsound, rfl, fun _ => List.Perm.refl _⟩
  | cons c cs ih =>
    have hfirst : ∀ target, c.action = .moveTo target → ∀ b ∈ blocksOf sheet target.other,
        b.name = c.package → ∀ b' ∈ blocksOf sheet target, b'.name ≠ c.package := by
      intro target hc b hb hname b' hb' hname'
      refine honce c List.mem_cons_self target hc fun kind => ?_
      by_cases hk : kind = target
      · subst hk
        exact ⟨_, List.mem_map_of_mem hb', hname'⟩
      · obtain rfl := SectionKind.eq_other_of_ne hk
        exact ⟨_, List.mem_map_of_mem hb, hname⟩
    obtain ⟨next, hnext, hchanged, hsame⟩ := h.perform hsound hfirst
    have hrest : ∀ c' ∈ cs, ∀ target, c'.action = .moveTo target →
        ¬ DeclaredTwice (declaredOf next) c'.package := by
      intro c' hc' target haction htwice
      refine honce c' (List.mem_cons_of_mem _ hc') target haction (declaredTwice_of_make
        (c := c) fun kind => ?_)
      obtain ⟨x, hx, hname⟩ := htwice kind
      exact ⟨x, (hchanged.declared kind).mem_iff.mp hx, hname⟩
    obtain ⟨last, hlast, hlastSound, hlastOthers, hlastDeclared⟩ := ih hnext hchanged.sound hrest
    refine ⟨last, hlast, hlastSound, hlastOthers.trans hchanged.others, fun kind => ?_⟩
    have hdone : (e.apply (c :: cs)).1 = if (e.perform c).1 = true
        then c :: ((e.perform c).2.apply cs).1 else ((e.perform c).2.apply cs).1 := rfl
    refine (hlastDeclared kind).trans ?_
    rw [hdone]
    split
    · exact makeAll_perm hchanged.declared _ kind
    · rename_i heffect
      rw [hsame (by simpa using heffect)]

end Editor.Shows

/-! ## Manifests -/

theorem splitLines_sheet (h : Sound n sheet) :
    Text.splitLines (Text.joinLines (Stretch.linesOf sheet ++ [""])) =
      Stretch.linesOf sheet ++ [""] := by
  refine Text.splitLines_joinLines (List.append_ne_nil_of_right_ne_nil _
    (List.cons_ne_nil "" [])) fun line hline hbreak => ?_
  rcases List.mem_append.mp hline with hline | hline
  · exact (h.legible line hline _ hbreak).2.2.1 rfl
  · rw [List.mem_singleton.mp hline] at hbreak
    cases hbreak

theorem shows_ofText (h : Sound n sheet) :
    (Editor.ofText (Text.joinLines (Stretch.linesOf sheet ++ [""]))).Shows sheet := by
  unfold Editor.ofText
  rw [splitLines_sheet h]
  refine ⟨rfl, Editor.tracked_ofLines _, ?_⟩
  have hreturn : (Stretch.linesOf sheet ++ [""]).any Editor.endsInReturn = false := by
    refine List.any_eq_false.mpr fun line hline hends => ?_
    have hmem : '\r' ∈ line.toList :=
      List.mem_of_getLast? (by simpa [Editor.endsInReturn] using hends)
    rcases List.mem_append.mp hline with hline | hline
    · exact (h.legible line hline _ hmem).2.2.2 rfl
    · rw [List.mem_singleton.mp hline] at hmem
      cases hmem
  unfold Editor.ofLines
  rw [hreturn]
  rfl

/-- Outside of their sections, two documents have the same entries, up to the numbers of their
collections. -/
def SameOutside (s s' : Reading) : Prop := ∃ rs, HoldsOutside rs s ∧ HoldsOutside rs s'

/-- The editor edits the meaning of a manifest as it edits its lines, if the manifest is a sheet
whose parts can be read on their own, and no package that is moved is declared in both sections. -/
theorem apply_sheet (h : Sound n sheet) {text : String}
    (htext : text = Text.joinLines (Stretch.linesOf sheet ++ [""])) {ds : Declarations}
    (hds : readDeclarations text = .ok ds) {changes : List Change}
    (honce : ∀ c ∈ changes, ∀ target, c.action = .moveTo target →
      ¬ DeclaredTwice ds.declared c.package) :
    ∃ s s' ds', load text = .ok (s.document, s.top) ∧
      load ((Editor.ofText text).apply changes).2.text = .ok (s'.document, s'.top) ∧
      SameOutside s s' ∧
      readDeclarations ((Editor.ofText text).apply changes).2.text = .ok ds' ∧
      ∀ kind, (ds'.declared kind).Perm
        (makeAll ((Editor.ofText text).apply changes).1 ds.declared kind) := by
  subst htext
  obtain ⟨s, found, hload, houtside, hfound, hdeclared⟩ := h.exists_reading
  obtain rfl : found = ds := Except.ok.inj (hfound.symm.trans hds)
  rw [hdeclared] at honce ⊢
  obtain ⟨sheet', hshows, hsound, hothers, hperm⟩ := (shows_ofText h).apply h honce
  obtain ⟨s', ds', hload', houtside', hds', hdeclared'⟩ := hsound.exists_reading
  rw [hothers] at houtside'
  have htext : ((Editor.ofText (Text.joinLines (Stretch.linesOf sheet ++ [""]))).apply
      changes).2.text = Text.joinLines (Stretch.linesOf sheet' ++ [""]) := by
    rw [Editor.text, hshows.lines]
  rw [htext]
  refine ⟨s, s', ds', hload, hload', ⟨_, houtside, houtside'⟩, hds', fun kind => ?_⟩
  rw [hdeclared']
  exact hperm kind

/-! ## A manifest that is a sheet -/

/-- A line can be read on its own, as an entry with one value. -/
structure ReadsAlone (n : Nat) (line name : String) (v : Value) (r : Reading) : Prop where
  reads : r.Of n (wholeLines [line]) false
  top : r.top = [(.string name, v)]
  document : r.document = ⟨[(0, .mapping [(.string name, v)])], .ref 0⟩
  anchors : ∀ x, Token.anchor x ∉ r.tokens

/-- A line that is an entry with a plain value can be read on its own if this can be computed. -/
theorem exists_line_reading {n : Nat} {line name : String} (value : String) (v : Value)
    (hword : Yaml.IsWord name.toList)
    (hkey : (Yaml.Cursor.ofText (wholeLines [line])).nextSeen.rest =
      name.toList ++ ':' :: ' ' :: (value.toList ++ ['\n']))
    (hcolumn : (Yaml.Cursor.ofText (wholeLines [line])).nextSeen.column = n)
    (hstays : ∀ k < (wholeLines [line]).length,
      ((Yaml.Cursor.ofText (wholeLines [line])).skip k).Stays n)
    (htokens : (Yaml.Scanner.run ((wholeLines [line]).length + 2)
        (Yaml.Scanner.atLine (Yaml.Cursor.ofText (wholeLines [line])) [] (-1) [])).tokens =
      [.blockMappingStart, .key, .scalar name true, .value, .scalar value true, .blockEnd,
        .streamEnd])
    (hfault : (Yaml.Scanner.run ((wholeLines [line]).length + 2)
        (Yaml.Scanner.atLine (Yaml.Cursor.ofText (wholeLines [line])) [] (-1) [])).fault = none)
    (hplain : ((wholeLines [line]).all fun c => decide (c ≠ '|' ∧ c ≠ '>' ∧
      c ≠ Yaml.byteOrderMark ∧ Yaml.isPermitted c = true)) = true)
    (hmerges : (Yaml.Graph.ofText (String.ofList (wholeLines [line]))).toOption.any
      Yaml.Graph.mergesNothing = true)
    (hdoc : Yaml.Document.read (String.ofList (wholeLines [line])) =
      .ok ⟨[(0, .mapping [(.string name, v)])], .ref 0⟩) :
    ∃ r, ReadsAlone n line name v r := by
  have hscanned : (Yaml.Scanner.run ((wholeLines [line]).length + 2)
      (Yaml.Scanner.atLine (Yaml.Cursor.ofText (wholeLines [line])) [] (-1) [])).tokens =
        .blockMappingStart :: .key :: .scalar (String.ofList name.toList) true :: .value ::
          ([.scalar value true] ++ [Token.blockEnd, .streamEnd]) := by
    rw [htokens, String.ofList_toList]
    rfl
  have hplain : ∀ c ∈ wholeLines [line], c ≠ '|' ∧ c ≠ '>' ∧ c ≠ Yaml.byteOrderMark ∧
      Yaml.isPermitted c = true :=
    fun c hc => of_decide_eq_true (List.all_eq_true.mp hplain c hc)
  obtain ⟨r, hr, hrtokens, hrdoc⟩ := Reading.exists_of_computed hword hkey rfl hcolumn hstays
    hscanned hfault (by simp)
    (fun h => (hplain _ h).1 rfl) (fun h => (hplain _ h).2.1 rfl)
    (fun h => (hplain _ (List.mem_of_mem_head? h)).2.2.1 rfl)
    (List.all_eq_true.mpr fun c hc => (hplain c hc).2.2.2) hmerges hdoc
  refine ⟨r, hr, ?_, hrdoc, fun x hx => ?_⟩
  · have hcells := congrArg Yaml.Document.cells hrdoc
    simpa [Reading.document] using (List.cons.inj hcells).1
  · rw [hrtokens] at hx
    simp at hx

theorem exists_line_readings :
    (∃ r, ReadsAlone 0 "name: app" "name" (.string "app") r) ∧
    (∃ r, ReadsAlone 2 "  http: 1" "http" (.int 1) r) ∧
    ∃ r, ReadsAlone 2 "  test: any" "test" (.string "any") r := by
  refine ⟨exists_line_reading "app" (.string "app") ?_ ?_ ?_ ?_ ?_ ?_ ?_ ?_ ?_,
    exists_line_reading "1" (.int 1) ?_ ?_ ?_ ?_ ?_ ?_ ?_ ?_ ?_,
    exists_line_reading "any" (.string "any") ?_ ?_ ?_ ?_ ?_ ?_ ?_ ?_ ?_⟩ <;> decide +kernel

def manifestWithTest : String := "name: app\ndependencies:\n  http: 1\n  test: any\n"

theorem splitLines_manifestWithTest : Text.splitLines manifestWithTest =
    ["name: app", "dependencies:", "  http: 1", "  test: any", ""] :=
  Text.splitLines_of_eq_ofList rfl rfl

theorem sound_line {n : Nat} {first name : String} {version : Option String} {r : Reading}
    {v : Value} (hr : ReadsAlone n first name v r)
    (hdeclares : isDependencyLine first = true) (hname : declaredName? first = some name)
    (hcolumn : indentation first = n)
    (hshown : shownPair ⟨[(0, .mapping [(.string name, v)])], .ref 0⟩ (.string name, v) =
      .ok (name, version)) : (⟨name, version, first, [], r⟩ : Block).Sound n := by
  refine ⟨⟨hdeclares, hname, hcolumn, rfl⟩, hr.reads, ⟨v, hr.top⟩, ?_⟩
  unfold shownIn
  rw [hr.top, hr.document, List.mapM_cons, hshown]
  rfl

theorem exists_sheet_manifestWithTest : ∃ sheet, Sound 2 sheet ∧
    manifestWithTest = Text.joinLines (Stretch.linesOf sheet ++ [""]) := by
  obtain ⟨⟨r, hr⟩, ⟨r₁, hr₁⟩, r₂, hr₂⟩ := exists_line_readings
  have hhttp : (⟨"http", some "1", "  http: 1", [], r₁⟩ : Block).Sound 2 :=
    sound_line hr₁ (by decide) (by decide) (by decide) (by decide +kernel)
  have htest : (⟨"test", some "any", "  test: any", [], r₂⟩ : Block).Sound 2 :=
    sound_line hr₂ (by decide) (by decide) (by decide) rfl
  refine ⟨[.other ["name: app"] r false, .listed .dependencies "dependencies:"
    [.block ⟨"http", some "1", "  http: 1", [], r₁⟩,
     .block ⟨"test", some "any", "  test: any", [], r₂⟩]], ?_, ?_⟩
  · refine ⟨by decide, by simp, ?_, ?_, ?_, ?_, ?_, ?_, ?_⟩
    · rw [List.forall_mem_cons, List.forall_mem_singleton]
      refine ⟨⟨?_, by decide, ?_⟩, by decide, ?_⟩
      · rw [List.forall_mem_singleton]
        intro kind
        cases kind <;> decide
      · exact shallow_cons (.inr (by decide)) shallow_nil
      · rw [List.forall_mem_cons, List.forall_mem_singleton]
        exact ⟨hhttp.toFits, htest.toFits⟩
    · rw [List.forall_mem_cons, List.forall_mem_singleton]
      refine ⟨⟨hr.reads, ?_⟩, Sound.isHeaderText_name .dependencies, ?_, ?_⟩
      · rw [hr.top, List.forall_mem_singleton]
        intro kind
        exact Yaml.Value.differs_string (by cases kind <;> decide)
      · exact List.forall_mem_cons.mpr ⟨hhttp, List.forall_mem_singleton.mpr htest⟩
      · change ["http", "test"].Nodup
        decide
    · change ∀ line ∈ ["name: app", "dependencies:", "  http: 1", "  test: any"], IsLegible line
      decide
    · exact List.nodup_singleton _
    · exact List.pairwise_singleton _ _
    · change [r, r₁, r₂].Pairwise Reading.AnchorsDiffer
      refine List.pairwise_cons.mpr ⟨fun _ _ x hx => absurd hx (hr.anchors x), ?_⟩
      refine List.pairwise_cons.mpr ⟨fun _ _ x hx => absurd hx (hr₁.anchors x), ?_⟩
      exact List.pairwise_singleton _ _
    · exact List.isChain_cons_cons.mpr ⟨fun hscalar => (by cases hscalar), List.isChain_singleton _⟩
  · change manifestWithTest =
      Text.joinLines ["name: app", "dependencies:", "  http: 1", "  test: any", ""]
    rw [← splitLines_manifestWithTest, Text.joinLines_splitLines]

theorem readDeclarations_manifestWithTest : readDeclarations manifestWithTest =
    .ok ⟨[⟨"http", .plain (some "1"), .dependencies⟩,
      ⟨"test", .plain (some "any"), .dependencies⟩], []⟩ := by
  decide +kernel

/-- A package is moved into a section that is not there yet. -/
theorem apply_sheet_test_moved : ∃ sheet, Sound 2 sheet ∧
    manifestWithTest = Text.joinLines (Stretch.linesOf sheet ++ [""]) ∧
    ∃ s s' ds', load manifestWithTest = .ok (s.document, s.top) ∧
      load ((Editor.ofText manifestWithTest).apply
        [⟨"test", .moveTo .devDependencies, none⟩]).2.text = .ok (s'.document, s'.top) ∧
      SameOutside s s' ∧
      readDeclarations ((Editor.ofText manifestWithTest).apply
        [⟨"test", .moveTo .devDependencies, none⟩]).2.text = .ok ds' ∧
      ∀ kind, (ds'.declared kind).Perm
        (makeAll [⟨"test", .moveTo .devDependencies, none⟩]
          (fun | .dependencies => [("http", some "1"), ("test", some "any")]
               | .devDependencies => []) kind) := by
  obtain ⟨sheet, hsound, htext⟩ := exists_sheet_manifestWithTest
  have hds := readDeclarations_manifestWithTest
  have hmade : ((Editor.ofText manifestWithTest).apply
      [⟨"test", .moveTo .devDependencies, none⟩]).1 =
        [⟨"test", .moveTo .devDependencies, none⟩] := by decide
  have honce : ∀ c ∈ [(⟨"test", .moveTo .devDependencies, none⟩ : Change)], ∀ target,
      c.action = .moveTo target → ¬ DeclaredTwice (Declarations.declared
        ⟨[⟨"http", .plain (some "1"), .dependencies⟩,
          ⟨"test", .plain (some "any"), .dependencies⟩], []⟩) c.package := by
    intro c hc target htarget htwice
    obtain ⟨x, hx, -⟩ := htwice .devDependencies
    cases hx
  obtain ⟨s, s', ds', hload, hload', houtside, hds', hperm⟩ := apply_sheet hsound htext hds honce
  rw [hmade] at hperm
  refine ⟨sheet, hsound, htext, s, s', ds', hload, hload', houtside, hds', fun kind => ?_⟩
  refine (hperm kind).trans (makeAll_perm (fun kind => ?_) _ kind)
  cases kind <;> exact List.Perm.refl _

end PubspecTidy.Manifest
