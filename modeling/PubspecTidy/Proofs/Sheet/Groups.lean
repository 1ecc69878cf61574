import PubspecTidy.Proofs.Grouping.Again
import PubspecTidy.Proofs.Grouping.Partition
import PubspecTidy.Proofs.Sheet.Lines

/-!
# The blocks of a section in groups

Regrouping writes the blocks of a section anew: first those in no group, and then group after group,
each below a comment. Main statements: its lines are those of parts that may come in place of the
blocks, and these parts hold the same blocks in another order.
-/
namespace PubspecTidy.Grouping

open Manifest (Block Part SectionKind Stretch sectionOf)

variable {n : Nat} {header name : String} {kind : SectionKind} {g : Grouping} {b : Block}
  {bs : List Block} {fs findings : List Finding} {category : String → String} {part : Part}
  {parts : List Part} {runs : List (List Part)} {above below : List Stretch}

/-! ## Blocks by the names of packages -/

/-- The groups that are shown hold each package once. -/
theorem Partitions.perm_shown (h : g.Partitions category findings) :
    (g.shown.flatMap g.group).Perm findings := by
  have hshown (cs : List String) :
      (cs.filter fun c => !(g.group c).isEmpty).flatMap g.group = cs.flatMap g.group := by
    induction cs with
    | nil => rfl
    | cons c cs ih =>
      by_cases hempty : (g.group c).isEmpty = true
      · rw [List.filter_cons_of_neg (by simp [hempty]), ih, List.flatMap_cons,
          List.isEmpty_iff.mp hempty, List.nil_append]
      · rw [List.filter_cons_of_pos (by simp [hempty]), List.flatMap_cons, ih, List.flatMap_cons]
  have hall : (findings.filter fun f => g.order.contains (category f.name)) = findings := by
    refine List.filter_eq_self.mpr fun f hf => List.contains_iff_mem.mpr ?_
    exact h.order.mem_iff.mpr ((h.mem_keys _).mpr ⟨f, hf, rfl⟩)
  have hmembers := perm_flatMap_members category findings (h.order.nodup_iff.mpr h.nodup_keys)
  rw [hall] at hmembers
  rw [shown, hshown]
  exact (List.Perm.flatMap_left _ fun c _ => h.group c).trans hmembers

/-- The block of a package. -/
def blockFor? (bs : List Block) (name : String) : Option Block := bs.find? (·.name == name)

/-- The blocks of some packages. -/
def blocksFor (bs : List Block) (fs : List Finding) : List Block :=
  fs.filterMap fun f => blockFor? bs f.name

/-- Each of the packages has a block. -/
def Found (bs : List Block) (fs : List Finding) : Prop := ∀ f ∈ fs, ∃ b ∈ bs, b.name = f.name

theorem of_blockFor? (h : blockFor? bs name = some b) : b ∈ bs ∧ b.name = name :=
  ⟨List.mem_of_find?_eq_some h, by simpa using List.find?_some h⟩

theorem exists_blockFor? (h : ∃ b ∈ bs, b.name = name) : ∃ b, blockFor? bs name = some b := by
  obtain ⟨b, hb, rfl⟩ := h
  exact Option.isSome_iff_exists.mp (List.find?_isSome.mpr ⟨b, hb, beq_self_eq_true b.name⟩)

theorem blocksFor_cons {f : Finding} (h : blockFor? bs f.name = some b) (fs : List Finding) :
    blocksFor bs (f :: fs) = b :: blocksFor bs fs := List.filterMap_cons_some h

theorem map_name_blocksFor (h : Found bs fs) :
    (blocksFor bs fs).map Block.name = fs.map Finding.name := by
  induction fs with
  | nil => rfl
  | cons f fs ih =>
    obtain ⟨hfirst, hrest⟩ := List.forall_mem_cons.mp h
    obtain ⟨b, hb⟩ := exists_blockFor? hfirst
    rw [blocksFor_cons hb, List.map_cons, List.map_cons, (of_blockFor? hb).2, ih hrest]

theorem mem_blocksFor (hnodup : (bs.map Block.name).Nodup) :
    b ∈ blocksFor bs fs ↔ b ∈ bs ∧ b.name ∈ fs.map Finding.name := by
  constructor
  · intro hb
    obtain ⟨f, hf, hb⟩ := List.mem_filterMap.mp hb
    obtain ⟨hmem, hname⟩ := of_blockFor? hb
    exact ⟨hmem, hname ▸ List.mem_map_of_mem hf⟩
  · rintro ⟨hb, hname⟩
    obtain ⟨f, hf, hname⟩ := List.mem_map.mp hname
    obtain ⟨found, hfound⟩ := exists_blockFor? ⟨b, hb, hname.symm⟩
    obtain ⟨hmem, hfoundName⟩ := of_blockFor? hfound
    obtain rfl : found = b := List.inj_on_of_nodup_map hnodup hmem hb (hfoundName.trans hname)
    exact List.mem_filterMap.mpr ⟨f, hf, hfound⟩

/-- The blocks of packages of distinct names are those with one of the names. -/
theorem perm_blocksFor (hnodup : (bs.map Block.name).Nodup) (hfound : Found bs fs)
    (hnames : (fs.map Finding.name).Nodup) :
    (blocksFor bs fs).Perm (bs.filter fun b => (fs.map Finding.name).contains b.name) := by
  rw [← map_name_blocksFor hfound] at hnames
  refine (List.perm_ext_iff_of_nodup (hnames.of_map _) ((hnodup.of_map _).filter _)).mpr fun b => ?_
  rw [mem_blocksFor hnodup, List.mem_filter, List.contains_iff_mem]

/-! ## The blocks of a section as its entries -/

/-- The lines of the entries of a section are those of its blocks. -/
theorem map_lines_entries (lines after : List String) (parts : List Part) :
    (Part.entries lines.length parts).map (fun e =>
        (e.name, e.extent.lines (lines ++ (Part.linesOf parts ++ after)))) =
      (Part.blocks parts).map fun b => (b.name, b.lines) := by
  induction parts generalizing lines with
  | nil => rfl
  | cons part parts ih =>
    have ih := ih (lines ++ part.lines)
    rw [List.length_append, List.append_assoc, ← List.append_assoc part.lines] at ih
    cases part with
    | gap line => exact ih
    | block b =>
      refine congrArg₂ List.cons (Prod.ext rfl ?_) ih
      dsimp only [Manifest.Extent.lines, Manifest.Extent.size]
      rw [Nat.add_sub_cancel_left, List.drop_left, Part.linesOf_block, List.append_assoc,
        List.take_left]

/-- How the blocks of a section are written. -/
def entriesOfBlocks (bs : List Block) : Entries :=
  ⟨bs.map fun b => (b.name, b.lines), indentOf (bs.map Block.lines)⟩

theorem entriesOf_sheet
    (hfits : ∀ st ∈ above ++ .listed kind header parts :: below, st.Fits n)
    (hnodup : ((Part.blocks parts).map Block.name).Nodup) :
    entriesOf (Stretch.linesOf (above ++ .listed kind header parts :: below) ++ [""])
        (some (sectionOf above below parts)) = entriesOfBlocks (Part.blocks parts) := by
  have hlines := map_lines_entries (Stretch.linesOf above ++ [header])
    (Stretch.linesOf below ++ [""]) parts
  rw [List.length_append, List.length_singleton, List.append_assoc, List.singleton_append,
    ← Manifest.linesOf_split _ _ kind] at hlines
  have hkeys : (Table.keys ((Part.blocks parts).map fun b => (b.name, b.lines))).Nodup := by
    rwa [Table.keys, List.map_map]
  unfold entriesOf entriesOfBlocks
  dsimp only
  rw [Manifest.entries_sectionOf hfits, hlines, Table.ofList_of_nodup hkeys, List.map_map]
  rfl

theorem get?_blocks (bs : List Block) (name : String) :
    Table.get? (bs.map fun b => (b.name, b.lines)) name =
      (blockFor? bs name).map Block.lines := by
  induction bs with
  | nil => rfl
  | cons b bs ih =>
    rw [List.map_cons, Table.get?_cons, blockFor?]
    by_cases hname : b.name = name
    · rw [if_pos hname, List.find?_cons_of_pos (by simpa using hname)]
      rfl
    · rw [if_neg hname, List.find?_cons_of_neg (by simpa using hname), ih, blockFor?]

/-- A package is written as its block. -/
theorem flatMap_packageLines (h : Found bs fs) :
    fs.flatMap (packageLines (entriesOfBlocks bs) "") = (blocksFor bs fs).flatMap Block.lines := by
  induction fs with
  | nil => rfl
  | cons f fs ih =>
    obtain ⟨hfirst, hrest⟩ := List.forall_mem_cons.mp h
    obtain ⟨b, hb⟩ := exists_blockFor? hfirst
    have hlines : packageLines (entriesOfBlocks bs) "" f = b.lines := by
      rw [packageLines, entriesOfBlocks, get?_blocks, hb]
      rfl
    rw [List.flatMap_cons, hlines, ih hrest, blocksFor_cons hb, List.flatMap_cons]

/-! ## What is written, in parts -/

/-- Runs of parts with an empty line between any two of them. -/
def spaced : List (List Part) → List Part
  | [] => []
  | [parts] => parts
  | parts :: rest => parts ++ .gap "" :: spaced rest

/-- A group under its category. -/
def groupParts (indent : String) (bs : List Block) (c : String) (fs : List Finding) : List Part :=
  .gap (indent ++ "# " ++ c) :: (blocksFor bs fs).map .block

/-- The blocks that are in no group. -/
def blocksOutside (bs : List Block) (g : Grouping) : List Block :=
  bs.filter fun b => !(g.packages.map (·.name)).contains b.name

/-- The parts of a section that come in place of its blocks. -/
def writtenParts (bs : List Block) (g : Grouping) : List Part :=
  (if (blocksOutside bs g).isEmpty then [] else (blocksOutside bs g).map .block ++ [.gap ""]) ++
    spaced (g.shown.map fun c => groupParts (indentOf (bs.map Block.lines)) bs c (g.group c))

theorem linesOf_spaced (runs : List (List Part)) :
    Part.linesOf (spaced runs) = separate "" (runs.map Part.linesOf) := by
  induction runs with
  | nil => rfl
  | cons parts runs ih =>
    cases runs with
    | nil => rfl
    | cons next runs =>
      rw [List.map_cons, List.map_cons, separate, ← List.map_cons, ← ih, spaced,
        Part.linesOf_append]
      · rfl
      · simp
      · simp

theorem blocks_spaced (runs : List (List Part)) :
    Part.blocks (spaced runs) = runs.flatMap Part.blocks := by
  induction runs with
  | nil => rfl
  | cons parts runs ih =>
    cases runs with
    | nil => simp [spaced]
    | cons next runs =>
      rw [List.flatMap_cons, ← ih, spaced, Part.blocks_append, Part.blocks_gap]
      simp

theorem mem_spaced (h : part ∈ spaced runs) : part = .gap "" ∨ ∃ run ∈ runs, part ∈ run := by
  induction runs with
  | nil => cases h
  | cons parts runs ih =>
    cases runs with
    | nil => exact .inr ⟨parts, List.mem_cons_self, h⟩
    | cons next runs =>
      rw [spaced, List.mem_append, List.mem_cons] at h
      · rcases h with h | h | h
        · exact .inr ⟨parts, List.mem_cons_self, h⟩
        · exact .inl h
        · refine (ih h).imp_right fun ⟨run, hrun, hmem⟩ => ?_
          exact ⟨run, List.mem_cons_of_mem parts hrun, hmem⟩
      · simp

theorem linesOf_map_block (bs : List Block) :
    Part.linesOf (bs.map .block) = bs.flatMap Block.lines := List.flatMap_map _ _ _

theorem blocks_map_block (bs : List Block) : Part.blocks (bs.map .block) = bs := by
  induction bs with
  | nil => rfl
  | cons b bs ih => exact congrArg (b :: ·) ih

/-- The parts have the lines that regrouping writes. -/
theorem linesOf_writtenParts (hfound : ∀ c ∈ g.shown, Found bs (g.group c)) :
    Part.linesOf (writtenParts bs g) = written (entriesOfBlocks bs) "" g := by
  have houtside : (outside (entriesOfBlocks bs).blocks g).flatMap (·.2) =
      (blocksOutside bs g).flatMap Block.lines := by
    rw [outside, entriesOfBlocks, List.filter_map, List.flatMap_map]
    rfl
  have hempty : ((blocksOutside bs g).flatMap Block.lines).isEmpty =
      (blocksOutside bs g).isEmpty := by
    cases blocksOutside bs g <;> rfl
  have hgroups : (g.shown.map fun c => groupParts (indentOf (bs.map Block.lines)) bs c
      (g.group c)).map Part.linesOf =
        g.shown.map fun c => groupLines (entriesOfBlocks bs) "" c (g.group c) := by
    rw [List.map_map]
    refine List.map_congr_left fun c hc => ?_
    rw [groupLines, flatMap_packageLines (hfound c hc), ← linesOf_map_block, String.append_empty]
    rfl
  rw [written, houtside, hempty, writtenParts, Part.linesOf_append, linesOf_spaced, hgroups, lines]
  refine congrArg (· ++ _) ?_
  split
  · rfl
  · rw [Part.linesOf_append, linesOf_map_block]
    rfl

theorem blocks_writtenParts (bs : List Block) (g : Grouping) :
    Part.blocks (writtenParts bs g) =
      blocksOutside bs g ++ blocksFor bs (g.shown.flatMap g.group) := by
  have hgroups : (g.shown.map fun c => groupParts (indentOf (bs.map Block.lines)) bs c
      (g.group c)).flatMap Part.blocks = blocksFor bs (g.shown.flatMap g.group) := by
    rw [List.flatMap_map, blocksFor, List.filterMap_flatMap]
    exact List.flatMap_congr fun c _ => blocks_map_block _
  rw [writtenParts, Part.blocks_append, blocks_spaced, hgroups]
  refine congrArg (· ++ _) ?_
  split
  · rename_i hempty
    rw [List.isEmpty_iff.mp hempty]
    rfl
  · rw [Part.blocks_append, blocks_map_block]
    exact List.append_nil _

/-- Packages that have blocks, each in one of the groups that are shown. -/
structure Places (g : Grouping) (bs : List Block) : Prop where
  shown : (g.shown.flatMap g.group).Perm g.packages
  distinct : (g.packages.map Finding.name).Nodup
  found : Found bs g.packages

theorem Partitions.places (h : g.Partitions category findings)
    (hnames : (findings.map Finding.name).Nodup) (hfound : Found bs findings) : g.Places bs where
  shown := h.perm_shown.trans h.packages.symm
  distinct := (h.packages.map _).nodup_iff.mpr hnames
  found f hf := hfound f (h.packages.mem_iff.mp hf)

theorem Places.of_perm {bs' : List Block} (h : g.Places bs) (hperm : bs'.Perm bs) : g.Places bs' where
  shown := h.shown
  distinct := h.distinct
  found f hf := by
    obtain ⟨b, hb, hname⟩ := h.found f hf
    exact ⟨b, hperm.mem_iff.mpr hb, hname⟩

/-- What is written has the same blocks in another order. -/
theorem Places.perm_blocks (h : g.Places bs) (hnodup : (bs.map Block.name).Nodup) :
    (Part.blocks (writtenParts bs g)).Perm bs := by
  have hgrouped := perm_blocksFor hnodup (fun f hf => h.found f (h.shown.mem_iff.mp hf))
    ((h.shown.map Finding.name).nodup_iff.mpr h.distinct)
  have hcontains : (fun b : Block =>
      ((g.shown.flatMap g.group).map Finding.name).contains b.name) =
        fun b => (g.packages.map Finding.name).contains b.name := by
    funext b
    rw [Bool.eq_iff_iff, List.contains_iff_mem, List.contains_iff_mem, (h.shown.map _).mem_iff]
  rw [hcontains] at hgrouped
  rw [blocks_writtenParts]
  exact ((hgrouped.append_left _).trans List.perm_append_comm).trans (List.filter_append_perm _ bs)

theorem mem_writtenParts (h : part ∈ writtenParts bs g) :
    part = .gap "" ∨ (∃ c ∈ g.shown, part = .gap (indentOf (bs.map Block.lines) ++ "# " ++ c)) ∨
      ∃ b ∈ Part.blocks (writtenParts bs g), part = .block b := by
  cases hpart : part with
  | block b =>
    rw [hpart] at h
    exact .inr (.inr ⟨b, List.mem_filterMap.mpr ⟨_, h, rfl⟩, rfl⟩)
  | gap line =>
    rw [hpart] at h
    rw [writtenParts, List.mem_append] at h
    rcases h with h | h
    · split at h
      · cases h
      · left
        simpa using h
    · rcases mem_spaced h with h | ⟨run, hrun, h⟩
      · exact .inl h
      · obtain ⟨c, hc, rfl⟩ := List.mem_map.mp hrun
        refine .inr (.inl ⟨c, hc, ?_⟩)
        simpa [groupParts] using h

end PubspecTidy.Grouping
