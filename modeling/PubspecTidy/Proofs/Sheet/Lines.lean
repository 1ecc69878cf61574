import PubspecTidy.Proofs.Manifest.Bodies
import PubspecTidy.Proofs.Manifest.Tracking
import PubspecTidy.Proofs.Yaml.Reading

/-!
# Manifests as sheets

A sheet cuts the lines of a manifest into the sections, each with its blocks and the lines between
them, and what stands outside of the sections. Main statements: on the lines of a sheet, the editor
finds each section with its blocks as the sheet has them, and it cuts out and puts in just one of
them.
-/
namespace PubspecTidy.Manifest

/-- A line in which nothing is to be seen: spaces, and maybe a comment behind them. -/
def isSilent (line : String) : Bool :=
  match line.toList.dropWhile (· = ' ') with
  | [] => true
  | c :: cs => c = '#' && cs.all (!Yaml.isBreak ·)

/-- The declaration of a package with the lines below it, and what they come to on their own. -/
structure Block where
  name : String
  version : Option String
  first : String
  inner : List String
  reading : Yaml.Reading

/-- A line between the blocks of a section, or a block. -/
inductive Part where
  | gap (line : String)
  | block (b : Block)

/-- A stretch of a manifest. -/
inductive Stretch where
  /-- Entries at the top that are no section; the lines may end in a block scalar if `scalar`. -/
  | other (lines : List String) (reading : Yaml.Reading) (scalar : Bool)
  | listed (kind : SectionKind) (header : String) (parts : List Part)

def Block.lines (b : Block) : List String := b.first :: b.inner

namespace Part

def lines : Part → List String
  | gap line => [line]
  | block b => b.lines

def block? : Part → Option Block
  | gap _ => none
  | block b => some b

def linesOf (parts : List Part) : List String := parts.flatMap lines

def blocks (parts : List Part) : List Block := parts.filterMap block?

/-- The entries that the editor finds in the parts of a section, the first line of which is the line
`index`. -/
def entries (index : Nat) : List Part → List Entry
  | [] => []
  | gap _ :: parts => entries (index + 1) parts
  | block b :: parts =>
    ⟨b.name, ⟨index, index + b.lines.length⟩⟩ :: entries (index + b.lines.length) parts

end Part

namespace Stretch

def lines : Stretch → List String
  | other lines _ _ => lines
  | listed _ header parts => header :: Part.linesOf parts

def kind? : Stretch → Option SectionKind
  | other .. => none
  | listed kind .. => some kind

def linesOf (sheet : List Stretch) : List String := sheet.flatMap lines

/-- The blocks of a stretch that stand in a section. -/
def blocksIn (kind : SectionKind) : Stretch → List Block
  | other .. => []
  | listed k _ parts => if k = kind then Part.blocks parts else []

end Stretch

/-- The blocks of a section. -/
def blocksOf (sheet : List Stretch) (kind : SectionKind) : List Block :=
  sheet.flatMap (Stretch.blocksIn kind)

/-! ## Lines in their places -/

/-- The editor takes the lines for a block with this name at a column. -/
structure Block.Fits (n : Nat) (b : Block) : Prop where
  declares : isDependencyLine b.first = true
  name : declaredName? b.first = some b.name
  column : indentation b.first = n
  inner : openLines n b.inner = b.inner.length

def Part.Fits (n : Nat) : Part → Prop
  | gap line => isSilent line = true ∧ (isBlankLine line = true ∨ indentation line ≤ n)
  | block b => b.Fits n

/-- The editor takes the lines for what they are. What is no section has no header of one, and no
declaration above its first header. -/
def Stretch.Fits (n : Nat) : Stretch → Prop
  | other lines _ _ => (∀ line ∈ lines, ∀ kind : SectionKind, isHeaderOf kind.name line = false) ∧
      (∀ line ∈ lines.takeWhile (!isHeader ·), isDependencyLine line = false) ∧ Shallow n lines
  | listed kind header parts => isHeaderOf kind.name header = true ∧ ∀ part ∈ parts, part.Fits n

variable {n : Nat} {line : String} {lines inner rest post : List String} {b : Block} {part : Part}
  {parts : List Part} {st : Stretch} {sheet above below : List Stretch} {kind : SectionKind}
  {header name : String}

/-! ## Silent lines -/

theorem isSilent_cases (h : isSilent line = true) : (∀ c ∈ line.toList, c = ' ') ∨
    ∃ spaces cs, line.toList = spaces ++ '#' :: cs ∧ (∀ c ∈ spaces, c = ' ') ∧
      ∀ c ∈ cs, Yaml.isBreak c = false := by
  have hsplit := List.takeWhile_append_dropWhile (p := (· = ' ')) (l := line.toList)
  have hspaces : ∀ c ∈ line.toList.takeWhile (· = ' '), c = ' ' := by
    intro c hc
    simpa using List.mem_takeWhile_imp hc
  unfold isSilent at h
  split at h
  · rename_i hnil
    rw [hnil, List.append_nil] at hsplit
    rw [← hsplit]
    exact .inl hspaces
  · rename_i c cs hcons
    simp only [Bool.and_eq_true, decide_eq_true_eq, List.all_eq_true, Bool.not_eq_true'] at h
    obtain ⟨rfl, hcs⟩ := h
    exact .inr ⟨_, cs, by rw [← hcons, hsplit], hspaces, hcs⟩

theorem trimStart_spaces {spaces : List Char} (h : ∀ c ∈ spaces, c = ' ') (cs : List Char) :
    Text.trimStart (spaces ++ cs) = Text.trimStart cs := by
  unfold Text.trimStart
  rw [List.dropWhile_append_of_pos fun c hc => by rw [h c hc]; decide]

/-- A silent line is blank or a comment. -/
theorem trim_of_isSilent (h : isSilent line = true) :
    Text.trim line.toList = [] ∨ (Text.trim line.toList).head? = some '#' := by
  rcases isSilent_cases h with hspaces | ⟨spaces, cs, heq, hspaces, -⟩
  · left
    have hstart := trimStart_spaces hspaces []
    rw [List.append_nil] at hstart
    unfold Text.trim
    rw [hstart]
    rfl
  · right
    have hhash : Text.trim ('#' :: cs) = '#' :: Text.trimEnd cs :=
      Text.trim_cons_of_not_blank (by decide) cs
    have htrim : Text.trim line.toList = Text.trim ('#' :: cs) := by
      unfold Text.trim
      rw [heq, trimStart_spaces hspaces]
    rw [htrim, hhash]
    rfl

theorem isDependencyLine_of_isSilent (h : isSilent line = true) :
    isDependencyLine line = false := by
  unfold isDependencyLine
  dsimp only
  rcases trim_of_isSilent h with htrim | htrim <;> simp [htrim]

theorem isHeader_of_isSilent (h : isSilent line = true) : isHeader line = false := by
  unfold isHeader
  split
  · rfl
  · rename_i c cs hcons
    have hfirst : c = ' ' ∨ c = '#' := by
      rcases isSilent_cases h with hspaces | ⟨spaces, more, heq, hspaces, -⟩
      · exact .inl (hspaces c (by simp [hcons]))
      · cases spaces with
        | nil =>
          rw [hcons, List.nil_append] at heq
          exact .inr (List.cons.inj heq).1
        | cons s spaces =>
          rw [hcons, List.cons_append] at heq
          rw [(List.cons.inj heq).1]
          exact .inl (hspaces s List.mem_cons_self)
    rcases hfirst with rfl | rfl <;> simp

/-! ## Blocks and parts -/

/-- The lines of a block are all that the editor takes for it. -/
theorem Block.Fits.openLines_eq (h : b.Fits n) (hrest : Shallow n rest) :
    openLines n (b.inner ++ rest) = b.inner.length := by
  rw [openLines_append h.inner, openLines_of_shallow hrest, Nat.add_zero]

theorem Block.Fits.noHeader (h : b.Fits n) : NoHeader b.lines := by
  have hblock := noHeader_block h.declares b.inner
  rw [h.column, h.inner, List.take_length] at hblock
  exact hblock

theorem noHeader_linesOf (h : ∀ part ∈ parts, part.Fits n) : NoHeader (Part.linesOf parts) := by
  intro line hline
  obtain ⟨part, hpart, hline⟩ := List.mem_flatMap.mp hline
  have hfits := h part hpart
  cases part with
  | gap silent =>
    rw [List.mem_singleton.mp hline]
    exact isHeader_of_isSilent hfits.1
  | block b => exact hfits.noHeader line hline

theorem Part.Fits.shallow (h : part.Fits n) (hrest : Shallow n rest) :
    Shallow n (part.lines ++ rest) := by
  cases part with
  | gap line => exact shallow_cons h.2 hrest
  | block b =>
    have hcontent : firstContent? (b.lines ++ rest) = some b.first := by
      rw [Block.lines, List.cons_append, firstContent?,
        if_neg (by simp [isBlankLine_of_isDependencyLine h.declares])]
    intro line hline
    cases hcontent.symm.trans hline
    exact h.column.le

theorem shallow_linesOf (h : ∀ part ∈ parts, part.Fits n) (hrest : Shallow n rest) :
    Shallow n (Part.linesOf parts ++ rest) := by
  induction parts with
  | nil => exact hrest
  | cons part parts ih =>
    have ih := ih fun p hp => h p (List.mem_cons_of_mem _ hp)
    rw [Part.linesOf, List.flatMap_cons, List.append_assoc]
    exact (h part List.mem_cons_self).shallow ih

/-! ## The entries of a section -/

namespace Section

theorem entriesFrom_of_none (h : ∀ line ∈ lines, isDependencyLine line = false) (index : Nat) :
    entriesFrom index 0 lines = [] := by
  induction lines generalizing index with
  | nil => rfl
  | cons line lines ih =>
    rw [entriesFrom, if_neg (by simp [h line List.mem_cons_self])]
    exact ih (fun l hl => h l (List.mem_cons_of_mem _ hl)) _

/-- The editor finds the blocks of a section as its entries. -/
theorem entriesFrom_linesOf (h : ∀ part ∈ parts, part.Fits n) (hshallow : Shallow n rest)
    (hrest : ∀ line ∈ rest, isDependencyLine line = false) (index : Nat) :
    entriesFrom index 0 (Part.linesOf parts ++ rest) = Part.entries index parts := by
  induction parts generalizing index with
  | nil => exact entriesFrom_of_none hrest index
  | cons part parts ih =>
    have hparts := fun p hp => h p (List.mem_cons_of_mem part hp)
    have hfits := h part List.mem_cons_self
    rw [Part.linesOf, List.flatMap_cons, List.append_assoc]
    cases part with
    | gap line =>
      change entriesFrom index 0 (line :: (Part.linesOf parts ++ rest)) = _
      rw [entriesFrom, if_neg (by simp [isDependencyLine_of_isSilent hfits.1]), ih hparts]
      rfl
    | block b =>
      change entriesFrom index 0 (b.first :: (b.inner ++ (Part.linesOf parts ++ rest))) = _
      have hopen : openLines (indentation b.first) (b.inner ++ (Part.linesOf parts ++ rest)) =
          b.inner.length := by
        rw [hfits.column]
        exact hfits.openLines_eq (shallow_linesOf hparts hshallow)
      rw [entriesFrom, if_pos hfits.declares]
      dsimp only
      rw [hopen, hfits.name, entriesFrom_skip, ih hparts, Nat.add_assoc, Nat.add_comm 1]
      rfl

end Section

/-! ## The sections of a sheet -/

theorem indentation_of_isHeaderOf (h : isHeaderOf name line = true) : indentation line = 0 := by
  simp only [isHeaderOf, Bool.and_eq_true, Bool.not_eq_true'] at h
  by_contra hne
  have hstart := startsBlank_of_indentation_pos (Nat.pos_of_ne_zero hne)
  exact absurd hstart (by simp [h.2])

theorem findFrom_append (h : ∀ line ∈ lines, isHeaderOf name line = false) (index : Nat) :
    findFrom name index (lines ++ rest) = findFrom name (index + lines.length) rest := by
  induction lines generalizing index with
  | nil => rfl
  | cons line lines ih =>
    rw [List.cons_append, findFrom, if_neg (by simp [h line List.mem_cons_self]),
      ih fun l hl => h l (List.mem_cons_of_mem _ hl), List.length_cons, Nat.add_right_comm,
      Nat.add_assoc]

namespace Stretch

/-- Only the stretch of a section has its header. -/
theorem Fits.isHeaderOf_eq (h : st.Fits n) (hkind : st.kind? ≠ some kind) :
    ∀ line ∈ st.lines, isHeaderOf kind.name line = false := by
  cases st with
  | other lines reading scalar => exact fun line hline => h.1 line hline kind
  | listed k header parts =>
    intro line hline
    refine Bool.eq_false_iff.mpr fun hheader => ?_
    rcases List.mem_cons.mp hline with rfl | hline
    · exact hkind (congrArg some (kind_eq_of_isHeaderOf h.1 hheader))
    · rw [(noHeader_linesOf h.2).not_isHeaderOf kind line hline] at hheader
      cases hheader

theorem isHeaderOf_linesOf (h : ∀ st ∈ sheet, st.Fits n)
    (hkind : ∀ st ∈ sheet, st.kind? ≠ some kind) :
    ∀ line ∈ linesOf sheet, isHeaderOf kind.name line = false := by
  intro line hline
  obtain ⟨st, hst, hline⟩ := List.mem_flatMap.mp hline
  exact (h st hst).isHeaderOf_eq (hkind st hst) line hline

theorem Fits.shallow (h : st.Fits n) (hrest : Shallow n rest) : Shallow n (st.lines ++ rest) := by
  cases st with
  | other lines reading scalar => exact h.2.2.append hrest
  | listed kind header parts =>
    refine shallow_cons (.inr ?_) (shallow_linesOf h.2 hrest)
    rw [indentation_of_isHeaderOf h.1]
    exact Nat.zero_le n

theorem shallow_linesOf (h : ∀ st ∈ sheet, st.Fits n) (hrest : Shallow n rest) :
    Shallow n (linesOf sheet ++ rest) := by
  induction sheet with
  | nil => exact hrest
  | cons st sheet ih =>
    have ih := ih fun s hs => h s (List.mem_cons_of_mem _ hs)
    rw [linesOf, List.flatMap_cons, List.append_assoc]
    exact (h st List.mem_cons_self).shallow ih

/-- There is no declaration between a section and the next header. -/
theorem isDependencyLine_takeWhile (h : ∀ st ∈ sheet, st.Fits n) :
    ∀ line ∈ (linesOf sheet ++ [""]).takeWhile (!isHeader ·), isDependencyLine line = false := by
  induction sheet with
  | nil =>
    intro line hline
    have hmem := (List.takeWhile_prefix _).sublist.subset hline
    rw [List.mem_singleton.mp hmem]
    decide
  | cons st sheet ih =>
    have ih := ih fun s hs => h s (List.mem_cons_of_mem _ hs)
    have hfits := h st List.mem_cons_self
    rw [linesOf, List.flatMap_cons, List.append_assoc]
    cases st with
    | other lines reading scalar =>
      intro line hline
      change line ∈ (lines ++ (linesOf sheet ++ [""])).takeWhile (!isHeader ·) at hline
      rw [List.takeWhile_append] at hline
      split at hline
      · rename_i hall
        have htake : lines.takeWhile (!isHeader ·) = lines :=
          (List.takeWhile_prefix _).eq_of_length hall
        rcases List.mem_append.mp hline with hline | hline
        · exact hfits.2.1 line (by rw [htake]; exact hline)
        · exact ih line hline
      · exact hfits.2.1 line hline
    | listed kind header parts =>
      intro line hline
      have hheader := isHeader_of_isHeaderOf hfits.1
      change line ∈ (header :: _).takeWhile (!isHeader ·) at hline
      rw [List.takeWhile_cons_of_neg (by simp [hheader])] at hline
      cases hline

end Stretch

theorem Stretch.exists_first (h : ∃ st ∈ sheet, st.kind? = some kind) :
    ∃ above header parts below, sheet = above ++ Stretch.listed kind header parts :: below ∧
      ∀ st ∈ above, st.kind? ≠ some kind := by
  induction sheet with
  | nil =>
    obtain ⟨st, hst, -⟩ := h
    cases hst
  | cons st sheet ih =>
    by_cases hkind : st.kind? = some kind
    · cases st with
      | other => cases hkind
      | listed k header parts =>
        obtain rfl := Option.some.inj hkind
        exact ⟨[], header, parts, sheet, rfl, fun st hst => nomatch hst⟩
    · obtain ⟨found, hfound, hfoundKind⟩ := h
      have hmem : found ∈ sheet := by
        rcases List.mem_cons.mp hfound with rfl | hmem
        · exact absurd hfoundKind hkind
        · exact hmem
      obtain ⟨above, header, parts, below, rfl, habove⟩ := ih ⟨found, hmem, hfoundKind⟩
      refine ⟨st :: above, header, parts, below, rfl, fun s hs => ?_⟩
      rcases List.mem_cons.mp hs with rfl | hs
      · exact hkind
      · exact habove s hs

/-- The section of a sheet with a header after some lines. -/
def sectionOf (above below : List Stretch) (parts : List Part) : Section where
  header := (Stretch.linesOf above).length
  last := (Stretch.linesOf above).length +
    ((Part.linesOf parts ++ (Stretch.linesOf below ++ [""])).takeWhile (!isHeader ·)).length

theorem linesOf_split (above below : List Stretch) (kind : SectionKind) (header : String)
    (parts : List Part) :
    Stretch.linesOf (above ++ .listed kind header parts :: below) ++ [""] =
      Stretch.linesOf above ++
        header :: (Part.linesOf parts ++ (Stretch.linesOf below ++ [""])) := by
  simp [Stretch.linesOf, Stretch.lines]

/-- The lines of a sheet up to a place in a section. -/
def linesBefore (above : List Stretch) (header : String) (before : List Part) : List String :=
  Stretch.linesOf above ++ header :: Part.linesOf before

theorem length_linesBefore (above : List Stretch) (header : String) (before : List Part) :
    (linesBefore above header before).length =
      (Stretch.linesOf above).length + 1 + (Part.linesOf before).length := by
  rw [linesBefore, List.length_append, List.length_cons]
  omega

/-- The lines of a sheet, cut at a place in a section. -/
theorem linesOf_cut (above below : List Stretch) (kind : SectionKind) (header : String)
    (before after : List Part) :
    Stretch.linesOf (above ++ .listed kind header (before ++ after) :: below) ++ [""] =
      linesBefore above header before ++
        (Part.linesOf after ++ (Stretch.linesOf below ++ [""])) := by
  simp [linesBefore, Stretch.linesOf, Stretch.lines, Part.linesOf]

variable (hfits : ∀ st ∈ above ++ .listed kind header parts :: below, st.Fits n)
  (habove : ∀ st ∈ above, st.kind? ≠ some kind)

include hfits in
theorem fits_split : (∀ st ∈ above, st.Fits n) ∧ isHeaderOf kind.name header = true ∧
    (∀ part ∈ parts, part.Fits n) ∧ ∀ st ∈ below, st.Fits n := by
  have hmid : (Stretch.listed kind header parts).Fits n := hfits _ (by simp)
  exact ⟨fun st hst => hfits st (by simp [hst]), hmid.1, hmid.2,
    fun st hst => hfits st (by simp [hst])⟩

include hfits habove in
/-- The editor finds a section where the sheet has it. -/
theorem findSection?_sheet :
    findSection? (Stretch.linesOf (above ++ .listed kind header parts :: below) ++ [""]) kind.name =
      some (sectionOf above below parts) := by
  obtain ⟨hup, hheader, -, -⟩ := fits_split hfits
  rw [linesOf_split, findSection?, findFrom_append (Stretch.isHeaderOf_linesOf hup habove),
    findFrom, if_pos hheader, Nat.zero_add]
  rfl

theorem findSection?_none (hsheet : ∀ st ∈ sheet, st.Fits n)
    (hkind : ∀ st ∈ sheet, st.kind? ≠ some kind) :
    findSection? (Stretch.linesOf sheet ++ [""]) kind.name = none := by
  have hlast : isHeaderOf kind.name "" = false := by cases kind <;> decide
  rw [findSection?, findFrom_append (Stretch.isHeaderOf_linesOf hsheet hkind), findFrom,
    if_neg (by simp [hlast]), findFrom]

include hfits in
/-- The entries that the editor finds in a section are the blocks that the sheet has there. -/
theorem entries_sectionOf : (sectionOf above below parts).entries
    (Stretch.linesOf (above ++ .listed kind header parts :: below) ++ [""]) =
      Part.entries ((Stretch.linesOf above).length + 1) parts := by
  obtain ⟨-, -, hparts, hbelow⟩ := fits_split hfits
  have hbody : (sectionOf above below parts).body
      (Stretch.linesOf (above ++ .listed kind header parts :: below) ++ [""]) =
        Part.linesOf parts ++ (Stretch.linesOf below ++ [""]).takeWhile (!isHeader ·) := by
    have hnone : ∀ line ∈ Part.linesOf parts, (!isHeader line) = true := fun line hline => by
      rw [noHeader_linesOf hparts line hline]
      rfl
    rw [linesOf_split, Section.body, linesBetween, sectionOf]
    dsimp only
    rw [List.drop_append, List.drop_of_length_le (Nat.le_succ _), List.nil_append,
      Nat.add_sub_cancel_left, List.drop_one, List.tail_cons,
      show ∀ a b : Nat, a + b + 1 - (a + 1) = b by omega,
      List.takeWhile_append_of_pos hnone, List.length_append, List.take_length_add_append]
    congr 1
    exact (List.prefix_iff_eq_take.mp (List.takeWhile_prefix _)).symm
  rw [Section.entries, hbody]
  refine Section.entriesFrom_linesOf hparts ?_ (Stretch.isDependencyLine_takeWhile hbelow) _
  exact shallow_of_prefix (Stretch.shallow_linesOf hbelow shallow_blank) (List.takeWhile_prefix _)

/-! ## Blocks and their places -/

namespace Part

theorem linesOf_append (parts more : List Part) :
    linesOf (parts ++ more) = linesOf parts ++ linesOf more := List.flatMap_append

theorem linesOf_block (b : Block) (parts : List Part) :
    linesOf (block b :: parts) = b.lines ++ linesOf parts := List.flatMap_cons

theorem blocks_append (parts more : List Part) :
    blocks (parts ++ more) = blocks parts ++ blocks more := List.filterMap_append

@[simp] theorem blocks_gap (line : String) (parts : List Part) :
    blocks (gap line :: parts) = blocks parts := rfl

@[simp] theorem blocks_block (b : Block) (parts : List Part) :
    blocks (block b :: parts) = b :: blocks parts := rfl

theorem mem_of_mem_blocks (h : b ∈ blocks parts) : block b ∈ parts := by
  obtain ⟨part, hpart, hblock⟩ := List.mem_filterMap.mp h
  cases part with
  | gap => cases hblock
  | block found =>
    obtain rfl := Option.some.inj hblock
    exact hpart

theorem entries_append (index : Nat) (parts more : List Part) :
    entries index (parts ++ more) =
      entries index parts ++ entries (index + (linesOf parts).length) more := by
  induction parts generalizing index with
  | nil => rfl
  | cons part parts ih =>
    rw [linesOf, List.flatMap_cons, List.length_append, ← Nat.add_assoc]
    cases part with
    | gap line => exact ih (index + 1)
    | block b => exact congrArg _ (ih (index + b.lines.length))

theorem map_name_entries (index : Nat) (parts : List Part) :
    (entries index parts).map Entry.name = (blocks parts).map Block.name := by
  induction parts generalizing index with
  | nil => rfl
  | cons part parts ih =>
    cases part with
    | gap line => exact ih (index + 1)
    | block b => exact congrArg _ (ih (index + b.lines.length))

theorem find?_entries_none (h : ∀ b ∈ blocks parts, b.name ≠ name) (index : Nat) :
    (entries index parts).find? (·.name == name) = none := by
  refine List.find?_eq_none.mpr fun entry hentry hname => ?_
  have hmem : entry.name ∈ (blocks parts).map Block.name := by
    rw [← map_name_entries index]
    exact List.mem_map_of_mem hentry
  obtain ⟨b, hb, heq⟩ := List.mem_map.mp hmem
  exact h b hb (heq.trans (by simpa using hname))

/-- The first block of a package is the one that is found. -/
theorem find?_entries_split {before after : List Part}
    (h : ∀ b' ∈ blocks before, b'.name ≠ b.name) (index : Nat) :
    (entries index (before ++ block b :: after)).find? (·.name == b.name) =
      some ⟨b.name, ⟨index + (linesOf before).length,
        index + (linesOf before).length + b.lines.length⟩⟩ := by
  rw [entries_append, List.find?_append, find?_entries_none h, Option.none_or, entries]
  exact List.find?_cons_of_pos (by simp)

/-- An entry starts where some block does. -/
theorem exists_start {p : Entry → Bool} {index : Nat} {entry : Entry}
    (h : (entries index parts).find? p = some entry) :
    ∃ before after, parts = before ++ after ∧
      entry.extent.start = index + (linesOf before).length := by
  induction parts generalizing index with
  | nil => cases h
  | cons part parts ih =>
    cases part with
    | gap line =>
      obtain ⟨before, after, rfl, hstart⟩ := ih h
      refine ⟨gap line :: before, after, rfl, ?_⟩
      rw [hstart, linesOf, linesOf, List.flatMap_cons, List.length_append, Nat.add_assoc]
      rfl
    | block b =>
      rw [entries, List.find?_cons] at h
      split at h
      · cases h
        exact ⟨[], block b :: parts, rfl, rfl⟩
      · obtain ⟨before, after, rfl, hstart⟩ := ih h
        refine ⟨block b :: before, after, rfl, ?_⟩
        rw [hstart, linesOf_block, List.length_append, Nat.add_assoc]

/-- The line after the last block, or the first line if there is no block. -/
def stop (index : Nat) (parts : List Part) : Nat :=
  match (entries index parts).getLast? with
  | some e => e.extent.stop
  | none => index

theorem exists_stop (index : Nat) (parts : List Part) : ∃ before after, parts = before ++ after ∧
    blocks after = [] ∧ stop index parts = index + (linesOf before).length := by
  induction parts generalizing index with
  | nil => exact ⟨[], [], rfl, rfl, rfl⟩
  | cons part parts ih =>
    by_cases hnone : blocks parts = []
    · -- this part is the last one that may be a block
      have hentries (index : Nat) : entries index parts = [] := by
        rw [← List.map_eq_nil_iff (f := Entry.name), map_name_entries, hnone, List.map_nil]
      cases part with
      | gap line =>
        refine ⟨[], gap line :: parts, rfl, hnone, ?_⟩
        unfold stop
        rw [entries, hentries]
        rfl
      | block b =>
        refine ⟨[block b], parts, rfl, hnone, ?_⟩
        unfold stop
        rw [entries, hentries, linesOf_block]
        simp [linesOf]
    · have hentries (index : Nat) : entries index parts ≠ [] := fun hnil => hnone (by
        rw [← List.map_eq_nil_iff (f := Block.name), ← map_name_entries index, hnil, List.map_nil])
      cases part with
      | gap line =>
        obtain ⟨before, after, rfl, hafter, hstop⟩ := ih (index + 1)
        refine ⟨gap line :: before, after, rfl, hafter, ?_⟩
        have hstop' : stop index (gap line :: (before ++ after)) =
            stop (index + 1) (before ++ after) := by
          unfold stop
          rw [entries, List.getLast?_eq_some_getLast (hentries _)]
        rw [hstop', hstop, linesOf, linesOf, List.flatMap_cons, List.length_append, Nat.add_assoc]
        rfl
      | block b =>
        obtain ⟨before, after, rfl, hafter, hstop⟩ := ih (index + b.lines.length)
        refine ⟨block b :: before, after, rfl, hafter, ?_⟩
        have hstop' : stop index (block b :: (before ++ after)) =
            stop (index + b.lines.length) (before ++ after) := by
          unfold stop
          rw [entries, List.getLast?_cons_of_ne_nil (hentries _),
            List.getLast?_eq_some_getLast (hentries _)]
        rw [hstop', hstop, linesOf_block, List.length_append, Nat.add_assoc]

end Part

end PubspecTidy.Manifest
