import Mathlib.Data.List.Nodup
import PubspecTidy.Proofs.Manifest.Layout
import PubspecTidy.Proofs.Sheet.Lines

/-!
# What a sheet declares

Main statement: a sheet whose blocks and other stretches can be read on their own declares in each
section the packages of its blocks, and has the entries of its other stretches outside of them.
-/
namespace PubspecTidy.Manifest

open Yaml (Document IsFiller Piece Reading)

/-- The text of whole lines. -/
def wholeLines (lines : List String) : List Char := lines.flatMap fun line => line.toList ++ ['\n']

variable {n : Nat} {line : String} {lines more : List String} {b : Block} {part : Part}
  {parts : List Part} {st : Stretch} {sheet above below : List Stretch} {kind : SectionKind}
  {header name : String} {F : List Char}

theorem wholeLines_append (lines more : List String) :
    wholeLines (lines ++ more) = wholeLines lines ++ wholeLines more := List.flatMap_append

theorem wholeLines_cons (line : String) (lines : List String) :
    wholeLines (line :: lines) = wholeLines [line] ++ wholeLines lines :=
  wholeLines_append [line] lines

theorem wholeLines_singleton (line : String) : wholeLines [line] = line.toList ++ ['\n'] :=
  List.flatMap_singleton _ _

theorem getLast?_wholeLines (h : lines ≠ []) : (wholeLines lines).getLast? = some '\n' := by
  rw [← List.dropLast_append_getLast h, wholeLines_append, wholeLines_singleton,
    ← List.append_assoc, List.getLast?_append]
  rfl

/-- The text of whole lines is that of the lines with an empty one behind them. -/
theorem joinLines_wholeLines (lines : List String) :
    Text.joinLines (lines ++ [""]) = String.ofList (wholeLines lines) := by
  unfold Text.joinLines
  refine congrArg String.ofList ?_
  induction lines with
  | nil => rfl
  | cons line lines ih =>
    obtain ⟨next, rest, hrest⟩ : ∃ next rest, (lines ++ [""]).map String.toList = next :: rest :=
      List.exists_cons_of_ne_nil (by simp)
    rw [List.cons_append, List.map_cons, wholeLines_cons, wholeLines_singleton, ← ih, hrest,
      List.append_assoc]
    rfl

/-! ## Silent lines -/

theorem isFiller_of_isSilent (h : isSilent line = true) : IsFiller (wholeLines [line]) := by
  rw [wholeLines_singleton]
  refine ⟨.inr (by simp), ?_⟩
  rcases isSilent_cases h with hspaces | ⟨spaces, cs, heq, hspaces, hcs⟩
  · have hgap : ∀ c ∈ line.toList ++ ['\n'], c = ' ' ∨ Yaml.isBreak c = true := by
      intro c hc
      rcases List.mem_append.mp hc with hc | hc
      · exact .inl (hspaces c hc)
      · rw [List.mem_singleton.mp hc]
        exact .inr (by decide)
    have hrest : (Yaml.Cursor.ofText (line.toList ++ ['\n'])).rest =
        (line.toList ++ ['\n']) ++ [] := (List.append_nil _).symm
    have hnil : ((Yaml.Cursor.ofText (line.toList ++ ['\n'])).skip
        (line.toList ++ ['\n']).length).rest = [] := by
      rw [Yaml.Cursor.rest_skip, hrest, List.drop_left]
    rw [Yaml.Scanner.nextSeen_blanks hgap hrest, Yaml.Cursor.nextSeen_of_nil hnil, hnil]
  · have hrest : (Yaml.Cursor.ofText (line.toList ++ ['\n'])).rest =
        spaces ++ ('#' :: (cs ++ ['\n'])) := by
      rw [heq]
      simp [Yaml.Cursor.ofText]
    rw [Yaml.Scanner.nextSeen_blanks (fun c hc => .inl (hspaces c hc)) hrest]
    have hhash : ((Yaml.Cursor.ofText (line.toList ++ ['\n'])).skip spaces.length).rest =
        '#' :: (cs ++ ['\n']) := by
      rw [Yaml.Cursor.rest_skip, hrest, List.drop_left]
    generalize (Yaml.Cursor.ofText (line.toList ++ ['\n'])).skip spaces.length = c at hhash
    have hcomment : (c.skipSpaces.skipComment).rest = ['\n'] := by
      have hspace : c.skipSpaces.rest = '#' :: (cs ++ ['\n']) := by
        rw [Yaml.Cursor.skipSpaces, Yaml.Cursor.rest_skipWhile, hhash,
          List.dropWhile_cons_of_neg (by decide)]
      rw [Yaml.Cursor.skipComment, if_pos (by rw [hspace]; rfl), Yaml.Cursor.rest_skipWhile, hspace,
        List.dropWhile_cons_of_pos (by decide),
        List.dropWhile_append_of_pos fun x hx => by simp [hcs x hx]]
      decide
    have hbreak : c.skipSpaces.skipComment.takeBreak? =
        some ('\n', c.skipSpaces.skipComment.next) := by
      rw [Yaml.Cursor.takeBreak?_eq_of_ne_return hcomment (by decide)]
      rfl
    have hnil : c.skipSpaces.skipComment.next.rest = [] := by
      rw [Yaml.Cursor.rest_next, hcomment]
      rfl
    rw [Yaml.Cursor.nextSeen_of_break hbreak, Yaml.Cursor.nextSeen_of_nil hnil, hnil]

/-! ## What can be read on its own -/

/-- A line that is read as it is written. -/
def IsLegible (line : String) : Prop := ∀ c ∈ line.toList,
  Yaml.isPermitted c = true ∧ c ≠ Yaml.byteOrderMark ∧ c ≠ '\n' ∧ c ≠ '\r'

/-- Decided from the characters of the line, not from all characters. -/
instance (line : String) : Decidable (IsLegible line) :=
  decidable_of_iff ((line.toList.all fun c => decide
      (Yaml.isPermitted c = true ∧ c ≠ Yaml.byteOrderMark ∧ c ≠ '\n' ∧ c ≠ '\r')) = true)
    (by unfold IsLegible; simp)

/-- A block that declares its package on its own. -/
structure Block.Sound (n : Nat) (b : Block) : Prop extends b.Fits n where
  reads : b.reading.Of n (wholeLines b.lines) false
  key : ∃ v, b.reading.top = [(.string b.name, v)]
  shown : shownIn b.reading = .ok [(b.name, b.version)]

namespace Stretch

def other? : Stretch → Option Reading
  | other _ reading _ => some reading
  | listed .. => none

/-- What the entries of a stretch come to. -/
def readings : Stretch → List Reading
  | other _ reading _ => [reading]
  | listed _ _ parts => (Part.blocks parts).map Block.reading

/-- What a stretch asks of the next one: whether it may end in a block scalar, and the lines in
which something has to be seen then. -/
def edges : Stretch → Bool × Option (List String)
  | other lines _ scalar => (scalar, some lines)
  | listed .. => (false, none)

/-- A stretch that can be read on its own. -/
def Sound (n : Nat) : Stretch → Prop
  | other lines reading scalar => reading.Of 0 (wholeLines lines) scalar ∧
      ∀ e ∈ reading.top, ∀ kind : SectionKind, e.1.Differs (.string kind.name)
  | listed kind header parts =>
      Yaml.Scanner.IsHeaderText (wholeLines [header]) kind.name.toList ∧
        (∀ b ∈ Part.blocks parts, b.Sound n) ∧ ((Part.blocks parts).map Block.name).Nodup

end Stretch

/-- Right behind a block scalar, something is to be seen at the start of the line. -/
def Follows (a b : Bool × Option (List String)) : Prop :=
  a.1 = true → ∀ lines, b.2 = some lines → Yaml.Block.IsSeen (wholeLines lines)

def readingsOf (sheet : List Stretch) : List Reading := sheet.flatMap Stretch.readings

def othersOf (sheet : List Stretch) : List Reading := sheet.filterMap Stretch.other?

/-- A sheet whose parts can be read on their own, with each section once. All blocks stand at one
column, and no two parts have a key or an anchor in common. -/
structure Sound (n : Nat) (sheet : List Stretch) : Prop where
  column : 0 < n
  inhabited : sheet ≠ []
  fits : ∀ st ∈ sheet, st.Fits n
  each : ∀ st ∈ sheet, st.Sound n
  legible : ∀ line ∈ Stretch.linesOf sheet, IsLegible line
  kinds : (sheet.filterMap Stretch.kind?).Nodup
  keys : (othersOf sheet).Pairwise fun r r' => Yaml.KeysDiffer r.top r'.top
  anchors : (readingsOf sheet).Pairwise Reading.AnchorsDiffer
  seen : (sheet.map Stretch.edges).IsChain Follows

/-! ## The pieces of a section -/

namespace Part

/-- The blocks of a section as pieces, each with the silent lines behind it, and the silent lines in
front of them. -/
def gather : List Part → List Char × List Piece
  | [] => ([], [])
  | gap line :: parts => (wholeLines [line] ++ (gather parts).1, (gather parts).2)
  | block b :: parts =>
    ([], ⟨wholeLines b.lines ++ (gather parts).1, b.reading, false⟩ :: (gather parts).2)

theorem texts_gather (parts : List Part) :
    (gather parts).1 ++ Piece.texts (gather parts).2 = wholeLines (linesOf parts) := by
  induction parts with
  | nil => rfl
  | cons part parts ih =>
    rw [linesOf, List.flatMap_cons, ← linesOf, wholeLines_append, ← ih]
    cases part with
    | gap line => exact List.append_assoc _ _ _
    | block b => exact List.append_assoc _ _ _

theorem isFiller_gather (h : ∀ part ∈ parts, part.Fits n) : IsFiller (gather parts).1 := by
  induction parts with
  | nil => exact ⟨.inl rfl, rfl⟩
  | cons part parts ih =>
    cases part with
    | gap line =>
      have hsilent : isSilent line = true := (h _ List.mem_cons_self).1
      exact (isFiller_of_isSilent hsilent).append (ih fun p hp => h p (List.mem_cons_of_mem _ hp))
    | block b => exact ⟨.inl rfl, rfl⟩

theorem map_reading_gather (parts : List Part) :
    (gather parts).2.map Piece.reading = (blocks parts).map Block.reading := by
  induction parts with
  | nil => rfl
  | cons part parts ih =>
    cases part with
    | gap line => exact ih
    | block b => exact congrArg _ ih

theorem scalar_gather (parts : List Part) : ∀ p ∈ (gather parts).2, p.scalar = false := by
  induction parts with
  | nil => exact fun p hp => nomatch hp
  | cons part parts ih =>
    cases part with
    | gap line => exact ih
    | block b =>
      intro p hp
      rcases List.mem_cons.mp hp with rfl | hp
      · rfl
      · exact ih p hp

theorem alone_gather (h : ∀ part ∈ parts, part.Fits n) (hsound : ∀ b ∈ blocks parts, b.Sound n) :
    ∀ p ∈ (gather parts).2, p.Alone n := by
  induction parts with
  | nil => exact fun p hp => nomatch hp
  | cons part parts ih =>
    have hparts := fun p hp => h p (List.mem_cons_of_mem part hp)
    cases part with
    | gap line => exact ih hparts hsound
    | block b =>
      have hb := hsound b List.mem_cons_self
      have hends : (wholeLines b.lines).getLast? = some '\n' :=
        getLast?_wholeLines (List.cons_ne_nil _ _)
      have hfiller := isFiller_gather hparts
      intro p hp
      rcases List.mem_cons.mp hp with rfl | hp
      · exact ⟨hb.reads.trail hends hfiller, hfiller.getLast?_append hends⟩
      · exact ih hparts (fun b' hb' => hsound b' (List.mem_cons_of_mem _ hb')) p hp

/-- Blocks with different names and anchors have no key or anchor in common. -/
theorem apart_gather (hsound : ∀ b ∈ blocks parts, b.Sound n)
    (hnames : ((blocks parts).map Block.name).Nodup)
    (hanchors : ((blocks parts).map Block.reading).Pairwise Reading.AnchorsDiffer) :
    (gather parts).2.Pairwise Piece.Apart := by
  have hnames' := List.pairwise_map.mp hnames
  have hanchors' := List.pairwise_map.mp hanchors
  have hblocks : (blocks parts).Pairwise fun b b' =>
      Yaml.KeysDiffer b.reading.top b'.reading.top ∧ b.reading.AnchorsDiffer b'.reading := by
    refine (hnames'.and hanchors').imp_of_mem fun {b b'} hb hb' ⟨hname, hanchor⟩ => ⟨?_, hanchor⟩
    obtain ⟨v, htop⟩ := (hsound b hb).key
    obtain ⟨v', htop'⟩ := (hsound b' hb').key
    intro e he e' he'
    rw [htop, List.mem_singleton] at he
    rw [htop', List.mem_singleton] at he'
    rw [he, he']
    exact Yaml.Value.differs_string hname
  have hreadings := List.pairwise_map (f := Block.reading) (l := blocks parts)
    (R := fun r r' : Reading => Yaml.KeysDiffer r.top r'.top ∧ r.AnchorsDiffer r')
  have hpieces := hreadings.mpr hblocks
  rw [← map_reading_gather, List.pairwise_map] at hpieces
  exact hpieces.imp fun h => ⟨h.1, h.2⟩

end Part

/-! ## The items of a sheet -/

namespace Stretch

def item : Stretch → Item
  | other lines reading scalar => .other ⟨wholeLines lines, reading, scalar⟩
  | listed kind header parts =>
    .listed kind (wholeLines [header]) (Part.gather parts).1 (Part.gather parts).2

theorem text_item (st : Stretch) : st.item.text = wholeLines st.lines := by
  cases st with
  | other lines reading scalar => rfl
  | listed kind header parts =>
    rw [lines, wholeLines_cons, ← Part.texts_gather]
    rfl

theorem texts_item (sheet : List Stretch) :
    Item.texts (sheet.map item) = wholeLines (linesOf sheet) := by
  induction sheet with
  | nil => rfl
  | cons st sheet ih =>
    rw [linesOf, List.flatMap_cons, ← linesOf, wholeLines_append, ← ih, ← text_item]
    rfl

theorem other?_item (st : Stretch) : st.item.other? = st.other? := by
  cases st <;> rfl

/-- The anchors of an item are those of the texts that it is made of. -/
theorem exists_of_anchor {x : String} (h : Yaml.Token.anchor x ∈ st.item.tokens) :
    ∃ r ∈ st.readings, Yaml.Token.anchor x ∈ r.tokens := by
  cases st with
  | other lines reading scalar => exact ⟨reading, List.mem_singleton.mpr rfl, h⟩
  | listed kind header parts =>
    obtain ⟨p, hp, hx⟩ := List.mem_flatMap.mp h
    refine ⟨p.reading, ?_, hx⟩
    rw [readings, ← Part.map_reading_gather]
    exact List.mem_map_of_mem hp

end Stretch

namespace Sound

theorem alone (h : Sound n sheet) : ∀ i ∈ sheet.map Stretch.item, i.Alone := by
  intro i hi
  obtain ⟨st, hst, rfl⟩ := List.mem_map.mp hi
  have hsound := h.each st hst
  have hfits := h.fits st hst
  have hanchors := (List.pairwise_flatMap.mp h.anchors).1 st hst
  cases st with
  | other lines reading scalar =>
    have hends : (wholeLines lines).getLast? = some '\n' := getLast?_wholeLines (by
      rintro rfl
      exact hsound.1.scans.ne_nil rfl)
    refine ⟨⟨hsound.1, hends⟩, fun key hkey kind => ?_⟩
    obtain ⟨e, he, rfl⟩ := List.mem_map.mp hkey
    exact hsound.2 e he kind
  | listed kind header parts =>
    obtain ⟨hheader, hblocks, hnames⟩ := hsound
    refine ⟨hheader, Part.isFiller_gather hfits.2, ⟨n, h.column, ?_⟩, Part.scalar_gather parts⟩
    have hapart := Part.apart_gather hblocks hnames hanchors
    refine ⟨Part.alone_gather hfits.2 hblocks, hapart, List.Pairwise.isChain ?_⟩
    refine hapart.imp_of_mem fun {p q} hp _ _ hscalar => ?_
    rw [Part.scalar_gather parts p hp] at hscalar
    cases hscalar

theorem apart (h : Sound n sheet) : (sheet.map Stretch.item).Pairwise Item.Apart := by
  have hkinds := List.pairwise_filterMap.mp h.kinds
  have hkeys := List.pairwise_filterMap.mp h.keys
  have hanchors := (List.pairwise_flatMap.mp h.anchors).2
  refine List.pairwise_map.mpr (((hkinds.and hkeys).and hanchors).imp_of_mem
    fun {i j} hi hj ⟨⟨hkind, hkey⟩, hanchor⟩ => ⟨fun a ha b hb => ?_, fun x hx hx' => ?_⟩)
  · have hsound := h.each i hi
    have hsound' := h.each j hj
    cases i with
    | other lines reading scalar =>
      obtain ⟨e, he, rfl⟩ := List.mem_map.mp ha
      cases j with
      | other lines' reading' scalar' =>
        obtain ⟨e', he', rfl⟩ := List.mem_map.mp hb
        exact hkey _ rfl _ rfl e he e' he'
      | listed kind header parts =>
        rw [List.mem_singleton.mp hb]
        exact hsound.2 e he kind
    | listed kind header parts =>
      rw [List.mem_singleton.mp ha]
      cases j with
      | other lines' reading' scalar' =>
        obtain ⟨e', he', rfl⟩ := List.mem_map.mp hb
        exact (hsound'.2 e' he' kind).symm
      | listed kind' header' parts' =>
        rw [List.mem_singleton.mp hb]
        exact Yaml.Value.differs_string fun hname =>
          hkind _ rfl _ rfl (Item.name_injective hname)
  · obtain ⟨r, hr, hrx⟩ := Stretch.exists_of_anchor hx
    obtain ⟨r', hr', hrx'⟩ := Stretch.exists_of_anchor hx'
    exact hanchor r hr r' hr' x hrx hrx'

theorem laid (h : Sound n sheet) : Item.Laid (sheet.map Stretch.item) := by
  refine ⟨h.alone, h.apart, (List.isChain_map Stretch.item).mpr ?_⟩
  refine ((List.isChain_map Stretch.edges).mp h.seen).imp_of_mem_imp
    fun i j hi hj hfollows hscalar => ?_
  have hsound := h.each j hj
  cases i with
  | listed => cases hscalar
  | other lines reading scalar =>
    cases j with
    | other lines' reading' scalar' => exact hfollows hscalar lines' rfl
    | listed kind header parts => exact hsound.1.isSeen _

end Sound

/-! ## What is declared -/

/-- The packages of the blocks in each section, with their versions. -/
def declaredOf (sheet : List Stretch) : Declared := fun kind =>
  (blocksOf sheet kind).map fun b => (b.name, b.version)

theorem blocksOf_split (above below : List Stretch) (kind k : SectionKind) (header : String)
    (parts : List Part) : blocksOf (above ++ .listed kind header parts :: below) k =
      blocksOf above k ++ ((if kind = k then Part.blocks parts else []) ++ blocksOf below k) := by
  simp [blocksOf, Stretch.blocksIn]

theorem blocksOf_eq_nil (h : ∀ st ∈ sheet, st.kind? ≠ some kind) : blocksOf sheet kind = [] := by
  refine List.flatMap_eq_nil_iff.mpr fun st hst => ?_
  cases st with
  | other => rfl
  | listed k header parts => exact if_neg fun hk => h _ hst (congrArg some hk)

theorem exists_of_mem_blocksOf (h : b ∈ blocksOf sheet kind) :
    ∃ header parts, Stretch.listed kind header parts ∈ sheet ∧ Part.block b ∈ parts := by
  obtain ⟨st, hst, hb⟩ := List.mem_flatMap.mp h
  cases st with
  | other => cases hb
  | listed k header parts =>
    rw [Stretch.blocksIn] at hb
    split at hb
    · rename_i hk
      exact ⟨header, parts, hk ▸ hst, Part.mem_of_mem_blocks hb⟩
    · cases hb

theorem entriesOf?_eq_none (h : ∀ st ∈ sheet, st.kind? ≠ some kind) :
    Item.entriesOf? (sheet.map Stretch.item) kind = none := by
  refine List.findSome?_eq_none_iff.mpr fun i hi => ?_
  obtain ⟨st, hst, rfl⟩ := List.mem_map.mp hi
  cases st with
  | other => rfl
  | listed k header parts => exact if_neg fun hk => h _ hst (congrArg some hk)

/-- What the blocks of a section come to, if there is one. -/
def sectionReadings? (sheet : List Stretch) (kind : SectionKind) : Option (List Reading) :=
  sheet.findSome? fun
    | .other .. => none
    | .listed k _ parts => if k = kind then some ((Part.blocks parts).map Block.reading) else none

theorem readingsOf?_item (sheet : List Stretch) (kind : SectionKind) :
    Item.readingsOf? (sheet.map Stretch.item) kind = sectionReadings? sheet kind := by
  unfold Item.readingsOf? Item.entriesOf? sectionReadings?
  induction sheet with
  | nil => rfl
  | cons st sheet ih =>
    rw [List.map_cons, List.findSome?_cons, List.findSome?_cons]
    cases st with
    | other lines reading scalar => exact ih
    | listed k header parts =>
      dsimp only [Stretch.item]
      by_cases hk : k = kind
      · rw [if_pos hk, if_pos hk]
        exact congrArg some (Part.map_reading_gather parts)
      · rw [if_neg hk, if_neg hk]
        exact ih

namespace Sound

/-- There is each section but once. -/
theorem kinds_split (h : Sound n (above ++ .listed kind header parts :: below)) :
    (∀ st ∈ above, st.kind? ≠ some kind) ∧ ∀ st ∈ below, st.kind? ≠ some kind := by
  have hkinds := h.kinds
  rw [List.filterMap_append, List.filterMap_cons_some (f := Stretch.kind?) rfl, List.nodup_middle,
    List.nodup_cons, List.mem_append, not_or] at hkinds
  exact ⟨fun st hst hk => hkinds.1.1 (List.mem_filterMap.mpr ⟨st, hst, hk⟩),
    fun st hst hk => hkinds.1.2 (List.mem_filterMap.mpr ⟨st, hst, hk⟩)⟩

theorem blocksOf_eq (h : Sound n (above ++ .listed kind header parts :: below)) :
    blocksOf (above ++ .listed kind header parts :: below) kind = Part.blocks parts := by
  obtain ⟨habove, hbelow⟩ := h.kinds_split
  rw [blocksOf_split, if_pos rfl, blocksOf_eq_nil habove, blocksOf_eq_nil hbelow, List.nil_append,
    List.append_nil]

/-- No section has two blocks of one name. -/
theorem nodup_blocksOf (h : Sound n sheet) (kind : SectionKind) :
    ((blocksOf sheet kind).map Block.name).Nodup := by
  by_cases hkind : ∃ st ∈ sheet, st.kind? = some kind
  · obtain ⟨above, header, parts, below, rfl, -⟩ := Stretch.exists_first hkind
    have hsound : (Stretch.listed kind header parts).Sound n := h.each _ (by simp)
    rw [h.blocksOf_eq]
    exact hsound.2.2
  · rw [blocksOf_eq_nil fun st hst hk => hkind ⟨st, hst, hk⟩]
    exact List.nodup_nil

/-- The items of a sheet declare what its blocks do. -/
theorem declared_item (h : Sound n sheet) (kind : SectionKind) :
    Item.declared (sheet.map Stretch.item) kind = .ok (declaredOf sheet kind) := by
  by_cases hkind : ∃ st ∈ sheet, st.kind? = some kind
  · obtain ⟨above, header, parts, below, rfl, habove⟩ := Stretch.exists_first hkind
    have hentries : Item.entriesOf? ((above ++ .listed kind header parts :: below).map
        Stretch.item) kind = some (Part.gather parts).2 := by
      have hnone := entriesOf?_eq_none habove
      unfold Item.entriesOf? at hnone ⊢
      rw [List.map_append, List.findSome?_append, hnone, Option.none_or, List.map_cons,
        List.findSome?_cons]
      simp [Stretch.item]
    have hblocks : (Stretch.listed kind header parts).Sound n := h.each _ (by simp)
    have hshown : (Part.gather parts).2.mapM (fun p => shownIn p.reading) =
        .ok ((Part.blocks parts).map fun b => [(b.name, b.version)]) := by
      have hmap : (Part.gather parts).2.mapM (fun p => shownIn p.reading) =
          (Part.blocks parts).mapM fun b => shownIn b.reading := by
        have hreadings : ((Part.gather parts).2.map Piece.reading).mapM shownIn =
            ((Part.blocks parts).map Block.reading).mapM shownIn := by rw [Part.map_reading_gather]
        rwa [List.mapM_map, List.mapM_map] at hreadings
      rw [hmap]
      exact mapM_eq_ok fun b hb => (hblocks.2.1 b hb).shown
    unfold Item.declared
    rw [hentries]
    dsimp only
    rw [hshown, declaredOf, h.blocksOf_eq]
    refine congrArg Except.ok ?_
    rw [← List.flatMap_def]
    exact List.map_eq_flatMap.symm
  · have hnone : ∀ st ∈ sheet, st.kind? ≠ some kind := fun st hst hk => hkind ⟨st, hst, hk⟩
    unfold Item.declared
    rw [entriesOf?_eq_none hnone, declaredOf, blocksOf_eq_nil hnone]
    rfl

theorem others_item (sheet : List Stretch) :
    (sheet.map Stretch.item).filterMap Item.other? = othersOf sheet := by
  rw [List.filterMap_map]
  exact congrArg (sheet.filterMap ·) (funext Stretch.other?_item)

theorem legible_wholeLines (h : ∀ line ∈ lines, IsLegible line) :
    ∀ c ∈ wholeLines lines, Yaml.isPermitted c = true ∧ c ≠ Yaml.byteOrderMark := by
  intro c hc
  obtain ⟨line, hline, hc⟩ := List.mem_flatMap.mp hc
  rcases List.mem_append.mp hc with hc | hc
  · exact ⟨(h line hline c hc).1, (h line hline c hc).2.1⟩
  · rw [List.mem_singleton.mp hc]
    exact ⟨by decide, by decide⟩

/-- A sheet declares the packages of its blocks. It holds the blocks of a section under its name, and
has the entries of its other stretches outside of the sections. -/
theorem exists_document (h : Sound n sheet) : ∃ s ds,
    load (Text.joinLines (Stretch.linesOf sheet ++ [""])) = .ok (s.document, s.top) ∧
      HoldsOutside (othersOf sheet) s ∧
      (∀ kind : SectionKind, Option.Rel (HoldsUnder s) (sectionReadings? sheet kind)
        (Document.field? s.top kind.name)) ∧
      readDeclarations (Text.joinLines (Stretch.linesOf sheet ++ [""])) = .ok ds ∧
      ds.declared = declaredOf sheet := by
  have hne : sheet.map Stretch.item ≠ [] := fun hnil =>
    h.inhabited (List.map_eq_nil_iff.mp hnil)
  have hchars := legible_wholeLines h.legible
  rw [← Stretch.texts_item] at hchars
  have hmark : (Item.texts (sheet.map Stretch.item)).head? ≠ some Yaml.byteOrderMark := fun hhead =>
    (hchars _ (List.mem_of_mem_head? hhead)).2 rfl
  have hpermitted : (Item.texts (sheet.map Stretch.item)).all Yaml.isPermitted = true :=
    List.all_eq_true.mpr fun c hc => (hchars c hc).1
  obtain ⟨s, hload, hholds, houtside⟩ := h.laid.exists_reading hne hmark hpermitted
  obtain ⟨ds, hds, hdeclared⟩ := h.laid.readDeclarations hne hmark hpermitted h.declared_item
  simp only [readingsOf?_item] at hholds
  rw [others_item] at houtside
  rw [joinLines_wholeLines, ← Stretch.texts_item]
  exact ⟨s, ds, hload, houtside, hholds, hds, hdeclared⟩

/-- A sheet declares the packages of its blocks, and has the entries of its other stretches. -/
theorem exists_reading (h : Sound n sheet) : ∃ s ds,
    load (Text.joinLines (Stretch.linesOf sheet ++ [""])) = .ok (s.document, s.top) ∧
      HoldsOutside (othersOf sheet) s ∧
      readDeclarations (Text.joinLines (Stretch.linesOf sheet ++ [""])) = .ok ds ∧
      ds.declared = declaredOf sheet := by
  obtain ⟨s, ds, hload, houtside, -, hds, hdeclared⟩ := h.exists_document
  exact ⟨s, ds, hload, houtside, hds, hdeclared⟩

end Sound

end PubspecTidy.Manifest
