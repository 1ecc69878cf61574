import PubspecTidy.Proofs.Manifest.Names
import PubspecTidy.Proofs.Manifest.Splices
import Mathlib.Data.List.Sort

/-!
# What the sections of a manifest list

Main statements: cutting the block of a package out of a section takes its name off the list of that
section; putting it into a section adds no name but that one; opening a section adds none; and the
lists of the other sections stay as they are.
-/
namespace PubspecTidy.Manifest

variable {name : String} {lines new : List String} {kind kind' : SectionKind}
  {s : Section} {x : Extent}

/-! ## Sections among other lines -/

/-- The lines above a section, its header, and the lines below it. -/
structure Surrounds (kind : SectionKind) (above : List String) (header : String)
    (below : List String) : Prop where
  isHeaderOf : Manifest.isHeaderOf kind.name header = true
  first : ∀ line ∈ above, Manifest.isHeaderOf kind.name line = false
  ends : below.takeWhile (!isHeader ·) = []

theorem findFrom_eq_none {index : Nat} (h : findFrom name index lines = none) :
    ∀ line ∈ lines, isHeaderOf name line = false := by
  induction lines generalizing index with
  | nil => simp
  | cons first rest ih =>
    rw [findFrom] at h
    split at h
    · cases h
    · rename_i hfirst
      rw [List.forall_mem_cons]
      exact ⟨by simpa using hfirst, ih h⟩

theorem exists_first_header {index : Nat} (h : findFrom name index lines = some s) :
    ∃ (above : List String) (header : String) (rest : List String),
      lines = above ++ header :: rest ∧ isHeaderOf name header = true ∧
      (∀ line ∈ above, isHeaderOf name line = false) ∧
      s = ⟨index + above.length,
        index + above.length + (rest.takeWhile (!isHeader ·)).length⟩ := by
  induction lines generalizing index with
  | nil => cases h
  | cons first rest ih =>
    rw [findFrom] at h
    split at h
    · rename_i hfirst
      cases h
      exact ⟨[], first, rest, rfl, hfirst, by simp, rfl⟩
    · rename_i hfirst
      obtain ⟨above, header, rest, rfl, hheader, habove, rfl⟩ := ih h
      refine ⟨first :: above, header, rest, rfl, hheader, ?_, ?_⟩
      · rw [List.forall_mem_cons]
        exact ⟨by simpa using hfirst, habove⟩
      · simp only [List.length_cons, Section.mk.injEq]
        omega

theorem exists_surrounds (h : findSection? lines kind.name = some s) :
    ∃ above header below, Surrounds kind above header below ∧ NoHeader (s.body lines) ∧
      lines = above ++ header :: (s.body lines ++ below) ∧ s.header = above.length := by
  obtain ⟨above, header, rest, rfl, hheader, habove, rfl⟩ := exists_first_header h
  have hbody : Section.body ⟨0 + above.length, 0 + above.length +
        (rest.takeWhile (!isHeader ·)).length⟩ (above ++ header :: rest) =
      rest.takeWhile (!isHeader ·) := by
    have hdrop : (above ++ header :: rest).drop (above.length + 1) = rest := by
      rw [← List.drop_drop, List.drop_left, List.drop_succ_cons, List.drop_zero]
    rw [Section.body, linesBetween, Nat.zero_add, hdrop, Nat.add_sub_add_right,
      Nat.add_sub_cancel_left]
    exact (List.prefix_iff_eq_take.mp (List.takeWhile_prefix _)).symm
  rw [hbody]
  refine ⟨above, header, rest.dropWhile (!isHeader ·), ⟨hheader, habove, ?_⟩,
    noHeader_takeWhile rest, ?_, Nat.zero_add _⟩
  · cases hrest : rest.dropWhile (!isHeader ·) with
    | nil => rfl
    | cons first more =>
      have hfirst := List.head_dropWhile_not (!isHeader ·) (l := rest) (by simp [hrest])
      simp only [hrest, List.head_cons] at hfirst
      rw [List.takeWhile_cons_of_neg (by simp [hfirst])]
  · rw [List.takeWhile_append_dropWhile]

/-! ## The names of a section among other lines -/

/-- The names that a section lists; there are none if there is no such section. -/
def listed (lines : List String) (kind : SectionKind) : List String :=
  ((bodyOf? kind.name lines).map (namesFrom none)).getD []

theorem listed_of_findSection? (h : findSection? lines kind.name = some s) :
    listed lines kind = namesFrom none (s.body lines) := by
  rw [listed, ← map_body_findSection?, h]
  rfl

theorem listed_of_findSection?_eq_none (h : findSection? lines kind.name = none) :
    listed lines kind = [] := by
  rw [listed, ← map_body_findSection?, h]
  rfl

theorem names_entries (s : Section) (lines : List String) :
    (s.entries lines).map (·.name) = namesFrom none (s.body lines) :=
  Section.names_entriesFrom_eq _ _

/-- Whatever lines without a header come in for the body, the section is found where it was. -/
theorem Surrounds.findSection?_eq {above below : List String} {header : String}
    (h : Surrounds kind above header below) (hnew : NoHeader new) :
    findSection? (above ++ header :: (new ++ below)) kind.name =
      some ⟨above.length, above.length + new.length⟩ := by
  obtain ⟨hheader, hfirst, hends⟩ := h
  have hfound (index : Nat) : findFrom kind.name index (above ++ header :: (new ++ below)) =
      some ⟨index + above.length, index + above.length + new.length⟩ := by
    induction above generalizing index with
    | nil =>
      rw [List.nil_append, findFrom, if_pos hheader,
        List.takeWhile_append_of_pos fun line hline => by simp [hnew line hline], hends,
        List.append_nil]
      rfl
    | cons line above ih =>
      rw [List.forall_mem_cons] at hfirst
      rw [List.cons_append, findFrom, if_neg (by simp [hfirst.1]), ih hfirst.2, List.length_cons,
        Nat.add_right_comm index 1, Nat.add_assoc index]
  rw [findSection?, hfound 0, Nat.zero_add]

theorem Section.body_append (above : List String) (header : String) (body below : List String) :
    Section.body ⟨above.length, above.length + body.length⟩ (above ++ header :: (body ++ below)) =
      body := by
  have hdrop : (above ++ header :: (body ++ below)).drop (above.length + 1) = body ++ below := by
    rw [← List.drop_drop, List.drop_left, List.drop_succ_cons, List.drop_zero]
  have hsize : above.length + body.length + 1 - (above.length + 1) = body.length := by omega
  rw [Section.body, linesBetween, hdrop, hsize, List.take_left]

theorem Surrounds.bodyOf?_eq {above below : List String} {header : String}
    (h : Surrounds kind above header below) (hnew : NoHeader new) :
    bodyOf? kind.name (above ++ header :: (new ++ below)) = some new := by
  rw [← map_body_findSection?, h.findSection?_eq hnew, Option.map_some, Section.body_append]

/-- A header ends the section above it. -/
theorem Surrounds.before_header {above below : List String} {header next : String}
    (h : Surrounds kind above header below) (hnext : isHeader next = true) (more : List String) :
    Surrounds kind above header (next :: more) :=
  ⟨h.isHeaderOf, h.first, List.takeWhile_cons_of_neg (by simp [hnext])⟩

/-- The only header of a section is its first, whatever blank line is put in before it. -/
theorem surrounds_of_missing {above before after below : List String} {header blank next : String}
    (h : findSection? (above ++ header :: (before ++ after)) kind.name = none)
    (hblank : isBlankLine blank = true) (hnext : isHeaderOf kind.name next = true)
    (hends : below.takeWhile (!isHeader ·) = []) :
    Surrounds kind (above ++ header :: (before ++ [blank])) next below := by
  refine ⟨hnext, fun line hline => ?_, hends⟩
  have hall := findFrom_eq_none h
  simp only [List.mem_append, List.mem_cons] at hline
  rcases hline with hline | rfl | hline | rfl | hline
  · exact hall line (List.mem_append_left _ hline)
  · exact hall line (by simp)
  · exact hall line (by simp [hline])
  · rw [← Bool.not_eq_true]
    intro hheader
    have hfilled := isHeader_of_isHeaderOf hheader
    rw [isHeader_of_isBlankLine hblank] at hfilled
    cases hfilled
  · cases hline

/-! ## Lines that come in for others -/

theorem noHeader_nil : NoHeader [] := fun _ h => nomatch h

theorem NoHeader.append (h : NoHeader lines) (h' : NoHeader new) : NoHeader (lines ++ new) := by
  intro line hline
  rcases List.mem_append.mp hline with hline | hline
  · exact h line hline
  · exact h' line hline

theorem NoHeader.of_append (h : NoHeader (lines ++ new)) : NoHeader lines ∧ NoHeader new :=
  ⟨fun line hline => h line (List.mem_append_left new hline),
    fun line hline => h line (List.mem_append_right lines hline)⟩

/-- Lines of a section, and what comes in for them. -/
theorem replace_lines {above before old after below : List String} {header : String}
    (hlines : lines = above ++ header :: (before ++ old ++ after ++ below)) (new : List String) :
    lines.take (above.length + 1 + before.length) ++ new ++
        lines.drop (above.length + 1 + before.length + old.length) =
      above ++ header :: (before ++ new ++ after ++ below) := by
  have hsplit : lines = (above ++ header :: before) ++ (old ++ (after ++ below)) := by
    rw [hlines]
    simp only [List.append_assoc, List.cons_append]
  have hlength : above.length + 1 + before.length = (above ++ header :: before).length := by
    simp only [List.length_append, List.length_cons]
    omega
  rw [hlength, hsplit, List.take_left, ← List.drop_drop, List.drop_left, List.drop_left]
  simp only [List.append_assoc, List.cons_append]

/-- Lines that come in for others of a section stand in the same place of its body, and no other
section notices. -/
theorem bodyOf?_replace (hs : findSection? lines kind.name = some s)
    {before old after : List String} (hbody : s.body lines = before ++ old ++ after)
    (hnew : NoHeader new) (kind' : SectionKind) :
    bodyOf? kind'.name (lines.take (s.header + 1 + before.length) ++ new ++
        lines.drop (s.header + 1 + before.length + old.length)) =
      if kind' = kind then some (before ++ new ++ after) else bodyOf? kind'.name lines := by
  obtain ⟨above, header, below, hsurrounds, hnone, hlines, hheader⟩ := exists_surrounds hs
  rw [hbody] at hnone hlines
  have hbodyNew : NoHeader (before ++ new ++ after) :=
    (hnone.of_append.1.of_append.1.append hnew).append hnone.of_append.2
  rw [hheader, replace_lines hlines]
  split
  · rename_i hkind
    rw [hkind, hsurrounds.bodyOf?_eq hbodyNew]
  · rename_i hne
    rw [bodyOf?_other hne hsurrounds.isHeaderOf hnone hbodyNew, ← hlines]

/-- The lines of a section that stand in some place of its body. -/
theorem lines_of_body (hs : findSection? lines kind.name = some s)
    {before block after : List String} (hbody : s.body lines = before ++ block ++ after) :
    Extent.lines ⟨s.header + 1 + before.length, s.header + 1 + before.length + block.length⟩ lines =
      block := by
  obtain ⟨above, header, below, -, -, hlines, hheader⟩ := exists_surrounds hs
  have hsplit : lines = (above ++ header :: before) ++ (block ++ (after ++ below)) := by
    rw [hlines, hbody]
    simp only [List.append_assoc, List.cons_append]
  have hlength : s.header + 1 + before.length = (above ++ header :: before).length := by
    rw [hheader]
    simp only [List.length_append, List.length_cons]
    omega
  rw [Extent.lines, Extent.size, Nat.add_sub_cancel_left, hlength, hsplit, List.drop_left,
    List.take_left]

/-! ## A block that goes out -/

/-- A package stands in its section with the whole of its block, and no entry before it has its
name. -/
theorem exists_of_locate? (h : s.locate? lines name = some x) :
    ∃ before line rest after, s.body lines = before ++ (line :: rest) ++ after ∧
      Stands none name before line rest after ∧ name ∉ namesFrom none before ∧
      x = ⟨s.header + 1 + before.length, s.header + 1 + before.length + (line :: rest).length⟩ := by
  obtain ⟨entry, hfind, rfl⟩ := Option.map_eq_some_iff.mp h
  obtain ⟨before, line, rest, after, hbody, hstands, hbefore, hextent⟩ :=
    Section.exists_of_find? (p := (· == name)) none hfind
  have hname : entry.name = name := by simpa using List.find?_some hfind
  rw [hname] at hstands
  exact ⟨before, line, rest, after, hbody, hstands, fun hmem => by simpa using hbefore name hmem,
    hextent⟩

/-- A section without the block of a package lists all names but that one. -/
theorem listed_without (hs : findSection? lines kind.name = some s)
    (hx : s.locate? lines name = some x) (kind' : SectionKind) :
    listed (lines.take x.start ++ lines.drop x.stop) kind' =
      if kind' = kind then (listed lines kind).erase name else listed lines kind' := by
  obtain ⟨before, line, rest, after, hbody, hstands, hfirst, rfl⟩ := exists_of_locate? hx
  have hbodies := bodyOf?_replace hs hbody noHeader_nil kind'
  rw [List.append_nil, List.append_nil] at hbodies
  rw [listed, hbodies]
  split
  · rw [listed_of_findSection? hs, hbody, hstands.namesFrom_eq, List.erase_append_right _ hfirst,
      List.erase_cons_head, ← hstands.isPlace_without.namesFrom_eq]
    rfl
  · rfl

/-! ## A block that comes in -/

/-- Behind the entries of a section there is a place, with no name after it. -/
theorem exists_place_entriesEnd (s : Section) (lines : List String) :
    ∃ before after, s.body lines = before ++ after ∧ IsPlace none before after ∧
      namesFrom none after = [] ∧ s.entriesEnd lines = s.header + 1 + before.length := by
  rw [Section.entriesEnd]
  cases hlast : (s.entries lines).getLast? with
  | some entry => exact Section.exists_of_getLast? none hlast
  | none =>
    refine ⟨[], s.body lines, rfl, (fun n hn => nomatch hn), ?_, rfl⟩
    rw [← names_entries, List.getLast?_eq_none_iff.mp hlast]
    rfl

/-- A package goes to a place in its section. No name before it is greater, and the first one after
it, if there is any, is. -/
theorem exists_place (e : Editor) (s : Section) (name : String) :
    ∃ before after, s.body e.lines = before ++ after ∧ IsPlace none before after ∧
      e.insertionPlace s name = s.header + 1 + before.length ∧
      (∀ n ∈ namesFrom none before, ¬ name < n) ∧
      ∀ n ∈ (namesFrom none after).head?, name < n := by
  rw [Editor.insertionPlace]
  split
  · rename_i entry hfind
    obtain ⟨before, line, rest, after, hbody, hstands, hbefore, hextent⟩ :=
      Section.exists_of_find? (p := fun n => decide (name < n)) none hfind
    have hgreater : name < entry.name := by simpa using List.find?_some hfind
    refine ⟨before, (line :: rest) ++ after, ?_, ?_, ?_, ?_, ?_⟩
    · rw [hbody, List.append_assoc]
    · exact hstands.isBlock.isPlace_before hstands.ends _
    · rw [hextent]
    · exact fun n hn => of_decide_eq_false (hbefore n hn)
    · intro n hn
      rw [hstands.isBlock.namesFrom_append rfl, List.head?_cons] at hn
      exact Option.some.inj hn ▸ hgreater
  · rename_i hfind
    obtain ⟨before, after, hbody, hplace, hnone, hend⟩ := exists_place_entriesEnd s e.lines
    refine ⟨before, after, hbody, hplace, hend, fun n hn => ?_, fun n hn => ?_⟩
    · have hmem : n ∈ (s.entries e.lines).map (·.name) := by
        rw [names_entries, hbody, hplace.namesFrom_eq]
        exact List.mem_append_left _ hn
      obtain ⟨entry, hentry, rfl⟩ := List.mem_map.mp hmem
      simpa using List.find?_eq_none.mp hfind entry hentry
    · rw [hnone] at hn
      cases hn

/-- A name comes in between the names that are not greater and the first one that is. -/
theorem orderedInsert_append {names more : List String} (hless : ∀ n ∈ names, ¬ name < n)
    (hgreater : ∀ n ∈ more.head?, name < n) :
    (names ++ more).orderedInsert (· < ·) name = names ++ name :: more := by
  induction names with
  | nil =>
    cases more with
    | nil => rfl
    | cons next more => exact List.orderedInsert_cons_of_le _ _ (hgreater next rfl)
  | cons first names ih =>
    rw [List.forall_mem_cons] at hless
    rw [List.cons_append, List.orderedInsert_of_not_le _ _ hless.1, ih hless.2, List.cons_append]

theorem IsBlock.noHeader {line : String} {rest : List String} (h : IsBlock name line rest) :
    NoHeader (line :: rest) := by
  intro l hl
  rcases List.mem_cons.mp hl with rfl | hl
  · exact isHeader_of_startsBlank (startsBlank_of_isDependencyLine h.declares)
  · rcases h.allGoOn l hl with hblank | hdeep
    · exact isHeader_of_isBlankLine hblank
    · exact isHeader_of_startsBlank (startsBlank_of_indentation_pos (by omega))

namespace Editor

variable {e : Editor}

/-- Where a block comes in, and the bodies of the sections with it. -/
theorem bodyOf?_paste (h : e.Tracked) (hs : e.sectionAt kind = some s) {block : List String}
    (hblock : NoHeader block) (kind' : SectionKind) {before after : List String}
    (hbody : s.body e.lines = before ++ after)
    (hat : e.insertionPlace s name = s.header + 1 + before.length) :
    bodyOf? kind'.name (e.paste kind name block).lines =
      if kind' = kind then some (before ++ block ++ after) else bodyOf? kind'.name e.lines := by
  have hfound := (h kind).symm.trans hs
  rw [← List.append_nil before] at hbody
  rw [paste, hs]
  dsimp only [insert]
  rw [hat]
  exact bodyOf?_replace hfound hbody hblock kind'

/-- Putting a block into a section adds its name at most, before the first that is greater. -/
theorem listed_paste (h : e.Tracked) (hs : e.sectionAt kind = some s) {line : String}
    {rest : List String} (hblock : IsBlock name line rest) :
    (listed (e.paste kind name (line :: rest)).lines kind).Sublist
      ((listed e.lines kind).orderedInsert (· < ·) name) ∧
    ∀ kind' ≠ kind,
      listed (e.paste kind name (line :: rest)).lines kind' = listed e.lines kind' := by
  have hfound := (h kind).symm.trans hs
  obtain ⟨before, after, hbody, hplace, hat, hless, hgreater⟩ := exists_place e s name
  have hbodies (kind') := bodyOf?_paste h hs hblock.noHeader kind' hbody hat
  constructor
  · rw [listed_of_findSection? hfound, hbody, hplace.namesFrom_eq,
      orderedInsert_append hless hgreater, listed, hbodies kind, if_pos rfl]
    exact hplace.sublist_insert hblock
  · intro kind' hne
    rw [listed, hbodies kind', if_neg hne]
    rfl

/-- Where a section is opened behind the entries of another one, it takes over what stands there. -/
theorem bodyOf?_createSection (h : e.Tracked) (hend : e.HasLineEnd) {source target : SectionKind}
    (hs : e.sectionAt source = some s) (ht : e.sectionAt target = none) :
    ∃ before after, s.body e.lines = before ++ after ∧ IsPlace none before after ∧
      namesFrom none after = [] ∧
      bodyOf? source.name (e.createSection target (some s)).lines = some (before ++ [e.lineEnd]) ∧
      bodyOf? target.name (e.createSection target (some s)).lines = some after := by
  have hfound := (h source).symm.trans hs
  have hmissing := (h target).symm.trans ht
  obtain ⟨above, header, below, hsurrounds, hnone, hlines, hheader⟩ := exists_surrounds hfound
  obtain ⟨before, after, hbody, hplace, hafter, hat⟩ := exists_place_entriesEnd s e.lines
  rw [hbody] at hnone hlines
  have hblank : isBlankLine e.lineEnd = true := by
    rcases hend with hend | hend <;> rw [hend] <;> decide
  have hopens := isHeaderOf_headerLine hend target
  have hbefore : NoHeader (before ++ [e.lineEnd]) :=
    hnone.of_append.1.append fun line hline => by
      rw [List.mem_singleton.mp hline]
      exact isHeader_of_isBlankLine hblank
  have hcreate : (e.createSection target (some s)).lines =
      above ++ header :: (before ++ headerLines e.lineEnd target ++ after ++ below) := by
    rw [createSection, writeHeader]
    dsimp only [rescan, headerPlace]
    have hsplit : e.lines = above ++ header :: (before ++ [] ++ after ++ below) := by
      rw [List.append_nil, hlines]
    rw [hat, hheader]
    exact replace_lines hsplit _
  refine ⟨before, after, hbody, hplace, hafter, ?_, ?_⟩
  · have hsplit : above ++ header :: (before ++ headerLines e.lineEnd target ++ after ++ below) =
        above ++ header :: ((before ++ [e.lineEnd]) ++
          (target.name ++ ":" ++ e.lineEnd) :: (after ++ below)) := by
      simp [headerLines]
    have hsource := hsurrounds.before_header (isHeader_of_isHeaderOf hopens) (after ++ below)
    rw [hcreate, hsplit, hsource.bodyOf?_eq hbefore]
  · have hsplit : above ++ header :: (before ++ headerLines e.lineEnd target ++ after ++ below) =
        (above ++ header :: (before ++ [e.lineEnd])) ++
          (target.name ++ ":" ++ e.lineEnd) :: (after ++ below) := by
      simp [headerLines]
    rw [hlines, List.append_assoc] at hmissing
    have hfirst := surrounds_of_missing hmissing hblank hopens hsurrounds.ends
    rw [hcreate, hsplit, hfirst.bodyOf?_eq hnone.of_append.2]

/-- Opening a section behind the entries of another one leaves all lists as they are. -/
theorem listed_createSection (h : e.Tracked) (hend : e.HasLineEnd) {source target : SectionKind}
    (hne : target ≠ source) (hs : e.sectionAt source = some s) (ht : e.sectionAt target = none)
    (kind : SectionKind) :
    listed (e.createSection target (some s)).lines kind = listed e.lines kind := by
  have hfound := (h source).symm.trans hs
  have hmissing := (h target).symm.trans ht
  obtain ⟨before, after, hbody, hplace, hafter, hsource, htarget⟩ :=
    bodyOf?_createSection h hend hs ht
  have hblank : isBlankLine e.lineEnd = true := by
    rcases hend with hend | hend <;> rw [hend] <;> decide
  by_cases hkind : kind = source
  · rw [hkind, listed_of_findSection? hfound, hbody, hplace.namesFrom_eq, hafter, listed, hsource,
      Option.map_some, namesFrom_append, namesFrom, nameAt?_of_isBlankLine hblank]
    rfl
  · obtain rfl : kind = target := by
      cases kind <;> cases target <;> cases source <;> simp_all
    rw [listed_of_findSection?_eq_none hmissing, listed, htarget, Option.map_some, hafter]
    rfl

end Editor
end PubspecTidy.Manifest
