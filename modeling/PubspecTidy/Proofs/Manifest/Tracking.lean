import PubspecTidy.Proofs.Manifest.Sections
import PubspecTidy.Manifest.Editor

/-!
# The tracked sections

The editor shifts the places of its two sections instead of looking for them again. Main statement:
after every step of every run, the places that it holds are those that a search would find.
-/
namespace PubspecTidy.Manifest

/-- What can be asked of the editor; sections go by their names. -/
inductive Operation where
  | remove (name : String)
  | removeFrom (sectionName name : String)
  | move (name source target : String)
  | create (sectionName : String) (after : Option Section)
  | apply (changes : List Change)

namespace Editor

/-- The editor after one operation, whether it took effect, failed or did nothing. -/
def act (e : Editor) : Operation → Editor
  | .remove name => (e.remove name).2
  | .removeFrom sectionName name => (e.removeFromNamed sectionName name).2
  | .move name source target => (e.moveNamed name source target).2
  | .create sectionName after => (e.createNamed sectionName after).2
  | .apply changes => (e.apply changes).2

def run (e : Editor) (operations : List Operation) : Editor := operations.foldl act e

/-- Every section is where a search finds it. -/
def Tracked (e : Editor) : Prop :=
  ∀ kind : SectionKind, e.sectionAt kind = findSection? e.lines kind.name

@[simp] theorem sectionAt_insert (e : Editor) (position : Nat) (block : List String)
    (owner kind : SectionKind) :
    (e.insert position block owner).sectionAt kind =
      (e.sectionAt kind).map (grow (owner == kind) position block.length) := by
  cases kind <;> rfl

@[simp] theorem sectionAt_delete (e : Editor) (x : Extent) (owner kind : SectionKind) :
    (e.delete x owner).sectionAt kind =
      (e.sectionAt kind).map (shrink (owner == kind) x.start x.size) := by
  cases kind <;> rfl

theorem tracked_rescan (e : Editor) : e.rescan.Tracked := by
  intro kind
  cases kind <;> rfl

theorem tracked_ofLines (lines : List String) : (ofLines lines).Tracked := by
  intro kind
  cases kind <;> rfl

theorem tracked_writeHeader (e : Editor) (name : String) (after : Option Section) :
    (e.writeHeader name after).Tracked := tracked_rescan _

/-! ## Shifts -/

/-- Lines that come into a section of which the other one has no line shift both as they should. -/
theorem grow_eq_widen {owner kind : SectionKind} {position count : Nat} {s s' : Section}
    (hlow : s.header < position) (hhigh : position ≤ s.last + 1) (hle : s'.header ≤ s'.last)
    (hsame : owner = kind → s' = s)
    (hother : owner ≠ kind → s.last < s'.header ∨ s'.last < s.header) :
    grow (owner == kind) position count s' = s'.widen position count := by
  unfold grow Section.widen
  by_cases hkind : owner = kind
  · cases hsame hkind
    rw [if_pos (by simpa using hkind), if_neg (by omega), if_pos hhigh]
  · rw [if_neg (by simpa using hkind)]
    rcases hother hkind with hbehind | hbefore
    · rw [if_pos (by omega), if_pos (by omega)]
    · rw [if_neg (by omega), if_neg (by omega), if_neg (by omega)]

/-- Cutting the same lines out again brings a section back to where it was. -/
theorem shrink_widen {owner kind : SectionKind} {position count : Nat} {s s' : Section}
    (hlow : s.header < position) (hhigh : position + count ≤ s.last + 1)
    (hsame : owner = kind → s'.widen position count = s)
    (hother : owner ≠ kind → s.last < (s'.widen position count).header ∨
      (s'.widen position count).last < s.header) :
    shrink (owner == kind) position count (s'.widen position count) = s' := by
  unfold shrink
  by_cases hbehind : position ≤ s'.header
  · have hw : s'.widen position count = ⟨s'.header + count, s'.last + count⟩ := if_pos hbehind
    have hkind : owner ≠ kind := by
      intro hkind
      have hs := congrArg Section.header (hw.symm.trans (hsame hkind))
      simp only at hs
      omega
    rw [hw, if_neg (by simpa using hkind), if_pos (by simp only; omega)]
    simp
  by_cases hinside : position ≤ s'.last + 1
  · have hw : s'.widen position count = ⟨s'.header, s'.last + count⟩ := by
      rw [Section.widen, if_neg hbehind, if_pos hinside]
    have hkind : owner = kind := by
      by_contra hne
      have hs := hother hne
      rw [hw] at hs
      simp only at hs
      omega
    rw [hw, if_pos (by simpa using hkind)]
    simp
  · have hw : s'.widen position count = s' := by
      rw [Section.widen, if_neg hbehind, if_neg hinside]
    have hkind : owner ≠ kind := by
      intro hkind
      have hs := congrArg Section.last (hw.symm.trans (hsame hkind))
      omega
    rw [hw, if_neg (by simpa using hkind), if_neg hbehind]

theorem Tracked.insert {e : Editor} (h : e.Tracked) {owner : SectionKind} {s : Section}
    (hs : e.sectionAt owner = some s) {position : Nat} (hlow : s.header < position)
    (hhigh : position ≤ s.last + 1) {block : List String} (hblock : NoHeader block) :
    (e.insert position block owner).Tracked := by
  rw [h owner] at hs
  have hlength : (e.lines.take position).length = position := by
    have := last_lt_length hs
    rw [List.length_take]
    omega
  intro kind
  have hfound := findSection?_insert kind hblock (e.lines.take position)
    (e.lines.drop position)
  rw [List.take_append_drop, hlength] at hfound
  rw [sectionAt_insert, h kind]
  refine Eq.trans (Option.map_congr fun s' hs' => ?_) hfound.symm
  refine grow_eq_widen hlow hhigh (header_le_last hs') ?_ fun hne => sections_apart hne hs hs'
  rintro rfl
  exact Option.some.inj (hs'.symm.trans hs)

theorem Tracked.delete {e : Editor} (h : e.Tracked) {owner : SectionKind} {s : Section}
    (hs : e.sectionAt owner = some s) {x : Extent} (hlow : s.header < x.start)
    (hle : x.start ≤ x.stop) (hhigh : x.stop ≤ s.last + 1)
    (hblock : NoHeader (x.lines e.lines)) : (e.delete x owner).Tracked := by
  rw [h owner] at hs
  have hlast := last_lt_length hs
  have hlength : (e.lines.take x.start).length = x.start := by
    rw [List.length_take]
    omega
  have hsize : (x.lines e.lines).length = x.size := by
    rw [Extent.lines, List.length_take, List.length_drop, Extent.size]
    omega
  have hfound (kind : SectionKind) : findSection? e.lines kind.name =
      (findSection? (e.delete x owner).lines kind.name).map (Section.widen x.start x.size) := by
    have := findSection?_insert kind hblock (e.lines.take x.start) (e.lines.drop x.stop)
    rwa [Extent.lines_append hle, hlength, hsize] at this
  intro kind
  rw [sectionAt_delete, h kind, hfound kind]
  cases hs' : findSection? (e.delete x owner).lines kind.name with
  | none => rfl
  | some s' =>
    have hkind : findSection? e.lines kind.name = some (s'.widen x.start x.size) := by
      rw [hfound kind, hs', Option.map_some]
    have hstop : x.start + x.size ≤ s.last + 1 := by
      rw [Extent.size]
      omega
    rw [Option.map_some, Option.map_some, shrink_widen hlow hstop]
    · rintro rfl
      exact Option.some.inj (hkind.symm.trans hs)
    · exact fun hne => sections_apart hne hs hkind

/-! ## One step -/

/-- What a cut gives: the lines of an entry of the section, and the editor without them. -/
theorem cut?_eq_some {e e' : Editor} {kind : SectionKind} {name : String} {block : List String}
    (h : e.cut? kind name = some (block, e')) :
    ∃ s entry, e.sectionAt kind = some s ∧ entry ∈ s.entries e.lines ∧ entry.name = name ∧
      block = entry.extent.lines e.lines ∧ e' = e.delete entry.extent kind := by
  obtain ⟨x, hx, hcut⟩ := Option.map_eq_some_iff.mp h
  cases hcut
  obtain ⟨s, hs, hlocate⟩ := Option.bind_eq_some_iff.mp hx
  obtain ⟨entry, hmem, hname, rfl⟩ := Section.mem_entries_of_locate? hlocate
  exact ⟨s, entry, hs, hmem, hname, rfl, rfl⟩

theorem Tracked.cut {e e' : Editor} (h : e.Tracked) {kind : SectionKind} {name : String}
    {block : List String} (hcut : e.cut? kind name = some (block, e')) :
    e'.Tracked ∧ NoHeader block := by
  obtain ⟨s, entry, hs, hmem, -, rfl, rfl⟩ := cut?_eq_some hcut
  have hblock := Section.noHeader_lines hmem
  exact ⟨h.delete hs (Section.header_lt_start hmem) (Section.start_lt_stop hmem).le
    (Section.stop_le_last hmem) hblock, hblock⟩

theorem Tracked.removeFrom {e : Editor} (h : e.Tracked) (kind : SectionKind) (name : String) :
    (e.removeFrom kind name).2.Tracked := by
  unfold Editor.removeFrom
  split
  · rename_i hcut
    exact (h.cut hcut).1
  · exact h

theorem Tracked.remove {e : Editor} (h : e.Tracked) (name : String) : (e.remove name).2.Tracked :=
  (h.removeFrom .dependencies name).removeFrom .devDependencies name

theorem header_lt_insertionPlace (e : Editor) (s : Section) (name : String) :
    s.header < e.insertionPlace s name := by
  unfold insertionPlace
  split
  · rename_i entry hfind
    exact Section.header_lt_start (List.mem_of_find?_eq_some hfind)
  · exact Section.header_lt_entriesEnd s e.lines

theorem insertionPlace_le_last (e : Editor) {s : Section} (hs : s.header ≤ s.last) (name : String) :
    e.insertionPlace s name ≤ s.last + 1 := by
  unfold insertionPlace
  split
  · rename_i entry hfind
    have hmem := List.mem_of_find?_eq_some hfind
    exact (Section.start_lt_stop hmem).le.trans (Section.stop_le_last hmem)
  · exact Section.entriesEnd_le_last hs

theorem Tracked.paste {e : Editor} (h : e.Tracked) (kind : SectionKind) (name : String)
    {block : List String} (hblock : NoHeader block) : (e.paste kind name block).Tracked := by
  unfold Editor.paste
  split
  · rename_i s hs
    have hle := header_le_last ((h kind).symm.trans hs)
    exact h.insert hs (header_lt_insertionPlace e s name) (insertionPlace_le_last e hle name) hblock
  · exact h

theorem Tracked.move {e : Editor} (h : e.Tracked) (name : String) (source target : SectionKind) :
    (e.move name source target).2.Tracked := by
  unfold Editor.move
  split
  · exact h
  · rename_i block e' hcut
    obtain ⟨htracked, hblock⟩ := h.cut hcut
    refine Tracked.paste ?_ target name hblock
    split
    · exact htracked
    · exact tracked_writeHeader _ _ _

theorem Tracked.perform {e : Editor} (h : e.Tracked) (c : Change) : (e.perform c).2.Tracked := by
  unfold Editor.perform
  split
  · exact h.remove _
  · exact h.move _ _ _
  · exact h.removeFrom _ _

theorem Tracked.apply {e : Editor} (h : e.Tracked) (changes : List Change) :
    (e.apply changes).2.Tracked := by
  induction changes generalizing e with
  | nil => exact h
  | cons c cs ih => exact ih (h.perform c)

theorem Tracked.removeFromNamed {e : Editor} (h : e.Tracked) (sectionName name : String) :
    (e.removeFromNamed sectionName name).2.Tracked := by
  unfold Editor.removeFromNamed
  split
  · exact h.removeFrom _ _
  · exact h

theorem Tracked.moveNamed {e : Editor} (h : e.Tracked) (name source target : String) :
    (e.moveNamed name source target).2.Tracked := by
  unfold Editor.moveNamed
  split
  · exact h
  · split
    · exact h.move _ _ _
    · split
      · exact h
      · exact tracked_writeHeader _ _ _

theorem tracked_createNamed (e : Editor) (name : String) (after : Option Section) :
    (e.createNamed name after).2.Tracked := by
  unfold createNamed
  dsimp only
  split <;> exact tracked_writeHeader _ _ _

/-- One operation keeps the sections tracked. -/
theorem Tracked.act {e : Editor} (h : e.Tracked) (operation : Operation) :
    (e.act operation).Tracked := by
  cases operation with
  | remove name => exact h.remove name
  | removeFrom sectionName name => exact h.removeFromNamed sectionName name
  | move name source target => exact h.moveNamed name source target
  | create sectionName after => exact tracked_createNamed e sectionName after
  | apply changes => exact h.apply changes

/-! ## Runs -/

theorem Tracked.run {e : Editor} (h : e.Tracked) (operations : List Operation) :
    (e.run operations).Tracked := by
  induction operations generalizing e with
  | nil => exact h
  | cons operation rest ih => exact ih (h.act operation)

/-- Whatever the lines, after each step of a run both sections are where a search finds them. -/
theorem sectionAt_run_eq_findSection? (lines : List String) (operations : List Operation)
    (steps : Nat) (kind : SectionKind) :
    ((ofLines lines).run (operations.take steps)).sectionAt kind =
      findSection? ((ofLines lines).run (operations.take steps)).lines kind.name :=
  (tracked_ofLines lines).run (operations.take steps) kind

end Editor
end PubspecTidy.Manifest
