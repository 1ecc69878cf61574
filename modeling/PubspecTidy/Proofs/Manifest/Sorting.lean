import PubspecTidy.Proofs.Manifest.Moving
import PubspecTidy.Proofs.Manifest.Repeating
import Mathlib.Data.String.Basic

/-!
# Sections in order

A package that is moved goes in before the first entry with a greater name, but its block may be lost
in the one before it, or take in what stands behind it. Main statement: whatever the indentation, a
section that lists its names in order still does so after a move into it, and after any batch of
changes, and all names that come into it are those of packages that are moved there.
-/
namespace PubspecTidy.Manifest.Editor

variable {e : Editor} {kind target : SectionKind} {name : String}
  {listing : List String}

/-- The names of the entries of a section, in their order; a missing section has none. -/
def names (e : Editor) (kind : SectionKind) : List String :=
  (e.sectionAt kind).elim [] fun s => (s.entries e.lines).map (·.name)

theorem names_eq_listed (h : e.Tracked) (kind : SectionKind) :
    e.names kind = listed e.lines kind := by
  rw [names]
  cases hs : e.sectionAt kind with
  | none => exact (listed_of_findSection?_eq_none ((h kind).symm.trans hs)).symm
  | some s =>
    rw [listed_of_findSection? ((h kind).symm.trans hs)]
    exact names_entries s e.lines

/-! ## One change -/

/-- Where names are in order, one more comes in to its place. -/
theorem pairwise_orderedInsert (h : listing.Pairwise (· ≤ ·)) (name : String) :
    (listing.orderedInsert (· < ·) name).Pairwise (· ≤ ·) := by
  induction listing with
  | nil => exact List.pairwise_singleton _ _
  | cons first rest ih =>
    obtain ⟨hfirst, hrest⟩ := List.pairwise_cons.mp h
    by_cases hless : name < first
    · rw [List.orderedInsert_cons_of_le _ _ hless]
      refine List.pairwise_cons.mpr ⟨fun n hn => ?_, h⟩
      rcases List.mem_cons.mp hn with rfl | hn
      · exact hless.le
      · exact hless.le.trans (hfirst n hn)
    · rw [List.orderedInsert_of_not_le _ _ hless]
      refine List.pairwise_cons.mpr ⟨fun n hn => ?_, ih hrest⟩
      rcases (List.mem_orderedInsert _).mp hn with rfl | hn
      · exact not_lt.mp hless
      · exact hfirst n hn

/-- The names of a section with the package of a change, if that is moved there. -/
def withMoved (c : Change) (kind : SectionKind) (listing : List String) : List String :=
  if c.action = .moveTo kind then listing.orderedInsert (· < ·) c.package else listing

theorem pairwise_withMoved (h : listing.Pairwise (· ≤ ·)) (c : Change) (kind : SectionKind) :
    (withMoved c kind listing).Pairwise (· ≤ ·) := by
  unfold withMoved
  split
  · exact pairwise_orderedInsert h c.package
  · exact h

theorem mem_withMoved {c : Change} {n : String} (h : n ∈ withMoved c kind listing) :
    n ∈ listing ∨ c.action = .moveTo kind ∧ n = c.package := by
  unfold withMoved at h
  split at h
  · rename_i hmoved
    exact ((List.mem_orderedInsert _).mp h).symm.imp_right fun hn => ⟨hmoved, hn⟩
  · exact .inl h

/-- Whether it takes effect or not, a change brings no name into a section but that of a package that
is moved there, which goes to its place. -/
theorem sublist_perform (h : e.Tracked) (hend : e.HasLineEnd) (c : Change) (kind : SectionKind) :
    (listed (e.perform c).2.lines kind).Sublist (withMoved c kind (listed e.lines kind)) := by
  have hremove {e : Editor} (h : e.Tracked) (kind' : SectionKind) :
      (listed (e.removeFrom kind' c.package).2.lines kind).Sublist (listed e.lines kind) := by
    rw [listed_removeFrom h]
    split
    · rename_i hkind
      rw [hkind]
      exact List.erase_sublist
    · exact List.Sublist.refl _
  rw [perform, withMoved]
  cases c.action with
  | remove =>
    rw [if_neg Action.noConfusion]
    exact (hremove (h.removeFrom .dependencies c.package) .devDependencies).trans
      (hremove h .dependencies)
  | moveTo target =>
    obtain ⟨hsource, htarget⟩ := listed_move h hend c.package (other_ne target)
    by_cases hkind : kind = target
    · rw [hkind, if_pos rfl]
      exact htarget
    · obtain rfl : kind = target.other := by
        cases kind <;> cases target <;> simp_all [SectionKind.other]
      rw [if_neg fun heq => other_ne target (Action.moveTo.inj heq)]
      dsimp only
      rw [hsource]
      exact List.erase_sublist
  | removeFrom source =>
    rw [if_neg Action.noConfusion]
    exact hremove h source

/-! ## A batch -/

theorem pairwise_apply (h : e.Tracked) (hend : e.HasLineEnd)
    (hsorted : (listed e.lines kind).Pairwise (· ≤ ·)) (changes : List Change) :
    (listed (e.apply changes).2.lines kind).Pairwise (· ≤ ·) := by
  induction changes generalizing e with
  | nil => exact hsorted
  | cons c cs ih =>
    have hend' : (e.perform c).2.HasLineEnd := by rwa [HasLineEnd, lineEnd_perform]
    exact ih (h.perform c) hend'
      ((pairwise_withMoved hsorted c kind).sublist (sublist_perform h hend c kind))

/-- Whatever a section lists after a batch was listed before, or is moved there. -/
theorem mem_listed_apply (h : e.Tracked) (hend : e.HasLineEnd) {changes : List Change} {n : String}
    (hn : n ∈ listed (e.apply changes).2.lines kind) :
    n ∈ listed e.lines kind ∨ ∃ c ∈ changes, c.action = .moveTo kind ∧ n = c.package := by
  induction changes generalizing e with
  | nil => exact .inl hn
  | cons c cs ih =>
    have hend' : (e.perform c).2.HasLineEnd := by rwa [HasLineEnd, lineEnd_perform]
    rcases ih (h.perform c) hend' hn with hlisted | ⟨c', hc', hmoved⟩
    · refine (mem_withMoved ((sublist_perform h hend c kind).subset hlisted)).imp_right fun hmoved => ?_
      exact ⟨c, List.mem_cons_self, hmoved⟩
    · exact .inr ⟨c', List.mem_cons_of_mem c hc', hmoved⟩

/-- Whatever the lines, and whatever was done with them: where a section is missing or lists its names
in order, a move into it adds the name of the package at most, in its place, and hides others at most.
So the names are in order again, and they are after any batch of changes; none comes in but those of
packages that are moved there. -/
theorem names_sorted (lines : List String) (operations : List Operation)
    (hsorted : (((ofLines lines).run operations).names target).Pairwise (· ≤ ·)) :
    let e := (ofLines lines).run operations
    (∀ (name : String) (source : SectionKind) (e' : Editor), target ≠ source →
      e.move name source target = (true, e') →
        (e'.names target).Sublist ((e.names target).orderedInsert (· < ·) name) ∧
        (e'.names target).Pairwise (· ≤ ·) ∧
        ∀ n ∈ e'.names target, n ∈ e.names target ∨ n = name) ∧
    ∀ changes : List Change,
      ((e.apply changes).2.names target).Pairwise (· ≤ ·) ∧
      ∀ n ∈ (e.apply changes).2.names target,
        n ∈ e.names target ∨ ∃ c ∈ changes, c.action = .moveTo target ∧ n = c.package := by
  intro e
  have htracked : e.Tracked := (tracked_ofLines lines).run operations
  have hend : e.HasLineEnd := hasLineEnd_run (hasLineEnd_ofLines lines) operations
  have hsorted : (e.names target).Pairwise (· ≤ ·) := hsorted
  constructor
  · intro name source e' hne hmove
    have hmoved : e' = (e.move name source target).2 := by rw [hmove]
    have hsub := (listed_move htracked hend name hne).2
    rw [← names_eq_listed htracked, ← names_eq_listed (htracked.move name source target),
      ← hmoved] at hsub
    refine ⟨hsub, (pairwise_orderedInsert hsorted name).sublist hsub, fun n hn => ?_⟩
    exact ((List.mem_orderedInsert _).mp (hsub.subset hn)).symm
  · intro changes
    rw [names_eq_listed htracked] at hsorted ⊢
    rw [names_eq_listed (htracked.apply changes)]
    exact ⟨pairwise_apply htracked hend hsorted changes, fun n => mem_listed_apply htracked hend⟩

/-- In the section of deeper entries a package takes in the entry behind it, and its name is there
alone. -/
theorem names_sorted_uneven :
    (((ofLines unevenLines).run []).names .devDependencies).Pairwise (· ≤ ·) ∧
    ((ofLines unevenLines).run []).move "test" .dependencies .devDependencies =
      (true, unevenMoved) ∧
    unevenMoved.names .devDependencies = ["test"] ∧
    (unevenMoved.names .devDependencies).Pairwise (· ≤ ·) := by
  have hmove : ((ofLines unevenLines).run []).move "test" .dependencies .devDependencies =
      (true, unevenMoved) := rfl
  have hsorted : (((ofLines unevenLines).run []).names .devDependencies).Pairwise (· ≤ ·) := by
    decide
  exact ⟨hsorted, hmove, rfl,
    ((names_sorted unevenLines [] hsorted).1 "test" .dependencies unevenMoved (by decide)
      hmove).2.1⟩

end PubspecTidy.Manifest.Editor
