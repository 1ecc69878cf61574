import PubspecTidy.Proofs.Manifest.Listing
import Mathlib.Data.List.Nodup

/-!
# A batch that is carried out again

A change takes its package out of a section, or does not find it there, and no change brings the
name of another package into a section. Main statement: where no section lists a name twice and no
two changes of a batch are about one package, the same batch does nothing a second time.
-/
namespace PubspecTidy.Manifest

variable {name : String} {kind : SectionKind} {e : Editor} {c : Change}

/-- There is nothing left to do for a change: its package is not where it would be taken from. -/
def Change.IsDone (c : Change) (lines : List String) : Prop :=
  match c.action with
  | .remove => ∀ kind, c.package ∉ listed lines kind
  | .moveTo target => c.package ∉ listed lines target.other
  | .removeFrom kind => c.package ∉ listed lines kind

theorem Change.IsDone.mono {lines lines' : List String} (h : c.IsDone lines)
    (hcount : ∀ kind, (listed lines' kind).count c.package ≤ (listed lines kind).count c.package) :
    c.IsDone lines' := by
  have habsent {kind : SectionKind} (hnone : c.package ∉ listed lines kind) :
      c.package ∉ listed lines' kind := by
    rw [← List.count_eq_zero] at hnone ⊢
    have := hcount kind
    omega
  unfold Change.IsDone at h ⊢
  split at h
  · exact fun kind => habsent (h kind)
  · exact habsent h
  · exact habsent h

namespace Editor

theorem locate?_eq_none_iff (h : e.Tracked) :
    e.locate? kind name = none ↔ name ∉ listed e.lines kind := by
  rw [locate?, h kind]
  cases hs : findSection? e.lines kind.name with
  | none => simp [listed_of_findSection?_eq_none hs]
  | some s =>
    rw [Option.bind_some, ← Option.not_isSome_iff_eq_none, Section.locate?_isSome,
      Section.names_entriesFrom_eq, listed_of_findSection? hs]

/-- What a cut leaves of the lists, and the block that it takes out. -/
theorem listed_cut (h : e.Tracked) {block : List String} {e' : Editor}
    (hcut : e.cut? kind name = some (block, e')) :
    (∃ line rest, block = line :: rest ∧ IsBlock name line rest) ∧
    ∀ kind', listed e'.lines kind' =
      if kind' = kind then (listed e.lines kind).erase name else listed e.lines kind' := by
  obtain ⟨x, hx, hcut⟩ := Option.map_eq_some_iff.mp hcut
  cases hcut
  obtain ⟨s, hs, hlocate⟩ := Option.bind_eq_some_iff.mp hx
  have hfound := (h kind).symm.trans hs
  refine ⟨?_, listed_without hfound hlocate⟩
  obtain ⟨before, line, rest, after, hbody, hstands, -, rfl⟩ := exists_of_locate? hlocate
  exact ⟨line, rest, lines_of_body hfound hbody, hstands.isBlock⟩

/-! ## What one change does to the lists -/

theorem listed_removeFrom (h : e.Tracked) (kind : SectionKind) (name : String)
    (kind' : SectionKind) : listed (e.removeFrom kind name).2.lines kind' =
      if kind' = kind then (listed e.lines kind).erase name else listed e.lines kind' := by
  rw [removeFrom]
  split
  · rename_i hcut
    exact (listed_cut h hcut).2 kind'
  · rename_i hcut
    have habsent : name ∉ listed e.lines kind :=
      (locate?_eq_none_iff h).mp (Option.map_eq_none_iff.mp hcut)
    split
    · rename_i hkind
      rw [hkind, List.erase_of_not_mem habsent]
    · rfl

/-- A move takes the name off the list of one section, once, and adds it to the list of the other
at most, before the first name that is greater. -/
theorem listed_move (h : e.Tracked) (hend : e.HasLineEnd) (name : String) {source target : SectionKind}
    (hne : target ≠ source) :
    listed (e.move name source target).2.lines source = (listed e.lines source).erase name ∧
    (listed (e.move name source target).2.lines target).Sublist
      ((listed e.lines target).orderedInsert (· < ·) name) := by
  rw [move]
  split
  · rename_i hcut
    have habsent : name ∉ listed e.lines source :=
      (locate?_eq_none_iff h).mp (Option.map_eq_none_iff.mp hcut)
    exact ⟨(List.erase_of_not_mem habsent).symm, List.sublist_orderedInsert _ _⟩
  · rename_i block e' hcut
    obtain ⟨⟨line, rest, rfl, hblock⟩, hlisted⟩ := listed_cut h hcut
    have hsource := hlisted source
    have htarget := hlisted target
    rw [if_pos rfl] at hsource
    rw [if_neg hne] at htarget
    have htracked := (h.cut hcut).1
    obtain ⟨s, hs⟩ : ∃ s, e'.sectionAt source = some s := by
      obtain ⟨s, entry, hs, -, -, -, rfl⟩ := cut?_eq_some hcut
      exact ⟨_, by rw [sectionAt_delete, hs]; rfl⟩
    -- the editor before the block comes in, which may just have opened the section
    suffices hpaste : ∀ opened : Editor, opened.Tracked → (opened.sectionAt target).isSome = true →
        (∀ kind, listed opened.lines kind = listed e'.lines kind) →
        listed (opened.paste target name (line :: rest)).lines source =
          (listed e.lines source).erase name ∧
        (listed (opened.paste target name (line :: rest)).lines target).Sublist
          ((listed e.lines target).orderedInsert (· < ·) name) by
      dsimp only
      split
      · rename_i hsome
        exact hpaste e' htracked hsome fun _ => rfl
      · rename_i hnone
        have hend' : e'.HasLineEnd := by
          obtain ⟨_, _, -, -, -, -, rfl⟩ := cut?_eq_some hcut
          exact hend
        rw [hs]
        exact hpaste _ (tracked_writeHeader _ _ _)
          (sectionAt_createSection hend' target (some s))
          (listed_createSection htracked hend' hne hs (by simpa using hnone))
    intro opened hopened hsome hsame
    obtain ⟨t, ht⟩ := Option.isSome_iff_exists.mp hsome
    obtain ⟨hsub, hothers⟩ := listed_paste hopened ht hblock
    rw [hsame, htarget] at hsub
    refine ⟨?_, hsub⟩
    rw [hothers source hne.symm, hsame, hsource]

theorem other_ne (target : SectionKind) : target ≠ target.other := by
  cases target <;> decide

/-- No change lists another package more often than before. -/
theorem count_perform (h : e.Tracked) (hend : e.HasLineEnd) (hne : name ≠ c.package)
    (kind : SectionKind) :
    (listed (e.perform c).2.lines kind).count name ≤ (listed e.lines kind).count name := by
  have hremove {e : Editor} (h : e.Tracked) (kind' : SectionKind) :
      (listed (e.removeFrom kind' c.package).2.lines kind).count name =
        (listed e.lines kind).count name := by
    rw [listed_removeFrom h]
    split
    · rename_i hkind
      rw [List.count_erase_of_ne hne, hkind]
    · rfl
  rw [perform]
  split
  · exact ((hremove (h.removeFrom _ _) _).trans (hremove h _)).le
  · rename_i target hmove
    obtain ⟨hsource, hsub⟩ := listed_move h hend c.package (other_ne target)
    by_cases hkind : kind = target
    · rw [hkind]
      refine (hsub.count_le name).trans ?_
      rw [List.orderedInsert_count, if_neg hne.symm, Nat.add_zero]
    · obtain rfl : kind = target.other := by cases kind <;> cases target <;> simp_all [SectionKind.other]
      rw [hsource, List.count_erase_of_ne hne]
  · exact (hremove h _).le

/-- After a change there is nothing left to do for it, if its package was listed once at most. -/
theorem isDone_perform (h : e.Tracked) (hend : e.HasLineEnd)
    (hcount : ∀ kind, (listed e.lines kind).count c.package ≤ 1) :
    c.IsDone (e.perform c).2.lines := by
  have herase (kind : SectionKind) : c.package ∉ (listed e.lines kind).erase c.package := by
    rw [← List.count_eq_zero, List.count_erase_self]
    have := hcount kind
    omega
  unfold Change.IsDone perform
  cases c.action with
  | remove =>
    intro kind
    dsimp only [remove]
    rw [listed_removeFrom (h.removeFrom _ _), listed_removeFrom h, listed_removeFrom h]
    cases kind
    · simpa using herase .dependencies
    · simpa using herase .devDependencies
  | moveTo target =>
    dsimp only
    rw [(listed_move h hend c.package (other_ne target)).1]
    exact herase _
  | removeFrom kind =>
    dsimp only
    rw [listed_removeFrom h, if_pos rfl]
    exact herase _

/-- A change for which there is nothing left to do does nothing. -/
theorem perform_of_isDone (h : e.Tracked) (hdone : c.IsDone e.lines) :
    e.perform c = (false, e) := by
  have habsent {kind : SectionKind} (hnone : c.package ∉ listed e.lines kind) :
      e.cut? kind c.package = none :=
    Option.map_eq_none_iff.mpr ((locate?_eq_none_iff h).mpr hnone)
  obtain ⟨package, action, version⟩ := c
  cases action with
  | remove =>
    dsimp only [perform, remove, removeFrom]
    rw [habsent (hdone .dependencies)]
    dsimp only
    rw [habsent (hdone .devDependencies)]
    rfl
  | moveTo target =>
    dsimp only [perform, move]
    rw [habsent hdone]
  | removeFrom kind =>
    dsimp only [perform, removeFrom]
    rw [habsent hdone]

/-! ## A batch -/

theorem count_apply (h : e.Tracked) (hend : e.HasLineEnd) {changes : List Change}
    (hne : ∀ c ∈ changes, name ≠ c.package) (kind : SectionKind) :
    (listed (e.apply changes).2.lines kind).count name ≤ (listed e.lines kind).count name := by
  induction changes generalizing e with
  | nil => exact le_rfl
  | cons c cs ih =>
    rw [List.forall_mem_cons] at hne
    have hend' : (e.perform c).2.HasLineEnd := by rwa [HasLineEnd, lineEnd_perform]
    exact (ih (h.perform c) hend' hne.2).trans (count_perform h hend hne.1 kind)

/-- After a batch there is nothing left to do for any of its changes. -/
theorem isDone_apply (h : e.Tracked) (hend : e.HasLineEnd) {changes : List Change}
    (hdistinct : (changes.map (·.package)).Nodup)
    (hcount : ∀ c ∈ changes, ∀ kind, (listed e.lines kind).count c.package ≤ 1) :
    ∀ c ∈ changes, c.IsDone (e.apply changes).2.lines := by
  induction changes generalizing e with
  | nil => simp
  | cons c cs ih =>
    rw [List.map_cons, List.nodup_cons] at hdistinct
    rw [List.forall_mem_cons] at hcount
    have hend' : (e.perform c).2.HasLineEnd := by rwa [HasLineEnd, lineEnd_perform]
    have hne : ∀ c' ∈ cs, c.package ≠ c'.package := fun c' hc' heq =>
      hdistinct.1 (heq ▸ List.mem_map_of_mem hc')
    rw [List.forall_mem_cons]
    constructor
    · exact (isDone_perform h hend hcount.1).mono (count_apply (h.perform c) hend' hne)
    · refine ih (h.perform c) hend' hdistinct.2 fun c' hc' kind => ?_
      exact (count_perform h hend (hne c' hc').symm kind).trans (hcount.2 c' hc' kind)

theorem apply_of_isDone (h : e.Tracked) {changes : List Change}
    (hdone : ∀ c ∈ changes, c.IsDone e.lines) : e.apply changes = ([], e) := by
  induction changes with
  | nil => rfl
  | cons c cs ih =>
    rw [List.forall_mem_cons] at hdone
    rw [apply, perform_of_isDone h hdone.1]
    dsimp only
    rw [ih hdone.2]
    rfl

/-- A batch does nothing a second time: no change takes effect and the editor stays as it is, if no
section lists a name twice and no two changes are about one package. -/
theorem apply_again (text : String) (changes : List Change)
    (hlisted : ∀ (kind : SectionKind) (s : Section),
      findSection? (Text.splitLines text) kind.name = some s →
        ((s.entries (Text.splitLines text)).map (·.name)).Nodup)
    (hdistinct : (changes.map (·.package)).Nodup) :
    ((ofText text).apply changes).2.apply changes = ([], ((ofText text).apply changes).2) := by
  have htracked : (ofText text).Tracked := tracked_ofLines _
  have hend : (ofText text).HasLineEnd := hasLineEnd_ofLines _
  have hcount (c : Change) (kind : SectionKind) :
      (listed (ofText text).lines kind).count c.package ≤ 1 := by
    change (listed (Text.splitLines text) kind).count c.package ≤ 1
    cases hs : findSection? (Text.splitLines text) kind.name with
    | none => simp [listed_of_findSection?_eq_none hs]
    | some s =>
      rw [listed_of_findSection? hs, ← names_entries]
      exact List.nodup_iff_count_le_one.mp (hlisted kind s hs) c.package
  exact apply_of_isDone (htracked.apply changes)
    (isDone_apply htracked hend hdistinct fun c _ => hcount c)

/-- One package in both sections, one with a nested mapping, and no name twice in a section. -/
def sharedPackage : String :=
  "dependencies:\n  dio: 1\n  path:\n    git: x\ndev_dependencies:\n  dio: 2\n"

/-- Changes of which the first two take effect, and a move that finds nothing. -/
def sharedChanges : List Change :=
  [⟨"dio", .moveTo .devDependencies, none⟩, ⟨"path", .remove, none⟩, ⟨"git", .remove, none⟩]

theorem apply_again_shared_package :
    (∀ (kind : SectionKind) (s : Section),
      findSection? (Text.splitLines sharedPackage) kind.name = some s →
        ((s.entries (Text.splitLines sharedPackage)).map (·.name)).Nodup) ∧
    (sharedChanges.map (·.package)).Nodup ∧
    ((ofText sharedPackage).apply sharedChanges).1 = sharedChanges.take 2 ∧
    ((ofText sharedPackage).apply sharedChanges).2.apply sharedChanges =
      ([], ((ofText sharedPackage).apply sharedChanges).2) := by
  have hsplit : Text.splitLines sharedPackage = ["dependencies:", "  dio: 1", "  path:",
      "    git: x", "dev_dependencies:", "  dio: 2", ""] := Text.splitLines_of_eq_ofList rfl rfl
  have hlisted : ∀ (kind : SectionKind) (s : Section),
      findSection? (Text.splitLines sharedPackage) kind.name = some s →
        ((s.entries (Text.splitLines sharedPackage)).map (·.name)).Nodup := by
    rw [hsplit]
    have hdependencies : findSection? ["dependencies:", "  dio: 1", "  path:", "    git: x",
        "dev_dependencies:", "  dio: 2", ""] SectionKind.dependencies.name = some ⟨0, 3⟩ := by
      decide
    have hdev : findSection? ["dependencies:", "  dio: 1", "  path:", "    git: x",
        "dev_dependencies:", "  dio: 2", ""] SectionKind.devDependencies.name = some ⟨4, 6⟩ := by
      decide
    intro kind s hs
    cases kind with
    | dependencies =>
      cases hdependencies.symm.trans hs
      decide
    | devDependencies =>
      cases hdev.symm.trans hs
      decide
  have hdistinct : (sharedChanges.map (·.package)).Nodup := by decide
  have hdone : ((ofText sharedPackage).apply sharedChanges).1 = sharedChanges.take 2 := by
    rw [ofText, hsplit]
    decide
  exact ⟨hlisted, hdistinct, hdone, apply_again sharedPackage sharedChanges hlisted hdistinct⟩

end Editor
end PubspecTidy.Manifest
