import PubspecTidy.Plan
import PubspecTidy.Proofs.Manifest.Performing

/-!
# What is planned for a package

The changes for a package depend on the sections that declare it and on where it is imported, and
on nothing else. Main statements: the plan holds, for every package, just the change that these two
call for, and it is empty just where no declaration needs attention.
-/
namespace PubspecTidy

open Manifest (Action Declarations Declaration SectionKind)
open Usage (Record Usages)

/-- What is to be done with a package, by the sections that declare it and by its imports. -/
def verdict (declared : SectionKind → Bool) (u : Record) : Option Action :=
  match declared .dependencies, declared .devDependencies with
  | true, true => some (.removeFrom (if u.lib then .devDependencies else .dependencies))
  | true, false =>
    if u.lib || u.bin then none
    else if u.test || u.tool then some (.moveTo .devDependencies)
    else some .remove
  | false, true => if u.lib || u.bin then some (.moveTo .dependencies) else none
  | false, false => none

/-- A package is declared in both sections, in none, or in one alone. -/
theorem kinds_cases (declared : SectionKind → Bool) :
    (∀ kind, declared kind = true) ∨ (∀ kind, declared kind = false) ∨
      ∃ kind, declared kind = true ∧ declared kind.other = false := by
  cases hdeps : declared .dependencies <;> cases hdev : declared .devDependencies
  · exact .inr (.inl fun kind => by cases kind <;> assumption)
  · exact .inr (.inr ⟨.devDependencies, hdev, hdeps⟩)
  · exact .inr (.inr ⟨.dependencies, hdeps, hdev⟩)
  · exact .inl fun kind => by cases kind <;> assumption

theorem verdict_of_both {declared : SectionKind → Bool} (h : ∀ kind, declared kind = true)
    (u : Record) :
    verdict declared u =
      some (.removeFrom (if u.lib then .devDependencies else .dependencies)) := by
  rw [verdict, h .dependencies, h .devDependencies]

/-- In one section alone, the status decides. -/
theorem verdict_of_one {declared : SectionKind → Bool} {kind : SectionKind}
    (h : declared kind = true) (hother : declared kind.other = false) (u : Record) :
    verdict declared u =
      match Status.of kind u with
      | .used => none
      | .testOnly => some (.moveTo kind.other)
      | .unused => some .remove := by
  cases kind with
  | dependencies =>
    have hother : declared .devDependencies = false := hother
    simp only [verdict, h, hother, Status.of, SectionKind.other]
    split
    · rfl
    · split <;> rfl
  | devDependencies =>
    have hother : declared .dependencies = false := hother
    simp only [verdict, h, hother, Status.of, SectionKind.other]
    split <;> rfl

theorem verdict_of_none {declared : SectionKind → Bool} (h : ∀ kind, declared kind = false)
    (u : Record) : verdict declared u = none := by
  rw [verdict, h .dependencies, h .devDependencies]

theorem verdict_of_one_eq_none_iff {declared : SectionKind → Bool} {kind : SectionKind} {u : Record}
    (h : declared kind = true) (hother : declared kind.other = false) :
    verdict declared u = none ↔ Status.of kind u = .used := by
  rw [verdict_of_one h hother]
  cases Status.of kind u <;> simp

namespace Analysis

variable {ds : Declarations} {usages : Usages} {sdk name : String}

/-- The imports of a package. -/
def usageOf (usages : Usages) (name : String) : Record := Table.getD usages name {}

/-- The analysis of some declarations. -/
def ofDeclarations (ds : Declarations) (usages : Usages) (sdk : String) : Analysis :=
  classify ds.dependencies ds.devDependencies usages sdk

/-! ## Findings -/

theorem mem_findings {f : Finding} :
    f ∈ (ofDeclarations ds usages sdk).findings ↔
      ∃ kind, ∃ d ∈ ds.ofKind kind, d.name ≠ sdk ∧ findingOf usages d = f := by
  simp only [ofDeclarations, classify, List.mem_map, List.mem_append, List.mem_filter, bne_iff_ne,
    ne_eq]
  constructor
  · rintro ⟨d, ⟨hd, hne⟩ | ⟨hd, hne⟩, hf⟩
    · exact ⟨.dependencies, d, hd, hne, hf⟩
    · exact ⟨.devDependencies, d, hd, hne, hf⟩
  · rintro ⟨kind, d, hd, hne, hf⟩
    cases kind with
    | dependencies => exact ⟨d, .inl ⟨hd, hne⟩, hf⟩
    | devDependencies => exact ⟨d, .inr ⟨hd, hne⟩, hf⟩

theorem of_mem_findings (hlabels : ds.Labelled) {f : Finding}
    (h : f ∈ (ofDeclarations ds usages sdk).findings) :
    f.name ≠ sdk ∧ ds.declares f.name f.kind = true ∧ f.usage = usageOf usages f.name ∧
      f.status = Status.of f.kind f.usage := by
  obtain ⟨kind, d, hd, hne, rfl⟩ := (mem_findings).mp h
  have hkind : (findingOf usages d).kind = kind := hlabels kind d hd
  refine ⟨hne, ?_, rfl, rfl⟩
  rw [hkind]
  exact Declarations.declares_iff.mpr ⟨d, hd, rfl⟩

theorem exists_mem_findings (hlabels : ds.Labelled) (usages : Usages) (hne : name ≠ sdk)
    {kind : SectionKind} (h : ds.declares name kind = true) :
    ∃ f ∈ (ofDeclarations ds usages sdk).findings, f.name = name ∧ f.kind = kind := by
  obtain ⟨d, hd, rfl⟩ := Declarations.declares_iff.mp h
  exact ⟨findingOf usages d, (mem_findings).mpr ⟨kind, d, hd, hne, rfl⟩, rfl, hlabels kind d hd⟩

/-! ## Duplicates -/

theorem duplicateOf?_eq_some {dev : List Declaration} {d : Declaration} {r : Duplicate}
    (h : duplicateOf? usages dev d = some r) :
    r.name = d.name ∧ (∃ e ∈ dev, e.name = d.name) ∧ r.usage = usageOf usages d.name := by
  obtain ⟨e, he, rfl⟩ := Option.map_eq_some_iff.mp h
  refine ⟨rfl, ⟨e, ?_, ?_⟩, rfl⟩
  · exact List.mem_reverse.mp (List.mem_of_find?_eq_some he)
  · simpa using List.find?_some he

theorem exists_duplicateOf? {dev : List Declaration} {d e : Declaration} (he : e ∈ dev)
    (hname : e.name = d.name) : ∃ r, duplicateOf? usages dev d = some r := by
  unfold duplicateOf?
  cases hfind : dev.reverse.find? (·.name == d.name) with
  | some e => exact ⟨_, rfl⟩
  | none =>
    have hne := List.find?_eq_none.mp hfind e (List.mem_reverse.mpr he)
    exact absurd hname (by simpa using hne)

/-- The duplicates are packages of both sections. -/
theorem of_mem_duplicates {r : Duplicate} (h : r ∈ (ofDeclarations ds usages sdk).duplicates) :
    r.name ≠ sdk ∧ (∀ kind, ds.declares r.name kind = true) ∧ r.usage = usageOf usages r.name := by
  obtain ⟨d, hd, hr⟩ := List.mem_filterMap.mp h
  obtain ⟨hmem, hne⟩ := List.mem_filter.mp hd
  obtain ⟨hname, ⟨e, he, hename⟩, husage⟩ := duplicateOf?_eq_some hr
  rw [hname]
  refine ⟨by simpa using hne, fun kind => Declarations.declares_iff.mpr ?_, husage⟩
  cases kind with
  | dependencies => exact ⟨d, hmem, rfl⟩
  | devDependencies => exact ⟨e, (List.mem_filter.mp he).1, hename⟩

/-- Every package of both sections is a duplicate. -/
theorem exists_mem_duplicates (usages : Usages) (hne : name ≠ sdk)
    (h : ∀ kind, ds.declares name kind = true) :
    ∃ r ∈ (ofDeclarations ds usages sdk).duplicates, r.name = name := by
  obtain ⟨d, hd, rfl⟩ := Declarations.declares_iff.mp (h .dependencies)
  obtain ⟨e, he, hename⟩ := Declarations.declares_iff.mp (h .devDependencies)
  have hd' : d ∈ ds.dependencies.filter (·.name != sdk) :=
    List.mem_filter.mpr ⟨hd, by simpa using hne⟩
  have he' : e ∈ ds.devDependencies.filter (·.name != sdk) :=
    List.mem_filter.mpr ⟨he, by simpa [hename] using hne⟩
  obtain ⟨r, hr⟩ := exists_duplicateOf? he' hename
  exact ⟨r, List.mem_filterMap.mpr ⟨d, hd', hr⟩, (duplicateOf?_eq_some hr).1⟩

theorem isDuplicated_iff {f : Finding} :
    (ofDeclarations ds usages sdk).isDuplicated f = true ↔
      f.name ≠ sdk ∧ ∀ kind, ds.declares f.name kind = true := by
  simp only [isDuplicated, List.any_eq_true, beq_iff_eq]
  constructor
  · rintro ⟨r, hr, hname⟩
    obtain ⟨hne, hkinds, -⟩ := of_mem_duplicates hr
    rw [← hname]
    exact ⟨hne, hkinds⟩
  · rintro ⟨hne, hkinds⟩
    exact exists_mem_duplicates usages hne hkinds

/-! ## The plan -/

theorem mem_plan {a : Analysis} {p : PlannedChange} :
    p ∈ a.plan ↔
      (∃ f ∈ a.findings, a.isDuplicated f = false ∧
        (f.status = .unused ∧ PlannedChange.removal f = p ∨
          f.status = .testOnly ∧ PlannedChange.moving f = p)) ∨
      ∃ r ∈ a.duplicates, PlannedChange.resolution r = p := by
  simp only [plan, unused, misplaced, promotable, testOnly, withStatus, Finding.shouldPromote,
    List.mem_append, List.mem_map, List.mem_filter, beq_iff_eq, Bool.not_eq_true',
    Bool.and_eq_true]
  constructor
  · rintro (((⟨f, ⟨⟨hf, hs⟩, hd⟩, hp⟩ | ⟨f, ⟨⟨⟨hf, hs⟩, -⟩, hd⟩, hp⟩) |
      ⟨f, ⟨⟨hf, hs, -⟩, hd⟩, hp⟩) | h)
    · exact .inl ⟨f, hf, hd, .inl ⟨hs, hp⟩⟩
    · exact .inl ⟨f, hf, hd, .inr ⟨hs, hp⟩⟩
    · exact .inl ⟨f, hf, hd, .inr ⟨hs, hp⟩⟩
    · exact .inr h
  · rintro (⟨f, hf, hd, ⟨hs, hp⟩ | ⟨hs, hp⟩⟩ | h)
    · exact .inl (.inl (.inl ⟨f, ⟨⟨hf, hs⟩, hd⟩, hp⟩))
    · cases hk : f.kind with
      | dependencies => exact .inl (.inl (.inr ⟨f, ⟨⟨⟨hf, hs⟩, hk⟩, hd⟩, hp⟩))
      | devDependencies => exact .inl (.inr ⟨f, ⟨⟨hf, hs, hk⟩, hd⟩, hp⟩)
    · exact .inr h

theorem keep_other (r : Duplicate) :
    r.keep.other = if r.usage.lib then .devDependencies else .dependencies := by
  unfold Duplicate.keep
  split <;> rfl

/-- A package that is no duplicate is declared in one section alone. -/
theorem declares_other {f : Finding} (hne : f.name ≠ sdk) (h : ds.declares f.name f.kind = true)
    (hd : (ofDeclarations ds usages sdk).isDuplicated f = false) :
    ds.declares f.name f.kind.other = false := by
  cases hother : ds.declares f.name f.kind.other with
  | false => rfl
  | true =>
    rw [(isDuplicated_iff).mpr ⟨hne, fun kind => ?_⟩] at hd
    · cases hd
    · cases hk : f.kind <;> cases kind <;> simp_all [SectionKind.other]

/-- Whatever is planned for a package is what it calls for. -/
theorem verdict_of_mem_plan (hlabels : ds.Labelled) {p : PlannedChange}
    (hp : p ∈ (ofDeclarations ds usages sdk).plan) :
    p.change.package ≠ sdk ∧
      verdict (ds.declares p.change.package) (usageOf usages p.change.package) =
        some p.change.action := by
  rcases (mem_plan).mp hp with ⟨f, hf, hd, hcase⟩ | ⟨r, hr, rfl⟩
  · obtain ⟨hne, hdeclares, husage, hstatus⟩ := of_mem_findings hlabels hf
    have hverdict := verdict_of_one hdeclares (declares_other hne hdeclares hd) f.usage
    rw [← hstatus] at hverdict
    rcases hcase with ⟨hs, rfl⟩ | ⟨hs, rfl⟩
    · rw [hs, husage] at hverdict
      exact ⟨hne, hverdict⟩
    · rw [hs, husage] at hverdict
      exact ⟨hne, hverdict⟩
  · obtain ⟨hne, hkinds, husage⟩ := of_mem_duplicates hr
    have hverdict := verdict_of_both hkinds r.usage
    rw [← keep_other, husage] at hverdict
    exact ⟨hne, hverdict⟩

/-- The plan holds the changes that the packages call for. -/
theorem exists_mem_plan_iff (hlabels : ds.Labelled) {a : Action} :
    (∃ p ∈ (ofDeclarations ds usages sdk).plan,
      p.change.package = name ∧ p.change.action = a) ↔
      name ≠ sdk ∧ verdict (ds.declares name) (usageOf usages name) = some a := by
  constructor
  · rintro ⟨p, hp, rfl, rfl⟩
    exact verdict_of_mem_plan hlabels hp
  · rintro ⟨hne, hverdict⟩
    rcases kinds_cases (ds.declares name) with h | h | ⟨kind, h, hother⟩
    · obtain ⟨r, hr, rfl⟩ := exists_mem_duplicates usages hne h
      obtain ⟨-, -, husage⟩ := of_mem_duplicates hr
      rw [verdict_of_both h, ← husage, ← keep_other] at hverdict
      exact ⟨.resolution r, (mem_plan).mpr (.inr ⟨r, hr, rfl⟩), rfl, Option.some.inj hverdict⟩
    · rw [verdict_of_none h] at hverdict
      cases hverdict
    · obtain ⟨f, hf, rfl, rfl⟩ := exists_mem_findings hlabels usages hne h
      obtain ⟨-, -, husage, hstatus⟩ := of_mem_findings hlabels hf
      have hd : (ofDeclarations ds usages sdk).isDuplicated f = false := by
        rw [← Bool.not_eq_true, isDuplicated_iff]
        intro hd
        rw [hd.2 f.kind.other] at hother
        cases hother
      rw [verdict_of_one h hother, ← husage, ← hstatus] at hverdict
      cases hs : f.status with
      | used => rw [hs] at hverdict; cases hverdict
      | testOnly =>
        rw [hs] at hverdict
        exact ⟨.moving f, (mem_plan).mpr (.inl ⟨f, hf, hd, .inr ⟨hs, rfl⟩⟩), rfl,
          Option.some.inj hverdict⟩
      | unused =>
        rw [hs] at hverdict
        exact ⟨.removal f, (mem_plan).mpr (.inl ⟨f, hf, hd, .inl ⟨hs, rfl⟩⟩), rfl,
          Option.some.inj hverdict⟩

/-! ## Issues -/

/-- The findings that count as issues are those that call for a change. -/
theorem flagged_iff {f : Finding} :
    (f.needsAction || f.shouldPromote) = true ↔ f.status ≠ .used := by
  cases hs : f.status <;> cases hk : f.kind <;>
    simp [Finding.needsAction, Finding.shouldPromote, hs, hk]

/-- Something is planned just where a declaration needs attention. -/
theorem plan_eq_nil_iff {a : Analysis} : a.plan = [] ↔ a.hasIssues = false := by
  have hissues : a.hasIssues = false ↔
      (∀ f ∈ a.findings, f.status = .used) ∧ a.duplicates = [] := by
    simp only [hasIssues, Bool.or_eq_false_iff, List.any_eq_false, Bool.not_eq_false',
      List.isEmpty_iff]
    refine and_congr_left fun _ => forall₂_congr fun f _ => ?_
    rw [flagged_iff, Decidable.not_not]
  rw [hissues, List.eq_nil_iff_forall_not_mem]
  constructor
  · intro h
    have hduplicates : a.duplicates = [] :=
      List.eq_nil_iff_forall_not_mem.mpr fun r hr => h _ ((mem_plan).mpr (.inr ⟨r, hr, rfl⟩))
    refine ⟨fun f hf => ?_, hduplicates⟩
    have hd : a.isDuplicated f = false := by rw [isDuplicated, hduplicates, List.any_nil]
    cases hs : f.status with
    | used => rfl
    | testOnly => exact absurd ((mem_plan).mpr (.inl ⟨f, hf, hd, .inr ⟨hs, rfl⟩⟩)) (h _)
    | unused => exact absurd ((mem_plan).mpr (.inl ⟨f, hf, hd, .inl ⟨hs, rfl⟩⟩)) (h _)
  · rintro ⟨hused, hduplicates⟩ p hp
    rcases (mem_plan).mp hp with ⟨f, hf, -, ⟨hs, -⟩ | ⟨hs, -⟩⟩ | ⟨r, hr, -⟩
    · rw [hused f hf] at hs
      cases hs
    · rw [hused f hf] at hs
      cases hs
    · rw [hduplicates] at hr
      cases hr

/-- No declaration needs attention just where no package calls for a change. -/
theorem hasIssues_eq_false_iff (hlabels : ds.Labelled) :
    (ofDeclarations ds usages sdk).hasIssues = false ↔
      ∀ name, name ≠ sdk → verdict (ds.declares name) (usageOf usages name) = none := by
  rw [← plan_eq_nil_iff, List.eq_nil_iff_forall_not_mem]
  constructor
  · intro h name hne
    cases hverdict : verdict (ds.declares name) (usageOf usages name) with
    | none => rfl
    | some a =>
      obtain ⟨p, hp, -⟩ := (exists_mem_plan_iff hlabels).mpr ⟨hne, hverdict⟩
      exact absurd hp (h p)
  · intro h p hp
    obtain ⟨hne, hverdict⟩ := verdict_of_mem_plan hlabels hp
    rw [h _ hne] at hverdict
    cases hverdict

end Analysis
end PubspecTidy
