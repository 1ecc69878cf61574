import PubspecTidy.Proofs.Analysis.Verdict
import Mathlib.Data.List.Nodup

/-!
# What a plan does to each package

A plan changes every package once at most, since what a package calls for is one action. Main
statements: a package that is imported anywhere is left in one section, and what is planned is what
the findings recommend.
-/
namespace PubspecTidy

open Manifest (Action Change Declaration Declarations Declared SectionKind makeAll)
open Usage (Record Usages)

namespace Manifest.Declarations

/-- No section declares a package twice. -/
def Distinct (ds : Declarations) : Prop := ∀ kind, ((ds.ofKind kind).map (·.name)).Nodup

end Manifest.Declarations

/-- Only a dependency that is imported nowhere is unused. -/
theorem Status.of_eq_unused_iff {kind : SectionKind} {u : Record} :
    Status.of kind u = .unused ↔ kind = .dependencies ∧ u.isUsed = false := by
  obtain ⟨lib, test, bin, tool, elsewhere⟩ := u
  cases kind <;> cases lib <;> cases test <;> cases bin <;> cases tool <;>
    simp [Status.of, Record.isUsed]

theorem of_verdict_remove {declared : SectionKind → Bool} {u : Record}
    (h : verdict declared u = some .remove) :
    declared .dependencies = true ∧ declared .devDependencies = false ∧ u.isUsed = false := by
  rcases kinds_cases declared with hboth | hnone | ⟨kind, hkind, hother⟩
  · rw [verdict_of_both hboth] at h
    cases h
  · rw [verdict_of_none hnone] at h
    cases h
  · rw [verdict_of_one hkind hother] at h
    cases hstatus : Status.of kind u with
    | used => rw [hstatus] at h; cases h
    | testOnly => rw [hstatus] at h; cases h
    | unused =>
      obtain ⟨rfl, hunused⟩ := (Status.of_eq_unused_iff).mp hstatus
      exact ⟨hkind, hother, hunused⟩

theorem of_verdict_removeFrom {declared : SectionKind → Bool} {u : Record} {source : SectionKind}
    (h : verdict declared u = some (.removeFrom source)) : ∀ kind, declared kind = true := by
  rcases kinds_cases declared with hboth | hnone | ⟨kind, hkind, hother⟩
  · exact hboth
  · rw [verdict_of_none hnone] at h
    cases h
  · rw [verdict_of_one hkind hother] at h
    cases hstatus : Status.of kind u <;> rw [hstatus] at h <;> cases h

namespace Analysis

variable {ds : Declarations} {usages : Usages} {sdk name : String} {kind : SectionKind}

/-! ## One change for each package -/

/-- The parts of a plan. -/
def removals (a : Analysis) : List PlannedChange :=
  (a.unused.filter (!a.isDuplicated ·)).map .removal

def demotions (a : Analysis) : List PlannedChange :=
  (a.misplaced.filter (!a.isDuplicated ·)).map .moving

def promotions (a : Analysis) : List PlannedChange :=
  (a.promotable.filter (!a.isDuplicated ·)).map .moving

def resolutions (a : Analysis) : List PlannedChange := a.duplicates.map .resolution

theorem plan_eq (a : Analysis) :
    a.plan = a.removals ++ a.demotions ++ a.promotions ++ a.resolutions := rfl

/-- Changes of one package are alike. -/
theorem action_eq_of_mem_plan (hlabels : ds.Labelled) {p q : PlannedChange}
    (hp : p ∈ (ofDeclarations ds usages sdk).plan) (hq : q ∈ (ofDeclarations ds usages sdk).plan)
    (h : p.change.package = q.change.package) : p.change.action = q.change.action := by
  obtain ⟨-, hp⟩ := verdict_of_mem_plan hlabels hp
  obtain ⟨-, hq⟩ := verdict_of_mem_plan hlabels hq
  rw [h, hq] at hp
  exact (Option.some.inj hp).symm

theorem filter_kind (hlabels : ds.Labelled) (sdk : String) (kind other : SectionKind) :
    ((ds.ofKind other).filter (·.name != sdk)).filter (·.kind == kind) =
      if other = kind then (ds.ofKind other).filter (·.name != sdk) else [] := by
  split
  · rename_i h
    refine List.filter_eq_self.mpr fun d hd => ?_
    rw [hlabels other d (List.mem_of_mem_filter hd), h, beq_self_eq_true]
  · rename_i h
    refine List.filter_eq_nil_iff.mpr fun d hd => ?_
    rw [hlabels other d (List.mem_of_mem_filter hd), beq_iff_eq]
    exact h

theorem filter_findings (hlabels : ds.Labelled) (kind : SectionKind) :
    (ofDeclarations ds usages sdk).findings.filter (·.kind == kind) =
      ((ds.ofKind kind).filter (·.name != sdk)).map (findingOf usages) := by
  have hdeps := filter_kind hlabels sdk kind .dependencies
  have hdev := filter_kind hlabels sdk kind .devDependencies
  simp only [Declarations.ofKind] at hdeps hdev
  simp only [ofDeclarations, classify, List.filter_map, Function.comp_def, findingOf,
    List.filter_append, hdeps, hdev]
  cases kind <;> simp [Declarations.ofKind]

/-- Findings about one section are about different packages. -/
theorem nodup_names (hlabels : ds.Labelled) (hdistinct : ds.Distinct) {fs : List Finding}
    (hsub : fs.Sublist (ofDeclarations ds usages sdk).findings) (hkind : ∀ f ∈ fs, f.kind = kind) :
    (fs.map (·.name)).Nodup := by
  have hfilter : fs.filter (·.kind == kind) = fs :=
    List.filter_eq_self.mpr fun f hf => by simpa using hkind f hf
  have hsub := hsub.filter (·.kind == kind)
  rw [hfilter, filter_findings hlabels] at hsub
  refine List.Nodup.sublist (hsub.map _) ?_
  rw [List.map_map]
  exact (hdistinct kind).sublist (List.filter_sublist.map _)

theorem nodup_duplicates (hdistinct : ds.Distinct) :
    ((ofDeclarations ds usages sdk).duplicates.map (·.name)).Nodup := by
  have hnames : ((ds.dependencies.filter (·.name != sdk)).map (·.name)).Nodup :=
    (hdistinct .dependencies).sublist (List.filter_sublist.map _)
  rw [List.Nodup, List.pairwise_map] at hnames ⊢
  refine List.pairwise_filterMap.mpr (hnames.imp fun hne r hr r' hr' => ?_)
  rw [(duplicateOf?_eq_some hr).1, (duplicateOf?_eq_some hr').1]
  exact hne

/-- Changes of different actions concern different packages. -/
theorem nodup_append_packages (hlabels : ds.Labelled) {ps qs : List PlannedChange}
    (hsub : ps ++ qs ⊆ (ofDeclarations ds usages sdk).plan)
    (hactions : ∀ p ∈ ps, ∀ q ∈ qs, p.change.action ≠ q.change.action)
    (hps : (ps.map (·.change.package)).Nodup) (hqs : (qs.map (·.change.package)).Nodup) :
    ((ps ++ qs).map (·.change.package)).Nodup := by
  rw [List.map_append]
  refine List.nodup_append.mpr ⟨hps, hqs, fun x hx y hy hxy => ?_⟩
  obtain ⟨p, hp, rfl⟩ := List.mem_map.mp hx
  obtain ⟨q, hq, rfl⟩ := List.mem_map.mp hy
  have hp' := hsub (List.mem_append_left qs hp)
  have hq' := hsub (List.mem_append_right ps hq)
  exact hactions p hp q hq (action_eq_of_mem_plan hlabels hp' hq' hxy)

/-- Changes for findings about one section concern different packages. -/
theorem nodup_map_packages (hlabels : ds.Labelled) (hdistinct : ds.Distinct) {fs : List Finding}
    {g : Finding → PlannedChange} (hsub : fs.Sublist (ofDeclarations ds usages sdk).findings)
    (hkind : ∀ f ∈ fs, f.kind = kind) (hg : ∀ f, (g f).change.package = f.name)
    (p : Finding → Bool) : (((fs.filter p).map g).map (·.change.package)).Nodup := by
  rw [List.map_map, show (fun c : PlannedChange => c.change.package) ∘ g = (·.name) from funext hg]
  exact (nodup_names hlabels hdistinct hsub hkind).sublist (List.filter_sublist.map _)

theorem kind_of_mem_unused (hlabels : ds.Labelled) :
    ∀ f ∈ (ofDeclarations ds usages sdk).unused, f.kind = .dependencies := by
  intro f hf
  obtain ⟨hmem, hs⟩ := List.mem_filter.mp hf
  obtain ⟨-, -, -, hstatus⟩ := of_mem_findings hlabels hmem
  have hunused := hstatus.symm.trans (beq_iff_eq.mp hs)
  exact ((Status.of_eq_unused_iff).mp hunused).1

theorem kind_of_mem_misplaced {a : Analysis} : ∀ f ∈ a.misplaced, f.kind = .dependencies := by
  intro f hf
  simpa using (List.mem_filter.mp hf).2

theorem kind_of_mem_promotable {a : Analysis} : ∀ f ∈ a.promotable, f.kind = .devDependencies := by
  intro f hf
  have hpromote := (List.mem_filter.mp hf).2
  rw [Finding.shouldPromote, Bool.and_eq_true, beq_iff_eq, beq_iff_eq] at hpromote
  exact hpromote.2

theorem action_of_mem_removals {a : Analysis} {p : PlannedChange} (h : p ∈ a.removals) :
    p.change.action = .remove := by
  obtain ⟨f, -, rfl⟩ := List.mem_map.mp h
  rfl

theorem action_of_mem_demotions {a : Analysis} {p : PlannedChange} (h : p ∈ a.demotions) :
    p.change.action = .moveTo .devDependencies := by
  obtain ⟨f, hf, rfl⟩ := List.mem_map.mp h
  have hkind := kind_of_mem_misplaced f (List.mem_of_mem_filter hf)
  simp only [PlannedChange.moving, hkind, SectionKind.other]

theorem action_of_mem_promotions {a : Analysis} {p : PlannedChange} (h : p ∈ a.promotions) :
    p.change.action = .moveTo .dependencies := by
  obtain ⟨f, hf, rfl⟩ := List.mem_map.mp h
  have hkind := kind_of_mem_promotable f (List.mem_of_mem_filter hf)
  simp only [PlannedChange.moving, hkind, SectionKind.other]

theorem action_of_mem_resolutions {a : Analysis} {p : PlannedChange} (h : p ∈ a.resolutions) :
    ∃ source, p.change.action = .removeFrom source := by
  obtain ⟨d, -, rfl⟩ := List.mem_map.mp h
  exact ⟨_, rfl⟩

/-- No package is changed twice. -/
theorem nodup_packages (hlabels : ds.Labelled) (hdistinct : ds.Distinct) (usages : Usages)
    (sdk : String) : ((ofDeclarations ds usages sdk).plan.map (·.change.package)).Nodup := by
  have hremovals : ((ofDeclarations ds usages sdk).removals.map (·.change.package)).Nodup :=
    nodup_map_packages hlabels hdistinct List.filter_sublist (kind_of_mem_unused hlabels)
      (fun _ => rfl) _
  have hdemotions : ((ofDeclarations ds usages sdk).demotions.map (·.change.package)).Nodup :=
    nodup_map_packages hlabels hdistinct (List.filter_sublist.trans List.filter_sublist)
      kind_of_mem_misplaced (fun _ => rfl) _
  have hpromotions : ((ofDeclarations ds usages sdk).promotions.map (·.change.package)).Nodup :=
    nodup_map_packages hlabels hdistinct List.filter_sublist kind_of_mem_promotable
      (fun _ => rfl) _
  have hresolutions : ((ofDeclarations ds usages sdk).resolutions.map (·.change.package)).Nodup := by
    rw [resolutions, List.map_map]
    exact nodup_duplicates hdistinct
  have hall := List.Subset.refl (ofDeclarations ds usages sdk).plan
  have hthree := List.Subset.trans (List.subset_append_left _ _) hall
  have htwo := List.Subset.trans (List.subset_append_left _ _) hthree
  rw [plan_eq]
  -- No action occurs in two of the four parts.
  refine nodup_append_packages hlabels hall ?_ (nodup_append_packages hlabels hthree ?_
    (nodup_append_packages hlabels htwo ?_ hremovals hdemotions) hpromotions) hresolutions
  · intro p hp q hq
    obtain ⟨source, hsource⟩ := action_of_mem_resolutions hq
    rw [hsource]
    rcases List.mem_append.mp hp with hp | hp
    · rcases List.mem_append.mp hp with hp | hp
      · rw [action_of_mem_removals hp]
        exact nofun
      · rw [action_of_mem_demotions hp]
        exact nofun
    · rw [action_of_mem_promotions hp]
      exact nofun
  · intro p hp q hq
    rw [action_of_mem_promotions hq]
    rcases List.mem_append.mp hp with hp | hp
    · rw [action_of_mem_removals hp]
      exact nofun
    · rw [action_of_mem_demotions hp]
      decide
  · intro p hp q hq
    rw [action_of_mem_removals hp, action_of_mem_demotions hq]
    exact nofun

/-! ## What is left of a package -/

theorem declares_iff_exists :
    ds.declares name kind = true ↔ ∃ version, (name, version) ∈ ds.declared kind := by
  simp only [Declarations.declares_iff, Declarations.declared, List.mem_map, Prod.mk.injEq]
  constructor
  · rintro ⟨d, hd, hname⟩
    exact ⟨d.spec.version?, d, hd, hname, rfl⟩
  · rintro ⟨version, d, hd, hname, -⟩
    exact ⟨d, hd, hname⟩

/-- The sections that declare a package once the changes are made. -/
theorem exists_mem_makeAll_plan (hlabels : ds.Labelled) (usages : Usages) (hne : name ≠ sdk) :
    (∃ version, (name, version) ∈
        makeAll ((ofDeclarations ds usages sdk).plan.map (·.change)) ds.declared kind) ↔
      match verdict (ds.declares name) (usageOf usages name) with
      | some a => a.leaves (ds.declares name · = true) kind
      | none => ds.declares name kind = true := by
  have hactions : ∀ c ∈ (ofDeclarations ds usages sdk).plan.map (·.change), name = c.package →
      verdict (ds.declares name) (usageOf usages name) = some c.action := by
    intro c hc hname
    obtain ⟨p, hp, rfl⟩ := List.mem_map.mp hc
    rw [hname]
    exact (verdict_of_mem_plan hlabels hp).2
  cases hverdict : verdict (ds.declares name) (usageOf usages name) with
  | none =>
    have hother : ∀ c ∈ (ofDeclarations ds usages sdk).plan.map (·.change), name ≠ c.package := by
      intro c hc hname
      rw [hactions c hc hname] at hverdict
      cases hverdict
    dsimp only
    rw [declares_iff_exists]
    exact exists_congr fun version => Manifest.mem_makeAll_of_ne hother
  | some a =>
    have halike : ∀ c ∈ (ofDeclarations ds usages sdk).plan.map (·.change),
        name = c.package → c.action = a := by
      intro c hc hname
      rw [hactions c hc hname] at hverdict
      exact Option.some.inj hverdict
    have hsome : ∃ c ∈ (ofDeclarations ds usages sdk).plan.map (·.change), name = c.package := by
      obtain ⟨p, hp, hname, -⟩ := (exists_mem_plan_iff hlabels).mpr ⟨hne, hverdict⟩
      exact ⟨p.change, List.mem_map_of_mem hp, hname.symm⟩
    dsimp only
    rw [Action.leaves_congr fun kind => declares_iff_exists, ← Action.exists_leaves]
    exact exists_congr fun version => Manifest.mem_makeAll_of_alike halike hsome

/-- One section alone declares a package. -/
def DeclaredOnce (s : Declared) (name : String) : Prop :=
  ∃ kind, (∃ version, (name, version) ∈ s kind) ∧ ¬ ∃ version, (name, version) ∈ s kind.other

/-- A package that is imported anywhere is left in one section. -/
theorem exists_left_of_isUsed {declared : SectionKind → Bool} {after : SectionKind → Prop}
    {u : Record} (hused : u.isUsed = true) (hdeclared : ∃ kind, declared kind = true)
    (h : ∀ kind, after kind ↔
      match verdict declared u with
      | some a => a.leaves (declared · = true) kind
      | none => declared kind = true) :
    ∃ kind, after kind ∧ ¬ after kind.other := by
  simp only [h]
  rcases kinds_cases declared with hboth | hnone | ⟨kind, hkind, hother⟩
  · rw [verdict_of_both hboth]
    generalize (if u.lib then SectionKind.devDependencies else .dependencies) = source
    refine ⟨source.other, ⟨?_, hboth _⟩, fun hleft => ?_⟩
    · cases source <;> exact nofun
    · exact hleft.1 source.other_other
  · obtain ⟨kind, hkind⟩ := hdeclared
    rw [hnone kind] at hkind
    cases hkind
  · rw [verdict_of_one hkind hother]
    cases hstatus : Status.of kind u with
    | used => exact ⟨kind, hkind, by simp [hother]⟩
    | testOnly =>
      refine ⟨kind.other, ⟨rfl, .inr ?_⟩, fun hleft => ?_⟩
      · rw [kind.other_other]
        exact hkind
      · have hcross := hleft.1
        cases kind <;> cases hcross
    | unused =>
      rw [((Status.of_eq_unused_iff).mp hstatus).2] at hused
      cases hused

/-- What a plan may do to declarations, by their imports. -/
structure Spares (ds : Declarations) (usages : Usages) (sdk : String) (plan : List PlannedChange) :
    Prop where
  apart : (plan.map (·.change.package)).Nodup
  toolkit : ∀ p ∈ plan, p.change.package ≠ sdk
  remove : ∀ p ∈ plan, p.change.action = .remove →
    ds.declares p.change.package .dependencies = true ∧
      ds.declares p.change.package .devDependencies = false ∧
      (usageOf usages p.change.package).isUsed = false
  removeFrom : ∀ p ∈ plan, ∀ source, p.change.action = .removeFrom source →
    ∀ kind, ds.declares p.change.package kind = true
  used : ∀ name, name ≠ sdk → (∃ kind, ds.declares name kind = true) →
    (usageOf usages name).isUsed = true →
      DeclaredOnce (makeAll (plan.map (·.change)) ds.declared) name

/-- No package that is imported anywhere is planned away. -/
theorem plan_spares (hlabels : ds.Labelled) (hdistinct : ds.Distinct) (usages : Usages)
    (sdk : String) : Spares ds usages sdk (ofDeclarations ds usages sdk).plan where
  apart := nodup_packages hlabels hdistinct usages sdk
  toolkit p hp := (verdict_of_mem_plan hlabels hp).1
  remove p hp haction := by
    have hverdict := (verdict_of_mem_plan hlabels hp).2
    rw [haction] at hverdict
    exact of_verdict_remove hverdict
  removeFrom p hp source haction := by
    have hverdict := (verdict_of_mem_plan hlabels hp).2
    rw [haction] at hverdict
    exact of_verdict_removeFrom hverdict
  used name hne hdeclared hused :=
    exists_left_of_isUsed hused hdeclared fun _ => exists_mem_makeAll_plan hlabels usages hne

/-- Packages that are declared without a version. -/
def declaredAs (kind : SectionKind) (names : List String) : List Declaration :=
  names.map fun name => ⟨name, .plain none, kind⟩

/-- A manifest that declares packages of some names. -/
def ofNames (dependencies dev : List String) : Declarations :=
  ⟨declaredAs .dependencies dependencies, declaredAs .devDependencies dev⟩

theorem labelled_ofNames (dependencies dev : List String) : (ofNames dependencies dev).Labelled := by
  intro kind d hd
  cases kind <;> · obtain ⟨name, -, rfl⟩ := List.mem_map.mp hd; rfl

theorem distinct_ofNames {dependencies dev : List String} (h : dependencies.Nodup)
    (h' : dev.Nodup) : (ofNames dependencies dev).Distinct := by
  intro kind
  cases kind with
  | dependencies => simpa [ofNames, Declarations.ofKind, declaredAs, Function.comp_def] using h
  | devDependencies => simpa [ofNames, Declarations.ofKind, declaredAs, Function.comp_def] using h'

/-- Packages of all sorts: one that nothing imports, one of both sections, the toolkit, one that is
only tested with, and development dependencies that are left and moved. -/
def severalPackages : Declarations :=
  ofNames ["dio", "path", "flutter", "mocks"] ["path", "lints", "http"]

def severalUsages : Usages :=
  [("path", { bin := true }), ("http", { lib := true }), ("mocks", { test := true })]

theorem labelled_severalPackages : severalPackages.Labelled := labelled_ofNames _ _

theorem distinct_severalPackages : severalPackages.Distinct :=
  distinct_ofNames (by decide) (by decide)

theorem plan_spares_several :
    severalPackages.Labelled ∧ severalPackages.Distinct ∧
      Spares severalPackages severalUsages "flutter"
        (ofDeclarations severalPackages severalUsages "flutter").plan ∧
      (ofDeclarations severalPackages severalUsages "flutter").plan.map (·.change.action) =
        [.remove, .moveTo .devDependencies, .moveTo .dependencies, .removeFrom .dependencies] :=
  ⟨labelled_severalPackages, distinct_severalPackages,
    plan_spares labelled_severalPackages distinct_severalPackages severalUsages "flutter",
    by decide⟩

/-! ## What is reported -/

/-- The action that the text of a finding names. -/
def Recommends (f : Finding) : Action → Prop
  | .remove => f.recommendation = "Remove (unused)"
  | .moveTo target => target = f.kind.other ∧ f.recommendation = "Move to " ++ target.name
  | .removeFrom _ => False

/-- Every finding that calls for a change has one, and so has every duplicate. -/
theorem mem_packages {a : Analysis} :
    name ∈ a.plan.map (·.change.package) ↔
      (∃ f ∈ a.findings, f.name = name ∧ (f.needsAction || f.shouldPromote) = true) ∨
        ∃ d ∈ a.duplicates, d.name = name := by
  simp only [List.mem_map, mem_plan, flagged_iff]
  constructor
  · rintro ⟨p, ⟨f, hf, -, ⟨hs, rfl⟩ | ⟨hs, rfl⟩⟩ | ⟨d, hd, rfl⟩, rfl⟩
    · exact .inl ⟨f, hf, rfl, by simp [hs]⟩
    · exact .inl ⟨f, hf, rfl, by simp [hs]⟩
    · exact .inr ⟨d, hd, rfl⟩
  · rintro (⟨f, hf, rfl, hs⟩ | ⟨d, hd, rfl⟩)
    · cases hdup : a.isDuplicated f with
      | true =>
        obtain ⟨d, hd, hname⟩ := List.any_eq_true.mp hdup
        exact ⟨.resolution d, .inr ⟨d, hd, rfl⟩, beq_iff_eq.mp hname⟩
      | false =>
        cases hstatus : f.status with
        | used => exact absurd hstatus hs
        | testOnly => exact ⟨.moving f, .inl ⟨f, hf, hdup, .inr ⟨hstatus, rfl⟩⟩, rfl⟩
        | unused => exact ⟨.removal f, .inl ⟨f, hf, hdup, .inl ⟨hstatus, rfl⟩⟩, rfl⟩
    · exact ⟨.resolution d, .inr ⟨d, hd, rfl⟩, rfl⟩

/-- A finding about a package of one section recommends what is planned for it. -/
theorem recommends_of_mem_plan (hlabels : ds.Labelled) {p : PlannedChange} {f : Finding}
    (hp : p ∈ (ofDeclarations ds usages sdk).plan)
    (hf : f ∈ (ofDeclarations ds usages sdk).findings)
    (hd : (ofDeclarations ds usages sdk).isDuplicated f = false)
    (hname : f.name = p.change.package) : Recommends f p.change.action := by
  obtain ⟨hne, hdeclares, husage, hstatus⟩ := of_mem_findings hlabels hf
  have hverdict := (verdict_of_mem_plan hlabels hp).2
  rw [← hname, ← husage, verdict_of_one hdeclares (declares_other hne hdeclares hd),
    ← hstatus] at hverdict
  cases hs : f.status with
  | used => rw [hs] at hverdict; cases hverdict
  | testOnly =>
    rw [hs] at hverdict
    rw [← Option.some.inj hverdict]
    exact ⟨rfl, by rw [Finding.recommendation, hs]⟩
  | unused =>
    rw [hs] at hverdict
    rw [← Option.some.inj hverdict, Recommends, Finding.recommendation, hs]

/-- A plan is what the analysis reports. -/
structure Reported (a : Analysis) : Prop where
  apart : (a.plan.map (·.change.package)).Nodup
  packages : ∀ name, name ∈ a.plan.map (·.change.package) ↔
    (∃ f ∈ a.findings, f.name = name ∧ (f.needsAction || f.shouldPromote) = true) ∨
      ∃ d ∈ a.duplicates, d.name = name
  duplicates : ∀ p ∈ a.plan, ∀ d ∈ a.duplicates, d.name = p.change.package →
    p.change.action = .removeFrom d.keep.other
  singles : ∀ p ∈ a.plan, (∀ d ∈ a.duplicates, d.name ≠ p.change.package) →
    ∀ f ∈ a.findings, f.name = p.change.package → Recommends f p.change.action
  previews : a.previews.length = a.plan.length
  issues : a.hasIssues = true ↔ a.plan ≠ []

/-- What is planned is what is reported. -/
theorem reported_plan (hlabels : ds.Labelled) (hdistinct : ds.Distinct) (usages : Usages)
    (sdk : String) : Reported (ofDeclarations ds usages sdk) where
  apart := nodup_packages hlabels hdistinct usages sdk
  packages name := mem_packages
  duplicates p hp d hd hname :=
    action_eq_of_mem_plan hlabels hp (mem_plan.mpr (.inr ⟨d, hd, rfl⟩)) hname.symm
  singles p hp hsingle f hf hname := by
    refine recommends_of_mem_plan hlabels hp hf ?_ hname
    rw [isDuplicated, List.any_eq_false]
    intro d hd
    rw [beq_iff_eq, hname]
    exact hsingle d hd
  previews := List.length_map ..
  issues := by
    rw [ne_eq, plan_eq_nil_iff, Bool.not_eq_false]

theorem reported_plan_several :
    severalPackages.Labelled ∧ severalPackages.Distinct ∧
      Reported (ofDeclarations severalPackages severalUsages "flutter") :=
  ⟨labelled_severalPackages, distinct_severalPackages,
    reported_plan labelled_severalPackages distinct_severalPackages severalUsages "flutter"⟩

end Analysis
end PubspecTidy
