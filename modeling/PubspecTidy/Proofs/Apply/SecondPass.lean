import PubspecTidy.Proofs.Analysis.Planning
import PubspecTidy.Proofs.Apply.Transaction
import PubspecTidy.Proofs.Text.Ascii
import PubspecTidy.Proofs.Usage.Sources

/-!
# One pass of changes

The changes that an analysis calls for put each package where the rules for its section are content
with it, but for a package of both sections that only `bin` and not `lib` imports: it is kept among
the development dependencies, from where the next pass moves it. Main statement: a second analysis
finds nothing just if there is no such package.
-/
namespace PubspecTidy

open Manifest (Action Change Declaration Declarations Declared SectionKind makeAll)
open Usage (Record Usages)

/-! ## After the verdict -/

/-- A package that is moved has arrived where it belongs. -/
theorem Status.of_other {kind : SectionKind} {u : Record} (h : Status.of kind u = .testOnly) :
    Status.of kind.other u = .used := by
  cases kind with
  | dependencies =>
    simp only [Status.of] at h
    split at h
    · cases h
    · rename_i hmain
      simp [Status.of, SectionKind.other, hmain]
  | devDependencies =>
    simp only [Status.of] at h
    split at h
    · rename_i hmain
      simp [Status.of, SectionKind.other, hmain]
    · cases h

/-- The section where a package of both is kept suits it if `lib` imports it or `bin` does not. -/
theorem of_keep_eq_used_iff {u : Record} :
    Status.of (if u.lib then .dependencies else .devDependencies) u = .used ↔
      (u.bin = true → u.lib = true) := by
  cases hlib : u.lib <;> cases hbin : u.bin <;> simp [Status.of, hlib, hbin]

/-- Whether a package of both sections is kept where the rules are content with it. -/
def Settles (declared : SectionKind → Bool) (u : Record) : Prop :=
  (∀ kind, declared kind = true) → u.bin = true → u.lib = true

/-- Once its change is made, a package calls for no other, if the rules settle it at once. -/
theorem verdict_after {declared after : SectionKind → Bool} {u : Record}
    (h : ∀ kind, after kind = true ↔
      match verdict declared u with
      | some a => a.leaves (declared · = true) kind
      | none => declared kind = true) :
    verdict after u = none ↔ Settles declared u := by
  rcases kinds_cases declared with hboth | hnone | ⟨kind, hkind, hother⟩
  · rw [verdict_of_both hboth] at h
    have hkept : after (if u.lib then .dependencies else .devDependencies) = true := by
      rw [h]
      cases u.lib <;> simp [Action.leaves, hboth]
    have hleft : after (SectionKind.other (if u.lib then .dependencies else .devDependencies)) =
        false := by
      rw [← Bool.not_eq_true, h]
      cases u.lib <;> simp [Action.leaves, SectionKind.other]
    rw [verdict_of_one_eq_none_iff hkept hleft, of_keep_eq_used_iff]
    exact ⟨fun hbin _ => hbin, fun hsettles => hsettles hboth⟩
  · rw [verdict_of_none hnone] at h
    have hafter (kind : SectionKind) : after kind = false := by
      rw [← Bool.not_eq_true, h kind, hnone kind]
      exact Bool.false_ne_true
    constructor
    · intro _ hboth
      exact absurd (hboth .dependencies) (by simp [hnone])
    · intro _
      exact verdict_of_none hafter u
  · have hsettles : Settles declared u := fun hboth => absurd (hboth kind.other) (by simp [hother])
    refine iff_of_true ?_ hsettles
    rw [verdict_of_one hkind hother] at h
    cases hstatus : Status.of kind u with
    | used =>
      rw [hstatus] at h
      have hafter : after kind.other = false := by
        rw [← Bool.not_eq_true, h, hother]
        exact Bool.false_ne_true
      exact (verdict_of_one_eq_none_iff ((h kind).mpr hkind) hafter).mpr hstatus
    | testOnly =>
      rw [hstatus] at h
      have hmoved : after kind.other = true := by
        rw [h]
        exact ⟨rfl, .inr (by rw [kind.other_other]; exact hkind)⟩
      have hleft : after kind.other.other = false := by
        rw [← Bool.not_eq_true, h, kind.other_other]
        intro hmem
        cases kind <;> cases hmem.1
      exact (verdict_of_one_eq_none_iff hmoved hleft).mpr (Status.of_other hstatus)
    | unused =>
      rw [hstatus] at h
      refine verdict_of_none (fun kind => ?_) u
      rw [← Bool.not_eq_true, h]
      exact id

/-! ## Sources -/

namespace Apply

variable {t t' t'' : FileTree} {dir : FilePath} {name : String} {bytes : ByteArray} {now : Int}

/-- Packages are imported at the same places in two trees, whatever project is looked at. -/
def SameImports (t t' : FileTree) : Prop :=
  ∀ project roots, Usage.scan? t' project roots Usage.sourceEnding =
    Usage.scan? t project roots Usage.sourceEnding

theorem SameImports.refl (t : FileTree) : SameImports t t := fun _ _ => rfl

theorem SameImports.trans (h : SameImports t t') (h' : SameImports t' t'') : SameImports t t'' :=
  fun project roots => (h' project roots).trans (h project roots)

theorem sameImports_write_manifest (h : t.write (manifestIn dir) bytes now = .ok t') :
    SameImports t t' :=
  Usage.scan?_write (by decide) (by decide) h

theorem sameImports_write_backup (h : t.write (Backup.path (manifestIn dir)) bytes now = .ok t') :
    SameImports t t' := by
  rw [path_manifestIn] at h
  exact Usage.scan?_write (by decide) (by decide) h

theorem sameImports_create (t : FileTree) (dir : FilePath) (now : Int) :
    SameImports t (Backup.create t (manifestIn dir) now).2 := by
  unfold Backup.create
  split
  · cases hcopy : t.copy (manifestIn dir) (Backup.path (manifestIn dir)) now with
    | error e => exact .refl t
    | ok t' =>
      obtain ⟨bytes, -, hwrite⟩ := FileTree.copy_eq_ok.mp hcopy
      exact sameImports_write_backup hwrite
  · exact .refl t

theorem sameImports_restore (t : FileTree) (dir : FilePath) (now : Int) :
    SameImports t (Backup.restore t (manifestIn dir) now).2 := by
  unfold Backup.restore
  split
  · cases hcopy : t.copy (Backup.path (manifestIn dir)) (manifestIn dir) now with
    | error e => exact .refl t
    | ok t' =>
      obtain ⟨bytes, -, hwrite⟩ := FileTree.copy_eq_ok.mp hcopy
      exact sameImports_write_manifest hwrite
  · exact .refl t

theorem sameImports_writeManifest (t : FileTree) (dir : FilePath) (now : Int) (text : String) :
    SameImports t (writeManifest (manifestIn dir) now t text).2 := by
  unfold writeManifest
  dsimp only
  split
  · rename_i hwrite
    exact sameImports_write_manifest hwrite
  · exact .refl t

theorem sameImports_editFile (t : FileTree) (dir : FilePath) (now : Int) (changes : List Change) :
    SameImports t (editFile t (manifestIn dir) (writeManifest (manifestIn dir) now) changes).2 := by
  unfold editFile
  split
  · exact .refl t
  · exact .refl t
  · rename_i text htext
    generalize (Manifest.Editor.ofText text).apply changes = edited
    have hwrite := sameImports_writeManifest t dir now edited.2.text
    dsimp only
    split
    · exact .refl t
    · split <;> rename_i hresult <;> rw [hresult] at hwrite <;> exact hwrite

/-- An attempt changes nothing about where packages are imported. -/
theorem sameImports_run (t : FileTree) (dir : FilePath) (now : Int)
    (planned : List PlannedChange) :
    SameImports t (run (.usual (manifestIn dir) now) t planned).2 := by
  unfold run
  split
  · exact .refl t
  have hcreate := sameImports_create t dir now
  dsimp only [Setting.usual]
  split
  · rename_i hresult
    rw [hresult] at hcreate
    exact hcreate
  · rename_i t₁ hresult
    rw [hresult] at hcreate
    have hedit := sameImports_editFile t₁ dir now (planned.map (·.change))
    split <;> rename_i hresult <;> rw [hresult] at hedit
    · exact hcreate.trans hedit
    · exact (hcreate.trans hedit).trans (sameImports_restore _ dir now)
    · exact hcreate.trans hedit

end Apply

/-! ## The second analysis -/

namespace Analysis

variable {ds ds' : Declarations} {usages : Usage.Usages} {sdk name : String} {kind : SectionKind}

/-- The changes of a plan have been made of what is declared. -/
def Performed (changes : List Change) (ds ds' : Declarations) : Prop :=
  ∀ kind x, x ∈ ds'.declared kind ↔ x ∈ makeAll changes ds.declared kind

/-- The sections that declare a package once the plan is carried out. -/
theorem declares_performed (hlabels : ds.Labelled) (hne : name ≠ sdk)
    (h : Performed ((ofDeclarations ds usages sdk).plan.map (·.change)) ds ds') :
    ds'.declares name kind = true ↔
      match verdict (ds.declares name) (usageOf usages name) with
      | some a => a.leaves (ds.declares name · = true) kind
      | none => ds.declares name kind = true := by
  rw [declares_iff_exists]
  simp only [h kind]
  exact exists_mem_makeAll_plan hlabels usages hne

/-- Carrying the plan out leaves nothing to be done just if the rules settle every package of both
sections at once. -/
theorem hasIssues_performed (hlabels : ds.Labelled) (hlabels' : ds'.Labelled)
    (h : Performed ((ofDeclarations ds usages sdk).plan.map (·.change)) ds ds') :
    (ofDeclarations ds' usages sdk).hasIssues = false ↔
      ∀ r ∈ (ofDeclarations ds usages sdk).duplicates, r.usage.bin = true → r.usage.lib = true := by
  rw [hasIssues_eq_false_iff hlabels']
  constructor
  · intro hall r hr
    obtain ⟨hne, hboth, husage⟩ := of_mem_duplicates hr
    have hnone := hall r.name hne
    rw [verdict_after fun kind => declares_performed hlabels hne h] at hnone
    rw [husage]
    exact hnone hboth
  · intro hall name hne
    refine (verdict_after fun kind => declares_performed hlabels hne h).mpr fun hboth => ?_
    obtain ⟨r, hr, rfl⟩ := exists_mem_duplicates usages hne hboth
    obtain ⟨-, -, husage⟩ := of_mem_duplicates hr
    rw [← husage]
    exact hall r hr

theorem areShown_iff :
    areShown (ds.dependencies ++ ds.devDependencies) sdk = true ↔
      ∀ kind, ∀ x ∈ ds.declared kind, x.1 ≠ sdk → x.2.isSome = true := by
  simp only [areShown, Declarations.declared, List.all_eq_true, List.mem_append, List.mem_map,
    Bool.or_eq_true, beq_iff_eq, Declaration.isShown]
  constructor
  · rintro h kind - ⟨d, hd, rfl⟩ hne
    cases kind with
    | dependencies => exact (h d (.inl hd)).resolve_left hne
    | devDependencies => exact (h d (.inr hd)).resolve_left hne
  · intro h d hd
    by_cases hname : d.name = sdk
    · exact .inl hname
    · rcases hd with hd | hd
      · exact .inr (h .dependencies _ ⟨d, hd, rfl⟩ hname)
      · exact .inr (h .devDependencies _ ⟨d, hd, rfl⟩ hname)

/-- Where the versions had texts, those that are left have. -/
theorem areShown_performed {changes : List Change} (h : Performed changes ds ds')
    (hshown : areShown (ds.dependencies ++ ds.devDependencies) sdk = true) :
    areShown (ds'.dependencies ++ ds'.devDependencies) sdk = true := by
  rw [areShown_iff] at hshown ⊢
  intro kind x hx hne
  obtain ⟨kind', hx⟩ := Manifest.exists_of_mem_makeAll ((h kind x).mp hx)
  exact hshown kind' x hx hne

end Analysis

/-! ## A project that is analysed twice -/

namespace Apply

variable {t : FileTree} {dir : FilePath} {roots : List FilePath} {a : Analysis} {now : Int}

/-- A project whose manifest lies in a directory. -/
def projectIn (dir : FilePath) (roots : List FilePath) : Project where
  root := dir
  sourceRoots := roots

/-- What the manifest of a tree declares. -/
def declarationsIn? (t : FileTree) (dir : FilePath) : Option Declarations :=
  (readManifest t (manifestIn dir)).toOption.bind fun text =>
    (Manifest.readDeclarations text).toOption

theorem declarationsIn?_eq_some {ds : Declarations} :
    declarationsIn? t dir = some ds ↔ ∃ text, readManifest t (manifestIn dir) = .ok text ∧
      Manifest.readDeclarations text = .ok ds := by
  unfold declarationsIn?
  cases readManifest t (manifestIn dir) with
  | error e => simp [Except.toOption]
  | ok text => cases h : Manifest.readDeclarations text <;> simp [Except.toOption, h]

theorem analyze_eq_ok :
    (projectIn dir roots).analyze t = .ok a ↔
      ∃ ds usages, declarationsIn? t dir = some ds ∧
        Analysis.areShown (ds.dependencies ++ ds.devDependencies) Analysis.sdkPackage = true ∧
        Usage.scan? t dir roots Usage.sourceEnding = some usages ∧
        .ofDeclarations ds usages Analysis.sdkPackage = a := by
  have hpath : (projectIn dir roots).manifestPath = manifestIn dir := by
    have hname : FilePath.ofText manifestName = [manifestName] := rfl
    exact congrArg (dir ++ ·) hname
  simp only [declarationsIn?_eq_some]
  unfold Project.analyze
  rw [hpath]
  constructor
  · intro h
    split at h
    · cases h
    split at h
    · cases h
    split at h
    · split at h
      · cases h
        exact ⟨_, _, ⟨_, by assumption, by assumption⟩, by assumption, by assumption, rfl⟩
      · cases h
    · cases h
  · rintro ⟨ds, usages, ⟨text, htext, hds⟩, hshown, hscan, rfl⟩
    have hscan : Usage.scan? t (projectIn dir roots).root (projectIn dir roots).sourceRoots
      (projectIn dir roots).ending = some usages := hscan
    rw [htext]
    dsimp only
    rw [hds]
    dsimp only
    rw [if_pos hshown, hscan]
    rfl

theorem labelled_of_declarationsIn? {ds : Declarations} (h : declarationsIn? t dir = some ds) :
    ds.Labelled := by
  obtain ⟨text, -, h⟩ := declarationsIn?_eq_some.mp h
  exact Manifest.labelled_readDeclarations h

/-- The planned changes are found in the declarations that are read back. -/
def Reflected (dir : FilePath) (planned : List PlannedChange) (t t' : FileTree) : Prop :=
  ∃ ds ds', declarationsIn? t dir = some ds ∧ declarationsIn? t' dir = some ds' ∧
    Analysis.Performed (planned.map (·.change)) ds ds'

theorem reflected_of_eq {t t' : FileTree} {ds ds' : Declarations} (planned : List PlannedChange)
    (hds : declarationsIn? t dir = some ds) (hds' : declarationsIn? t' dir = some ds')
    (hdeps : ds'.declared .dependencies =
      makeAll (planned.map (·.change)) ds.declared .dependencies)
    (hdev : ds'.declared .devDependencies =
      makeAll (planned.map (·.change)) ds.declared .devDependencies) :
    Reflected dir planned t t' := by
  refine ⟨ds, ds', hds, hds', fun kind x => ?_⟩
  cases kind with
  | dependencies => rw [hdeps]
  | devDependencies => rw [hdev]

/-- Once all planned changes are made, a project can be analysed again. Then nothing is found and
nothing is planned just if `lib` imports every package of both sections that `bin` imports. -/
theorem second_pass (hanalyze : (projectIn dir roots).analyze t = .ok a)
    (hreflected : Reflected dir a.plan t (run (.usual (manifestIn dir) now) t a.plan).2) :
    ∃ a', (projectIn dir roots).analyze (run (.usual (manifestIn dir) now) t a.plan).2 = .ok a' ∧
      (a'.hasIssues = false ∧ a'.plan = [] ↔
        ∀ r ∈ a.duplicates, r.usage.bin = true → r.usage.lib = true) := by
  obtain ⟨ds, usages, hds, hshown, hscan, rfl⟩ := (analyze_eq_ok).mp hanalyze
  obtain ⟨ds₀, ds', hds₀, hds', hperformed⟩ := hreflected
  obtain rfl : ds₀ = ds := Option.some.inj (hds₀.symm.trans hds)
  refine ⟨.ofDeclarations ds' usages Analysis.sdkPackage, (analyze_eq_ok).mpr ?_, ?_⟩
  · refine ⟨ds', usages, hds', Analysis.areShown_performed hperformed hshown, ?_, rfl⟩
    rw [sameImports_run, hscan]
  · rw [Analysis.plan_eq_nil_iff, and_self]
    exact Analysis.hasIssues_performed (labelled_of_declarationsIn? hds)
      (labelled_of_declarationsIn? hds') hperformed

/-! ### A package of both sections -/

def usualRoots : List FilePath := Usage.sourceRoots.map FilePath.ofText

def manifestTwice : String := "dependencies:\n  dio: 1\ndev_dependencies:\n  dio: 1\n"

/-- A project with a package of both sections, which one directory imports. -/
def importedBy (directory : String) : FileTree where
  files :=
    [(["app", "pubspec.yaml"], ⟨encodeText manifestTwice, 0⟩),
     (["app", directory, "main.dart"], ⟨encodeText "import 'package:dio/dio.dart';\n", 0⟩)]
  directories := [["app"], ["app", directory]]
  location := "."

theorem readManifest_importedBy (directory : String) :
    readManifest (importedBy directory) (manifestIn ["app"]) = .ok manifestTwice := by
  rw [readManifest_of_read rfl, decodeText?_encodeText, Option.elim_some]

def dioIn (kind : SectionKind) : Declaration := ⟨"dio", .plain (some "1"), kind⟩

theorem readDeclarations_twice :
    Manifest.readDeclarations manifestTwice =
      .ok ⟨[dioIn .dependencies], [dioIn .devDependencies]⟩ := by decide +kernel

/-- What is found in the project. -/
def foundTwice (u : Record) : Analysis where
  findings :=
    [⟨"dio", "1", .dependencies, Status.of .dependencies u, u⟩,
     ⟨"dio", "1", .devDependencies, Status.of .devDependencies u, u⟩]
  duplicates := [⟨"dio", "1", "1", u⟩]

theorem analyze_twice {t : FileTree} {u : Record}
    (hread : readManifest t (manifestIn ["app"]) = .ok manifestTwice)
    (hscan : Usage.scan? t ["app"] usualRoots Usage.sourceEnding = some [("dio", u)]) :
    (projectIn ["app"] usualRoots).analyze t = .ok (foundTwice u) :=
  (analyze_eq_ok).mpr
    ⟨_, _, declarationsIn?_eq_some.mpr ⟨_, hread, readDeclarations_twice⟩, rfl, hscan, rfl⟩

/-- What `lib` imports is kept among the dependencies. -/
theorem second_pass_imported_by_lib :
    (projectIn ["app"] usualRoots).analyze (importedBy "lib") = .ok (foundTwice { lib := true }) ∧
    Reflected ["app"] (foundTwice { lib := true }).plan (importedBy "lib")
      (run (.usual (manifestIn ["app"]) 1) (importedBy "lib")
        (foundTwice { lib := true }).plan).2 ∧
    ∃ a', (projectIn ["app"] usualRoots).analyze
        (run (.usual (manifestIn ["app"]) 1) (importedBy "lib")
          (foundTwice { lib := true }).plan).2 = .ok a' ∧
      (a'.hasIssues = false ∧ a'.plan = [] ↔
        ∀ r ∈ (foundTwice { lib := true }).duplicates, r.usage.bin = true → r.usage.lib = true) := by
  have hread := readManifest_importedBy "lib"
  have hread' : readManifest (run (.usual (manifestIn ["app"]) 1) (importedBy "lib")
        (foundTwice { lib := true }).plan).2 (manifestIn ["app"]) =
      .ok "dependencies:\n  dio: 1\ndev_dependencies:\n" := by
    decide +kernel
  have hds' : Manifest.readDeclarations "dependencies:\n  dio: 1\ndev_dependencies:\n" =
      .ok ⟨[dioIn .dependencies], []⟩ := by
    decide +kernel
  have hanalyze := analyze_twice hread (u := { lib := true }) (by decide +kernel)
  have hreflected := reflected_of_eq (foundTwice { lib := true }).plan
    (declarationsIn?_eq_some.mpr ⟨_, hread, readDeclarations_twice⟩)
    (declarationsIn?_eq_some.mpr ⟨_, hread', hds'⟩) rfl rfl
  exact ⟨hanalyze, hreflected, second_pass hanalyze hreflected⟩

/-- One pass is not enough for every project: what `bin` imports and `lib` does not is kept among
the development dependencies, and the second analysis wants it moved. -/
theorem not_all_settled_by_one_pass :
    ¬ ∀ (t : FileTree) (dir : FilePath) (roots : List FilePath) (now : Int) (a : Analysis)
        (o : Outcome),
      (projectIn dir roots).analyze t = .ok a →
      (run (.usual (manifestIn dir) now) t a.plan).1 = .ok o → o.success = true →
      (∀ text, readManifest t (manifestIn dir) = .ok text →
        ((Manifest.Editor.ofText text).apply (a.plan.map (·.change))).1 =
          a.plan.map (·.change)) →
      Reflected dir a.plan t (run (.usual (manifestIn dir) now) t a.plan).2 →
      ∃ a', (projectIn dir roots).analyze (run (.usual (manifestIn dir) now) t a.plan).2 = .ok a' ∧
        a'.hasIssues = false ∧ a'.plan = [] := by
  intro h
  have hread := readManifest_importedBy "bin"
  have hscan : Usage.scan? (importedBy "bin") ["app"] usualRoots Usage.sourceEnding =
      some [("dio", { bin := true })] := by
    decide +kernel
  have hrun : (run (.usual (manifestIn ["app"]) 1) (importedBy "bin")
        (foundTwice { bin := true }).plan).1 =
      .ok ⟨true, ["Removed duplicate from dependencies: dio"], none, true⟩ := by
    decide +kernel
  have hdone (text : String)
      (htext : readManifest (importedBy "bin") (manifestIn ["app"]) = .ok text) :
      ((Manifest.Editor.ofText text).apply ((foundTwice { bin := true }).plan.map (·.change))).1 =
        (foundTwice { bin := true }).plan.map (·.change) := by
    obtain rfl := Except.ok.inj (hread.symm.trans htext)
    decide
  have hread' : readManifest (run (.usual (manifestIn ["app"]) 1) (importedBy "bin")
        (foundTwice { bin := true }).plan).2 (manifestIn ["app"]) =
      .ok "dependencies:\ndev_dependencies:\n  dio: 1\n" := by
    decide +kernel
  have hds' : Manifest.readDeclarations "dependencies:\ndev_dependencies:\n  dio: 1\n" =
      .ok ⟨[], [dioIn .devDependencies]⟩ := by
    decide +kernel
  have hdeclared' := declarationsIn?_eq_some.mpr ⟨_, hread', hds'⟩
  have hreflected := reflected_of_eq (foundTwice { bin := true }).plan
    (declarationsIn?_eq_some.mpr ⟨_, hread, readDeclarations_twice⟩) hdeclared' rfl rfl
  obtain ⟨a', ha', hissues, -⟩ := h (importedBy "bin") ["app"] usualRoots 1 _ _
    (analyze_twice hread hscan) hrun rfl hdone hreflected
  obtain ⟨ds', usages', hds', -, hscan', rfl⟩ := (analyze_eq_ok).mp ha'
  obtain rfl := Option.some.inj (hdeclared'.symm.trans hds')
  rw [sameImports_run, hscan] at hscan'
  cases hscan'
  exact absurd hissues (by decide +kernel)

end Apply
end PubspecTidy
