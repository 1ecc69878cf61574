import PubspecTidy.Proofs.FileTree.Search
import PubspecTidy.Usage.Scan

/-!
# What the records say

The files are read one after the other, along roots that may overlap, and each one adds what it
imports. Main statement: the records say of each package just in which roles source files import it,
and they do not depend on the order of the roots, on roots that are repeated or on roots in others.
-/
namespace PubspecTidy.Usage

open FileTree (up)
open Text.Glob (isMark)

/-! ## Roles of paths -/

/-- A path below the root directory of a role. -/
def Under (role : Role) (path : FilePath) : Prop := ∃ rest, rest ≠ [] ∧ path = role.name :: rest

namespace Role

variable {role : Role} {path : FilePath}

theorem mem_all (role : Role) : role ∈ all := by cases role <;> decide

theorem slash_not_mem_name (role : Role) : '/' ∉ role.name.toList := by cases role <;> decide

theorem name_injective {role other : Role} (h : role.name = other.name) : role = other := by
  cases role <;> cases other <;> first | rfl | exact absurd h (by decide)

theorem startsWith_text_iff (hnames : ∀ name ∈ path, '/' ∉ name.toList) :
    Text.startsWith path.text (role.name ++ "/") = true ↔ Under role path := by
  have hrole : (role.name ++ "/").toList = role.name.toList ++ ['/'] := String.toList_append
  rw [Text.startsWith, List.isPrefixOf_iff_prefix, hrole]
  match path, hnames with
  | [], _ => simp [FilePath.text, Text.join, Under]
  | [name], hnames =>
    refine iff_of_false (fun h => ?_) (by simp [Under])
    exact hnames name List.mem_cons_self (h.subset (by simp))
  | name :: next :: rest, hnames =>
    have htext : (FilePath.text (name :: next :: rest)).toList =
        name.toList ++ '/' :: (FilePath.text (next :: rest)).toList := by
      simp [FilePath.text, Text.join]
    rw [htext]
    constructor
    · rintro ⟨more, hmore⟩
      rw [List.append_assoc, List.singleton_append] at hmore
      have hsplit := congrArg (Text.splitOn '/') hmore
      rw [Text.splitOn_append_sep role.slash_not_mem_name,
        Text.splitOn_append_sep (hnames name List.mem_cons_self)] at hsplit
      refine ⟨next :: rest, List.cons_ne_nil _ _, ?_⟩
      rw [String.toList_inj.mp (List.cons.inj hsplit).1]
    · rintro ⟨more, -, hpath⟩
      rw [(List.cons.inj hpath).1]
      exact ⟨_, List.append_assoc _ _ _⟩

theorem under_of_ofPath? (hnames : ∀ name ∈ path, '/' ∉ name.toList)
    (h : ofPath? path.text = some role) : Under role path := by
  have hstarts := List.find?_some h
  exact (startsWith_text_iff hnames).mp hstarts

theorem ofPath?_eq_some_iff (hnames : ∀ name ∈ path, '/' ∉ name.toList) :
    ofPath? path.text = some role ↔ Under role path := by
  refine ⟨under_of_ofPath? hnames, fun h => ?_⟩
  cases hfind : ofPath? path.text with
  | none =>
    have hnot := List.find?_eq_none.mp hfind role role.mem_all
    exact absurd ((startsWith_text_iff hnames).mpr h) hnot
  | some other =>
    obtain ⟨rest, -, hpath⟩ := h
    obtain ⟨rest', -, hpath'⟩ := under_of_ofPath? hnames hfind
    rw [name_injective (List.cons.inj (hpath'.symm.trans hpath)).1]

theorem ofPath?_eq_none_iff (hnames : ∀ name ∈ path, '/' ∉ name.toList) :
    ofPath? path.text = none ↔ ∀ role, ¬ Under role path := by
  rw [Option.eq_none_iff_forall_ne_some]
  exact forall_congr' fun role => not_congr (ofPath?_eq_some_iff hnames)

end Role

/-! ## What is noted -/

namespace Record

variable {u v : Record} {role : Option Role}

/-- Whether an import from a file with the role is noted. -/
def notes (u : Record) : Option Role → Bool
  | some role => u.has role
  | none => u.elsewhere

theorem notes_mark (u : Record) (marked : Option Role) :
    (u.mark marked).notes role = true ↔ u.notes role = true ∨ role = marked := by
  rcases marked with _ | marked <;> rcases role with _ | role
  · simp [notes, mark]
  · cases role <;> simp [notes, mark, has]
  · cases marked <;> simp [notes, mark]
  · cases marked <;> cases role <;> simp [notes, mark, has]

theorem notes_default (role : Option Role) : ({} : Record).notes role = false := by
  rcases role with _ | role
  · rfl
  · cases role <;> rfl

theorem eq_of_notes (h : ∀ role, u.notes role = v.notes role) : u = v := by
  obtain ⟨lib, test, bin, tool, elsewhere⟩ := u
  obtain ⟨lib', test', bin', tool', elsewhere'⟩ := v
  obtain rfl : lib = lib' := h (some .lib)
  obtain rfl : test = test' := h (some .test)
  obtain rfl : bin = bin' := h (some .bin)
  obtain rfl : tool = tool' := h (some .tool)
  obtain rfl : elsewhere = elsewhere' := h none
  rfl

end Record

/-- The records hold the packages that are imported anywhere, and note just the roles from which. -/
structure Describes (usages : Usages) (imported : String → Option Role → Prop) : Prop where
  has : ∀ package, Table.has usages package = true ↔ ∃ role, imported package role
  notes : ∀ package u, Table.get? usages package = some u →
    ∀ role, u.notes role = true ↔ imported package role

namespace Describes

variable {usages usages' : Usages} {imported imported' : String → Option Role → Prop}

theorem nil : Describes [] fun _ _ => False where
  has package := by simp [Table.has, Table.get?_nil]
  notes package u hget := by cases hget

theorem congr (h : Describes usages imported)
    (hiff : ∀ package role, imported package role ↔ imported' package role) :
    Describes usages imported' where
  has package := (h.has package).trans (exists_congr fun role => hiff package role)
  notes package u hget role := (h.notes package u hget role).trans (hiff package role)

/-- What a record notes, the empty one for a package without any. -/
theorem getD_notes (h : Describes usages imported) (package : String) (role : Option Role) :
    (Table.getD usages package {}).notes role = true ↔ imported package role := by
  rw [Table.getD]
  cases hget : Table.get? usages package with
  | some u => exact h.notes package u hget role
  | none =>
    refine iff_of_false (by simp [Record.notes_default]) fun himported => ?_
    have hhas := (h.has package).mpr ⟨role, himported⟩
    simp [Table.has, hget] at hhas

/-- One more import. -/
theorem put (h : Describes usages imported) (package : String) (role : Option Role) :
    Describes (Table.put usages package ((Table.getD usages package {}).mark role))
      fun p r => imported p r ∨ p = package ∧ r = role where
  has p := by
    rw [Table.has, Table.get?_put]
    split
    · rename_i hp
      exact iff_of_true rfl ⟨role, .inr ⟨hp.symm, rfl⟩⟩
    · rename_i hp
      refine (h.has p).trans (exists_congr fun r => ?_)
      exact ⟨.inl, fun hr => hr.resolve_right fun heq => hp heq.1.symm⟩
  notes p u hget r := by
    rw [Table.get?_put] at hget
    split at hget
    · rename_i hp
      subst hp
      rw [← Option.some.inj hget, Record.notes_mark, h.getD_notes]
      exact or_congr_right (by simp)
    · rename_i hp
      rw [h.notes p u hget r]
      exact ⟨.inl, fun hr => hr.resolve_right fun heq => hp heq.1.symm⟩

theorem markAll (h : Describes usages imported) (role : Option Role) (packages : List String) :
    Describes (Usage.markAll usages role packages)
      fun p r => imported p r ∨ p ∈ packages ∧ r = role := by
  induction packages generalizing usages imported with
  | nil => exact h.congr fun p r => by simp
  | cons package rest ih =>
    refine (ih (h.put package role)).congr fun p r => ?_
    rw [List.mem_cons, or_and_right, or_assoc]

/-- The records are all that there is to say about what is imported. -/
theorem get?_eq (h : Describes usages imported) (h' : Describes usages' imported)
    (package : String) : Table.get? usages package = Table.get? usages' package := by
  have hhas : Table.has usages package = Table.has usages' package :=
    Bool.eq_iff_iff.mpr ((h.has package).trans (h'.has package).symm)
  rw [Table.has, Table.has] at hhas
  cases hget : Table.get? usages package with
  | none =>
    rw [hget] at hhas
    exact (Option.isSome_eq_false_iff.mp hhas.symm |> Option.isNone_iff_eq_none.mp).symm
  | some u =>
    rw [hget] at hhas
    obtain ⟨v, hget'⟩ := Option.isSome_iff_exists.mp hhas.symm
    rw [hget']
    congr 1
    refine Record.eq_of_notes fun role => Bool.eq_iff_iff.mpr ?_
    exact (h.notes package u hget role).trans (h'.notes package v hget' role).symm

end Describes

/-! ## Reading the files -/

/-- A file that is a valid text imports a package. -/
def Imports (f : File) (package : String) : Prop :=
  ∃ text, decodeText? f.bytes = some text ∧ package ∈ imports (Text.withUnifiedNewlines text)

theorem Describes.scanFile {usages : Usages} {imported : String → Option Role → Prop}
    (h : Describes usages imported) (p : FilePath) (f : File) :
    Describes (Usage.scanFile usages p f)
      fun package role => imported package role ∨
        Imports f package ∧ role = Role.ofPath? p.text := by
  rw [Usage.scanFile]
  cases hdecode : decodeText? f.bytes with
  | none => exact h.congr fun package role => by simp [Imports, hdecode]
  | some text => exact (h.markAll _ _).congr fun package role => by simp [Imports, hdecode]

theorem Describes.scanFiles {usages : Usages} {imported : String → Option Role → Prop}
    (h : Describes usages imported) (files : List (FilePath × File)) :
    Describes (files.foldl (fun usages e => Usage.scanFile usages e.1 e.2) usages)
      fun package role => imported package role ∨
        ∃ e ∈ files, Imports e.2 package ∧ role = Role.ofPath? e.1.text := by
  induction files generalizing usages imported with
  | nil => exact h.congr fun package role => by simp
  | cons e rest ih =>
    refine (ih (h.scanFile e.1 e.2)).congr fun package role => ?_
    simp only [List.mem_cons, exists_eq_or_imp, or_assoc]

/-! ## The source files -/

variable {t : FileTree} {project path : FilePath} {roots more : List FilePath} {ending : String}
  {f : File}

/-- A file below one of the roots that are directories, whose name has the ending. -/
structure IsSource (t : FileTree) (project : FilePath) (roots : List FilePath) (ending : String)
    (path : FilePath) (f : File) : Prop where
  direct : up ∉ path
  file : t.file? (project ++ path) = some f
  below : ∃ root ∈ roots, t.isDirectory (project ++ root) = true ∧ root <+: path
  ending : Text.endsWith path.name ending = true

/-- A source file at the path imports the package. -/
def ImportsFrom (t : FileTree) (project : FilePath) (roots : List FilePath) (ending : String)
    (path : FilePath) (package : String) : Prop :=
  ∃ f, IsSource t project roots ending path f ∧ Imports f package

theorem IsSource.slash_not_mem (ht : t.Proper) (h : IsSource t project roots ending path f) :
    ∀ name ∈ path, '/' ∉ name.toList := by
  obtain ⟨place, -, hget⟩ := (FileTree.file?_append h.direct).mp h.file
  exact fun name hname => (ht.isName_of_file hget (List.mem_append_right _ hname)).2

/-- No name ends in a slash and more. -/
theorem IsSource.slash_not_mem_ending (ht : t.Proper)
    (h : IsSource t project roots ending path f) : '/' ∉ ending.toList := by
  intro hslash
  have hname : '/' ∈ path.name.toList := (List.isSuffixOf_iff_suffix.mp h.ending).subset hslash
  rw [FilePath.name] at hname
  cases hlast : path.getLast? with
  | none => simp [hlast] at hname
  | some name =>
    rw [hlast] at hname
    exact h.slash_not_mem ht name (List.mem_of_getLast? hlast) hname

/-- What a search of one root finds. -/
theorem mem_search_root (ht : t.Proper) {root : FilePath} (hup : up ∉ root)
    (hdir : t.isDirectory (project ++ root) = true) (hmark : ending.toList.any isMark = false) :
    (∃ q ∈ t.search [.everywhere, .matching (Text.Glob.ofList ('*' :: ending.toList))]
        (project ++ root), t.file? q = some f ∧ q.drop project.length = path) ↔
      up ∉ path ∧ t.file? (project ++ path) = some f ∧ root <+: path ∧
        Text.endsWith path.name ending = true := by
  constructor
  · rintro ⟨q, hq, hfile, rfl⟩
    obtain ⟨names, hnames, rfl, -, haccepts⟩ := (ht.mem_search_file hdir).mp ⟨hq, hfile⟩
    have hnil := ht.ne_nil_of_file hdir hnames hfile
    rw [Text.accepts_star_iff hmark, FileTree.name_append _ hnil] at haccepts
    rw [List.append_assoc, List.drop_left]
    rw [List.append_assoc] at hfile
    refine ⟨fun hmem => ?_, hfile, List.prefix_append root names, ?_⟩
    · exact (List.mem_append.mp hmem).elim hup hnames
    · rwa [FileTree.name_append _ hnil]
  · rintro ⟨hpath, hfile, ⟨names, rfl⟩, hending⟩
    have hnames : up ∉ names := fun hmem => hpath (List.mem_append_right _ hmem)
    rw [← List.append_assoc] at hfile
    have hnil := ht.ne_nil_of_file hdir hnames hfile
    rw [FileTree.name_append _ hnil, ← FileTree.name_append (project ++ root) hnil,
      ← Text.accepts_star_iff hmark] at hending
    have hfound := (ht.mem_search_file hdir).mpr ⟨names, hnames, rfl, hfile, hending⟩
    refine ⟨_, hfound.1, hfile, ?_⟩
    rw [List.append_assoc, List.drop_left]

/-- The files that are read are just the source files. -/
theorem exists_sourceFiles? (ht : t.Proper) (project : FilePath) (hroots : ∀ root ∈ roots, up ∉ root)
    (hmark : ending.toList.any isMark = false) (hslash : '/' ∉ ending.toList) :
    ∃ files, sourceFiles? t project roots ending = some files ∧
      ∀ path f, (path, f) ∈ files ↔ IsSource t project roots ending path f := by
  have hsteps := Text.searchSteps?_star hmark hslash
  have hpresent (q : FilePath) :
      q ∈ (roots.map (project ++ ·)).filter t.isDirectory ↔
        ∃ root ∈ roots, t.isDirectory (project ++ root) = true ∧ q = project ++ root := by
    rw [List.mem_filter, List.mem_map]
    constructor
    · rintro ⟨⟨root, hroot, rfl⟩, hdir⟩
      exact ⟨root, hroot, hdir, rfl⟩
    · rintro ⟨root, hroot, hdir, rfl⟩
      exact ⟨⟨root, hroot, rfl⟩, hdir⟩
  unfold sourceFiles?
  dsimp only
  split
  · rename_i hnone
    refine ⟨[], rfl, fun path f => iff_of_false List.not_mem_nil fun h => ?_⟩
    obtain ⟨root, hroot, hdir, -⟩ := h.below
    have hmem := (hpresent _).mpr ⟨root, hroot, hdir, rfl⟩
    rw [List.isEmpty_iff.mp hnone] at hmem
    cases hmem
  · rw [hsteps, Option.map_some]
    refine ⟨_, rfl, fun path f => ?_⟩
    simp only [List.mem_filterMap, List.mem_flatMap, hpresent, Option.map_eq_some_iff,
      Prod.mk.injEq]
    constructor
    · rintro ⟨q, ⟨_, ⟨root, hroot, hdir, rfl⟩, hq⟩, f, hfile, hpath, rfl⟩
      obtain ⟨hdirect, hfile, hbelow, hending⟩ :=
        (mem_search_root ht (hroots root hroot) hdir hmark).mp ⟨q, hq, hfile, hpath⟩
      exact ⟨hdirect, hfile, ⟨root, hroot, hdir, hbelow⟩, hending⟩
    · intro h
      obtain ⟨root, hroot, hdir, hbelow⟩ := h.below
      obtain ⟨q, hq, hfile, hpath⟩ :=
        (mem_search_root ht (hroots root hroot) hdir hmark).mpr
          ⟨h.direct, h.file, hbelow, h.ending⟩
      exact ⟨q, ⟨_, ⟨root, hroot, hdir, rfl⟩, hq⟩, f, hfile, hpath, rfl⟩

/-- Roots in others and roots in another order lead to no other files. -/
theorem isSource_congr (ht : t.Proper) (hmore : ∀ root ∈ more, up ∉ root) (hsub : roots ⊆ more)
    (hwithin : ∀ root ∈ more, ∃ outer ∈ roots, outer <+: root) :
    IsSource t project more ending path f ↔ IsSource t project roots ending path f := by
  constructor
  · intro h
    obtain ⟨root, hroot, hdir, hbelow⟩ := h.below
    obtain ⟨outer, houter, names, rfl⟩ := hwithin root hroot
    have hnames : up ∉ names := fun hmem => hmore _ hroot (List.mem_append_right _ hmem)
    rw [← List.append_assoc] at hdir
    have hdir' := ht.isDirectory_of_append hnames hdir
    exact ⟨h.direct, h.file,
      ⟨outer, houter, hdir', (List.prefix_append outer names).trans hbelow⟩, h.ending⟩
  · intro h
    obtain ⟨root, hroot, hdir, hbelow⟩ := h.below
    exact ⟨h.direct, h.file, ⟨root, hsub hroot, hdir, hbelow⟩, h.ending⟩

/-! ## The records -/

/-- The records say of each package in which roles source files import it. -/
structure Covers (usages : Usages) (t : FileTree) (project : FilePath) (roots : List FilePath)
    (ending : String) : Prop where
  packages : ∀ package, Table.has usages package = true ↔
    ∃ path, ImportsFrom t project roots ending path package
  roles : ∀ package u, Table.get? usages package = some u → ∀ role, u.has role = true ↔
    ∃ path, ImportsFrom t project roots ending path package ∧ Under role path
  elsewhere : ∀ package u, Table.get? usages package = some u → (u.elsewhere = true ↔
    ∃ path, ImportsFrom t project roots ending path package ∧ ∀ role, ¬ Under role path)

/-- Whether a source file from which a package is imported has the role. -/
def ImportedAs (t : FileTree) (project : FilePath) (roots : List FilePath) (ending : String)
    (package : String) (role : Option Role) : Prop :=
  ∃ path, ImportsFrom t project roots ending path package ∧ role = Role.ofPath? path.text

theorem Describes.covers {usages : Usages} (ht : t.Proper)
    (h : Describes usages (ImportedAs t project roots ending)) :
    Covers usages t project roots ending where
  packages package := by
    rw [h.has]
    constructor
    · rintro ⟨role, path, himports, -⟩
      exact ⟨path, himports⟩
    · rintro ⟨path, himports⟩
      exact ⟨_, path, himports, rfl⟩
  roles package u hget role := by
    refine (h.notes package u hget (some role)).trans (exists_congr fun path => ?_)
    refine and_congr_right fun ⟨f, hf, _⟩ => eq_comm.trans ?_
    exact Role.ofPath?_eq_some_iff (hf.slash_not_mem ht)
  elsewhere package u hget := by
    refine (h.notes package u hget none).trans (exists_congr fun path => ?_)
    refine and_congr_right fun ⟨f, hf, _⟩ => eq_comm.trans ?_
    exact Role.ofPath?_eq_none_iff (hf.slash_not_mem ht)

theorem exists_scan? (ht : t.Proper) (project : FilePath) (hroots : ∀ root ∈ roots, up ∉ root)
    (hmark : ending.toList.any isMark = false) (hslash : '/' ∉ ending.toList) :
    ∃ usages, scan? t project roots ending = some usages ∧
      Describes usages (ImportedAs t project roots ending) := by
  obtain ⟨files, hfiles, hmem⟩ := exists_sourceFiles? ht project hroots hmark hslash
  refine ⟨_, by rw [scan?, hfiles, Option.map_some], ?_⟩
  refine (Describes.nil.scanFiles files).congr fun package role => ?_
  rw [false_or]
  constructor
  · rintro ⟨⟨path, f⟩, he, himports, hrole⟩
    exact ⟨path, ⟨f, (hmem path f).mp he, himports⟩, hrole⟩
  · rintro ⟨path, ⟨f, hf, himports⟩, hrole⟩
    exact ⟨(path, f), (hmem path f).mpr hf, himports, hrole⟩

/-- A scan finds every import of a source file and no others, whatever roots lead to the file. -/
theorem scan?_covers (ht : t.Proper) (project : FilePath) (hroots : ∀ root ∈ roots, up ∉ root)
    (hmark : ending.toList.any isMark = false) (hslash : '/' ∉ ending.toList) :
    ∃ usages, scan? t project roots ending = some usages ∧
      Covers usages t project roots ending ∧
      ∀ more : List FilePath, (∀ root ∈ more, up ∉ root) → roots ⊆ more →
        (∀ root ∈ more, ∃ outer ∈ roots, outer <+: root) →
        ∃ usages', scan? t project more ending = some usages' ∧
          ∀ package, Table.get? usages' package = Table.get? usages package := by
  obtain ⟨usages, hscan, hdescribes⟩ := exists_scan? ht project hroots hmark hslash
  refine ⟨usages, hscan, hdescribes.covers ht, fun more hmore hsub hwithin => ?_⟩
  obtain ⟨usages', hscan', hdescribes'⟩ := exists_scan? ht project hmore hmark hslash
  refine ⟨usages', hscan', (hdescribes'.congr fun package role => ?_).get?_eq hdescribes⟩
  refine exists_congr fun path => and_congr_left fun _ => exists_congr fun f => ?_
  exact and_congr_left fun _ => isSource_congr ht hmore hsub hwithin

/-- A tree with one source file, which lies in two directories. -/
def nestedSource : FileTree where
  files := [(["lib", "src", "main.dart"], ⟨encodeText "import 'package:dio/dio.dart';\n", 0⟩)]
  directories := [["lib"], ["lib", "src"]]
  location := "."

theorem proper_nestedSource : nestedSource.Proper :=
  ⟨by decide, by decide, by decide⟩

theorem scan?_covers_nested :
    nestedSource.Proper ∧ ∃ usages, scan? nestedSource [] [["lib"]] ".dart" = some usages ∧
      Covers usages nestedSource [] [["lib"]] ".dart" ∧
      ∃ usages', scan? nestedSource [] [["lib", "src"], ["lib"], ["lib"]] ".dart" = some usages' ∧
        ∀ package, Table.get? usages' package = Table.get? usages package := by
  have hroots : ∀ root ∈ [["lib"]], up ∉ root := by decide
  have hmark : ".dart".toList.any isMark = false := by decide
  obtain ⟨usages, hscan, hcovers, hmore⟩ :=
    scan?_covers proper_nestedSource [] hroots hmark (by decide)
  exact ⟨proper_nestedSource, usages, hscan, hcovers,
    hmore _ (by decide) (by decide) (by decide)⟩

/-- An ending with a slash makes a pattern of two parts, whose last one is not all of the ending. -/
theorem not_all_covered :
    ¬ ∀ (t : FileTree) (project : FilePath) (roots : List FilePath) (ending : String), t.Proper →
      (∀ root ∈ roots, up ∉ root) → ending.toList.any isMark = false →
      ∃ usages, scan? t project roots ending = some usages ∧
        Covers usages t project roots ending := by
  intro h
  obtain ⟨usages, hscan, hcovers⟩ :=
    h nestedSource [] [["lib"]] "/main.dart" proper_nestedSource (by decide) (by decide)
  have hhas : (scan? nestedSource [] [["lib"]] "/main.dart").all (Table.has · "dio") = true := by
    decide +kernel
  rw [hscan] at hhas
  obtain ⟨path, f, hf, -⟩ := (hcovers.packages "dio").mp hhas
  exact hf.slash_not_mem_ending proper_nestedSource (by decide)

end PubspecTidy.Usage
