import PubspecTidy.Proofs.FileTree.Search
import PubspecTidy.Usage.Scan
import Mathlib.Data.List.Basic

/-!
# Files that are no sources

Main statement: where packages are imported does not change when a file is written whose name does
not match that of a source.
-/
namespace PubspecTidy

open FileTree (SearchStep)
open Text.Glob (Item accepts)

namespace FileTree

variable {t t' : FileTree} {p : FilePath} {name : String} {bytes : ByteArray} {now : Int}

/-- In trees with the same directories a path leads to the same place, or in both to none. -/
theorem place_cases (h : t'.directories = t.directories) (p : FilePath) :
    (∃ q, t.place p = .ok q ∧ t'.place p = .ok q) ∨
      ∃ e e', t.place p = .error e ∧ t'.place p = .error e' := by
  cases hplace : t.place p with
  | ok q => exact .inl ⟨q, rfl, (place_congr h).mpr hplace⟩
  | error e =>
    cases hplace' : t'.place p with
    | ok q =>
      rw [(place_congr h).mp hplace'] at hplace
      cases hplace
    | error e' => exact .inr ⟨e, e', rfl, rfl⟩

theorem isDirectory_congr (h : t'.directories = t.directories) (p : FilePath) :
    t'.isDirectory p = t.isDirectory p := by
  unfold isDirectory
  rcases place_cases h p with ⟨q, hq, hq'⟩ | ⟨e, e', he, he'⟩
  · rw [hq, hq']
    exact isDirectoryAt_congr h q
  · rw [he, he']

theorem directoriesIn_congr (h : t'.directories = t.directories) (p : FilePath) :
    t'.directoriesIn p = t.directoriesIn p := by
  unfold directoriesIn
  rcases place_cases h p with ⟨q, hq, hq'⟩ | ⟨e, e', he, he'⟩
  · rw [hq, hq', h]
  · rw [he, he']

theorem directoriesFrom_congr (h : t'.directories = t.directories) (p : FilePath) :
    t'.directoriesFrom p = t.directoriesFrom p := by
  unfold directoriesFrom
  rcases place_cases h p with ⟨q, hq, hq'⟩ | ⟨e, e', he, he'⟩
  · rw [hq, hq', h]
  · rw [he, he']

/-! ## One new file -/

/-- A new key is the only new child of a place. -/
theorem filter_childrenOf_put {files : Table FilePath File} {place : FilePath}
    {accept : String → Bool} (hname : accept name = false) (f : File) (q : FilePath) :
    (childrenOf q (Table.keys (Table.put files (place ++ [name]) f))).filter accept =
      (childrenOf q (Table.keys files)).filter accept := by
  rw [Table.keys_put]
  split
  · rfl
  · unfold childrenOf
    rw [List.filterMap_append, List.filter_append]
    have hnew : (List.filterMap (fun r : FilePath =>
        if q.isPrefixOf r && r.length == q.length + 1 then r.getLast? else none)
          [place ++ [name]]).filter accept = [] := by
      rw [List.filterMap_cons, List.filterMap_nil, List.getLast?_concat]
      split
      · rfl
      · rename_i found hfound
        split at hfound
        · cases hfound
          simp [hname]
        · cases hfound
    rw [hnew, List.append_nil]

/-- The place of a file that was written. -/
theorem write_at {dir : FilePath} (hup : name ≠ up)
    (h : t.write (dir ++ [name]) bytes now = .ok t') :
    ∃ d, t.place dir = .ok d ∧
      t' = { t with files := Table.put t.files (d ++ [name]) ⟨bytes, now⟩ } := by
  obtain ⟨place, hplace, -, ht'⟩ := write_eq_ok.mp h
  obtain ⟨d, hd, rfl⟩ := (place_append_name hup).mp hplace
  exact ⟨d, hd, ht'⟩

variable {dir : FilePath} {items : List Item}

/-- A search for names goes past a file whose name does not match. -/
theorem search_write (hup : name ≠ up) (hname : accepts items name.toList = false)
    (h : t.write (dir ++ [name]) bytes now = .ok t') (p : FilePath) :
    t'.search [.everywhere, .matching items] p = t.search [.everywhere, .matching items] p := by
  have hdirs := directories_write h
  have hnames (q : FilePath) :
      (t'.namesIn q true).filter (fun name => accepts items name.toList) =
        (t.namesIn q true).filter fun name => accepts items name.toList := by
    unfold namesIn filesIn
    rw [List.filter_append, List.filter_append, directoriesIn_congr hdirs]
    simp only [if_true]
    rcases place_cases hdirs q with ⟨r, hr, hr'⟩ | ⟨e, e', he, he'⟩
    · obtain ⟨d, -, ht'⟩ := write_at hup h
      have hfiles := congrArg FileTree.files ht'
      rw [hr, hr', hfiles, filter_childrenOf_put hname]
    · rw [he, he']
  simp only [search, directoriesFrom_congr hdirs, List.isEmpty_nil, hnames]

theorem mem_search {q : FilePath} (h : q ∈ t.search [.everywhere, .matching items] p) :
    ∃ (d : FilePath) (name : String), q = d ++ [name] ∧ accepts items name.toList = true := by
  simp only [search, List.mem_flatMap, List.mem_filter] at h
  obtain ⟨d, -, name, ⟨-, hname⟩, hq⟩ := h
  exact ⟨d, name, List.mem_singleton.mp hq, hname⟩

theorem file?_write {d : FilePath} {other : String} (hup : name ≠ up) (hother : other ≠ up)
    (hne : other ≠ name) (h : t.write (dir ++ [name]) bytes now = .ok t') :
    t'.file? (d ++ [other]) = t.file? (d ++ [other]) := by
  unfold file?
  rcases place_cases (directories_write h) (d ++ [other]) with ⟨q, hq, hq'⟩ | ⟨e, e', he, he'⟩
  · obtain ⟨place, -, ht'⟩ := write_at hup h
    obtain ⟨e, -, rfl⟩ := (place_append_name hother).mp hq
    have hfiles := congrArg FileTree.files ht'
    rw [hq, hq', hfiles]
    dsimp only
    rw [Table.get?_put, if_neg fun heq => hne (by simpa using (List.append_inj' heq rfl).2.symm)]
  · rw [he, he']

end FileTree

namespace Usage

variable {t t' : FileTree} {dir : FilePath} {name : String} {bytes : ByteArray} {now : Int}

/-- The pattern for the names of sources. -/
def sourceItems : List Item := Text.Glob.ofList ("*" ++ sourceEnding).toList

theorem searchSteps?_source :
    FileTree.searchSteps? ("*" ++ sourceEnding) = some [.matching sourceItems] := by
  decide

theorem accepts_sourceItems (name : String) :
    accepts sourceItems name.toList = true ↔ Text.endsWith name sourceEnding = true := by
  rw [sourceItems, String.toList_append]
  exact Text.accepts_star_iff (by decide) name

theorem sourceFiles?_write (hup : name ≠ FileTree.up)
    (hname : Text.endsWith name sourceEnding = false)
    (h : t.write (dir ++ [name]) bytes now = .ok t') (project : FilePath)
    (roots : List FilePath) :
    sourceFiles? t' project roots sourceEnding = sourceFiles? t project roots sourceEnding := by
  have hdirs := FileTree.directories_write h
  have hother : accepts sourceItems name.toList = false := by
    rw [Bool.eq_false_iff, ne_eq, accepts_sourceItems, hname]
    exact Bool.false_ne_true
  have hpresent : (roots.map (project ++ ·)).filter t'.isDirectory =
      (roots.map (project ++ ·)).filter t.isDirectory :=
    List.filter_congr fun p _ => FileTree.isDirectory_congr hdirs p
  unfold sourceFiles?
  rw [hpresent, searchSteps?_source]
  dsimp only
  split
  · rfl
  · rw [Option.map_some, Option.map_some]
    congr 1
    rw [funext (FileTree.search_write hup hother h)]
    refine List.filterMap_congr fun p hp => ?_
    obtain ⟨r, -, hp⟩ := List.mem_flatMap.mp hp
    obtain ⟨d, other, rfl, haccepts⟩ := FileTree.mem_search hp
    rw [FileTree.file?_write hup ?_ ?_ h]
    · rintro rfl
      exact absurd ((accepts_sourceItems _).mp haccepts) (by decide)
    · rintro rfl
      rw [hother] at haccepts
      cases haccepts

/-- A file that is no source changes nothing about where packages are imported. -/
theorem scan?_write (hup : name ≠ FileTree.up) (hname : Text.endsWith name sourceEnding = false)
    (h : t.write (dir ++ [name]) bytes now = .ok t') (project : FilePath)
    (roots : List FilePath) :
    scan? t' project roots sourceEnding = scan? t project roots sourceEnding := by
  rw [scan?, scan?, sourceFiles?_write hup hname h]

end Usage
end PubspecTidy
