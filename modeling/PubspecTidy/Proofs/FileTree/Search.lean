import PubspecTidy.FileTree.Search
import PubspecTidy.Proofs.FileTree.Frame
import PubspecTidy.Proofs.Text.Lines

/-!
# What a search finds

Main statement: a search for a star and an ending finds just the entries below a directory whose
names have the ending, provided that the entries of the tree stand in directories that exist.
-/
namespace PubspecTidy

open Text.Glob (Item accepts isMark ofList parse)

/-! ## A star and an ending -/

namespace Text

variable {cs ds : List Char} {ending : String}

theorem accepts_run_map_one (cs ds : List Char) :
    accepts (.run :: cs.map .one) ds = true ↔ cs <:+ ds := by
  induction ds with
  | nil => simp [accepts, Glob.accepts_map_one, eq_comm]
  | cons d ds ih =>
    simp only [accepts, Bool.or_eq_true, Glob.accepts_map_one, decide_eq_true_eq, ih,
      List.suffix_cons_iff]
    exact or_congr_left eq_comm

/-- A star and an ending without marks match the names with that ending. -/
theorem accepts_star (hmark : cs.any isMark = false) :
    accepts (ofList ('*' :: cs)) ds = true ↔ cs <:+ ds := by
  have hitems : ofList ('*' :: cs) = .run :: cs.map .one := by
    rw [ofList, List.length_cons, parse, if_pos rfl, Glob.parse_eq_map_one (Nat.le_refl _) hmark]
  rw [hitems, accepts_run_map_one]

theorem accepts_star_iff (hmark : ending.toList.any isMark = false) (name : String) :
    accepts (ofList ('*' :: ending.toList)) name.toList = true ↔ endsWith name ending = true := by
  rw [accepts_star hmark, endsWith, List.isSuffixOf_iff_suffix]

theorem isPrefixOf_of_not_mem {c : Char} (h : c ∉ cs) (rest : List Char) :
    (c :: rest).isPrefixOf cs = false := by
  rw [Bool.eq_false_iff]
  exact fun hbelow => h ((List.isPrefixOf_iff_prefix.mp hbelow).subset List.mem_cons_self)

theorem containsList_of_not_mem {c : Char} (h : c ∉ cs) (rest : List Char) :
    containsList (c :: rest) cs = false := by
  induction cs with
  | nil => rfl
  | cons d ds ih =>
    rw [containsList, isPrefixOf_of_not_mem h, ih fun hmem => h (List.mem_cons_of_mem d hmem),
      Bool.or_false]

/-- A star and an ending without marks and slashes are a pattern of one part. -/
theorem searchSteps?_star (hmark : ending.toList.any isMark = false) (hslash : '/' ∉ ending.toList) :
    FileTree.searchSteps? ("*" ++ ending) =
      some [.matching (ofList ('*' :: ending.toList))] := by
  have htext : ("*" ++ ending).toList = '*' :: ending.toList := by simp
  have hstar : '*' ∉ ending.toList := fun hmem =>
    absurd (List.any_eq_false.mp hmark '*' hmem) (by decide)
  have hslash' : '/' ∉ '*' :: ending.toList := by simp [hslash]
  have hparts : FilePath.ofText ("*" ++ ending) = ["*" ++ ending] := by
    have hempty : "*" ++ ending ≠ "" := fun h => by simpa [htext] using congrArg String.toList h
    have hdot : "*" ++ ending ≠ "." := fun h => by simpa [htext] using congrArg String.toList h
    rw [FilePath.ofText, htext, splitOn_of_not_mem hslash', ← htext]
    simp [String.ofList_toList, hempty, hdot]
  have htwo : ("*" ++ ending == "**") = false := by
    refine beq_eq_false_iff_ne.mpr fun h => hstar ?_
    have hlist : ending.toList = ['*'] := by simpa [htext] using congrArg String.toList h
    rw [hlist]
    exact List.mem_singleton_self _
  have hcontains : contains ("*" ++ ending) "**" = false := by
    rw [contains, htext, show "**".toList = ['*', '*'] from rfl, containsList,
      containsList_of_not_mem hstar, Bool.or_false, List.isPrefixOf_cons_cons,
      isPrefixOf_of_not_mem hstar, Bool.and_false]
  have hends : endsWith ("*" ++ ending) "/" = false := by
    rw [endsWith, htext, Bool.eq_false_iff]
    intro h
    exact hslash' ((List.isSuffixOf_iff_suffix.mp h).subset (by decide))
  have hany : ("*" ++ ending).toList.any isMark = true := by simp [htext, isMark]
  have hstep : FileTree.searchStep? ("*" ++ ending) =
      some (.matching (ofList ('*' :: ending.toList))) := by
    rw [FileTree.searchStep?, htwo, hcontains, hany, htext]
    rfl
  simp [FileTree.searchSteps?, hparts, hstep, hends]

end Text

namespace FileTree

variable {t : FileTree} {p q place : FilePath} {names : List String} {name : String} {f : File}

/-! ## Trees in which everything can be reached -/

/-- A name of an entry of a directory. -/
def IsName (name : String) : Prop := name ≠ up ∧ '/' ∉ name.toList

instance (name : String) : Decidable (IsName name) := inferInstanceAs (Decidable (_ ∧ _))

/-- Files and directories have names and stand in directories that exist. -/
structure Proper (t : FileTree) : Prop where
  files : t.WellFormed
  directories : ∀ place ∈ t.directories, t.wayError? place = none
  names : ∀ place ∈ t.directories ++ Table.keys t.files, ∀ name ∈ place, IsName name

theorem mem_ancestors (h : q <+: place) (hnil : q ≠ []) (hne : q ≠ place) :
    q ∈ ancestors place := by
  have hlength : q.length < place.length :=
    Nat.lt_of_le_of_ne h.length_le fun heq => hne (h.eq_of_length heq)
  have hpos : 0 < q.length := List.length_pos_iff.mpr hnil
  refine List.mem_map.mpr ⟨q.length - 1, List.mem_range.mpr (by omega), ?_⟩
  rw [Nat.sub_add_cancel hpos]
  exact (List.prefix_iff_eq_take.mp h).symm

theorem isDirectoryAt_nil (t : FileTree) : t.isDirectoryAt [] = true := rfl

/-- What stands on the way to a place is a directory. -/
theorem isDirectoryAt_of_way (hway : t.wayError? place = none) (h : q <+: place) (hne : q ≠ place) :
    t.isDirectoryAt q = true := by
  by_cases hnil : q = []
  · rw [hnil]
    exact t.isDirectoryAt_nil
  · exact wayError?_eq_none.mp hway q (mem_ancestors h hnil hne)

theorem Proper.isDirectoryAt_of_prefix (h : t.Proper) (hplace : t.isDirectoryAt place = true)
    (hbelow : q <+: place) : t.isDirectoryAt q = true := by
  by_cases hne : q = place
  · rw [hne]
    exact hplace
  · rcases Bool.or_eq_true _ _ ▸ hplace with hnil | hmem
    · rw [List.isEmpty_iff.mp hnil] at hbelow
      rw [List.prefix_nil.mp hbelow]
      exact t.isDirectoryAt_nil
    · exact isDirectoryAt_of_way (h.directories place (List.contains_iff_mem.mp hmem)) hbelow hne

/-- No place holds a file and a directory. -/
theorem Proper.isDirectoryAt_of_file (h : t.Proper) (hf : Table.get? t.files place = some f) :
    t.isDirectoryAt place = false :=
  (h.files place (Table.mem_keys_of_get? hf)).1

theorem Proper.up_not_mem (h : t.Proper)
    (hplace : place ∈ t.directories ∨ place ∈ Table.keys t.files) : up ∉ place := fun hup =>
  (h.names place (List.mem_append.mpr hplace) up hup).1 rfl

theorem Proper.up_not_mem_directory (h : t.Proper) (hplace : t.isDirectoryAt place = true) :
    up ∉ place := by
  rcases Bool.or_eq_true _ _ ▸ hplace with hnil | hmem
  · rw [List.isEmpty_iff.mp hnil]
    exact List.not_mem_nil
  · exact h.up_not_mem (.inl (List.contains_iff_mem.mp hmem))

theorem Proper.isName_of_file (h : t.Proper) (hf : Table.get? t.files place = some f)
    (hname : name ∈ place) : IsName name :=
  h.names place (List.mem_append_right _ (Table.mem_keys_of_get? hf)) name hname

/-! ## Paths below a directory -/

theorem place_append_of_ok (hplace : t.place p = .ok place) (hnames : up ∉ names) :
    t.place (p ++ names) = .ok (place ++ names) :=
  (place_append hnames).mpr ⟨place, hplace, rfl⟩

theorem isDirectory_eq_true :
    t.isDirectory p = true ↔ ∃ place, t.place p = .ok place ∧ t.isDirectoryAt place = true := by
  unfold isDirectory
  cases t.place p <;> simp

/-- The directories that a path leads through. -/
theorem Proper.isDirectory_of_append (h : t.Proper) (hnames : up ∉ names)
    (hdir : t.isDirectory (p ++ names) = true) : t.isDirectory p = true := by
  obtain ⟨q, hq, hat⟩ := (isDirectory_eq_true).mp hdir
  obtain ⟨place, hplace, rfl⟩ := (place_append hnames).mp hq
  have hway := h.isDirectoryAt_of_prefix hat (List.prefix_append place names)
  exact (isDirectory_eq_true).mpr ⟨place, hplace, hway⟩

theorem file?_eq_some :
    t.file? p = some f ↔ ∃ place, t.place p = .ok place ∧ Table.get? t.files place = some f := by
  unfold file?
  cases t.place p <;> simp

theorem file?_append (hnames : up ∉ names) :
    t.file? (p ++ names) = some f ↔
      ∃ place, t.place p = .ok place ∧ Table.get? t.files (place ++ names) = some f := by
  rw [file?_eq_some]
  constructor
  · rintro ⟨q, hq, hget⟩
    obtain ⟨place, hplace, rfl⟩ := (place_append hnames).mp hq
    exact ⟨place, hplace, hget⟩
  · rintro ⟨place, hplace, hget⟩
    exact ⟨place ++ names, place_append_of_ok hplace hnames, hget⟩

/-- The path from a directory to a file has a name. -/
theorem Proper.ne_nil_of_file (h : t.Proper) (hdir : t.isDirectory p = true) (hnames : up ∉ names)
    (hfile : t.file? (p ++ names) = some f) : names ≠ [] := by
  rintro rfl
  obtain ⟨place, hplace, hdir⟩ := (isDirectory_eq_true).mp hdir
  obtain ⟨place', hplace', hget⟩ := (file?_append hnames).mp hfile
  obtain rfl := Except.ok.inj (hplace.symm.trans hplace')
  rw [List.append_nil] at hget
  rw [h.isDirectoryAt_of_file hget] at hdir
  cases hdir

theorem name_append (p : FilePath) (h : names ≠ []) :
    FilePath.name (p ++ names) = FilePath.name names := by
  rw [FilePath.name, FilePath.name, List.getLast?_append, List.getLast?_eq_some_getLast h,
    Option.some_or]

theorem mem_childrenOf {places : List FilePath} :
    name ∈ childrenOf place places ↔ place ++ [name] ∈ places := by
  unfold childrenOf
  rw [List.mem_filterMap]
  constructor
  · rintro ⟨q, hq, hfound⟩
    obtain ⟨hcond, hlast⟩ := Option.ite_none_right_eq_some.mp hfound
    rw [Bool.and_eq_true, List.isPrefixOf_iff_prefix, beq_iff_eq] at hcond
    obtain ⟨⟨rest, rfl⟩, hlength⟩ := hcond
    rw [List.length_append, Nat.add_left_cancel_iff] at hlength
    obtain ⟨last, rfl⟩ := List.length_eq_one_iff.mp hlength
    rw [List.getLast?_concat] at hlast
    rwa [← Option.some.inj hlast]
  · intro h
    refine ⟨place ++ [name], h, ?_⟩
    rw [List.getLast?_concat, if_pos]
    simp

/-- The directories from a directory on are the paths on which directories follow it. -/
theorem mem_directoriesFrom (hplace : t.place p = .ok place) (hdir : t.isDirectoryAt place = true) :
    q ∈ t.directoriesFrom p ↔ ∃ names, q = p ++ names ∧ t.isDirectoryAt (place ++ names) = true := by
  unfold directoriesFrom
  rw [hplace]
  simp only [List.mem_cons, List.mem_filterMap, Option.ite_none_right_eq_some, Bool.and_eq_true,
    List.isPrefixOf_iff_prefix, bne_iff_ne, Option.some.injEq]
  constructor
  · rintro (rfl | ⟨r, hr, ⟨⟨names, rfl⟩, -⟩, rfl⟩)
    · exact ⟨[], (List.append_nil _).symm, by rwa [List.append_nil]⟩
    · refine ⟨names, by rw [List.drop_left], ?_⟩
      simp [isDirectoryAt, hr]
  · rintro ⟨names, rfl, hnames⟩
    by_cases hnil : names = []
    · exact .inl (by rw [hnil, List.append_nil])
    · refine .inr ⟨place ++ names, ?_, ⟨List.prefix_append _ _, ?_⟩, by rw [List.drop_left]⟩
      · simpa [isDirectoryAt, hnil] using hnames
      · simpa using hnil

theorem mem_namesIn (hplace : t.place p = .ok place) :
    name ∈ t.namesIn p true ↔
      place ++ [name] ∈ t.directories ∨ place ++ [name] ∈ Table.keys t.files := by
  simp only [namesIn, directoriesIn, filesIn, hplace, if_true, List.mem_append, mem_childrenOf]

/-! ## What is found -/

variable {items : List Item}

/-- A search for names finds the files below a directory whose names match. -/
theorem Proper.mem_search_file (h : t.Proper) (hdir : t.isDirectory p = true) :
    q ∈ t.search [.everywhere, .matching items] p ∧ t.file? q = some f ↔
      ∃ names, up ∉ names ∧ q = p ++ names ∧ t.file? q = some f ∧
        accepts items q.name.toList = true := by
  obtain ⟨place, hplace, hdir⟩ := (isDirectory_eq_true).mp hdir
  constructor
  · rintro ⟨hq, hf⟩
    simp only [search, List.mem_flatMap, List.mem_filter, List.mem_singleton] at hq
    obtain ⟨d, hd, name, ⟨hname, haccepts⟩, rfl⟩ := hq
    obtain ⟨names, rfl, hnames⟩ := (mem_directoriesFrom hplace hdir).mp hd
    have hup : up ∉ names := fun hmem =>
      h.up_not_mem_directory hnames (List.mem_append_right _ hmem)
    have hentry := (mem_namesIn (place_append_of_ok hplace hup)).mp hname
    have hup' : up ∉ names ++ [name] := fun hmem =>
      h.up_not_mem hentry (by rw [List.append_assoc]; exact List.mem_append_right _ hmem)
    refine ⟨names ++ [name], hup', List.append_assoc _ _ _, hf, ?_⟩
    rwa [name_append _ (List.cons_ne_nil name [])]
  · rintro ⟨names, hup, rfl, hf, haccepts⟩
    refine ⟨?_, hf⟩
    have hnil := h.ne_nil_of_file ((isDirectory_eq_true).mpr ⟨place, hplace, hdir⟩) hup hf
    obtain ⟨dir, name, rfl⟩ : ∃ dir name, names = dir ++ [name] :=
      ⟨_, _, (List.dropLast_concat_getLast hnil).symm⟩
    obtain ⟨place', hplace', hget⟩ := (file?_append hup).mp hf
    obtain rfl := Except.ok.inj (hplace.symm.trans hplace')
    have hup' : up ∉ dir := fun hmem => hup (List.mem_append_left _ hmem)
    rw [← List.append_assoc] at hget haccepts ⊢
    rw [name_append _ (List.cons_ne_nil name [])] at haccepts
    have hkey := Table.mem_keys_of_get? hget
    -- The file itself shows that there are directories all the way to it.
    have hway : t.isDirectoryAt (place ++ dir) = true :=
      isDirectoryAt_of_way (h.files _ hkey).2 (List.prefix_append _ _) (by simp)
    simp only [search, List.mem_flatMap, List.mem_filter, List.mem_singleton]
    exact ⟨p ++ dir, (mem_directoriesFrom hplace hdir).mpr ⟨dir, rfl, hway⟩, name,
      ⟨(mem_namesIn (place_append_of_ok hplace hup')).mpr (.inr hkey), haccepts⟩, rfl⟩

end FileTree
end PubspecTidy
