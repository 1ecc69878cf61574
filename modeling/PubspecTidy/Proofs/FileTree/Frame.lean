import PubspecTidy.FileTree
import PubspecTidy.Proofs.Outcome

/-!
# What an operation on a tree changes

A file stands in directories that exist, and no directory stands in its place; every operation on
a tree keeps that. Main statements: a write can be read back, and where a path leads to and what the
other places hold is as before.
-/
namespace PubspecTidy.FileTree

variable {t t' t'' : FileTree} {p q : FilePath}

/-! ## Where a path leads to -/

theorem isDirectoryAt_congr (h : t'.directories = t.directories) (place : FilePath) :
    t'.isDirectoryAt place = t.isDirectoryAt place := by
  rw [isDirectoryAt, isDirectoryAt, h]

theorem placeFrom_append (t : FileTree) (place : FilePath) (names more : List String) :
    t.placeFrom place (names ++ more) =
      t.placeFrom place names >>= fun place => t.placeFrom place more := by
  induction names generalizing place with
  | nil => rfl
  | cons name names ih =>
    simp only [List.cons_append, placeFrom, ih]
    split
    · split
      · rfl
      · split <;> rfl
    · rfl

theorem isDirectoryAt_mono (h : t.directories ⊆ t'.directories) {place : FilePath}
    (hplace : t.isDirectoryAt place = true) : t'.isDirectoryAt place = true := by
  simp only [isDirectoryAt, Bool.or_eq_true, List.contains_iff_mem] at hplace ⊢
  exact hplace.imp_right fun hmem => h hmem

/-- More directories, and whatever files, do not matter for where a path leads to. -/
theorem placeFrom_mono (h : t.directories ⊆ t'.directories) {place : FilePath}
    {names : List String} (hp : t.placeFrom place names = .ok q) :
    t'.placeFrom place names = .ok q := by
  induction names generalizing place with
  | nil => exact hp
  | cons name names ih =>
    simp only [placeFrom] at hp ⊢
    split at hp
    · rw [if_pos (by assumption)]
      split at hp
      · cases hp
      · rw [if_neg (by assumption)]
        split at hp
        · rename_i hplace
          rw [if_pos (isDirectoryAt_mono h hplace)]
          exact ih hp
        · cases hp
    · rw [if_neg (by assumption)]
      exact ih hp

theorem place_congr (h : t'.directories = t.directories) :
    t'.place p = .ok q ↔ t.place p = .ok q :=
  ⟨placeFrom_mono fun _ hmem => h ▸ hmem, placeFrom_mono fun _ hmem => h ▸ hmem⟩

/-- Names that never lead up lead on from the place of the path before them. -/
theorem place_append {names : List String} (hnames : up ∉ names) :
    t.place (p ++ names) = .ok q ↔ ∃ d, t.place p = .ok d ∧ q = d ++ names := by
  unfold place
  rw [placeFrom_append, bind_eq_ok]
  refine exists_congr fun d => and_congr_right fun _ => ?_
  rw [placeFrom_eq_append t d hnames, Except.ok.injEq]
  exact eq_comm

/-- A file lies in the place of its directory. -/
theorem place_append_name {dir : FilePath} {name : String} (hname : name ≠ up) :
    t.place (dir ++ [name]) = .ok q ↔ ∃ d, t.place dir = .ok d ∧ q = d ++ [name] :=
  place_append fun hmem => hname (List.mem_singleton.mp hmem).symm

/-! ## Trees in which every file can be reached -/

/-- No directory stands in a place, and those on the way to it exist. -/
def IsOpen (t : FileTree) (place : FilePath) : Prop :=
  t.isDirectoryAt place = false ∧ t.wayError? place = none

instance (t : FileTree) (place : FilePath) : Decidable (t.IsOpen place) :=
  inferInstanceAs (Decidable (_ ∧ _))

/-- Every file stands in directories that exist. -/
def WellFormed (t : FileTree) : Prop := ∀ place ∈ Table.keys t.files, t.IsOpen place

instance (t : FileTree) : Decidable t.WellFormed :=
  inferInstanceAs (Decidable (∀ place ∈ Table.keys t.files, t.IsOpen place))

theorem wayError?_eq_none {place : FilePath} :
    t.wayError? place = none ↔ ∀ q ∈ ancestors place, t.isDirectoryAt q = true := by
  unfold wayError?
  cases hfind : (ancestors place).find? fun q => !t.isDirectoryAt q with
  | none => simpa using hfind
  | some q =>
    have hq := List.find?_some hfind
    have hmem := List.mem_of_find?_eq_some hfind
    refine ⟨fun h => by simp at h, fun h => ?_⟩
    rw [h q hmem] at hq
    cases hq

theorem IsOpen.congr (h : t'.directories = t.directories) (hq : t.IsOpen q) : t'.IsOpen q := by
  refine ⟨(isDirectoryAt_congr h q).trans hq.1, wayError?_eq_none.mpr fun r hr => ?_⟩
  rw [isDirectoryAt_congr h]
  exact wayError?_eq_none.mp hq.2 r hr

theorem wellFormed_empty (location : String) : (empty location).WellFormed := by
  intro place hplace
  cases hplace

/-! ## Reading and writing -/

theorem read_eq_ok {bytes : ByteArray} :
    t.read p = .ok bytes ↔
      ∃ place f, t.place p = .ok place ∧ Table.get? t.files place = some f ∧ f.bytes = bytes := by
  unfold read
  rw [bind_eq_ok]
  refine exists_congr fun place => ?_
  cases Table.get? t.files place with
  | none =>
    refine ⟨fun ⟨_, h⟩ => ?_, fun ⟨f, _, hf, _⟩ => by cases hf⟩
    dsimp only at h
    split at h <;> cases h
  | some f =>
    refine ⟨fun ⟨hplace, h⟩ => ⟨f, hplace, rfl, Except.ok.inj h⟩, ?_⟩
    rintro ⟨g, hplace, hg, rfl⟩
    cases hg
    exact ⟨hplace, rfl⟩

theorem isFile_eq_true :
    t.isFile p = true ↔ ∃ place f, t.place p = .ok place ∧ Table.get? t.files place = some f := by
  unfold isFile
  cases t.place p with
  | error e => simp
  | ok place => simp [isFileAt, Table.has, Option.isSome_iff_exists]

theorem isFile_of_read {bytes : ByteArray} (h : t.read p = .ok bytes) : t.isFile p = true := by
  obtain ⟨place, f, hplace, hf, -⟩ := (read_eq_ok).mp h
  exact (isFile_eq_true).mpr ⟨place, f, hplace, hf⟩

theorem write_eq_ok {bytes : ByteArray} {now : Int} :
    t.write p bytes now = .ok t' ↔ ∃ place, t.place p = .ok place ∧ t.IsOpen place ∧
      t' = { t with files := Table.put t.files place ⟨bytes, now⟩ } := by
  unfold write
  rw [bind_eq_ok]
  refine exists_congr fun place => and_congr_right fun _ => ?_
  unfold IsOpen
  cases t.isDirectoryAt place with
  | true => simp
  | false =>
    cases t.wayError? place with
    | none => simp [eq_comm]
    | some e => simp

/-- A place that is open can be written. -/
theorem exists_write (hplace : t.place p = .ok q) (hq : t.IsOpen q) (bytes : ByteArray)
    (now : Int) : ∃ t', t.write p bytes now = .ok t' :=
  ⟨_, (write_eq_ok).mpr ⟨q, hplace, hq, rfl⟩⟩

theorem directories_write {bytes : ByteArray} {now : Int} (h : t.write p bytes now = .ok t') :
    t'.directories = t.directories := by
  obtain ⟨place, -, -, rfl⟩ := (write_eq_ok).mp h
  rfl

theorem read_write {bytes : ByteArray} {now : Int} (h : t.write p bytes now = .ok t') :
    t'.read p = .ok bytes := by
  obtain ⟨place, hplace, -, ht'⟩ := (write_eq_ok).mp h
  refine (read_eq_ok).mpr ⟨place, ⟨bytes, now⟩, (place_congr (directories_write h)).mpr hplace, ?_, rfl⟩
  rw [ht', Table.get?_put, if_pos rfl]

theorem copy_eq_ok {now : Int} :
    t.copy p q now = .ok t' ↔ ∃ bytes, t.read p = .ok bytes ∧ t.write q bytes now = .ok t' :=
  bind_eq_ok

theorem delete_eq_ok :
    t.delete p = .ok t' ↔ ∃ place, t.place p = .ok place ∧ t.isFileAt place = true ∧
      t' = { t with files := Table.erase t.files place } := by
  unfold delete
  rw [bind_eq_ok]
  refine exists_congr fun place => and_congr_right fun _ => ?_
  cases t.isFileAt place with
  | true => simp [eq_comm]
  | false => cases t.isDirectoryAt place <;> simp

theorem directories_delete (h : t.delete p = .ok t') : t'.directories = t.directories := by
  obtain ⟨place, -, -, rfl⟩ := (delete_eq_ok).mp h
  rfl

theorem isFileAt_delete (h : t.delete p = .ok t') (hq : t'.isFileAt q = true) :
    t.isFileAt q = true := by
  obtain ⟨place, -, -, ht'⟩ := (delete_eq_ok).mp h
  have hget := Table.get?_erase t.files place q
  rw [isFileAt, Table.has, ht', hget] at hq
  split at hq
  · cases hq
  · exact hq

theorem isFile_delete (h : t.delete p = .ok t') : t'.isFile p = false := by
  obtain ⟨place, hplace, -, ht'⟩ := (delete_eq_ok).mp h
  have hplace' := (place_congr (directories_delete h)).mpr hplace
  have hget := Table.get?_erase t.files place place
  rw [if_pos rfl] at hget
  unfold isFile
  rw [hplace']
  dsimp only
  rw [isFileAt, Table.has, ht', hget]
  rfl

/-- A file that is there can be deleted. -/
theorem isFile_of_delete {e : FileError} (h : t.delete p = .error e) : t.isFile p = false := by
  unfold isFile
  cases hplace : t.place p with
  | error e' => rfl
  | ok place =>
    cases hfile : t.isFileAt place with
    | false => exact hfile
    | true =>
      have hdelete := (delete_eq_ok).mpr ⟨place, hplace, hfile, rfl⟩
      rw [h] at hdelete
      cases hdelete

/-! ### What stays well-formed -/

theorem WellFormed.isOpen_of_read (h : t.WellFormed) {bytes : ByteArray}
    (hread : t.read p = .ok bytes) : ∃ place, t.place p = .ok place ∧ t.IsOpen place := by
  obtain ⟨place, f, hplace, hf, -⟩ := (read_eq_ok).mp hread
  exact ⟨place, hplace, h place (Table.mem_keys_of_get? hf)⟩

theorem WellFormed.write (h : t.WellFormed) {bytes : ByteArray} {now : Int}
    (hwrite : t.write p bytes now = .ok t') : t'.WellFormed := by
  obtain ⟨place, -, hopen, ht'⟩ := (write_eq_ok).mp hwrite
  intro q hq
  refine IsOpen.congr (directories_write hwrite) ?_
  rw [ht', Table.keys_put] at hq
  split at hq
  · exact h q hq
  · rcases List.mem_append.mp hq with hq | hq
    · exact h q hq
    · rw [List.mem_singleton.mp hq]
      exact hopen

theorem WellFormed.copy (h : t.WellFormed) {now : Int} (hcopy : t.copy p q now = .ok t') :
    t'.WellFormed := by
  obtain ⟨bytes, -, hwrite⟩ := (copy_eq_ok).mp hcopy
  exact h.write hwrite

theorem WellFormed.delete (h : t.WellFormed) (hdelete : t.delete p = .ok t') : t'.WellFormed := by
  obtain ⟨place, -, -, ht'⟩ := (delete_eq_ok).mp hdelete
  intro q hq
  rw [ht'] at hq
  obtain ⟨e, he, rfl⟩ := List.mem_map.mp hq
  refine IsOpen.congr (directories_delete hdelete) ?_
  exact h e.1 (List.mem_map_of_mem (List.mem_filter.mp he).1)

theorem WellFormed.makeDirectoryAt (h : t.WellFormed) {place : FilePath}
    (hmake : t.makeDirectoryAt place = .ok t') : t'.WellFormed := by
  unfold FileTree.makeDirectoryAt at hmake
  split at hmake
  · cases hmake
    exact h
  split at hmake
  · cases hmake
  rename_i hfile
  cases hmake
  intro q hq
  have hne : q ≠ place := by
    rintro rfl
    cases hget : Table.get? t.files q with
    | none => exact (Table.get?_eq_none_iff t.files q).mp hget hq
    | some f => exact hfile (by simp [isFileAt, Table.has, hget])
  obtain ⟨hdirectory, hway⟩ := h q hq
  have hstays (r : FilePath) (hr : t.isDirectoryAt r = true) :
      ({ t with directories := t.directories ++ [place] } : FileTree).isDirectoryAt r = true :=
    isDirectoryAt_mono (List.subset_append_left _ _) hr
  refine ⟨?_, wayError?_eq_none.mpr fun r hr => hstays r (wayError?_eq_none.mp hway r hr)⟩
  simpa [isDirectoryAt, hne] using hdirectory

theorem WellFormed.makeDirectory (h : t.WellFormed) (hmake : t.makeDirectory p = .ok t') :
    t'.WellFormed := by
  unfold FileTree.makeDirectory at hmake
  generalize ([] : FilePath) = place at hmake
  induction p generalizing t place with
  | nil =>
    cases hmake
    exact h
  | cons name names ih =>
    obtain ⟨place', -, hmake⟩ := bind_eq_ok.mp hmake
    obtain ⟨t₁, hmake₁, hmake⟩ := bind_eq_ok.mp hmake
    exact ih (h.makeDirectoryAt hmake₁) place' hmake

/-! ## Making directories -/

theorem directories_makeDirectoryAt {place : FilePath} (h : t.makeDirectoryAt place = .ok t') :
    t.directories ⊆ t'.directories ∧ t'.isDirectoryAt place = true := by
  unfold makeDirectoryAt at h
  split at h
  · rename_i hplace
    cases h
    exact ⟨List.Subset.refl _, hplace⟩
  · split at h
    · cases h
    · cases h
      exact ⟨List.subset_append_left _ _, by simp [isDirectoryAt]⟩

theorem directories_makeDirectoriesFrom {place : FilePath} {names : List String}
    (h : t.makeDirectoriesFrom place names = .ok t') : t.directories ⊆ t'.directories := by
  induction names generalizing t place with
  | nil =>
    cases h
    exact List.Subset.refl _
  | cons name names ih =>
    obtain ⟨place', -, h⟩ := bind_eq_ok.mp h
    obtain ⟨t₁, hmake, h⟩ := bind_eq_ok.mp h
    exact List.Subset.trans (directories_makeDirectoryAt hmake).1 (ih h)

theorem makeDirectoriesFrom_again {place : FilePath} {names : List String}
    (h : t.makeDirectoriesFrom place names = .ok t') (hsub : t'.directories ⊆ t''.directories) :
    t''.makeDirectoriesFrom place names = .ok t'' := by
  induction names generalizing t place with
  | nil => rfl
  | cons name names ih =>
    obtain ⟨place', hplace, h⟩ := bind_eq_ok.mp h
    obtain ⟨t₁, hmake, h⟩ := bind_eq_ok.mp h
    obtain ⟨hsub₁, hplace'⟩ := directories_makeDirectoryAt hmake
    have hsub₂ := List.Subset.trans (directories_makeDirectoriesFrom h) hsub
    refine bind_eq_ok.mpr ⟨place', placeFrom_mono (List.Subset.trans hsub₁ hsub₂) hplace, ?_⟩
    exact bind_eq_ok.mpr ⟨t'', if_pos (isDirectoryAt_mono hsub₂ hplace'), ih h⟩

/-- A directory that was made need not be made again, whatever files are written or deleted. -/
theorem makeDirectory_again (h : t.makeDirectory p = .ok t')
    (hdirectories : t''.directories = t'.directories) : t''.makeDirectory p = .ok t'' :=
  makeDirectoriesFrom_again h fun _ hmem => hdirectories ▸ hmem

/-- The same directories can be made where there are no more files. -/
theorem exists_makeDirectoriesFrom {u : FileTree} (hdirectories : u.directories = t.directories)
    (hfiles : ∀ q, u.isFileAt q = true → t.isFileAt q = true) {place : FilePath}
    {names : List String} (h : t.makeDirectoriesFrom place names = .ok t') :
    ∃ u', u.makeDirectoriesFrom place names = .ok u' ∧ u'.directories = t'.directories := by
  induction names generalizing t u place with
  | nil =>
    cases h
    exact ⟨u, rfl, hdirectories⟩
  | cons name names ih =>
    obtain ⟨place', hplace, h⟩ := bind_eq_ok.mp h
    obtain ⟨t₁, hmake, h⟩ := bind_eq_ok.mp h
    have hplace' : u.placeFrom place [name] = .ok place' :=
      placeFrom_mono (fun _ hmem => hdirectories ▸ hmem) hplace
    obtain ⟨u₁, hmake', hdirectories₁, hfiles₁⟩ : ∃ u₁, u.makeDirectoryAt place' = .ok u₁ ∧
        u₁.directories = t₁.directories ∧ ∀ q, u₁.isFileAt q = true → t₁.isFileAt q = true := by
      unfold makeDirectoryAt at hmake ⊢
      rw [isDirectoryAt_congr hdirectories]
      split at hmake
      · rename_i hdirectory
        cases hmake
        exact ⟨u, if_pos hdirectory, hdirectories, hfiles⟩
      · rename_i hdirectory
        split at hmake
        · cases hmake
        · rename_i hfile
          cases hmake
          refine ⟨_, (if_neg hdirectory).trans (if_neg fun h => hfile (hfiles _ h)), ?_, hfiles⟩
          exact congrArg (· ++ [place']) hdirectories
    obtain ⟨u', hmake'', hu'⟩ := ih hdirectories₁ hfiles₁ h
    exact ⟨u', bind_eq_ok.mpr ⟨place', hplace', bind_eq_ok.mpr ⟨u₁, hmake', hmake''⟩⟩, hu'⟩

/-! ## What stays as it was -/

/-- The trees differ in what the places of some paths hold, at most. -/
structure SameExcept (paths : List FilePath) (t t' : FileTree) : Prop where
  directories : t'.directories = t.directories
  location : t'.location = t.location
  files : ∀ q, (∀ p ∈ paths, t.place p ≠ .ok q) → Table.get? t'.files q = Table.get? t.files q

variable {paths paths' : List FilePath}

theorem SameExcept.refl (paths : List FilePath) (t : FileTree) : t.SameExcept paths t :=
  ⟨rfl, rfl, fun _ _ => rfl⟩

theorem SameExcept.mono (h : t.SameExcept paths t') (hsub : paths ⊆ paths') :
    t.SameExcept paths' t' :=
  ⟨h.directories, h.location, fun q hq => h.files q fun p hp => hq p (hsub hp)⟩

theorem SameExcept.trans (h : t.SameExcept paths t') (h' : t'.SameExcept paths t'') :
    t.SameExcept paths t'' where
  directories := h'.directories.trans h.directories
  location := h'.location.trans h.location
  files q hq := by
    have hq' : ∀ p ∈ paths, t'.place p ≠ .ok q := fun p hp hplace =>
      hq p hp ((place_congr h.directories).mp hplace)
    rw [h'.files q hq', h.files q hq]

theorem sameExcept_write {bytes : ByteArray} {now : Int} (h : t.write p bytes now = .ok t') :
    t.SameExcept [p] t' := by
  obtain ⟨place, hplace, -, rfl⟩ := (write_eq_ok).mp h
  refine ⟨rfl, rfl, fun q hq => ?_⟩
  have hne : place ≠ q := by
    rintro rfl
    exact hq p List.mem_cons_self hplace
  rw [Table.get?_put, if_neg hne]

/-- A path that leads to none of the places is read as before. -/
theorem SameExcept.read (h : t.SameExcept paths t') {bytes : ByteArray}
    (hread : t.read p = .ok bytes)
    (hp : ∀ q, t.place p = .ok q → ∀ p' ∈ paths, t.place p' ≠ .ok q) :
    t'.read p = .ok bytes := by
  obtain ⟨place, f, hplace, hf, hbytes⟩ := (read_eq_ok).mp hread
  refine (read_eq_ok).mpr ⟨place, f, (place_congr h.directories).mpr hplace, ?_, hbytes⟩
  rw [h.files place (hp place hplace), hf]

end PubspecTidy.FileTree
