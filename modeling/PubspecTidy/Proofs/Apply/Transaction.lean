import PubspecTidy.Apply
import PubspecTidy.Proofs.FileTree.Frame

/-!
# An attempt leaves the manifest safe

Whatever becomes of the write, an attempt to make changes either keeps the manifest as it was, or
leaves a copy of what it was beside it. Main statement: that, for every way in which the write can
come out, and that no other file changes.
-/
namespace PubspecTidy.Apply

variable {t t' : FileTree} {dir : FilePath} {bytes : ByteArray} {now : Int}

/-- The manifest of a directory. -/
def manifestIn (dir : FilePath) : FilePath := dir ++ [manifestName]

/-- The file that the backup of the manifest is kept in. -/
def backupName : String := manifestName ++ Backup.ending

theorem path_manifestIn (dir : FilePath) : Backup.path (manifestIn dir) = dir ++ [backupName] := by
  simp [Backup.path, FilePath.sibling, FilePath.parent, FilePath.name, manifestIn, backupName]

theorem place_manifestIn {q : FilePath} :
    t.place (manifestIn dir) = .ok q ↔ ∃ d, t.place dir = .ok d ∧ q = d ++ [manifestName] :=
  FileTree.place_append_name (by decide)

theorem place_backup {q : FilePath} :
    t.place (Backup.path (manifestIn dir)) = .ok q ↔
      ∃ d, t.place dir = .ok d ∧ q = d ++ [backupName] := by
  rw [path_manifestIn]
  exact FileTree.place_append_name (by decide)

/-- The manifest and its backup never share a place. -/
theorem place_manifestIn_ne_place_backup {q : FilePath} (h : t.place (manifestIn dir) = .ok q) :
    t.place (Backup.path (manifestIn dir)) ≠ .ok q := by
  intro h'
  obtain ⟨d, hd, rfl⟩ := (place_manifestIn).mp h
  obtain ⟨d', hd', heq⟩ := (place_backup).mp h'
  have hname := congrArg List.getLast? heq
  rw [List.getLast?_concat, List.getLast?_concat] at hname
  exact absurd hname (by decide)

/-! ## Reading the manifest -/

theorem readManifest_of_read {p : FilePath} (hread : t.read p = .ok bytes) :
    readManifest t p = (decodeText? bytes).elim (.error .notText) .ok := by
  unfold readManifest
  rw [FileTree.isFile_of_read hread, hread, if_neg (by simp)]
  dsimp only
  cases decodeText? bytes <;> rfl

/-! ## Backups -/

/-- The manifest of a directory can be written. -/
def Writable (dir : FilePath) (t : FileTree) : Prop :=
  ∃ q, t.place (manifestIn dir) = .ok q ∧ t.IsOpen q

theorem Writable.congr (h : t'.directories = t.directories) (hw : Writable dir t) :
    Writable dir t' := by
  obtain ⟨q, hplace, hopen⟩ := hw
  exact ⟨q, (FileTree.place_congr h).mpr hplace, hopen.congr h⟩

/-- A tree with a backup of its manifest. -/
structure BackedUp (dir : FilePath) (bytes : ByteArray) (t t' : FileTree) : Prop where
  manifest : t'.read (manifestIn dir) = .ok bytes
  backup : t'.read (Backup.path (manifestIn dir)) = .ok bytes
  same : t.SameExcept [Backup.path (manifestIn dir)] t'

/-- A backup is made, or else nothing has changed. -/
theorem create_cases (hread : t.read (manifestIn dir) = .ok bytes) (now : Int) :
    Backup.create t (manifestIn dir) now = (false, t) ∨
      ∃ t', Backup.create t (manifestIn dir) now = (true, t') ∧ BackedUp dir bytes t t' := by
  unfold Backup.create
  rw [if_pos (FileTree.isFile_of_read hread)]
  cases hcopy : t.copy (manifestIn dir) (Backup.path (manifestIn dir)) now with
  | error e => exact .inl rfl
  | ok t' =>
    obtain ⟨bytes', hread', hwrite⟩ := FileTree.copy_eq_ok.mp hcopy
    obtain rfl : bytes' = bytes := Except.ok.inj (hread'.symm.trans hread)
    have hsame := FileTree.sameExcept_write hwrite
    refine .inr ⟨t', rfl, hsame.read hread fun q hq p hp => ?_, FileTree.read_write hwrite, hsame⟩
    rw [List.mem_singleton.mp hp]
    exact place_manifestIn_ne_place_backup hq

/-- A backup outlives whatever is done to the manifest. -/
theorem read_backup (hbackup : t.read (Backup.path (manifestIn dir)) = .ok bytes)
    (h : t.SameExcept [manifestIn dir] t') :
    t'.read (Backup.path (manifestIn dir)) = .ok bytes := by
  refine h.read hbackup fun q hq p hp => ?_
  rw [List.mem_singleton.mp hp]
  exact fun hplace => place_manifestIn_ne_place_backup hplace hq

/-- Where a manifest can be written, its backup can be put back. -/
theorem restore_eq_true (hw : Writable dir t)
    (hbackup : t.read (Backup.path (manifestIn dir)) = .ok bytes) (now : Int) :
    ∃ t', Backup.restore t (manifestIn dir) now = (true, t') ∧
      t'.read (manifestIn dir) = .ok bytes ∧ t.SameExcept [manifestIn dir] t' := by
  obtain ⟨q, hplace, hopen⟩ := hw
  obtain ⟨t', hwrite⟩ := FileTree.exists_write hplace hopen bytes now
  have hcopy := FileTree.copy_eq_ok.mpr ⟨bytes, hbackup, hwrite⟩
  refine ⟨t', ?_, FileTree.read_write hwrite, FileTree.sameExcept_write hwrite⟩
  unfold Backup.restore
  rw [if_pos (FileTree.isFile_of_read hbackup), hcopy]
  rfl

theorem restore_of_lost (hlost : t.isFile (Backup.path (manifestIn dir)) = false) (now : Int) :
    Backup.restore t (manifestIn dir) now = (false, t) := by
  unfold Backup.restore
  rw [if_neg (by simp [hlost])]

/-! ## Writing the manifest -/

/-- How the write of a manifest with a backup can come out. -/
inductive Writes (manifest : FilePath) (t : FileTree) (text : String) :
    Option WriteError × FileTree → Prop
  | written {t' : FileTree} {now : Int} : t.write manifest (encodeText text) now = .ok t' →
      Writes manifest t text (none, t')
  /-- The write fails, whatever the manifest then holds. -/
  | spoilt {t' : FileTree} (message : String) : t.SameExcept [manifest] t' →
      Writes manifest t text (some (.refused message), t')
  /-- The write fails, and the backup is lost. -/
  | lost {t' : FileTree} (message : String) :
      t.SameExcept [manifest, Backup.path manifest] t' →
      t'.isFile (Backup.path manifest) = false →
      Writes manifest t text (some (.refused message), t')

theorem writes_writeManifest {text : String} (h : Text.holdsHalf text.toList = false)
    (manifest : FilePath) (now : Int) (t : FileTree) :
    Writes manifest t text (writeManifest manifest now t text) := by
  unfold writeManifest
  simp only [h, Bool.not_false, if_true]
  cases hwrite : t.write manifest (encodeText text) now with
  | error e => exact .spoilt _ (.refl _ t)
  | ok t' => exact .written hwrite

/-- What a failed write leaves: the backup, or no backup. -/
def Spoilt (manifest : FilePath) (t t' : FileTree) : Prop :=
  t.SameExcept [manifest] t' ∨
    t.SameExcept [manifest, Backup.path manifest] t' ∧ t'.isFile (Backup.path manifest) = false

theorem Spoilt.same {manifest : FilePath} (h : Spoilt manifest t t') :
    t.SameExcept [manifest, Backup.path manifest] t' := by
  rcases h with h | ⟨h, -⟩
  · exact h.mono (by simp)
  · exact h

/-- A manifest that is no text is not touched; any other is left to the write. -/
theorem editFile_cases {manifest : FilePath} {write : Writer} (hread : t.read manifest = .ok bytes)
    (hwrite : ∀ t text, Writes manifest t text (write t text)) (changes : List Manifest.Change) :
    (decodeText? bytes = none ∧ editFile t manifest write changes = (.broken .notText, t)) ∨
    (∃ applied t', editFile t manifest write changes = (.done applied, t') ∧
      t.SameExcept [manifest] t') ∨
    (∃ message t', editFile t manifest write changes = (.failed message, t') ∧
      Spoilt manifest t t') := by
  unfold editFile
  rw [readManifest_of_read hread]
  cases hdecode : decodeText? bytes with
  | none => exact .inl ⟨rfl, rfl⟩
  | some text =>
    refine .inr ?_
    simp only [Option.elim_some]
    split
    · exact .inl ⟨[], t, rfl, .refl _ t⟩
    · generalize (Manifest.Editor.ofText text).apply changes = edited
      have hcases := hwrite t edited.2.text
      generalize write t edited.2.text = result at hcases
      cases hcases with
      | written h => exact .inl ⟨edited.1, _, rfl, FileTree.sameExcept_write h⟩
      | spoilt message h => exact .inr ⟨message, _, rfl, .inl h⟩
      | lost message h hlost => exact .inr ⟨message, _, rfl, .inr ⟨h, hlost⟩⟩

/-! ## A whole attempt -/

/-- What an attempt leaves of a tree whose manifest holds some bytes. -/
structure Safe (manifest : FilePath) (bytes : ByteArray) (t : FileTree)
    (planned : List PlannedChange) (result : Except Fault Outcome × FileTree) : Prop where
  /-- After a failure the manifest is as it was, unless the error says that it could not be put
  back; then the backup is lost. -/
  failed : ∀ o, result.1 = .ok o → o.success = false →
    result.2.read manifest = .ok bytes ∨
      (∃ message, o.error = some message ∧
        Text.endsWith message "backup could NOT be restored" = true) ∧
      result.2.isFile (Backup.path manifest) = false
  /-- After a success the backup holds what the manifest held, and putting it back works. -/
  succeeded : ∀ o, result.1 = .ok o → o.success = true → o.backupCreated = true →
    result.2.read (Backup.path manifest) = .ok bytes ∧
      ∀ later, ∃ t', Backup.restore result.2 manifest later = (true, t') ∧
        t'.read manifest = .ok bytes
  /-- An attempt breaks off only where the manifest is no text, and leaves it alone. -/
  broken : ∀ f, result.1 = .error f → decodeText? bytes = none ∧ result.2.read manifest = .ok bytes
  idle : planned = [] → result.2 = t
  others : t.SameExcept [manifest, Backup.path manifest] result.2

variable {planned : List PlannedChange}

theorem safe_unattempted {manifest : FilePath} (hread : t.read manifest = .ok bytes)
    {o : Outcome} (ho : o.backupCreated = false) : Safe manifest bytes t planned (.ok o, t) where
  failed _ _ _ := .inl hread
  succeeded o' ho' _ hbackup := by
    cases ho'
    rw [ho] at hbackup
    cases hbackup
  broken f hf := by cases hf
  idle _ := rfl
  others := .refl _ t

theorem endsWith_failureText (message : String) :
    Text.endsWith (failureText message false) "backup could NOT be restored" = true := by
  unfold Text.endsWith failureText
  rw [List.isSuffixOf_iff_suffix, String.toList_append]
  exact List.suffix_append _ _

/-- The backup that a failed write has left is put back, and if there is none, the error says so. -/
theorem safe_after_failure {t₁ t₂ : FileTree} (hplanned : planned ≠ []) (hw : Writable dir t₁)
    (h : BackedUp dir bytes t t₁) (hspoilt : Spoilt (manifestIn dir) t₁ t₂) (message : String)
    (now : Int) :
    Safe (manifestIn dir) bytes t planned
      (.ok { success := false
             error := some (failureText message (Backup.restore t₂ (manifestIn dir) now).1)
             backupCreated := true },
        (Backup.restore t₂ (manifestIn dir) now).2) := by
  have hothers := (h.same.mono (List.subset_cons_self (manifestIn dir) _)).trans hspoilt.same
  rcases hspoilt with hsame | ⟨hsame, hlost⟩
  · obtain ⟨t₃, hrestore, hmanifest, hsame'⟩ :=
      restore_eq_true (hw.congr hsame.directories) (read_backup h.backup hsame) now
    rw [hrestore]
    exact {
      failed := fun _ _ _ => .inl hmanifest
      succeeded := fun o ho hdone => by cases ho; cases hdone
      broken := fun f hf => by cases hf
      idle := fun hnil => absurd hnil hplanned
      others := hothers.trans (hsame'.mono (by simp)) }
  · rw [restore_of_lost hlost]
    exact {
      failed := fun o ho _ => by
        cases ho
        exact .inr ⟨⟨_, rfl, endsWith_failureText message⟩, hlost⟩
      succeeded := fun o ho hdone => by cases ho; cases hdone
      broken := fun f hf => by cases hf
      idle := fun hnil => absurd hnil hplanned
      others := hothers }

theorem safe_after_success {t₁ t₂ : FileTree} (hplanned : planned ≠ []) (hw : Writable dir t₁)
    (h : BackedUp dir bytes t t₁) (hsame : t₁.SameExcept [manifestIn dir] t₂) (o : Outcome)
    (ho : o.success = true) : Safe (manifestIn dir) bytes t planned (.ok o, t₂) where
  failed o' ho' hfail := by
    cases ho'
    rw [ho] at hfail
    cases hfail
  succeeded _ _ _ _ := by
    have hbackup := read_backup h.backup hsame
    refine ⟨hbackup, fun later => ?_⟩
    obtain ⟨t₃, hrestore, hmanifest, -⟩ :=
      restore_eq_true (hw.congr hsame.directories) hbackup later
    exact ⟨t₃, hrestore, hmanifest⟩
  broken f hf := by cases hf
  idle hnil := absurd hnil hplanned
  others := (h.same.mono (List.subset_cons_self _ _)).trans (hsame.mono (by simp))

/-- However the write comes out, an attempt on a manifest leaves it safe. -/
theorem run_safe {write : Writer} (ht : t.WellFormed) (hread : t.read (manifestIn dir) = .ok bytes)
    (hwrite : ∀ t text, Writes (manifestIn dir) t text (write t text))
    (planned : List PlannedChange) (now : Int) :
    Safe (manifestIn dir) bytes t planned
      (run ⟨manifestIn dir, manifestIn dir, write, now⟩ t planned) := by
  have hw : Writable dir t := ht.isOpen_of_read hread
  unfold run
  split
  · exact safe_unattempted hread rfl
  rename_i hempty
  have hplanned : planned ≠ [] := fun hnil => hempty (by rw [hnil]; rfl)
  rcases create_cases hread now with hcreate | ⟨t₁, hcreate, hbackedUp⟩
  · rw [hcreate]
    exact safe_unattempted hread rfl
  rw [hcreate]
  dsimp only
  have hw₁ := hw.congr hbackedUp.same.directories
  rcases editFile_cases hbackedUp.manifest hwrite (planned.map (·.change)) with
    ⟨hdecode, hedit⟩ | ⟨applied, t₂, hedit, hsame⟩ | ⟨message, t₂, hedit, hspoilt⟩
  · rw [hedit]
    exact {
      failed := fun o ho => by cases ho
      succeeded := fun o ho => by cases ho
      broken := fun f _ => ⟨hdecode, hbackedUp.manifest⟩
      idle := fun hnil => absurd hnil hplanned
      others := hbackedUp.same.mono (List.subset_cons_self _ _) }
  · rw [hedit]
    exact safe_after_success hplanned hw₁ hbackedUp hsame _ rfl
  · rw [hedit]
    exact safe_after_failure hplanned hw₁ hbackedUp hspoilt message now

/-! ### A disk that fills up -/

/-- A write that leaves a part of a text and fails. -/
def writePart (manifest : FilePath) : Writer := fun t _ =>
  match t.write manifest (encodeText "depend") 0 with
  | .ok t' => (some (.refused "disk full"), t')
  | .error _ => (some (.refused "disk full"), t)

theorem writes_writePart (manifest : FilePath) (t : FileTree) (text : String) :
    Writes manifest t text (writePart manifest t text) := by
  unfold writePart
  split
  · rename_i hwrite
    exact .spoilt _ (FileTree.sameExcept_write hwrite)
  · exact .spoilt _ (.refl _ t)

/-- A project with an old backup. -/
def fullDisk : FileTree where
  files :=
    [(["app", "pubspec.yaml"], ⟨encodeText "dependencies:\n  dio: 1\n  http: 2\n", 1⟩),
     (["app", "pubspec.yaml.bak"], ⟨encodeText "dependencies:\n", 0⟩)]
  directories := [["app"]]
  location := "."

def dioRemoval : PlannedChange :=
  ⟨⟨"dio", .remove, some "1"⟩, "Removed unused dependency: dio", "dio: unused dependency. Remove it?"⟩

theorem run_safe_disk_full :
    fullDisk.WellFormed ∧
    fullDisk.read (manifestIn ["app"]) = .ok (encodeText "dependencies:\n  dio: 1\n  http: 2\n") ∧
    (∀ t text, Writes (manifestIn ["app"]) t text (writePart (manifestIn ["app"]) t text)) ∧
    Safe (manifestIn ["app"]) (encodeText "dependencies:\n  dio: 1\n  http: 2\n") fullDisk [dioRemoval]
      (run ⟨manifestIn ["app"], manifestIn ["app"], writePart (manifestIn ["app"]), 2⟩ fullDisk
        [dioRemoval]) :=
  ⟨by decide, rfl, writes_writePart _,
    run_safe (by decide) rfl (writes_writePart _) [dioRemoval] 2⟩

example :
    (run ⟨manifestIn ["app"], manifestIn ["app"], writePart (manifestIn ["app"]), 2⟩ fullDisk
      [dioRemoval]).1.toOption.bind (·.error) =
    some "Failed to apply changes (disk full) - backup restored" := by decide

end PubspecTidy.Apply
