import PubspecTidy.Proofs.Apply.SecondPass

/-!
# What an attempt reports

The editor says of each change whether it took effect. The report of an attempt picks the planned
changes that equal one with an effect, so a change that was of no use is reported too if it equals
an earlier one that was not. Main statement: the report lists what took effect, in the order of the
plan, together with just those repetitions.
-/
namespace PubspecTidy.Apply

open Manifest (Change Editor)

variable {t : FileTree} {dir : FilePath} {bytes : ByteArray} {text : String}

/-! ## What took effect -/

/-- The planned changes, each with whether the editor says that it took effect. -/
def outcomes (e : Editor) : List PlannedChange → List (PlannedChange × Bool)
  | [] => []
  | p :: ps => (p, (e.perform p.change).1) :: outcomes (e.perform p.change).2 ps

theorem map_fst_outcomes (e : Editor) (planned : List PlannedChange) :
    (outcomes e planned).map (·.1) = planned := by
  induction planned generalizing e with
  | nil => rfl
  | cons p ps ih => rw [outcomes, List.map_cons, ih]

/-- The planned changes that took effect. -/
def effective (e : Editor) (planned : List PlannedChange) : List PlannedChange :=
  ((outcomes e planned).filter (·.2)).map (·.1)

theorem effective_cons (e : Editor) (p : PlannedChange) (ps : List PlannedChange) :
    effective e (p :: ps) =
      if (e.perform p.change).1 then p :: effective (e.perform p.change).2 ps
      else effective (e.perform p.change).2 ps := by
  unfold effective
  rw [outcomes, List.filter_cons]
  cases (e.perform p.change).1 <;> rfl

/-- The editor gives the changes that took effect. -/
theorem apply_fst (e : Editor) (planned : List PlannedChange) :
    (e.apply (planned.map (·.change))).1 = (effective e planned).map (·.change) := by
  induction planned generalizing e with
  | nil => rfl
  | cons p ps ih =>
    rw [effective_cons, List.map_cons, Editor.apply]
    cases hdone : (e.perform p.change).1 <;> simp [hdone, ih]

/-- Whether a planned change equals one that took effect. -/
def isReported (e : Editor) (planned : List PlannedChange) (p : PlannedChange) : Bool :=
  ((effective e planned).map (·.change)).contains p.change

theorem isReported_of_outcome {e : Editor} {planned : List PlannedChange}
    {x : PlannedChange × Bool} (hx : x ∈ outcomes e planned) (hdone : x.2 = true) :
    isReported e planned x.1 = true := by
  rw [isReported, List.contains_iff_mem]
  exact List.mem_map_of_mem (List.mem_map_of_mem (List.mem_filter.mpr ⟨hx, hdone⟩))

/-- The planned changes that were of no use and equal one that took effect. -/
def repeated (e : Editor) (planned : List PlannedChange) : List PlannedChange :=
  ((outcomes e planned).filter fun x => !x.2 && isReported e planned x.1).map (·.1)

/-! ## What is reported -/

section Reported

variable (e : Editor) (planned : List PlannedChange)

theorem filter_isReported :
    planned.filter (isReported e planned) =
      ((outcomes e planned).filter fun x => isReported e planned x.1).map (·.1) := by
  conv_lhs => rw [← map_fst_outcomes e planned, List.filter_map, map_fst_outcomes]
  rfl

/-- What took effect is reported. -/
theorem filter_outcomes :
    ((outcomes e planned).filter fun x => isReported e planned x.1).filter (·.2) =
      (outcomes e planned).filter (·.2) := by
  rw [List.filter_filter]
  refine List.filter_congr fun x hx => ?_
  cases hdone : x.2 with
  | false => rfl
  | true => rw [isReported_of_outcome hx hdone, Bool.and_true]

theorem effective_sublist_reported :
    (effective e planned).Sublist (planned.filter (isReported e planned)) := by
  rw [filter_isReported, effective, ← filter_outcomes]
  exact List.filter_sublist.map _

/-- Everything that is reported took effect or repeats what did. -/
theorem length_reported :
    (planned.filter (isReported e planned)).length =
      (effective e planned).length + (repeated e planned).length := by
  have hsplit := List.length_eq_length_filter_add (l :=
    (outcomes e planned).filter fun x => isReported e planned x.1) (·.2)
  rw [filter_outcomes, List.filter_filter] at hsplit
  rw [filter_isReported, effective, repeated, List.length_map, List.length_map, List.length_map,
    hsplit]

/-- Distinct changes do not repeat each other. -/
theorem repeated_of_nodup (h : (planned.map (·.change)).Nodup) : repeated e planned = [] := by
  rw [repeated, List.map_eq_nil_iff, List.filter_eq_nil_iff]
  intro x hx hrepeated
  rw [Bool.and_eq_true, Bool.not_eq_true', isReported, List.contains_iff_mem, effective] at hrepeated
  obtain ⟨hidle, hmem⟩ := hrepeated
  rw [List.map_map, List.mem_map] at hmem
  obtain ⟨y, hy, heq⟩ := hmem
  obtain ⟨hy, hdone⟩ := List.mem_filter.mp hy
  rw [← map_fst_outcomes e planned, List.map_map] at h
  have hsame : y = x := List.inj_on_of_nodup_map h hy hx heq
  rw [hsame, hidle] at hdone
  cases hdone

end Reported

/-! ## The report of an attempt -/

theorem applied_of_editFile {manifest : FilePath} {write : Writer} {changes applied : List Change}
    {t' : FileTree} (hread : t.read manifest = .ok bytes) (hdecode : decodeText? bytes = some text)
    (h : editFile t manifest write changes = (.done applied, t')) :
    applied = ((Editor.ofText text).apply changes).1 := by
  unfold editFile at h
  rw [readManifest_of_read hread, hdecode] at h
  simp only [Option.elim_some] at h
  split at h
  · rename_i hempty
    rw [List.isEmpty_iff] at hempty
    rw [hempty]
    exact (Edited.done.inj (Prod.mk.inj h).1).symm
  · split at h
    · exact (Edited.done.inj (Prod.mk.inj h).1).symm
    · cases (Prod.mk.inj h).1
    · cases (Prod.mk.inj h).1

/-- What an attempt reports are the planned changes that equal one with an effect. -/
theorem changes_of_run {write : Writer} {planned : List PlannedChange} {now : Int} {o : Outcome}
    (hread : t.read (manifestIn dir) = .ok bytes) (hdecode : decodeText? bytes = some text)
    (hrun : (run ⟨manifestIn dir, manifestIn dir, write, now⟩ t planned).1 = .ok o)
    (hsuccess : o.success = true) :
    o.changes = (planned.filter (isReported (.ofText text) planned)).map (·.description) := by
  unfold run at hrun
  split at hrun
  · rename_i hempty
    rw [List.isEmpty_iff] at hempty
    cases hrun
    rw [hempty]
    rfl
  rcases create_cases hread now with hcreate | ⟨t₁, hcreate, hbackedUp⟩
  · rw [hcreate] at hrun
    cases hrun
    cases hsuccess
  rw [hcreate] at hrun
  dsimp only at hrun
  split at hrun
  · cases hrun
  · cases hrun
    cases hsuccess
  · rename_i applied t₂ hedit
    obtain rfl := applied_of_editFile hbackedUp.manifest hdecode hedit
    cases hrun
    simp only [apply_fst]
    rfl

/-- A successful attempt reports what took effect, in the order of the plan, together with the
changes that were of no use and equal one that was. So the report is exact just if there are none
of these, and it is if the planned changes are distinct. -/
theorem report_of_run {write : Writer} {now : Int} {o : Outcome} (a : Analysis)
    (hread : t.read (manifestIn dir) = .ok bytes) (hdecode : decodeText? bytes = some text)
    (hrun : (run ⟨manifestIn dir, manifestIn dir, write, now⟩ t a.plan).1 = .ok o)
    (hsuccess : o.success = true) :
    ((effective (.ofText text) a.plan).map (·.description)).Sublist o.changes ∧
    o.changes.length =
      (effective (.ofText text) a.plan).length + (repeated (.ofText text) a.plan).length ∧
    (o.changes = (effective (.ofText text) a.plan).map (·.description) ↔
      repeated (.ofText text) a.plan = []) ∧
    ((a.plan.map (·.change)).Nodup →
      o.changes = (effective (.ofText text) a.plan).map (·.description)) := by
  have hsublist := (effective_sublist_reported (.ofText text) a.plan).map (·.description)
  have hlength := length_reported (.ofText text) a.plan
  rw [changes_of_run hread hdecode hrun hsuccess, List.length_map]
  have hexact (hnil : repeated (.ofText text) a.plan = []) :
      (a.plan.filter (isReported (.ofText text) a.plan)).map (·.description) =
        (effective (.ofText text) a.plan).map (·.description) := by
    rw [hnil, List.length_nil, Nat.add_zero] at hlength
    exact (hsublist.eq_of_length (by rw [List.length_map, List.length_map, hlength])).symm
  refine ⟨hsublist, hlength, ⟨fun heq => ?_, hexact⟩, fun h => hexact (repeated_of_nodup _ _ h)⟩
  have heq := congrArg List.length heq
  rw [List.length_map, List.length_map, hlength] at heq
  exact List.eq_nil_of_length_eq_zero (by omega)

/-! ### Two keys of one name -/

def numberedTwice : String := "dependencies:\n  1: any\n  \"1\": any\n"

/-- A project with a number and a quoted digit for names. -/
def numbered : FileTree where
  files := [(["app", "pubspec.yaml"], ⟨encodeText numberedTwice, 0⟩)]
  directories := [["app"]]
  location := "."

/-- What is found in the project: both keys are read as the same name. -/
def foundNumbered : Analysis where
  findings := List.replicate 2 ⟨"1", "any", .dependencies, .unused, {}⟩
  duplicates := []

/-- The editor finds one entry of the name and removes it, and two removals are reported. -/
theorem run_numbered :
    Manifest.readDeclarations numberedTwice =
        .ok ⟨List.replicate 2 ⟨"1", .plain (some "any"), .dependencies⟩, []⟩ ∧
      (run (.usual (manifestIn ["app"]) 1) numbered foundNumbered.plan).1 =
        .ok ⟨true, List.replicate 2 "Removed unused dependency: 1", none, true⟩ ∧
      (effective (.ofText numberedTwice) foundNumbered.plan).length = 1 := by
  decide +kernel

theorem report_of_run_numbered :
    numbered.read (manifestIn ["app"]) = .ok (encodeText numberedTwice) ∧
    decodeText? (encodeText numberedTwice) = some numberedTwice ∧
    (run (.usual (manifestIn ["app"]) 1) numbered foundNumbered.plan).1 =
      .ok ⟨true, List.replicate 2 "Removed unused dependency: 1", none, true⟩ ∧
    ((effective (.ofText numberedTwice) foundNumbered.plan).map (·.description)).Sublist
      (List.replicate 2 "Removed unused dependency: 1") ∧
    2 = (effective (.ofText numberedTwice) foundNumbered.plan).length +
      (repeated (.ofText numberedTwice) foundNumbered.plan).length := by
  have hread : numbered.read (manifestIn ["app"]) = .ok (encodeText numberedTwice) := rfl
  have hdecode := decodeText?_encodeText numberedTwice
  obtain ⟨-, hrun, -⟩ := run_numbered
  obtain ⟨hsublist, hlength, -, -⟩ := report_of_run foundNumbered hread hdecode hrun rfl
  exact ⟨hread, hdecode, hrun, hsublist, hlength⟩

/-- A report can be longer than what took effect, also after the analysis of the project itself. -/
theorem not_all_reports_exact :
    ¬ ∀ (t : FileTree) (dir : FilePath) (roots : List FilePath) (now : Int) (bytes : ByteArray)
        (text : String) (a : Analysis) (o : Outcome),
      t.read (manifestIn dir) = .ok bytes → decodeText? bytes = some text →
      (projectIn dir roots).analyze t = .ok a →
      (run (.usual (manifestIn dir) now) t a.plan).1 = .ok o → o.success = true →
      o.changes = (effective (.ofText text) a.plan).map (·.description) := by
  intro h
  have hdecode := decodeText?_encodeText numberedTwice
  have hread : readManifest numbered (manifestIn ["app"]) = .ok numberedTwice := by
    rw [readManifest_of_read rfl, hdecode, Option.elim_some]
  have hscan : Usage.scan? numbered ["app"] usualRoots Usage.sourceEnding = some [] := rfl
  obtain ⟨hds, hrun, hone⟩ := run_numbered
  have hanalyze : (projectIn ["app"] usualRoots).analyze numbered = .ok foundNumbered :=
    analyze_eq_ok.mpr ⟨_, _, declarationsIn?_eq_some.mpr ⟨_, hread, hds⟩, rfl, hscan, rfl⟩
  have hexact := congrArg List.length (h numbered ["app"] usualRoots 1 (encodeText numberedTwice)
    numberedTwice _ _ rfl hdecode hanalyze hrun rfl)
  rw [List.length_map, hone] at hexact
  cases hexact

end PubspecTidy.Apply
