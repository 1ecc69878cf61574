import PubspecTidy.Apply
import PubspecTidy.CommandLine.Command
import PubspecTidy.CommandLine.Confirm
import PubspecTidy.CommandLine.Report
import PubspecTidy.Grouping.Sections
import PubspecTidy.Logging
import PubspecTidy.Overrides

/-!
# Running a command

A command works on a tree of files, asks questions of the user and answers with what it shows and a
status: zero if all is well, one if there is something to do or something failed, two if the
manifest or its backup is missing.
-/
namespace PubspecTidy.CommandLine

open Category (Assignment AssignmentFault Cache Exchange Resolver Service ServiceFault)
open Time (Stamp)

/-- What a run can rely on. -/
structure Setting where
  environment : Environment
  now : Stamp
  /-- The lines that the user enters. -/
  input : List String := []
  /-- Further trees in which files of overrides may lie. -/
  others : List FileTree := []

/-- What a run may change. -/
structure State where
  tree : FileTree
  /-- The tree with the file of the cache. -/
  cacheTree : FileTree
  cachePath : FilePath
  exchange : Exchange := {}

/-- Why a run broke off. -/
inductive Failure where
  | unknownLogLevel
  /-- A file is not valid UTF-8. -/
  | notText
  /-- A value of a YAML document cannot be formed. -/
  | document (f : Yaml.Fault)
  /-- The ending of the sources makes no pattern. -/
  | badEnding
  /-- A variable of the environment holds no number. -/
  | badSetting
  /-- Categories are to be fresh for longer than can be expressed. -/
  | lifeTooLong
  | cache (f : AssignmentFault)
  | service (f : ServiceFault)
  /-- A text that is to be shown holds a half of a surrogate pair. -/
  | unencodable
  deriving DecidableEq, Repr

def Failure.message : Failure → String
  | unknownLogLevel => "unknown log level"
  | notText => "not valid UTF-8"
  | document _ => "a value in a YAML document cannot be formed"
  | badEnding => "the ending of the sources makes no pattern"
  | badSetting => "a setting in the environment is no number"
  | lifeTooLong => "categories cannot be kept for so long"
  | cache _ => "a number in the cache is too large"
  | service .invalidAddress => "the address of the category service is invalid"
  | service .tooLarge => "a number from the category service is too large"
  | service .notFinite => "a confidence that is no finite number cannot be published"
  | service .noScheme => "the address of the category service names no scheme"
  | service .unencodable | unencodable => "a half of a surrogate pair has no encoding"

inductive Ending where
  | exited (status : Nat)
  /-- A question was not answered. -/
  | aborted
  /-- The arguments make no sense. -/
  | misused
  | failed (f : Failure)
  deriving DecidableEq, Repr

/-- How a run ended and what it showed. -/
structure Outcome where
  ending : Ending
  out : String := ""
  err : String := ""
  deriving DecidableEq, Repr

def statusFine : Nat := 0

def statusIssues : Nat := 1

def statusNotFound : Nat := 2

namespace Ending

def status : Ending → Nat
  | exited status => status
  | aborted => statusIssues
  | misused => statusNotFound
  | failed _ => statusIssues

end Ending

/-- A line as it is shown. -/
def shownLine (line : String) : String := Text.withoutControls line ++ "\n"

namespace Outcome

/-- Shows lines one by one, up to the first that has no encoding. -/
def shows (lines : List String) (status : Nat := statusFine) : Outcome :=
  { ending := if lines.all isEncodable then .exited status else .failed .unencodable
    out := String.join ((lines.takeWhile isEncodable).map shownLine) }

def complains (line : String) (status : Nat := statusIssues) : Outcome :=
  { ending := .exited status, err := shownLine line }

def fails (f : Failure) : Outcome := { ending := .failed f }

/-- Shows a text that ends its lines itself. -/
def showsText (text : String) : Outcome :=
  if isEncodable text then { ending := .exited statusFine, out := Text.withoutControls text }
  else .fails .unencodable

/-- A question stayed without an answer. -/
def unanswered : Silence → Outcome
  | .endOfInput => { ending := .aborted, err := "Aborted!\n" }
  | .unencodable => .fails .unencodable

/-- Puts text in front of what is shown. -/
def after (shown : String) (o : Outcome) : Outcome := { o with out := shown ++ o.out }

end Outcome

def notFoundOutcome (e : ReadError) : Outcome := .complains ("Error: " ++ e.message) statusNotFound

/-- What is shown where the project cannot be analysed. -/
def analysisOutcome : AnalysisError → Outcome
  | .manifest (.notFound name parent) => notFoundOutcome (.notFound name parent)
  | .manifest .notText => .fails .notText
  | .manifest (.unreadable message) => .complains ("Error: " ++ message)
  | .document .malformed => .complains "Error: invalid YAML: the manifest is no document"
  | .document f => .fails (.document f)
  | .ending => .fails .badEnding

/-- The manifest of a project. -/
def manifestOf (project : FilePath) : FilePath := Project.manifestPath { root := project }

def analyze (t : FileTree) (project : FilePath) (asJson : Bool) : Outcome :=
  match Project.analyze { root := project } t with
  | .error e => analysisOutcome e
  | .ok a =>
    .shows (if asJson then [Json.print a.toJson] else a.reportLines)
      (if a.hasIssues then statusIssues else statusFine)

/-- The report of changes that were made. -/
def appliedLines (manifest : FilePath) (o : Apply.Outcome) : List String :=
  if o.changes.isEmpty then ["Nothing to change."]
  else
    o.changes.map ("  " ++ ·)
      ++ ["", "Applied " ++ Text.ofNat o.changes.length ++ " change(s)."]
      ++ if o.backupCreated then ["Backup saved to " ++ (Backup.path manifest).name] else []

/-- Makes planned changes and reports on them. -/
def applyPlanned (now : Stamp) (t : FileTree) (manifest : FilePath) (planned : List PlannedChange) :
    Outcome × FileTree :=
  match Apply.run (.usual manifest now.sinceEpoch) t planned with
  | (.error .notText, t) => (.fails .notText, t)
  | (.error .unencodable, t) => (.fails .unencodable, t)
  | (.ok o, t) =>
    if o.success then (.shows (appliedLines manifest o), t)
    else (.complains ("Error: " ++ o.error.getD "None"), t)

/-- What would be changed. -/
def previewLines (previews : List String) : List String :=
  if previews.isEmpty then ["Nothing to change."] else previews.map ("  " ++ ·)

def apply (s : Setting) (t : FileTree) (project : FilePath) (interactive dryRun : Bool) :
    Outcome × FileTree :=
  match Project.analyze { root := project } t with
  | .error e => (analysisOutcome e, t)
  | .ok a =>
    let plan := a.plan
    if dryRun then (.shows (previewLines a.previews), t)
    else if interactive then
      match confirmAll (plan.map (·.question)) s.input with
      | ⟨shown, .error e⟩ => ((Outcome.unanswered e).after shown, t)
      | ⟨shown, .ok (answers, _)⟩ =>
        let (o, t) := applyPlanned s.now t (manifestOf project) (Apply.accepted plan answers)
        (o.after shown, t)
    else applyPlanned s.now t (manifestOf project) plan

/-- The line that describes a backup. -/
def backupLine (i : Backup.Info) (now : Stamp) : String :=
  "Backup: " ++ i.name ++ " (" ++ Backup.sizeText i.size ++ ", "
    ++ (Backup.ageText? i.modified now).getD "" ++ ")"

/-- Puts the backup back without asking. -/
def restoreNow (now : Stamp) (t : FileTree) (manifest : FilePath) : Outcome × FileTree :=
  match Backup.restore t manifest now.sinceEpoch with
  | (true, t) => (.shows ["Manifest restored."], t)
  | (false, t) => (.complains "Error: failed to restore backup", t)

def restore (s : Setting) (t : FileTree) (project : FilePath) (confirmed : Bool) :
    Outcome × FileTree :=
  let manifest := manifestOf project
  match Backup.info? t manifest with
  | none =>
    (.complains ("No backup found at " ++ t.shown (Backup.path manifest)) statusNotFound, t)
  | some i =>
    let heading := shownLine (backupLine i s.now)
    if confirmed then
      let (o, t) := restoreNow s.now t manifest
      (o.after heading, t)
    else
      match confirm "Restore it over the current manifest?" s.input with
      | ⟨shown, .error e⟩ => ((Outcome.unanswered e).after (heading ++ shown), t)
      | ⟨shown, .ok (false, _)⟩ => ((Outcome.shows ["Aborted."]).after (heading ++ shown), t)
      | ⟨shown, .ok (true, _)⟩ =>
        let (o, t) := restoreNow s.now t manifest
        (o.after (heading ++ shown), t)

/-- Whom to ask for categories and the cache to start from. -/
def resolverOf (env : Environment) (cachePath : FilePath) (offline : Bool) :
    Except Failure (Resolver × Cache) :=
  let address := if offline then none else env.serviceAddress?
  if address.isSome && env.timeout?.isNone then .error .badSetting
  else
    let service := address.bind Service.ofText?
    if address.isSome && service.isNone then .error (.service .invalidAddress)
    else
      match env.freshDays? with
      | none => .error .badSetting
      | some days =>
        match Cache.ofDays? cachePath days with
        | none => .error .lifeTooLong
        | some cache => .ok ({ service }, cache)

/-- Groups the dependencies of both sections. -/
def groupings (s : Setting) (st : State) (overrides : Overrides) (offline : Bool) (a : Analysis) :
    Except Failure (Grouping × Grouping) × State :=
  match resolverOf s.environment st.cachePath offline with
  | .error f => (.error f, st)
  | .ok (r, cache) =>
    let before : Resolver.State := ⟨cache, st.cacheTree, st.exchange⟩
    let store (now : Resolver.State) : State :=
      { st with cacheTree := now.tree, exchange := now.exchange }
    match before.load s.now with
    | (some f, now) => (.error (.cache f), store now)
    | (none, now) =>
      match Grouping.of r overrides s.now now (a.ofKind .dependencies) with
      | (.error f, now) => (.error (.service f), store now)
      | (.ok main, now) =>
        match Grouping.of r overrides s.now now (a.ofKind .devDependencies) with
        | (.error f, now) => (.error (.service f), store now)
        | (.ok dev, now) => (.ok (main, dev), store now)

/-- Writes the grouped manifest, after making a backup. -/
def writeGrouped (now : Stamp) (t : FileTree) (manifest : FilePath) (text : String)
    (main dev : Grouping) : Outcome × FileTree :=
  match Backup.create t manifest now.sinceEpoch with
  | (false, t) => (.complains "Error: failed to create backup", t)
  | (true, t) =>
    match writeManifest manifest now.sinceEpoch t (Grouping.regroup text main dev) with
    | (some .unencodable, t) => (.fails .unencodable, t)
    | (some (.refused message), t) =>
      (.complains ("Error: " ++ message ++ " - backup restored"),
        (Backup.restore t manifest now.sinceEpoch).2)
    | (none, t) =>
      let count := main.packages.length + dev.packages.length
      (.shows ["Grouped " ++ Text.ofNat count ++ " package(s); backup saved to "
        ++ (Backup.path manifest).name], t)

/-- The overrides in a file. -/
def overridesAt (t : FileTree) (p : FilePath) : Except Failure Overrides :=
  match Overrides.load t p with
  | .ok found => .ok (found.getD [])
  | .error .notText => .error .notText
  | .error (.document f) => .error (.document f)

/-- Shows the grouped sections, or writes the manifest with them. -/
def group (s : Setting) (st : State) (project : FilePath) (writes : Bool)
    (overrides : FileTree × FilePath) (offline : Bool) : Outcome × State :=
  match Project.analyze { root := project } st.tree with
  | .error e => (analysisOutcome e, st)
  | .ok a =>
    match readManifest st.tree (manifestOf project) with
    | .error e => (analysisOutcome (.manifest e), st)
    | .ok text =>
      match overridesAt overrides.1 overrides.2 with
      | .error f => (.fails f, st)
      | .ok o =>
        match groupings s st o offline a with
        | (.error f, st) => (.fails f, st)
        | (.ok (main, dev), st) =>
          if writes then
            let (outcome, tree) := writeGrouped s.now st.tree (manifestOf project) text main dev
            (outcome, { st with tree := tree })
          else
            (.showsText (Grouping.preview (some text) main dev), st)

/-- The tree and the path in it that a text stands for. What lies in none of the trees does not
exist. -/
def placeOf (trees : List FileTree) (text : String) : FileTree × FilePath :=
  match trees.findSome? fun t => (t.path? text).map fun p => (t, p) with
  | some place => place
  | none => (FileTree.empty (FilePath.normalText text), [])

/-- Where the overrides are: in a file that is named, or in the project. -/
def overridesPlace (s : Setting) (st : State) (project : FilePath) :
    Option String → FileTree × FilePath
  | none => (st.tree, project ++ [Overrides.fileName])
  | some text => placeOf (st.tree :: s.others) text

/-- Runs a command in a project. -/
def Command.run (s : Setting) (st : State) (project : FilePath) (c : Command) : Outcome × State :=
  let onTree (r : Outcome × FileTree) : Outcome × State := (r.1, { st with tree := r.2 })
  match c with
  | .analyze asJson => (CommandLine.analyze st.tree project asJson, st)
  | .apply interactive dryRun => onTree (CommandLine.apply s st.tree project interactive dryRun)
  | .restore confirmed => onTree (CommandLine.restore s st.tree project confirmed)
  | .group writes overrides offline =>
    CommandLine.group s st project writes (overridesPlace s st project overrides) offline

/-- Whether a command names a directory where it needs a file. -/
def Command.namesDirectory (s : Setting) (st : State) : Command → Bool
  | .group _ (some text) _ =>
    let trees := st.tree :: s.others
    trees.any fun t => ((t.path? text).map t.isDirectory).getD false
  | _ => false

/-- Reads the options of a command and runs it. -/
def runIn (s : Setting) (st : State) (project : FilePath) (i : Invocation) : Outcome × State :=
  if (Logging.of? s.environment (if i.verbose then some "DEBUG" else none)).isNone then
    (.fails .unknownLogLevel, st)
  else
    match i.command.read? i.arguments with
    | none => ({ ending := .misused }, st)
    | some c =>
      if c.namesDirectory s st then ({ ending := .misused }, st) else c.run s st project

/-- Runs a command line. A project outside of the tree has no files. -/
def run (s : Setting) (st : State) (args : List String) : Outcome × State :=
  match Invocation.read? args with
  | none => ({ ending := .misused }, st)
  | some i =>
    match st.tree.path? i.project with
    | some p => if st.tree.isFile p then ({ ending := .misused }, st) else runIn s st p i
    | none =>
      let nowhere := FileTree.empty (FilePath.normalText i.project)
      let (o, after) := runIn s { st with tree := nowhere } [] i
      (o, { after with tree := st.tree })

end PubspecTidy.CommandLine
