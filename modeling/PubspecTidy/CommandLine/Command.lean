import PubspecTidy.CommandLine.Options

/-!
# Commands

A command line holds options for the whole program, the name of a command and the options of that
command, which are read once the former are in effect.
-/
namespace PubspecTidy.CommandLine

inductive Command where
  | analyze (asJson : Bool)
  | apply (interactive dryRun : Bool)
  | restore (confirmed : Bool)
  | group (writes : Bool) (overrides : Option String) (offline : Bool)
  deriving DecidableEq, Repr

/-- A command whose options are not read yet. -/
inductive CommandName where
  | analyze
  | apply
  | restore
  | group
  deriving DecidableEq, Repr

namespace CommandName

def ofText? : String → Option CommandName
  | "analyze" => some analyze
  | "apply" => some apply
  | "restore" => some restore
  | "group" => some group
  | _ => none

def rules : CommandName → List OptionRule
  | analyze => [{ long := "json" }]
  | apply => [{ long := "interactive", letter := some 'i' }, { long := "dry-run" }]
  | restore => [{ long := "yes", letter := some 'y' }]
  | group =>
    [{ long := "apply" }, { long := "overrides", takesValue := true }, { long := "offline" }]

/-- The command with its options. -/
def withOptions (name : CommandName) (a : Arguments) : Command :=
  match name with
  | analyze => .analyze (a.hasOption "json")
  | apply => .apply (a.hasOption "interactive") (a.hasOption "dry-run")
  | restore => .restore (a.hasOption "yes")
  | group =>
    .group (a.hasOption "apply") (a.value? "overrides") (a.hasOption "offline")

/-- Reads the options of a command, which takes no other arguments. -/
def read? (name : CommandName) (args : List String) : Option Command :=
  match Arguments.read? name.rules true args with
  | some a => if a.operands.isEmpty then some (name.withOptions a) else none
  | none => none

end CommandName

/-- A command line as far as it is read before the command itself. -/
structure Invocation where
  verbose : Bool
  /-- The directory of the project. -/
  project : String
  command : CommandName
  arguments : List String
  deriving DecidableEq, Repr

namespace Invocation

def rules : List OptionRule :=
  [{ long := "verbose", letter := some 'v' }, { long := "project", takesValue := true }]

/-- Reads a command line up to the name of the command. -/
def read? (args : List String) : Option Invocation :=
  match Arguments.read? rules false args with
  | none => none
  | some a =>
    match a.operands with
    | [] => none
    | name :: rest =>
      (CommandName.ofText? name).map fun command =>
        ⟨a.hasOption "verbose", (a.value? "project").getD ".", command, rest⟩

end Invocation

/-- How the program is called, line by line. -/
def usage : List String :=
  ["Usage: pubspectidy [-v] [--project DIR] COMMAND", "",
   "Commands:",
   "  analyze [--json]                                Classify every declared dependency",
   "  apply [--interactive|-i] [--dry-run]            Fix what analyze reports",
   "  restore [--yes|-y]                              Put the backup of the manifest back",
   "  group [--apply] [--overrides FILE] [--offline]  Group dependencies by category"]

end PubspecTidy.CommandLine
