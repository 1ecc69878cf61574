import PubspecTidy.Settings
import PubspecTidy.Text.Case

/-!
# What is logged and how

The least level of the records that are logged, and whether they are written as JSON.
-/
namespace PubspecTidy

inductive LogLevel where
  | critical
  | error
  | warning
  | info
  | debug
  /-- No level of its own. -/
  | unset
  deriving DecidableEq, Repr

namespace LogLevel

def number : LogLevel → Nat
  | critical => 50
  | error => 40
  | warning => 30
  | info => 20
  | debug => 10
  | unset => 0

def names : List (String × LogLevel) :=
  [("CRITICAL", critical), ("FATAL", critical), ("ERROR", error), ("WARNING", warning),
   ("WARN", warning), ("INFO", info), ("DEBUG", debug), ("NOTSET", unset)]

/-- The level of a name, whatever its case. -/
def ofName? (name : String) : Option LogLevel := Table.get? names (Text.upper name)

end LogLevel

structure Logging where
  level : LogLevel
  asJson : Bool
  deriving DecidableEq, Repr

namespace Logging

/-- The level of the libraries that talk to the category service. -/
def clientLevel : LogLevel := .warning

/-- The name of the level: the one asked for, unless it is empty, or the one in the environment. -/
def levelName (env : Environment) (asked : Option String) : String :=
  match asked.filter (!·.isEmpty) with
  | some name => name
  | none => Table.getD env "PUBSENTINEL_LOG_LEVEL" "WARNING"

/-- The logging that is asked for; none if the name of the level is unknown. -/
def of? (env : Environment) (asked : Option String) : Option Logging :=
  (LogLevel.ofName? (levelName env asked)).map fun level =>
    ⟨level, Text.lower (Table.getD env "PUBSENTINEL_LOG_FORMAT" "console") == "json"⟩

end Logging
end PubspecTidy
