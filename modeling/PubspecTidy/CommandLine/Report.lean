import PubspecTidy.Json.Printer
import PubspecTidy.Plan

/-!
# Reports of an analysis

An analysis is shown as a table for each section, with a list of duplicates and a summary, or as a
JSON document.
-/
namespace PubspecTidy.Analysis

open Json (Value)
open Manifest (SectionKind)

def findingLine (f : Finding) : String :=
  "  " ++ Text.padRight 30 f.name ++ " " ++ Text.padRight 15 f.version ++ " "
    ++ Text.padRight 10 f.status.label ++ " " ++ f.recommendation

def sectionLines (a : Analysis) (kind : SectionKind) : List String :=
  match a.ofKind kind with
  | [] => []
  | fs => (kind.name ++ ":") :: fs.map findingLine ++ [""]

def duplicateLines (a : Analysis) : List String :=
  match a.duplicates with
  | [] => []
  | ds => "Duplicates:" :: (ds.map fun d => "  " ++ d.name ++ d.versionsText ++ ": " ++ d.message) ++ [""]

def summaryLine (a : Analysis) : String :=
  let count (n : Nat) (what : String) : String := Text.ofNat n ++ " " ++ what
  "Summary: " ++ Text.join ", "
    [count a.findings.length "scanned", count a.used.length "used",
     count a.testOnly.length "test only", count a.unused.length "unused",
     count a.duplicates.length "duplicated"]

/-- The lines of the report. -/
def reportLines (a : Analysis) : List String :=
  SectionKind.all.flatMap a.sectionLines ++ a.duplicateLines ++ [a.summaryLine]
    ++ if a.hasIssues then [] else ["No issues found."]

def findingJson (f : Finding) : Value :=
  .object
    [("name", .string f.name), ("version", .string f.version), ("section", .string f.kind.name),
     ("status", .string f.status.name), ("usage", .string f.usage.description),
     ("recommendation", .string f.recommendation)]

def duplicateJson (d : Duplicate) : Value :=
  .object
    [("name", .string d.name), ("dependencies_version", .string d.version),
     ("dev_dependencies_version", .string d.devVersion),
     ("recommended_section", .string d.keep.name), ("recommendation", .string d.message)]

def toJson (a : Analysis) : Value :=
  .object
    [("total", .int a.findings.length), ("has_issues", .bool a.hasIssues),
     ("dependencies", .array (a.findings.map findingJson)),
     ("duplicates", .array (a.duplicates.map duplicateJson))]

end PubspecTidy.Analysis
