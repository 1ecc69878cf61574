import PubspecTidy.Text.Affix
import PubspecTidy.Text.Case

/-!
# Categories guessed from names

Each rule looks for certain words in the name of a package; the first rule that finds one decides.
-/
namespace PubspecTidy.Category

structure Rule where
  category : String
  /-- Whole names. -/
  names : List String := []
  /-- Words anywhere in the name. -/
  parts : List String := []
  starts : List String := []
  endings : List String := []

def rules : List Rule :=
  [{ category := "UI Components"
     names := ["cached_network_image", "flutter_svg"]
     parts := ["widget", "icon", "animation", "carousel", "shimmer", "lottie"]
     starts := ["ui_"]
     endings := ["_ui"] },
   { category := "State Management"
     parts := ["bloc", "provider", "riverpod", "redux", "mobx", "get"] },
   { category := "Database"
     parts := ["sqflite", "hive", "shared_preferences", "path_provider", "database", "storage"] },
   { category := "Testing", parts := ["test", "mock", "fake"] },
   { category := "Development Tools"
     parts := ["build_runner", "json_serializable", "freezed", "lint", "analysis"] },
   { category := "Networking", parts := ["http", "dio", "network", "api", "rest", "graphql"] }]

/-- The category of a name that no rule knows. -/
def fallback : String := "Utilities"

def Rule.fits (r : Rule) (name : String) : Bool :=
  r.names.contains name || r.parts.any (Text.contains name) || r.starts.any (Text.startsWith name)
    || r.endings.any (Text.endsWith name)

/-- Guesses a category from the name alone, whatever its case. -/
def infer (package : String) : String :=
  let name := Text.lower package
  match rules.find? (·.fits name) with
  | some r => r.category
  | none => fallback

end PubspecTidy.Category
