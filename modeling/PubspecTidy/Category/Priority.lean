/-!
# The order of categories

The known categories have a fixed order of priority; all others come after them, by code point.
-/
namespace PubspecTidy.Category

/-- The known categories, the most important one first. -/
def known : List String :=
  ["State Management", "Networking", "HTTP Clients", "Database", "Storage", "UI Components",
   "Widgets", "Navigation", "Authentication", "Firebase", "Animation", "Charts", "Forms", "Maps",
   "Camera", "Image Processing", "Audio", "Video", "Testing", "Development Tools", "Utilities",
   "Miscellaneous"]

/-- The primary category of a package that has none. -/
def unspecified : String := "Miscellaneous"

/-- The most important known category, or the first one if none is known. -/
def primaryOf (categories : List String) : String :=
  match known.find? categories.contains with
  | some c => c
  | none => categories.headD unspecified

/-- The rank of a known category; an unknown one comes last, with its name to order it by. -/
def sortKey (category : String) : Nat × String :=
  let rank := known.idxOf category
  if rank < known.length then (rank, "") else (known.length, category)

/-- Whether a category comes before another or in the same place. -/
def before (a b : String) : Bool :=
  let (rank, text) := sortKey a
  let (rank', text') := sortKey b
  decide (rank < rank') || (rank == rank' && decide (¬ text' < text))

/-- Categories in their order. -/
def sort (categories : List String) : List String := categories.mergeSort before

end PubspecTidy.Category
