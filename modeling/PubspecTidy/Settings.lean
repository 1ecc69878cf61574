import PubspecTidy.FileTree
import PubspecTidy.Number.Reader

/-!
# Settings from the environment

Every setting has a variable in the environment and a value for the case that the variable is not
set. A number that cannot be read is an error of whoever asks for it, not of the others.
-/
namespace PubspecTidy

abbrev Environment := Table String String

namespace Environment

/-- The variables that are looked at. -/
def names : List String :=
  ["PUBSENTINEL_CACHE_TTL_DAYS", "PUBSENTINEL_HTTP_TIMEOUT", "PUBSENTINEL_CATEGORY_API_URL",
   "PUBSENTINEL_CACHE_DIR", "PUBSENTINEL_LOG_LEVEL", "PUBSENTINEL_LOG_FORMAT"]

/-- For how many days categories are fresh; none if the variable holds no integer. -/
def freshDays? (env : Environment) : Option Int :=
  match Table.get? env "PUBSENTINEL_CACHE_TTL_DAYS" with
  | none => some 7
  | some text => Number.readInt? 10 text.toList

/-- How many seconds to wait for the category service; none if the variable holds no number. -/
def timeout? (env : Environment) : Option Number.Double :=
  match Table.get? env "PUBSENTINEL_HTTP_TIMEOUT" with
  | none => some (.ofInt 5)
  | some text => Number.readDouble? text.toList

/-- The address of the category service, without slashes at its end; there is none by default. -/
def serviceAddress? (env : Environment) : Option String :=
  let address := Text.dropTrailing '/'
    (Text.trimmed (Table.getD env "PUBSENTINEL_CATEGORY_API_URL" ""))
  if address.isEmpty then none else some address

/-- The directory of the cache, if one is set. -/
def cacheDirectory? (env : Environment) : Option String :=
  match Table.get? env "PUBSENTINEL_CACHE_DIR" with
  | none => none
  | some text => if text.isEmpty then none else some (FilePath.normalText text)

/-- The directory of the cache below the directory of the user, where none is set. -/
def usualCacheDirectory : String := ".pubsentinel/cache"

/-- The name of the file that holds the cache. -/
def cacheFile : String := "package_categories.json"

end Environment
end PubspecTidy
