/-!
# What can be wrong with a YAML text

A text may be no YAML document at all, or a document with a value that cannot be formed.
-/
namespace PubspecTidy.Yaml

inductive Fault where
  /-- The text is not one document, or a node does not fit its tag. -/
  | malformed
  /-- A number, a date or a character that does not exist, or a number with too many digits. -/
  | badValue
  /-- A tagged number without any character. -/
  | emptyNumber
  /-- A tagged truth value that is no word for one, in lower case. -/
  | notBoolean (text : String)
  /-- A tagged time stamp that is not written as one. -/
  | notTimestamp
  /-- A mapping with the tag of a time stamp and a default value. -/
  | stampMapping
  /-- A mapping with the tag of a scalar that is its own default value. -/
  | endless
  /-- A number or an escaped character beyond all bounds. -/
  | overflow
  deriving DecidableEq, Repr

end PubspecTidy.Yaml
