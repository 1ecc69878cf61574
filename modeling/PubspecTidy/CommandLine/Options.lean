import PubspecTidy.Table
import PubspecTidy.Text.Affix

/-!
# Options on a command line

An option has a long name after two dashes and perhaps a letter after one. An option that takes a
value has it after an equals sign or as the next argument; letters stand for flags only, and several
may follow one dash. Two dashes alone end the options.
-/
namespace PubspecTidy.CommandLine

structure OptionRule where
  long : String
  letter : Option Char := none
  takesValue : Bool := false
  deriving DecidableEq, Repr

/-- What an argument is. -/
inductive Argument where
  | operand
  | flags (names : List String)
  | value (name text : String)
  /-- An option whose value is the next argument. -/
  | awaitsValue (name : String)
  | wrong
  deriving DecidableEq, Repr

/-- An argument cut at its first equals sign. -/
def splitValue (arg : List Char) : List Char × Option (List Char) :=
  match arg.dropWhile (· != '=') with
  | _ :: text => (arg.takeWhile (· != '='), some text)
  | [] => (arg, none)

/-- The flags that letters stand for. -/
def letterFlags? (rules : List OptionRule) (letters : List Char) : Option (List String) :=
  letters.mapM fun c => (rules.find? fun r => r.letter == some c && !r.takesValue).map (·.long)

def Argument.of (rules : List OptionRule) (arg : String) : Argument :=
  match arg.toList with
  | '-' :: c :: rest =>
    let (name, given) := splitValue (c :: rest)
    match rules.find? (fun r => '-' :: r.long.toList == name), given with
    | some r, some text => if r.takesValue then .value r.long (String.ofList text) else .wrong
    | some r, none => if r.takesValue then .awaitsValue r.long else .flags [r.long]
    | none, _ =>
      if c == '-' then .wrong
      else
        match letterFlags? rules (c :: rest) with
        | some names => .flags names
        | none => .wrong
  | _ => .operand

/-- The options given, each with its value if it takes one, and the other arguments. -/
structure Arguments where
  options : List (String × String) := []
  operands : List String := []
  deriving DecidableEq, Repr

namespace Arguments

def hasOption (a : Arguments) (name : String) : Bool := a.options.any (·.1 == name)

/-- The value of an option that is given; of several, the last one. -/
def value? (a : Arguments) (name : String) : Option String :=
  (a.options.reverse.find? (·.1 == name)).map (·.2)

/-- Puts options in front. -/
def cons (options : List (String × String)) (a : Arguments) : Arguments :=
  { a with options := options ++ a.options }

/-- Reads arguments; none if one of them is wrong. Unless options may be mixed with other arguments,
everything after the first other argument is taken as it is. -/
def read? (rules : List OptionRule) (mixed : Bool) : List String → Option Arguments
  | [] => some {}
  | arg :: rest =>
    if arg == "--" then some { operands := rest }
    else
      match Argument.of rules arg with
      | .wrong => none
      | .operand =>
        if mixed then (read? rules mixed rest).map fun a => { a with operands := arg :: a.operands }
        else some { operands := arg :: rest }
      | .flags names => (read? rules mixed rest).map (cons (names.map fun name => (name, "")))
      | .value name text => (read? rules mixed rest).map (cons [(name, text)])
      | .awaitsValue name =>
        match rest with
        | [] => none
        | text :: rest => (read? rules mixed rest).map (cons [(name, text)])

end Arguments
end PubspecTidy.CommandLine
