import PubspecTidy.Category.Cache
import PubspecTidy.Category.Rules
import PubspecTidy.Category.Service

/-!
# Finding the categories of a package

The cache is asked first, then the service, if there is one, and in the end the name itself decides.
What the cache did not know is put into it; what the service knew is also published, unless that is
switched off.
-/
namespace PubspecTidy.Category

open Time (Stamp)

/-- Whom to ask. -/
structure Resolver where
  service : Option Service := none
  /-- Whether to publish what the service knew. -/
  publishes : Bool := true
  deriving DecidableEq, Repr

namespace Resolver

/-- What finding categories changes. -/
structure State where
  cache : Cache
  tree : FileTree
  exchange : Exchange := {}

namespace State

/-- Puts an assignment into the cache. -/
def save (s : State) (now : Stamp) (name : String) (a : Assignment) : State :=
  let (cache, tree) := s.cache.save s.tree now name a
  { s with cache := cache, tree := tree }

/-- Reads the cache from its file. -/
def load (s : State) (now : Stamp) : Option AssignmentFault × State :=
  let (fault, cache) := s.cache.load s.tree now
  (fault, { s with cache := cache })

def clear (s : State) : State :=
  let (cache, tree) := s.cache.clear s.tree
  { s with cache := cache, tree := tree }

end State

/-- The assignment that the name alone suggests. -/
def guess (now : Stamp) (name : String) : Assignment :=
  let category := infer name
  { name, categories := [category], primary := category, source := "heuristic"
    confidence := .ofDecimal false 5 (-1), fetched := now.orUniversal }

/-- Publishes what the service knew. Whether the service takes it does not matter. -/
def share (r : Resolver) (service : Service) (s : State) (a : Assignment) :
    Except ServiceFault Unit × State :=
  if r.publishes then
    let (taken, exchange) := service.publish s.exchange a
    (taken.map fun _ => (), { s with exchange := exchange })
  else (.ok (), s)

/-- Asks the service for a package. -/
def ask (r : Resolver) (service : Service) (s : State) (now : Stamp) (name : String) :
    Except ServiceFault (Option Assignment) × State :=
  let (found, exchange) := service.fetchOne s.exchange now name
  let s := { s with exchange := exchange }
  match found with
  | .error f => (.error f, s)
  | .ok none => (.ok none, s)
  | .ok (some a) =>
    match r.share service (s.save now name a) a with
    | (.ok (), s) => (.ok (some a), s)
    | (.error f, s) => (.error f, s)

/-- Asks the service, if there is one. -/
def askAny (r : Resolver) (s : State) (now : Stamp) (name : String) :
    Except ServiceFault (Option Assignment) × State :=
  match r.service with
  | none => (.ok none, s)
  | some service => r.ask service s now name

/-- Finds the categories of a package. -/
def resolve (r : Resolver) (s : State) (now : Stamp) (name : String) :
    Except ServiceFault Assignment × State :=
  match s.cache.fresh? now name with
  | some a => (.ok a, s)
  | none =>
    match r.askAny s now name with
    | (.error f, s) => (.error f, s)
    | (.ok (some a), s) => (.ok a, s)
    | (.ok none, s) =>
      let a := guess now name
      (.ok a, s.save now name a)

/-- The primary category of a package. -/
def primary (r : Resolver) (s : State) (now : Stamp) (name : String) :
    Except ServiceFault String × State :=
  let (found, s) := r.resolve s now name
  (found.map (·.primary), s)

/-- Puts those of the assignments into the cache that are for one of the packages; also counts
them. -/
def saveAll (names : List String) (now : Stamp) : List Assignment → State → Nat × State
  | [], s => (0, s)
  | a :: rest, s =>
    if names.contains a.name then
      let (count, s) := saveAll names now rest (s.save now a.name a)
      (count + 1, s)
    else saveAll names now rest s

/-- Asks the service anew for everything in the cache; gives the number of its answers. -/
def refresh (r : Resolver) (s : State) (now : Stamp) : Except ServiceFault Nat × State :=
  match r.service with
  | none => (.ok 0, s)
  | some service =>
    let names := s.cache.names
    let (found, exchange) := service.fetch s.exchange now names
    let s := { s with exchange := exchange }
    match found with
    | .error f => (.error f, s)
    | .ok found =>
      let (count, s) := saveAll names now found s
      (.ok count, s)

end Resolver
end PubspecTidy.Category
