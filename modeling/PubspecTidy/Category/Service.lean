import PubspecTidy.Address.Basic
import PubspecTidy.Category.Assignment
import PubspecTidy.Json.Reader
import PubspecTidy.Text.Affix
import PubspecTidy.Text.Encoding

/-!
# The category service

The service answers which categories packages have and takes new assignments. What it answers is a
list of replies, one for each request; the requests are recorded in the order in which they were
sent. A request that fails counts as answered with nothing.
-/
namespace PubspecTidy.Category

open Json (Value)
open Time (Stamp)

inductive Request where
  /-- Asks for packages, whose names stand in one text. -/
  | fetch (address packages : String)
  /-- Publishes an assignment. -/
  | publish (address : String) (document : Value)
  deriving Repr

/-- What comes back for a request. -/
inductive Reply where
  | response (status : Int) (body : List UInt8)
  /-- The connection failed. -/
  | unreachable
  /-- The request could not be sent because of its address. -/
  | invalidAddress
  deriving DecidableEq, Repr

/-- The replies to come and the requests sent so far. -/
structure Exchange where
  replies : List Reply := []
  sent : List Request := []
  deriving Repr

namespace Exchange

def notFound : Reply := .response 404 []

/-- Sends a request. Where no reply is left, the service does not know the address. -/
def send (x : Exchange) (r : Request) : Reply × Exchange :=
  match x.replies with
  | [] => (notFound, ⟨[], x.sent ++ [r]⟩)
  | reply :: replies => (reply, ⟨replies, x.sent ++ [r]⟩)

end Exchange

/-- Why a call to the service gives no result at all. -/
inductive ServiceFault where
  | invalidAddress
  /-- A number in the answer is too large. -/
  | tooLarge
  /-- The confidence to publish is no finite number, which JSON cannot express. -/
  | notFinite
  /-- The assignment to publish holds a half of a surrogate pair. -/
  | unencodable
  /-- The address names no scheme, so that nothing can be made of a response. -/
  | noScheme
  deriving DecidableEq, Repr

structure Service where
  /-- The address as it was given, without slashes at its end. -/
  given : String
  address : Address
  deriving DecidableEq, Repr

namespace Service

/-- The service at the address that a text stands for. -/
def ofText? (text : String) : Option Service :=
  let given := Text.dropTrailing '/' text
  (Address.ofText? given).map (⟨given, ·⟩)

/-- The document in the body of a response. -/
def readBody? (body : List UInt8) : Option Value :=
  (Text.Encoding.decode? body).bind fun cs => Json.read? (String.ofList cs)

/-- Whether a response can be dealt with. -/
def hasScheme (s : Service) : Bool := !s.address.scheme.isEmpty

/-- The assignments that a reply holds. -/
def assignmentsIn (s : Service) (now : Stamp) : Reply → Except ServiceFault (List Assignment)
  | .invalidAddress => .error .invalidAddress
  | .unreachable => .ok []
  | .response status body =>
    if status ≠ 200 || !s.hasScheme then .ok []
    else
      match readBody? body with
      | none => .ok []
      | some answer =>
        match Assignment.ofAnswer now answer with
        | .ok found => .ok found
        | .error _ => .error .tooLarge

/-- Asks for packages; no request is sent for none, nor for names that have no encoding. -/
def fetch (s : Service) (x : Exchange) (now : Stamp) (names : List String) :
    Except ServiceFault (List Assignment) × Exchange :=
  if names.isEmpty || names.any fun name => Text.holdsHalf name.toList then (.ok [], x)
  else
    let (reply, x) := x.send (.fetch (s.address.join "category").text (Text.join "," names))
    (s.assignmentsIn now reply, x)

/-- Asks for one package; the first assignment of that very name counts. -/
def fetchOne (s : Service) (x : Exchange) (now : Stamp) (name : String) :
    Except ServiceFault (Option Assignment) × Exchange :=
  let (found, x) := s.fetch x now [name]
  (found.map fun found => found.find? (·.name == name), x)

/-- Whether a reply says that an assignment was taken. -/
def isTaken (s : Service) : Reply → Except ServiceFault Bool
  | .invalidAddress => .error .invalidAddress
  | .unreachable => .ok false
  | .response status _ =>
    if s.hasScheme then .ok (status == 200 || status == 201 || status == 204) else .error .noScheme

/-- Publishes an assignment. One that cannot be written is not sent. -/
def publish (s : Service) (x : Exchange) (a : Assignment) : Except ServiceFault Bool × Exchange :=
  if !a.confidence.isFinite then (.error .notFinite, x)
  else if !a.isEncodable then (.error .unencodable, x)
  else
    let (reply, x) := x.send (.publish (s.address.join "packages").text a.toJson)
    (s.isTaken reply, x)

end Service
end PubspecTidy.Category
