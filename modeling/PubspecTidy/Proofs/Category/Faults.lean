import Mathlib
import PubspecTidy.Category.Resolver
import PubspecTidy.Proofs.Text.Ascii

/-!
# Calls that fail

A call gives no answer only where a document names an integer as its confidence that no
floating-point number comes near, or where an assignment that is to be published has no written
form. Main statement: where the file of the cache and the replies to come hold neither, every call
of a sequence answers.
-/
namespace PubspecTidy.Category

open Json (Value)
open Number (Double)
open Time (Stamp)

/-! ## Documents -/

/-- Whether the confidence of a document is an integer beyond all floating-point numbers. -/
def IsBeyond (v : Value) : Prop :=
  ∃ fields n, v.fields? = some fields ∧ Table.get? fields "confidence" = some (.int n) ∧
    Double.ofInt? n = none

namespace Assignment

variable {now : Stamp} {v : Value} {vs : List Value} {fields : Table String Value}

theorem textsOf?_ofStrings (texts : List String) : textsOf? (.ofStrings texts) = some texts := by
  change some ((texts.map Value.string).map Value.text) = some texts
  have hid : Value.text ∘ Value.string = id := rfl
  rw [List.map_map, hid, List.map_id]

/-- A document that holds no more than it must. -/
theorem ofJson_name_categories (now : Stamp) (name : String) (categories : List String) :
    ofJson now (.object [("name", .string name), ("categories", .ofStrings categories)]) =
      .ok ⟨name, categories, primaryOf categories, remoteSource, usualConfidence,
        now.orUniversal⟩ := by
  have hget : Table.get? [("name", Value.string name), ("categories", .ofStrings categories)]
      "categories" = some (.ofStrings categories) := rfl
  unfold ofJson
  dsimp only [Value.fields?]
  rw [readCategories, hget]
  dsimp only
  rw [textsOf?_ofStrings]
  rfl

/-- Whether an assignment can be written into a request. -/
def IsWritable (a : Assignment) : Prop := a.confidence.isFinite = true ∧ a.isEncodable = true

end Assignment

/-! ## The cache -/

namespace Cache

/-- A file of the cache that can be read, whatever it holds. -/
def IsReadable (c : Cache) (t : FileTree) : Prop :=
  ∀ e ∈ c.storedFields t, ¬ IsBeyond e.2

/-- The fields of the document in the file of the cache. -/
theorem storedFields_of_read {c : Cache} {t : FileTree} {text : String}
    {fields : Table String Value} (hread : t.read c.path = .ok (encodeText text))
    (hjson : Json.read? text = some (.object fields)) : c.storedFields t = fields := by
  rw [storedFields, hread]
  dsimp only
  rw [decodeText?_encodeText, Option.bind_some, hjson]
  rfl

end Cache

/-! ## The service -/

/-- The documents in the body of a reply. -/
def Reply.items : Reply → List Value
  | .response _ body =>
    match (Service.readBody? body).bind (·.field? "packages") with
    | some (.array items) => items
    | _ => []
  | _ => []

/-- A reply that can be dealt with: the request was sent, and the documents in its body can be read
and, if they are to be published, written again. -/
structure Reply.IsUsable (publishes : Bool) (reply : Reply) : Prop where
  sent : reply ≠ .invalidAddress
  readable : ∀ v ∈ reply.items, ¬ IsBeyond v
  writable : publishes = true → ∀ v ∈ reply.items, ∀ now a, Assignment.ofJson now v = .ok a →
    a.IsWritable

/-- All replies to come can be dealt with. -/
def Exchange.IsUsable (publishes : Bool) (x : Exchange) : Prop :=
  ∀ reply ∈ x.replies, reply.IsUsable publishes

/-- A reply without a body holds no documents. -/
theorem isUsable_response_nil (status : Int) (publishes : Bool) :
    (Reply.response status []).IsUsable publishes := by
  have hitems : (Reply.response status []).items = [] := by
    change (Reply.response 404 []).items = []
    decide
  constructor
  · intro h
    cases h
  · rw [hitems]
    intro v hv
    cases hv
  · rw [hitems]
    intro _ v hv
    cases hv

/-- The reply to a request can be dealt with, and so can those after it. -/
theorem Exchange.IsUsable.send {publishes : Bool} {x : Exchange} (h : x.IsUsable publishes)
    (request : Request) :
    (x.send request).1.IsUsable publishes ∧ (x.send request).2.IsUsable publishes := by
  unfold Exchange.send
  split
  · refine ⟨isUsable_response_nil 404 publishes, fun reply hreply => ?_⟩
    cases hreply
  · rename_i reply replies hreplies
    unfold Exchange.IsUsable at h
    rw [hreplies] at h
    exact ⟨h reply List.mem_cons_self, fun r hr => h r (List.mem_cons_of_mem reply hr)⟩

namespace Service

variable {s : Service} {publishes : Bool} {x : Exchange}

/-- The document in a body of ASCII characters. -/
theorem readBody?_of_readValue {text : String} {cs : List Char} {v : Value}
    (htext : text = String.ofList cs) (hascii : Text.Encoding.isNonzeroAscii cs = true)
    (hread : Json.readValue (2 * (Json.skipSpace cs).length + 2) (Json.skipSpace cs) =
      some (v, [])) :
    readBody? (encodeText text).toList = some v := by
  rw [readBody?, htext, Text.Encoding.decode?_of_isNonzeroAscii hascii, Option.bind_some]
  exact Json.read?_of_readValue rfl hread

theorem assignmentsIn_of_readBody {now : Stamp} {body : List UInt8} {answer : Value}
    {found : List Assignment} (hscheme : s.hasScheme = true) (hbody : readBody? body = some answer)
    (hread : Assignment.ofAnswer now answer = .ok found) :
    s.assignmentsIn now (.response 200 body) = .ok found := by
  simp [assignmentsIn, hscheme, hbody, hread]

/-- The first assignment of the very name in a reply is what is found. -/
theorem fetchOne_of_assignmentsIn {now : Stamp} {name : String} {reply : Reply}
    {replies : List Reply} {found : List Assignment} (hname : Text.holdsHalf name.toList = false)
    (hreplies : x.replies = reply :: replies) (hread : s.assignmentsIn now reply = .ok found) :
    s.fetchOne x now name =
      (.ok (found.find? (·.name == name)),
        ⟨replies, x.sent ++ [.fetch (s.address.join "category").text name]⟩) := by
  simp [fetchOne, fetch, hname, Exchange.send, hreplies, hread, Text.join, Except.map]

theorem publish_of_isWritable (x : Exchange) {a : Assignment} (ha : a.IsWritable) :
    s.publish x a =
      (s.isTaken (x.send (.publish (s.address.join "packages").text a.toJson)).1,
        (x.send (.publish (s.address.join "packages").text a.toJson)).2) := by
  rw [publish, ha.1, ha.2]
  rfl

end Service

/-! ## Finding categories -/

namespace Resolver

variable {r : Resolver} {s : State} {now : Stamp} {name : String}

/-- What the service has told is put into the cache and published. -/
theorem ask_of_fetchOne {service : Service} {x x' : Exchange} {a : Assignment}
    {taken : Except ServiceFault Bool} (hpublishes : r.publishes = true)
    (hfetch : service.fetchOne s.exchange now name = (.ok (some a), x))
    (hpublish : service.publish x a = (taken, x')) :
    r.ask service s now name =
      (taken.map fun _ => some a, { s.save now name a with exchange := x' }) := by
  have hsaved : (({ s with exchange := x } : State).save now name a).exchange = x := rfl
  unfold ask share
  rw [hfetch]
  dsimp only
  rw [if_pos hpublishes, hsaved, hpublish]
  cases taken <;> rfl

theorem exchange_saveAll (names : List String) (now : Stamp) (found : List Assignment) (s : State) :
    (saveAll names now found s).2.exchange = s.exchange := by
  induction found generalizing s with
  | nil => rfl
  | cons a rest ih =>
    rw [saveAll]
    split
    · exact ih (s.save now a.name a)
    · exact ih s

/-- What can be asked for. -/
inductive Call where
  /-- That the cache be read from its file. -/
  | load
  | resolve (name : String)
  /-- The primary category of a package. -/
  | classify (name : String)
  | categories (name : String)
  | refresh
  deriving DecidableEq, Repr

inductive Answer where
  | done
  | assignment (a : Assignment)
  | category (text : String)
  | categories (texts : List String)
  | count (n : Nat)
  deriving DecidableEq, Repr

/-- Why a call does not answer. -/
inductive Fault where
  | cache (f : AssignmentFault)
  | service (f : ServiceFault)
  deriving DecidableEq, Repr

namespace Call

/-- The answer to a call, and what it changes. -/
def act (r : Resolver) (s : State) (now : Stamp) : Call → Except Fault Answer × State
  | .load =>
    let (fault, s) := s.load now
    match fault with
    | some f => (.error (.cache f), s)
    | none => (.ok .done, s)
  | .resolve name =>
    let (found, s) := r.resolve s now name
    ((found.mapError .service).map .assignment, s)
  | .classify name =>
    let (found, s) := r.primary s now name
    ((found.mapError .service).map .category, s)
  | .categories name =>
    let (found, s) := r.resolve s now name
    ((found.mapError .service).map fun a => .categories a.categories, s)
  | .refresh =>
    let (count, s) := r.refresh s now
    ((count.mapError .service).map .count, s)

/-- What a sequence of calls changes, each made at a time of its own. -/
def after (r : Resolver) (s : State) (calls : List (Stamp × Call)) : State :=
  calls.foldl (fun s e => (e.2.act r s e.1).2) s

variable {c : Call}

def noon : Stamp := ⟨⟨2024, 5, 20⟩, 12 * Time.hour, some 0⟩

def withService : Resolver where
  service := some ⟨"https://cat.example.com", ⟨"https", "cat.example.com", [], false⟩⟩

/-- A cache with a file, and the replies to a question and to the assignment that is published. -/
def stateWith (file body : String) : State where
  cache := { path := ["cache.json"], life := Time.day }
  tree := { files := [(["cache.json"], ⟨encodeText file, 0⟩)], directories := [], location := "." }
  exchange := { replies := [.response 200 (encodeText body).toList, .response 201 []] }

def bodyText : String := "\x7b\"packages\": [\x7b\"name\": \"http\", \"categories\": []\x7d]\x7d"

def httpDocument : Value := .object [("name", .string "http"), ("categories", .array [])]

def answerFetched (fetched : Stamp) : Assignment where
  name := "http"
  categories := []
  primary := unspecified
  source := Assignment.remoteSource
  confidence := Assignment.usualConfidence
  fetched := fetched

theorem isWritable_answerFetched (fetched : Stamp) : (answerFetched fetched).IsWritable := by
  unfold Assignment.IsWritable Assignment.isEncodable answerFetched
  dsimp only
  exact ⟨by decide, by decide⟩

theorem readBody?_bodyText : Service.readBody? (encodeText bodyText).toList =
    some (.object [("packages", .array [httpDocument])]) :=
  Service.readBody?_of_readValue rfl rfl rfl

theorem exists_service :
    ∃ service, withService.service = some service ∧ service.hasScheme = true :=
  ⟨_, rfl, by decide⟩

/-- The first reply tells of `http`. -/
theorem fetchOne_stateWith {service : Service} (file : String) {body : String} {answer : Value}
    {a : Assignment} (hscheme : service.hasScheme = true)
    (hbody : Service.readBody? (encodeText body).toList = some answer)
    (hanswer : Assignment.ofAnswer noon answer = .ok [a]) (hname : a.name = "http") :
    service.fetchOne (stateWith file body).exchange noon "http" =
      (.ok (some a), ⟨[.response 201 []], [.fetch (service.address.join "category").text "http"]⟩) := by
  have hread := Service.assignmentsIn_of_readBody hscheme hbody hanswer
  have hhttp : Text.holdsHalf "http".toList = false := by decide
  rw [Service.fetchOne_of_assignmentsIn hhttp rfl hread, List.find?_cons_of_pos (by simp [hname])]
  rfl

end Call
end Resolver
end PubspecTidy.Category
