import PubspecTidy.Proofs.Category.Faults
import PubspecTidy.Proofs.Outcome

/-!
# How long an answer is used again

What the service tells of a package is put into the cache as it is, with the time that the document
states. Main statement: the package is not asked for again until the life of the cache has passed
since that time, whatever other packages are asked for meanwhile, and it is asked for again from
then on. A document that states no time counts from when it was received.
-/
namespace PubspecTidy.Category

open Json (Value)
open Time (Stamp)

/-! ## The time in a document -/

/-- From when on the life of an answer counts: from the time that the document states, or from when
it was received if it states none. -/
def freshFrom (received : Stamp) (document : Value) : Stamp :=
  match document.field? "fetchedAt" with
  | some (.string text) => (Time.ofIso? text).getD received
  | _ => received

namespace Assignment

variable {now : Stamp} {v : Value} {vs : List Value} {a : Assignment}

theorem instant_orUniversal (t : Stamp) : t.orUniversal.instant = t.instant := by
  unfold Stamp.orUniversal
  split
  · rfl
  · rename_i hoffset
    have hnone : t.offset = none := by simpa using hoffset
    simp [Stamp.instant, Stamp.localTime, hnone]

/-- A text that counts as no time at all is none. -/
theorem ofIso?_of_isVoid {text : String} (h : isVoid (.string text) = true) :
    Time.ofIso? text = none := by
  have hempty : text = "" := String.isEmpty_iff.mp h
  rw [hempty]
  decide +kernel

theorem instant_readFetched {fields : Table String Value} {fetched : Stamp}
    (h : readFetched now fields = .ok fetched) :
    fetched.instant = (freshFrom now (.object fields)).instant := by
  have hfield : Value.field? (.object fields) "fetchedAt" = Table.get? fields "fetchedAt" := rfl
  unfold freshFrom
  rw [hfield]
  unfold readFetched filled? at h
  cases hget : Table.get? fields "fetchedAt" with
  | none =>
    rw [hget] at h
    cases h
    exact instant_orUniversal now
  | some v =>
    rw [hget, Option.filter_some] at h
    cases hvoid : isVoid v with
    | true =>
      rw [hvoid] at h
      cases h
      rw [instant_orUniversal]
      cases v with
      | string text =>
        change now.instant = ((Time.ofIso? text).getD now).instant
        rw [ofIso?_of_isVoid hvoid]
        rfl
      | _ => rfl
    | false =>
      rw [hvoid] at h
      cases v with
      | string text =>
        simp only [Bool.not_false, if_true] at h
        change fetched.instant = ((Time.ofIso? text).getD now).instant
        cases hiso : Time.ofIso? text with
        | none =>
          rw [hiso] at h
          cases h
        | some t =>
          rw [hiso] at h
          cases h
          exact instant_orUniversal t
      | _ => cases h

/-- What is read from a document counts from the time that the document states. -/
theorem instant_ofJson (h : ofJson now v = .ok a) :
    a.fetched.instant = (freshFrom now v).instant := by
  unfold ofJson at h
  cases hfields : v.fields? with
  | none =>
    rw [hfields] at h
    cases h
  | some fields =>
    obtain rfl : v = .object fields := by
      cases v <;> simp_all [Value.fields?]
    rw [hfields] at h
    obtain ⟨fetched, hfetched, h⟩ := bind_eq_ok.mp h
    obtain ⟨categories, -, h⟩ := bind_eq_ok.mp h
    obtain ⟨name, -, h⟩ := bind_eq_ok.mp h
    obtain ⟨confidence, -, h⟩ := bind_eq_ok.mp h
    cases h
    exact instant_readFetched hfetched

/-- What is read from some values is read from one of them. -/
theorem exists_of_mem_ofItems {found : List Assignment} (h : ofItems now vs = .ok found)
    (ha : a ∈ found) : ∃ v ∈ vs, ofJson now v = .ok a := by
  induction vs generalizing found with
  | nil =>
    cases h
    cases ha
  | cons v vs ih =>
    unfold ofItems at h
    split at h
    · rename_i b hb
      obtain ⟨rest, hrest, rfl⟩ := map_eq_ok.mp h
      rcases List.mem_cons.mp ha with rfl | ha
      · exact ⟨v, List.mem_cons_self, hb⟩
      · obtain ⟨v', hv', hread⟩ := ih hrest ha
        exact ⟨v', List.mem_cons_of_mem v hv', hread⟩
    · cases h
    · obtain ⟨v', hv', hread⟩ := ih h ha
      exact ⟨v', List.mem_cons_of_mem v hv', hread⟩

end Assignment

/-! ## Asking the service -/

namespace Service

variable {service : Service} {x : Exchange} {now : Stamp} {name : String} {a : Assignment}

/-- The request that asks for a package. -/
def question (service : Service) (name : String) : Request :=
  .fetch (service.address.join "category").text name

/-- What a reply tells stands in one of its documents. -/
theorem exists_of_mem_assignmentsIn {reply : Reply} {found : List Assignment}
    (h : service.assignmentsIn now reply = .ok found) (ha : a ∈ found) :
    ∃ document ∈ reply.items, Assignment.ofJson now document = .ok a := by
  unfold assignmentsIn at h
  split at h
  · cases h
  · cases h
    cases ha
  split at h
  · cases h
    cases ha
  split at h
  · cases h
    cases ha
  rename_i status body _ _ answer hbody
  unfold Assignment.ofAnswer at h
  split at h
  · rename_i found' hfound
    cases h
    split at hfound
    · rename_i items hitems
      have hreply : (Reply.response status body).items = items := by
        simp [Reply.items, hbody, hitems]
      rw [hreply]
      exact Assignment.exists_of_mem_ofItems hfound ha
    · cases hfound
      cases ha
  · cases h

/-- A name that cannot be written into a request is not asked for, and nothing is found. -/
theorem fetchOne_of_holdsHalf (h : Text.holdsHalf name.toList = true) :
    service.fetchOne x now name = (.ok none, x) := by
  simp [fetchOne, fetch, h, Except.map]

theorem fetchOne_eq (h : Text.holdsHalf name.toList = false) :
    service.fetchOne x now name =
      ((service.assignmentsIn now (x.send (service.question name)).1).map
        fun found => found.find? (·.name == name), (x.send (service.question name)).2) := by
  simp [fetchOne, fetch, h, question, Text.join]

/-- What is found for a package stands in a document of the reply to its question. -/
theorem fetchOne_eq_some {x' : Exchange}
    (h : service.fetchOne x now name = (.ok (some a), x')) :
    Text.holdsHalf name.toList = false ∧ a.name = name ∧
      ∃ document ∈ (x.send (service.question name)).1.items,
        Assignment.ofJson now document = .ok a := by
  cases hhalf : Text.holdsHalf name.toList with
  | true =>
    rw [fetchOne_of_holdsHalf hhalf] at h
    cases h
  | false =>
    rw [fetchOne_eq hhalf, Prod.mk.injEq] at h
    obtain ⟨found, hfound, hfirst⟩ := map_eq_ok.mp h.1
    exact ⟨rfl, by simpa using List.find?_some hfirst,
      exists_of_mem_assignmentsIn hfound (List.mem_of_find?_eq_some hfirst)⟩

theorem sent_send (x : Exchange) (request : Request) :
    (x.send request).2.sent = x.sent ++ [request] := by
  unfold Exchange.send
  split <;> rfl

/-- A call to the service only ever adds to the requests. -/
theorem exists_sent_publish (service : Service) (x : Exchange) (a : Assignment) :
    ∃ more, (service.publish x a).2.sent = x.sent ++ more := by
  unfold publish
  split
  · exact ⟨[], (List.append_nil _).symm⟩
  split
  · exact ⟨[], (List.append_nil _).symm⟩
  · exact ⟨_, sent_send x _⟩

end Service

/-! ## Other packages -/

namespace Resolver

variable {r : Resolver} {s s' s'' : State} {service : Service} {now later : Stamp}
  {name other : String} {a : Assignment}

/-- The cache holds the same of a package, and for as long. -/
structure SameOf (name : String) (s s' : State) : Prop where
  entry : s'.cache.get? name = s.cache.get? name
  life : s'.cache.life = s.cache.life

theorem SameOf.refl (name : String) (s : State) : SameOf name s s := ⟨rfl, rfl⟩

theorem SameOf.trans (h : SameOf name s s') (h' : SameOf name s' s'') : SameOf name s s'' :=
  ⟨h'.entry.trans h.entry, h'.life.trans h.life⟩

theorem sameOf_save (hne : other ≠ name) (s : State) (now : Stamp) (a : Assignment) :
    SameOf name s (s.save now other a) :=
  ⟨(Table.get?_put s.cache.entries other name a).trans (if_neg hne), rfl⟩

theorem cache_share (r : Resolver) (service : Service) (s : State) (a : Assignment) :
    (r.share service s a).2.cache = s.cache := by
  unfold share
  split <;> rfl

theorem sameOf_ask (hne : other ≠ name) (r : Resolver) (service : Service) (s : State)
    (now : Stamp) : SameOf name s (r.ask service s now other).2 := by
  unfold ask
  obtain ⟨found, x⟩ := service.fetchOne s.exchange now other
  match found with
  | .error f => exact ⟨rfl, rfl⟩
  | .ok none => exact ⟨rfl, rfl⟩
  | .ok (some a) =>
    have hsaved := sameOf_save hne { s with exchange := x } now a
    have hcache := cache_share r service (State.save { s with exchange := x } now other a) a
    dsimp only
    split <;> rename_i hshare <;> rw [hshare] at hcache <;>
      exact ⟨(congrArg (Cache.get? · name) hcache).trans hsaved.entry,
        (congrArg Cache.life hcache).trans hsaved.life⟩

theorem sameOf_askAny (hne : other ≠ name) (r : Resolver) (s : State) (now : Stamp) :
    SameOf name s (r.askAny s now other).2 := by
  unfold askAny
  split
  · exact .refl name s
  · exact sameOf_ask hne r _ s now

/-- To find the categories of a package changes nothing about another one. -/
theorem sameOf_resolve (hne : other ≠ name) (r : Resolver) (s : State) (now : Stamp) :
    SameOf name s (r.resolve s now other).2 := by
  unfold resolve
  split
  · exact .refl name s
  · have hask := sameOf_askAny hne r s now
    split <;> rename_i hresult <;> rw [hresult] at hask
    · exact hask
    · exact hask
    · exact hask.trans (sameOf_save hne _ now _)

namespace Call

/-- Whether a call is about a package. What reads the whole cache or asks anew for all of it is about
every package. -/
def concerns (name : String) : Call → Bool
  | load => true
  | refresh => true
  | resolve other => other == name
  | classify other => other == name
  | categories other => other == name

theorem sameOf_act {c : Call} (h : c.concerns name = false) (r : Resolver) (s : State)
    (now : Stamp) : SameOf name s (c.act r s now).2 := by
  cases c with
  | load => cases h
  | refresh => cases h
  | resolve other => exact sameOf_resolve (by simpa [concerns] using h) r s now
  | classify other => exact sameOf_resolve (by simpa [concerns] using h) r s now
  | categories other => exact sameOf_resolve (by simpa [concerns] using h) r s now

/-- Calls about other packages change nothing about a package. -/
theorem sameOf_after {calls : List (Stamp × Call)} (h : ∀ e ∈ calls, e.2.concerns name = false)
    (r : Resolver) (s : State) : SameOf name s (after r s calls) := by
  induction calls generalizing s with
  | nil => exact .refl name s
  | cons e rest ih =>
    have hfirst := sameOf_act (h e List.mem_cons_self) r s e.1
    exact hfirst.trans (ih (fun e' he' => h e' (List.mem_cons_of_mem e he')) _)

end Call

/-! ## The package itself -/

/-- What the service tells of a package is put into the cache as it is. -/
theorem ask_eq_some (h : r.ask service s now name = (.ok (some a), s')) :
    s'.cache = s.cache.put name a ∧ Text.holdsHalf name.toList = false ∧ a.name = name ∧
      ∃ document ∈ (s.exchange.send (service.question name)).1.items,
        Assignment.ofJson now document = .ok a := by
  unfold ask at h
  cases hfetch : service.fetchOne s.exchange now name with
  | mk found x =>
    rw [hfetch] at h
    match found with
    | .error f => cases h
    | .ok none => cases h
    | .ok (some b) =>
      have hcache := cache_share r service (State.save { s with exchange := x } now name b) b
      dsimp only at h
      split at h
      · rename_i hshare
        rw [hshare] at hcache
        cases h
        exact ⟨hcache, Service.fetchOne_eq_some hfetch⟩
      · cases h

theorem exists_sent_share (r : Resolver) (service : Service) (s : State) (a : Assignment) :
    ∃ more, (r.share service s a).2.exchange.sent = s.exchange.sent ++ more := by
  unfold share
  split
  · exact Service.exists_sent_publish service s.exchange a
  · exact ⟨[], (List.append_nil _).symm⟩

/-- To ask the service for a package is to send the question for it. -/
theorem exists_sent_ask (h : Text.holdsHalf name.toList = false) (r : Resolver)
    (service : Service) (s : State) (now : Stamp) :
    ∃ more, (r.ask service s now name).2.exchange.sent =
      s.exchange.sent ++ service.question name :: more := by
  have hsent := Service.sent_send s.exchange (service.question name)
  unfold ask
  rw [Service.fetchOne_eq h]
  dsimp only
  split
  · exact ⟨[], hsent⟩
  · exact ⟨[], hsent⟩
  · rename_i a _
    obtain ⟨more, hmore⟩ := exists_sent_share r service
      (State.save { s with exchange := (s.exchange.send (service.question name)).2 } now name a) a
    refine ⟨more, ?_⟩
    have hall : ∀ result, r.share service (State.save
        { s with exchange := (s.exchange.send (service.question name)).2 } now name a) a = result →
        result.2.exchange.sent = s.exchange.sent ++ service.question name :: more := by
      rintro result rfl
      rw [hmore]
      change (s.exchange.send (service.question name)).2.sent ++ more = _
      rw [hsent, List.append_assoc]
      rfl
    split <;> rename_i hshare <;> exact hall _ hshare

theorem resolve_of_isFresh (h : s.cache.get? name = some a)
    (hfresh : s.cache.isFresh later a = true) : r.resolve s later name = (.ok a, s) := by
  have hcache : s.cache.fresh? later name = some a := by
    rw [Cache.fresh?, h, Option.filter_some, hfresh, if_pos rfl]
  rw [resolve, hcache]

/-- What the cache does not know, or not any more, is asked for. -/
theorem exists_sent_resolve (hservice : r.service = some service)
    (hname : Text.holdsHalf name.toList = false) (h : s.cache.fresh? later name = none) :
    ∃ more, (r.resolve s later name).2.exchange.sent =
      s.exchange.sent ++ service.question name :: more := by
  have hask : r.askAny s later name = r.ask service s later name := by
    rw [askAny, hservice]
  obtain ⟨more, hmore⟩ := exists_sent_ask hname r service s later
  refine ⟨more, ?_⟩
  rw [resolve, h, hask]
  dsimp only
  split <;> rename_i hresult <;> rw [hresult] at hmore <;> exact hmore

/-- What the service told of a package is used again until the life of the cache has passed since
the time that its document states, or since it was received if it states none. From then on the
package is asked for again. Other packages may be asked for meanwhile. -/
theorem resolve_again (hcache : s.cache.fresh? now name = none)
    (hask : r.askAny s now name = (.ok (some a), s')) {calls : List (Stamp × Call)}
    (hcalls : ∀ e ∈ calls, e.2.concerns name = false) (later : Stamp) :
    r.resolve s now name = (.ok a, s') ∧ a.name = name ∧
      ∃ service ∈ r.service, ∃ document ∈ (s.exchange.send (service.question name)).1.items,
        Assignment.ofJson now document = .ok a ∧
        (later.instant - (freshFrom now document).instant < s.cache.life →
          r.resolve (Call.after r s' calls) later name = (.ok a, Call.after r s' calls)) ∧
        (s.cache.life ≤ later.instant - (freshFrom now document).instant →
          ∃ more, (r.resolve (Call.after r s' calls) later name).2.exchange.sent =
            (Call.after r s' calls).exchange.sent ++ service.question name :: more) := by
  have hresolve : r.resolve s now name = (.ok a, s') := by
    rw [resolve, hcache, hask]
  unfold askAny at hask
  split at hask
  · cases hask
  rename_i service hservice
  obtain ⟨hput, hname, hsame, document, hmem, hread⟩ := ask_eq_some hask
  have hafter := Call.sameOf_after hcalls r s'
  have hlife : (Call.after r s' calls).cache.life = s.cache.life := by
    rw [hafter.life, hput]
    rfl
  have hentry : (Call.after r s' calls).cache.get? name = some a := by
    rw [hafter.entry, hput]
    exact (Table.get?_put s.cache.entries name name a).trans (if_pos rfl)
  have hfresh : (Call.after r s' calls).cache.isFresh later a =
      decide (later.instant - (freshFrom now document).instant < s.cache.life) := by
    rw [Cache.isFresh, hlife, Assignment.instant_ofJson hread]
  refine ⟨hresolve, hsame, service, hservice, document, hmem, hread, fun hless => ?_, fun hle => ?_⟩
  · exact resolve_of_isFresh hentry (hfresh.trans (decide_eq_true hless))
  · refine exists_sent_resolve hservice hname ?_
    rw [Cache.fresh?, hentry, Option.filter_some, hfresh, decide_eq_false (by omega)]
    rfl

/-! ### Answers with a time of their own -/

namespace Call

/-- A document for `http` that states when it was fetched. -/
def bodyFetched (time : String) : String :=
  "\x7b\"packages\": [\x7b\"name\": \"http\", \"categories\": [], \"fetchedAt\": \"" ++ time ++
    "\"\x7d]\x7d"

/-- A cache without entries, and a service that answers once. -/
def stateFetched (time : String) : State := stateWith "" (bodyFetched time)

/-- The state after the question for `http`. -/
def askedFetched (time : String) : State :=
  (withService.askAny (stateFetched time) noon "http").2

def documentFetched (time : String) : Value :=
  .object [("name", .string "http"), ("categories", .array []), ("fetchedAt", .string time)]

theorem ofJson_documentFetched {time : String} {fetched : Stamp} (now : Stamp)
    (htime : time ≠ "") (hfetched : Time.ofIso? time = some fetched) :
    Assignment.ofJson now (documentFetched time) = .ok (answerFetched fetched.orUniversal) := by
  have hvoid : Assignment.isVoid (.string time) = false := by simpa [Assignment.isVoid] using htime
  have hfilled : Assignment.filled? [("name", .string "http"), ("categories", .array []),
      ("fetchedAt", .string time)] "fetchedAt" = some (.string time) := by
    change Option.filter (fun v => !Assignment.isVoid v) (some (.string time)) = _
    rw [Option.filter_some, hvoid]
    rfl
  unfold Assignment.ofJson documentFetched
  dsimp only [Value.fields?]
  rw [Assignment.readFetched, hfilled]
  dsimp only
  rw [hfetched]
  rfl

/-- What the service tells of `http` has the time that the document states. -/
theorem askAny_stateFetched {time : String} {fetched : Stamp}
    (hbody : Service.readBody? (encodeText (bodyFetched time)).toList =
      some (.object [("packages", .array [documentFetched time])]))
    (htime : time ≠ "") (hfetched : Time.ofIso? time = some fetched) :
    withService.askAny (stateFetched time) noon "http" =
      (.ok (some (answerFetched fetched.orUniversal)), askedFetched time) := by
  obtain ⟨service, hservice, hscheme⟩ := exists_service
  have hanswer : Assignment.ofAnswer noon (.object [("packages", .array [documentFetched time])]) =
      .ok [answerFetched fetched.orUniversal] := by
    change Assignment.ofItems noon [documentFetched time] = _
    rw [Assignment.ofItems, ofJson_documentFetched noon htime hfetched]
    rfl
  have hfetch := fetchOne_stateWith "" hscheme hbody hanswer rfl
  rw [askedFetched, askAny, hservice]
  dsimp only
  rw [stateFetched, ask_of_fetchOne rfl hfetch
    (Service.publish_of_isWritable _ (isWritable_answerFetched fetched.orUniversal))]
  refine Prod.ext ?_ rfl
  change (service.isTaken (.response 201 [])).map (fun _ => some (answerFetched fetched.orUniversal)) = _
  rw [Service.isTaken, if_pos hscheme]
  rfl

/-- The morning after. -/
def nextMorning (hours : Nat) : Stamp := ⟨⟨2024, 5, 21⟩, hours * Time.hour, some 0⟩

def sixFetched : String := "2024-05-20T06:00"

def answerSix : Assignment := answerFetched ⟨⟨2024, 5, 20⟩, 6 * Time.hour, some 0⟩

/-- An answer of six in the morning that was received at noon is used at five the next morning, and
not at six. -/
theorem resolve_again_six :
    (stateFetched sixFetched).cache.fresh? noon "http" = none ∧
    withService.askAny (stateFetched sixFetched) noon "http" =
      (.ok (some answerSix), askedFetched sixFetched) ∧
    (∀ e ∈ [(noon, classify "dio")], e.2.concerns "http" = false) ∧
    withService.resolve (after withService (askedFetched sixFetched) [(noon, classify "dio")])
        (nextMorning 5) "http" =
      (.ok answerSix, after withService (askedFetched sixFetched) [(noon, classify "dio")]) ∧
    ∃ service ∈ withService.service, ∃ more,
      (withService.resolve (after withService (askedFetched sixFetched) [(noon, classify "dio")])
          (nextMorning 6) "http").2.exchange.sent =
        (after withService (askedFetched sixFetched) [(noon, classify "dio")]).exchange.sent ++
          service.question "http" :: more := by
  have hcache : (stateFetched sixFetched).cache.fresh? noon "http" = none := rfl
  have hask : withService.askAny (stateFetched sixFetched) noon "http" =
      (.ok (some answerSix), askedFetched sixFetched) := by
    have hbody : Service.readBody? (encodeText (bodyFetched sixFetched)).toList =
        some (.object [("packages", .array [documentFetched sixFetched])]) :=
      Service.readBody?_of_readValue (Text.append_eq_ofList (Text.append_eq_ofList rfl rfl) rfl)
        rfl rfl
    have hfetched : Time.ofIso? sixFetched = some ⟨⟨2024, 5, 20⟩, 6 * Time.hour, none⟩ := by
      decide +kernel
    exact askAny_stateFetched hbody (by decide) hfetched
  have hcalls : ∀ e ∈ [(noon, classify "dio")], e.2.concerns "http" = false := by simp [concerns]
  have hlife : (stateFetched sixFetched).cache.life = Time.day := rfl
  obtain ⟨-, -, -, -, document, -, hread, hless, -⟩ :=
    resolve_again hcache hask hcalls (nextMorning 5)
  obtain ⟨-, -, service, hservice, document', -, hread', -, hle⟩ :=
    resolve_again hcache hask hcalls (nextMorning 6)
  rw [hlife, ← Assignment.instant_ofJson hread] at hless
  rw [hlife, ← Assignment.instant_ofJson hread'] at hle
  exact ⟨hcache, hask, hcalls, hless (by decide), service, hservice, hle (by decide)⟩

/-- An answer need not be used again for the life of the cache: the time that it states counts, and
an old one makes the package be asked for at once. -/
theorem resolve_again_old :
    ¬ ∀ (r : Resolver) (s s' : State) (now later : Stamp) (name : String) (a : Assignment)
        (calls : List (Stamp × Call)),
      s.cache.fresh? now name = none → r.askAny s now name = (.ok (some a), s') →
      (∀ e ∈ calls, e.2.concerns name = false) → now.instant ≤ later.instant →
      (later.instant - now.instant < s.cache.life →
        r.resolve (after r s' calls) later name = (.ok a, after r s' calls)) ∧
      (s.cache.life ≤ later.instant - now.instant →
        ∃ service ∈ r.service, ∃ more, (r.resolve (after r s' calls) later name).2.exchange.sent =
          (after r s' calls).exchange.sent ++ service.question name :: more) := by
  intro h
  have hbody : Service.readBody? (encodeText (bodyFetched "2024-01-02")).toList =
      some (.object [("packages", .array [documentFetched "2024-01-02"])]) :=
    Service.readBody?_of_readValue (Text.append_eq_ofList (Text.append_eq_ofList rfl rfl) rfl)
      rfl rfl
  have hfetched : Time.ofIso? "2024-01-02" = some ⟨⟨2024, 1, 2⟩, 0, none⟩ := by decide +kernel
  have hask := askAny_stateFetched hbody (by decide) hfetched
  obtain ⟨service, hservice, -⟩ := exists_service
  obtain ⟨hless, -⟩ := h withService (stateFetched "2024-01-02") _ noon noon "http" _ [] rfl hask
    (by simp) (Int.le_refl _)
  have hput : (askedFetched "2024-01-02").cache =
      (stateFetched "2024-01-02").cache.put "http" (answerFetched ⟨⟨2024, 1, 2⟩, 0, some 0⟩) := by
    rw [askAny, hservice] at hask
    exact (ask_eq_some hask).1
  have hnone : (askedFetched "2024-01-02").cache.fresh? noon "http" = none := by
    rw [hput]
    decide +kernel
  -- an answer that is used again sends nothing, yet the package is asked for
  obtain ⟨more, hmore⟩ := exists_sent_resolve hservice (by decide) hnone
  rw [after, List.foldl_nil] at hless
  rw [hless (by decide)] at hmore
  simp at hmore

end Call
end Resolver
end PubspecTidy.Category
