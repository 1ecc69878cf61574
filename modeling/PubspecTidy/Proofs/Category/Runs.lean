import PubspecTidy.Proofs.Category.Lifetime

/-!
# Runs of a resolver

A run is a list of operations, each at a time of its own. Main statements: what an operation that
answers puts into the cache and which requests it sends, told from the cache before and from the
reply to its first request alone.
-/
namespace PubspecTidy.Category

open Json (Value)
open Time (Stamp)

/-! ## What the service tells -/

namespace Service

variable {service : Service} {x x' : Exchange} {now : Stamp} {name : String} {a : Assignment}
  {reply : Reply} {found : List Assignment} {names : List String}

/-- Whether a reply is a response with something to tell. -/
def isAnswer (service : Service) : Reply → Bool
  | .response status _ => status == 200 && service.hasScheme
  | _ => false

/-- What a reply tells: its documents, without those that are no assignments. -/
def told (service : Service) (now : Stamp) (reply : Reply) : List Assignment :=
  if service.isAnswer reply then
    reply.items.filterMap fun document => (Assignment.ofJson now document).toOption
  else []

theorem ofItems_eq {documents : List Value} (h : Assignment.ofItems now documents = .ok found) :
    found = documents.filterMap fun document => (Assignment.ofJson now document).toOption := by
  induction documents generalizing found with
  | nil =>
    cases h
    rfl
  | cons v vs ih =>
    unfold Assignment.ofItems at h
    split at h
    · rename_i b hb
      obtain ⟨rest, hrest, rfl⟩ := map_eq_ok.mp h
      rw [List.filterMap_cons_some (by rw [hb]; rfl), ← ih hrest]
    · cases h
    · rename_i e _ hb
      rw [List.filterMap_cons_none (by rw [hb]; rfl), ih h]

/-- The documents of a response that can be read are those of its packages. -/
theorem ofItems_of_ofAnswer {status : Int} {body : List UInt8} {answer : Value}
    (hbody : readBody? body = some answer) (h : Assignment.ofAnswer now answer = .ok found) :
    Assignment.ofItems now (Reply.response status body).items = .ok found := by
  unfold Assignment.ofAnswer at h
  unfold Reply.items
  dsimp only
  rw [hbody, Option.bind_some]
  cases hpackages : answer.field? "packages" with
  | none =>
    rw [hpackages] at h
    exact h
  | some value =>
    rw [hpackages] at h
    cases value <;> exact h

theorem told_eq (h : service.assignmentsIn now reply = .ok found) :
    found = service.told now reply := by
  unfold told
  cases reply with
  | invalidAddress => cases h
  | unreachable =>
    cases h
    rfl
  | response status body =>
    have hanswer : service.isAnswer (.response status body) =
        !(decide (status ≠ 200) || !service.hasScheme) := by
      simp [isAnswer, BEq.beq]
    rw [hanswer]
    rw [assignmentsIn] at h
    cases hsilent : (decide (status ≠ 200) || !service.hasScheme) with
    | true =>
      rw [hsilent] at h
      cases h
      rfl
    | false =>
      rw [hsilent] at h
      cases hbody : readBody? body with
      | none =>
        rw [hbody] at h
        cases h
        simp [Reply.items, hbody]
      | some answer =>
        rw [hbody] at h
        cases hread : Assignment.ofAnswer now answer with
        | ok found' =>
          simp only [hread] at h
          cases h
          exact ofItems_eq (ofItems_of_ofAnswer hbody hread)
        | error e =>
          simp only [hread] at h
          cases h

/-- The request that publishes an assignment. -/
def publication (service : Service) (a : Assignment) : Request :=
  .publish (service.address.join "packages").text a.toJson

/-- What is published is sent, whatever the reply. -/
theorem publish_ok {taken : Bool} (h : service.publish x a = (.ok taken, x')) :
    x'.sent = x.sent ++ [service.publication a] := by
  unfold publish at h
  split at h
  · cases h
  split at h
  · cases h
  · obtain ⟨-, rfl⟩ := Prod.mk.inj h
    exact sent_send x _

/-- What the service tells of a package: the first assignment of that very name in the reply to the
question for it. A name that cannot be written into a request is not asked for. -/
def answerTo? (service : Service) (x : Exchange) (now : Stamp) (name : String) :
    Option Assignment :=
  if Text.holdsHalf name.toList then none
  else (service.told now (x.send (service.question name)).1).find? (·.name == name)

/-- The question for a package, if there is a way to write it. -/
def questions (service : Service) (name : String) : List Request :=
  if Text.holdsHalf name.toList then [] else [service.question name]

theorem fetchOne_ok {answer : Option Assignment}
    (h : service.fetchOne x now name = (.ok answer, x')) :
    answer = service.answerTo? x now name ∧ x'.sent = x.sent ++ service.questions name := by
  unfold answerTo? questions
  cases hhalf : Text.holdsHalf name.toList with
  | true =>
    rw [fetchOne_of_holdsHalf hhalf] at h
    cases h
    exact ⟨rfl, (List.append_nil _).symm⟩
  | false =>
    rw [fetchOne_eq hhalf] at h
    obtain ⟨hanswer, rfl⟩ := Prod.mk.inj h
    obtain ⟨found, hfound, rfl⟩ := map_eq_ok.mp hanswer
    rw [told_eq hfound]
    exact ⟨rfl, sent_send x _⟩

/-- The request for several packages; none is sent for no packages, nor if there is no way to write
it. -/
def questionFor? (service : Service) (names : List String) : Option Request :=
  if names.isEmpty || names.any fun name => Text.holdsHalf name.toList then none
  else some (.fetch (service.address.join "category").text (Text.join "," names))

/-- What the service tells of several packages. -/
def answersTo (service : Service) (x : Exchange) (now : Stamp) (names : List String) :
    List Assignment :=
  ((service.questionFor? names).map fun q => service.told now (x.send q).1).getD []

theorem fetch_ok (h : service.fetch x now names = (.ok found, x')) :
    found = service.answersTo x now names ∧
      x'.sent = x.sent ++ (service.questionFor? names).toList := by
  unfold answersTo questionFor?
  unfold fetch at h
  split at h
  · rename_i hnone
    obtain ⟨hfound, rfl⟩ := Prod.mk.inj h
    cases hfound
    rw [if_pos hnone]
    exact ⟨rfl, (List.append_nil _).symm⟩
  · rename_i hsome
    obtain ⟨hfound, rfl⟩ := Prod.mk.inj h
    rw [if_neg hsome]
    exact ⟨told_eq hfound, sent_send x _⟩

end Service

/-! ## The cache -/

namespace Cache

variable {c : Cache} {name : String} {found : List Assignment}

theorem names_put (c : Cache) (name : String) (a : Assignment) :
    (c.put name a).names = if name ∈ c.names then c.names else c.names ++ [name] :=
  Table.keys_put c.entries name a

theorem get?_put (c : Cache) (name other : String) (a : Assignment) :
    (c.put name a).get? other = if name = other then some a else c.get? other :=
  Table.get?_put c.entries name other a

/-- The cache with several assignments put in, one after the other. -/
def putAll (c : Cache) (found : List Assignment) : Cache :=
  found.foldl (fun c a => c.put a.name a) c

theorem names_putAll (h : ∀ a ∈ found, a.name ∈ c.names) : (c.putAll found).names = c.names := by
  induction found generalizing c with
  | nil => rfl
  | cons a found ih =>
    obtain ⟨ha, hfound⟩ := List.forall_mem_cons.mp h
    have hput : (c.put a.name a).names = c.names := by rw [names_put, if_pos ha]
    exact (ih (hput ▸ hfound)).trans hput

/-- The last assignment of a name counts. -/
theorem get?_putAll (c : Cache) (found : List Assignment) (name : String) :
    (c.putAll found).get? name =
      ((found.filter fun a => a.name == name).getLast?).or (c.get? name) := by
  induction found generalizing c with
  | nil => rfl
  | cons a found ih =>
    have hput := get?_put c a.name name a
    refine (ih (c.put a.name a)).trans ?_
    rw [hput]
    by_cases ha : a.name = name
    · rw [if_pos ha, List.filter_cons_of_pos (by simpa using ha), List.getLast?_cons]
      cases (found.filter fun a => a.name == name).getLast? <;> rfl
    · rw [if_neg ha, List.filter_cons_of_neg (by simpa using ha)]

/-- The names under which the file holds an assignment. -/
def storedNames (c : Cache) (t : FileTree) (now : Stamp) : List String :=
  ((c.storedFields t).filter fun field => (Assignment.ofJson now field.2).isOk).map Prod.fst

theorem keys_readEntries {now : Stamp} {fields : List (String × Value)}
    (h : (readEntries now fields).2 = none) :
    Table.keys (readEntries now fields).1 =
      (fields.filter fun field => (Assignment.ofJson now field.2).isOk).map Prod.fst := by
  induction fields with
  | nil => rfl
  | cons field fields ih =>
    obtain ⟨name, v⟩ := field
    unfold readEntries at h ⊢
    split at h
    · rename_i a ha
      rw [List.filter_cons_of_pos (by rw [ha]; rfl), List.map_cons, ← ih h]
      rfl
    · cases h
    · rename_i e _ he
      rw [List.filter_cons_of_neg (by rw [he]; exact Bool.false_ne_true), ← ih h]

/-- A cache that is loaded without a fault has exactly the names in its file. -/
theorem names_load {t : FileTree} {now : Stamp} (h : (c.load t now).1 = none) :
    (c.load t now).2.names = c.storedNames t now :=
  keys_readEntries h

end Cache

/-! ## What an operation does -/

namespace Resolver

variable {r : Resolver} {s s' : State} {service : Service} {now : Stamp} {name : String}
  {a : Assignment}

/-- What the service tells is found, put into the cache and published. -/
theorem resolve_of_told {reply receipt : Reply} {replies : List Reply} {found : List Assignment}
    {taken : Bool} (hservice : r.service = some service) (hpublishes : r.publishes = true)
    (hnone : s.cache.fresh? now name = none) (hname : Text.holdsHalf name.toList = false)
    (hreplies : s.exchange.replies = reply :: receipt :: replies)
    (hread : service.assignmentsIn now reply = .ok found)
    (hfound : found.find? (·.name == name) = some a) (ha : a.IsWritable)
    (htaken : service.isTaken receipt = .ok taken) :
    r.resolve s now name = (.ok a, { s.save now name a with
      exchange :=
        ⟨replies, s.exchange.sent ++ [service.question name] ++ [service.publication a]⟩ }) := by
  have hfetch := Service.fetchOne_of_assignmentsIn hname hreplies hread
  rw [hfound] at hfetch
  have hpublish : service.publish ⟨receipt :: replies, s.exchange.sent ++ [service.question name]⟩ a =
      (.ok taken,
        ⟨replies, s.exchange.sent ++ [service.question name] ++ [service.publication a]⟩) :=
    (Service.publish_of_isWritable _ ha).trans (Prod.ext htaken rfl)
  rw [resolve, hnone, askAny, hservice]
  dsimp only
  rw [ask_of_fetchOne hpublishes hfetch hpublish]
  rfl

/-- What the service does not tell is guessed. -/
theorem resolve_of_untold {reply : Reply} {replies : List Reply} {found : List Assignment}
    (hservice : r.service = some service) (hnone : s.cache.fresh? now name = none)
    (hname : Text.holdsHalf name.toList = false)
    (hreplies : s.exchange.replies = reply :: replies)
    (hread : service.assignmentsIn now reply = .ok found)
    (hfound : found.find? (·.name == name) = none) :
    r.resolve s now name = (.ok (guess now name),
      ({ s with exchange := ⟨replies, s.exchange.sent ++ [service.question name]⟩ } : State).save
        now name (guess now name)) := by
  have hfetch := Service.fetchOne_of_assignmentsIn hname hreplies hread
  rw [hfound] at hfetch
  rw [resolve, hnone, askAny, hservice]
  dsimp only
  rw [ask, hfetch]
  rfl

/-- What the service, if there is one, tells of a package. -/
def told? (r : Resolver) (x : Exchange) (now : Stamp) (name : String) : Option Assignment :=
  r.service.bind fun service => service.answerTo? x now name

/-- The requests that looking for a package takes, where the cache does not help: the question, and
the publication of what was told if that is switched on. -/
def inquiries (r : Resolver) (service : Service) (x : Exchange) (now : Stamp) (name : String) :
    List Request :=
  service.questions name ++
    if r.publishes then ((service.answerTo? x now name).map service.publication).toList else []

theorem share_ok (h : r.share service s a = (.ok (), s')) :
    s'.cache = s.cache ∧ s'.tree = s.tree ∧ s'.exchange.sent =
      s.exchange.sent ++ if r.publishes then [service.publication a] else [] := by
  unfold share at h
  split at h
  · rename_i hpublishes
    obtain ⟨htaken, rfl⟩ := Prod.mk.inj h
    obtain ⟨taken, htaken, -⟩ := map_eq_ok.mp htaken
    rw [if_pos hpublishes]
    exact ⟨rfl, rfl, Service.publish_ok (Prod.ext htaken rfl)⟩
  · rename_i hpublishes
    cases h
    rw [if_neg hpublishes]
    exact ⟨rfl, rfl, (List.append_nil _).symm⟩

/-- What the service tells is put into the cache and written to its file. -/
theorem ask_ok {answer : Option Assignment} (h : r.ask service s now name = (.ok answer, s')) :
    answer = service.answerTo? s.exchange now name ∧
      (s'.cache, s'.tree) = answer.elim (s.cache, s.tree) (s.cache.save s.tree now name) ∧
      s'.exchange.sent = s.exchange.sent ++ r.inquiries service s.exchange now name := by
  unfold inquiries
  unfold ask at h
  cases hfetch : service.fetchOne s.exchange now name with
  | mk found x =>
    rw [hfetch] at h
    cases found with
    | error f => cases h
    | ok found =>
      obtain ⟨hfound, hsent⟩ := Service.fetchOne_ok hfetch
      rw [← hfound]
      cases found with
      | none =>
        cases h
        refine ⟨rfl, rfl, hsent.trans ?_⟩
        simp
      | some a =>
        dsimp only at h
        split at h
        · rename_i hshare
          cases h
          obtain ⟨hcache, htree, hshared⟩ := share_ok hshare
          refine ⟨rfl, Prod.ext hcache htree, hshared.trans ?_⟩
          change x.sent ++ _ = _
          rw [hsent, List.append_assoc]
          rfl
        · cases h

theorem askAny_ok {answer : Option Assignment} (h : r.askAny s now name = (.ok answer, s')) :
    answer = r.told? s.exchange now name ∧
      (s'.cache, s'.tree) = answer.elim (s.cache, s.tree) (s.cache.save s.tree now name) ∧
      s'.exchange.sent = s.exchange.sent ++
        r.service.elim [] fun service => r.inquiries service s.exchange now name := by
  unfold told?
  unfold askAny at h
  cases hservice : r.service with
  | none =>
    rw [hservice] at h
    cases h
    exact ⟨rfl, rfl, (List.append_nil _).symm⟩
  | some service =>
    rw [hservice] at h
    exact ask_ok h

/-- A package is looked for in the cache. Only what is not there, or not any more, is asked for and
in the end guessed, and then it is put into the cache. -/
theorem resolve_ok (h : r.resolve s now name = (.ok a, s')) :
    (s.cache.fresh? now name = some a ∧ s' = s) ∨
    (s.cache.fresh? now name = none ∧
      a = (r.told? s.exchange now name).getD (guess now name) ∧
      (s'.cache, s'.tree) = s.cache.save s.tree now name a ∧
      s'.exchange.sent = s.exchange.sent ++
        r.service.elim [] fun service => r.inquiries service s.exchange now name) := by
  unfold resolve at h
  cases hfresh : s.cache.fresh? now name with
  | some b =>
    rw [hfresh] at h
    cases h
    exact .inl ⟨rfl, rfl⟩
  | none =>
    rw [hfresh] at h
    dsimp only at h
    refine .inr ⟨rfl, ?_⟩
    split at h
    · cases h
    · rename_i b s₁ hask
      cases h
      obtain ⟨htold, hsaved, hsent⟩ := askAny_ok hask
      rw [← htold]
      exact ⟨rfl, hsaved, hsent⟩
    · rename_i s₁ hask
      cases h
      obtain ⟨htold, hsame, hsent⟩ := askAny_ok hask
      obtain ⟨hcache, htree⟩ := Prod.mk.inj hsame
      rw [← htold]
      refine ⟨rfl, ?_, hsent⟩
      rw [← hcache, ← htree]
      rfl

/-- What the service tells of all packages in the cache. -/
def refetched (r : Resolver) (s : State) (now : Stamp) : List Assignment :=
  r.service.elim [] fun service => service.answersTo s.exchange now s.cache.names

theorem cache_saveAll (names : List String) (now : Stamp) (found : List Assignment) (s : State) :
    (saveAll names now found s).2.cache =
      s.cache.putAll (found.filter fun a => names.contains a.name) := by
  induction found generalizing s with
  | nil => rfl
  | cons a rest ih =>
    rw [saveAll]
    split
    · rename_i hname
      have hfilter := List.filter_cons_of_pos (p := fun a => names.contains a.name) (l := rest) hname
      rw [hfilter]
      exact ih (s.save now a.name a)
    · rename_i hname
      have hfilter := List.filter_cons_of_neg (p := fun a => names.contains a.name) (l := rest) hname
      rw [hfilter]
      exact ih s

/-- What is told of the packages in the cache is put into it. -/
theorem refresh_ok {count : Nat} (h : r.refresh s now = (.ok count, s')) :
    s'.cache = s.cache.putAll
        ((r.refetched s now).filter fun a => s.cache.names.contains a.name) ∧
      s'.exchange.sent = s.exchange.sent ++
        (r.service.bind fun service => service.questionFor? s.cache.names).toList := by
  unfold refetched
  unfold refresh at h
  cases hservice : r.service with
  | none =>
    rw [hservice] at h
    cases h
    exact ⟨rfl, (List.append_nil _).symm⟩
  | some service =>
    rw [hservice] at h
    dsimp only at h
    split at h
    · cases h
    · rename_i found hfound
      obtain ⟨htold, hsent⟩ := Service.fetch_ok (Prod.ext hfound rfl)
      obtain ⟨-, rfl⟩ := Prod.mk.inj h
      rw [cache_saveAll, exchange_saveAll, htold]
      exact ⟨rfl, hsent⟩

/-- One request asks for all packages in the cache anew. -/
theorem refresh_of_questionFor? {reply : Reply} {replies : List Reply} {found : List Assignment}
    {question : Request} (hservice : r.service = some service)
    (hquestion : service.questionFor? s.cache.names = some question)
    (hreplies : s.exchange.replies = reply :: replies)
    (hread : service.assignmentsIn now reply = .ok found) :
    r.refresh s now =
      (.ok (saveAll s.cache.names now found
          { s with exchange := ⟨replies, s.exchange.sent ++ [question]⟩ }).1,
        (saveAll s.cache.names now found
          { s with exchange := ⟨replies, s.exchange.sent ++ [question]⟩ }).2) := by
  unfold Service.questionFor? at hquestion
  split at hquestion
  · cases hquestion
  rename_i hsome
  cases hquestion
  unfold refresh Service.fetch Exchange.send
  rw [hservice]
  dsimp only
  rw [if_neg hsome, hreplies]
  dsimp only
  rw [hread]

/-! ## Operations -/

/-- What can be asked of a resolver: a call, or that the cache be emptied. -/
inductive Operation where
  | call (c : Call)
  | clear
  deriving DecidableEq, Repr

namespace Operation

open Call (bodyText noon stateWith withService)

/-- The answer to an operation, and what it changes. -/
def act (r : Resolver) (s : State) (now : Stamp) : Operation → Except Fault Answer × State
  | .call c => c.act r s now
  | .clear => (.ok .done, s.clear)

/-- The package that an operation looks for. -/
def asked? : Operation → Option String
  | .call (.resolve name) => some name
  | .call (.classify name) => some name
  | .call (.categories name) => some name
  | _ => none

/-- What an operation that looks for a package tells of it. -/
def tells (a : Assignment) : Operation → Answer
  | .call (.classify _) => .category a.primary
  | .call (.categories _) => .categories a.categories
  | _ => .assignment a

/-- What a run changes, each operation at a time of its own. -/
def after (r : Resolver) (s : State) (run : List (Stamp × Operation)) : State :=
  run.foldl (fun s e => (e.2.act r s e.1).2) s

/-- Every operation of a run gives an answer. -/
def Answers (r : Resolver) (s : State) : List (Stamp × Operation) → Prop
  | [] => True
  | e :: rest => (e.2.act r s e.1).1.isOk = true ∧ Answers r (e.2.act r s e.1).2 rest

instance decidableAnswers (r : Resolver) (s : State) :
    (run : List (Stamp × Operation)) → Decidable (Answers r s run)
  | [] => .isTrue trivial
  | e :: rest =>
    have := decidableAnswers r (e.2.act r s e.1).2 rest
    inferInstanceAs (Decidable (_ ∧ _))

variable {o : Operation} {answer : Answer} {e : Stamp × Operation}
  {earlier later run : List (Stamp × Operation)}

theorem after_append (r : Resolver) (s : State) (earlier later : List (Stamp × Operation)) :
    after r s (earlier ++ later) = after r (after r s earlier) later :=
  List.foldl_append

theorem answers_append :
    Answers r s (earlier ++ later) ↔ Answers r s earlier ∧ Answers r (after r s earlier) later := by
  induction earlier generalizing s with
  | nil => exact ⟨fun h => ⟨trivial, h⟩, And.right⟩
  | cons e earlier ih => exact (and_congr_right fun _ => ih).trans and_assoc.symm

/-- The first operation of a run that answers gives its answer, and what is left of the run answers. -/
theorem exists_of_answers_cons (h : Answers r s ((now, o) :: later)) :
    ∃ answer s', o.act r s now = (.ok answer, s') ∧ Answers r s' later := by
  obtain ⟨hanswer, hlater⟩ := h
  cases hact : o.act r s now with
  | mk found s' =>
    rw [hact] at hanswer hlater
    cases found with
    | error f => cases hanswer
    | ok answer => exact ⟨answer, s', rfl, hlater⟩

theorem after_cons_of_act (h : o.act r s now = (.ok answer, s')) :
    after r s ((now, o) :: later) = after r s' later := by
  rw [after, List.foldl_cons, h]
  rfl

/-- In a run that answers, an operation gives its answer and leaves what the run up to it leaves. -/
theorem exists_of_answers (h : Answers r s (earlier ++ e :: later)) :
    ∃ answer, e.2.act r (after r s earlier) e.1 = (.ok answer, after r s (earlier ++ [e])) := by
  obtain ⟨answer, s', hact, -⟩ := exists_of_answers_cons ((answers_append).mp h).2
  refine ⟨answer, hact.trans ?_⟩
  rw [after_append, after_cons_of_act hact]
  rfl

/-- What an operation that looks for a package answers is told from the assignment that is found. -/
theorem exists_of_asked (hasked : o.asked? = some name) (h : o.act r s now = (.ok answer, s')) :
    ∃ a, r.resolve s now name = (.ok a, s') ∧ answer = o.tells a := by
  cases o with
  | clear => cases hasked
  | call c =>
    cases c with
    | load => cases hasked
    | refresh => cases hasked
    | resolve other =>
      cases hasked
      obtain ⟨hanswer, rfl⟩ := Prod.mk.inj h
      obtain ⟨a, ha, rfl⟩ := map_eq_ok.mp hanswer
      exact ⟨a, Prod.ext (mapError_eq_ok.mp ha) rfl, rfl⟩
    | categories other =>
      cases hasked
      obtain ⟨hanswer, rfl⟩ := Prod.mk.inj h
      obtain ⟨a, ha, rfl⟩ := map_eq_ok.mp hanswer
      exact ⟨a, Prod.ext (mapError_eq_ok.mp ha) rfl, rfl⟩
    | classify other =>
      cases hasked
      obtain ⟨hanswer, rfl⟩ := Prod.mk.inj h
      obtain ⟨text, htext, rfl⟩ := map_eq_ok.mp hanswer
      obtain ⟨a, ha, rfl⟩ := map_eq_ok.mp (mapError_eq_ok.mp htext)
      exact ⟨a, Prod.ext ha rfl, rfl⟩

/-- An operation that looks for a package answers what is found. -/
theorem act_of_resolve (hasked : o.asked? = some name) (h : r.resolve s now name = (.ok a, s')) :
    o.act r s now = (.ok (o.tells a), s') := by
  cases o with
  | clear => cases hasked
  | call c =>
    cases c with
    | load => cases hasked
    | refresh => cases hasked
    | _ =>
      cases hasked
      simp [act, Call.act, primary, h, tells, Except.map, Except.mapError]

theorem act_of_load (h : s.load now = (none, s')) : (call .load).act r s now = (.ok .done, s') := by
  simp [act, Call.act, h]

theorem act_of_refresh {count : Nat} (h : r.refresh s now = (.ok count, s')) :
    (call .refresh).act r s now = (.ok (.count count), s') := by
  simp [act, Call.act, h, Except.map, Except.mapError]

theorem answers_cons_of_act (h : o.act r s now = (.ok answer, s')) :
    Answers r s ((now, o) :: run) ↔ Answers r s' run := by
  rw [Answers, h]
  exact and_iff_right rfl

theorem exists_of_refresh (h : (call .refresh).act r s now = (.ok answer, s')) :
    ∃ count, r.refresh s now = (.ok count, s') := by
  obtain ⟨hanswer, rfl⟩ := Prod.mk.inj h
  obtain ⟨count, hcount, -⟩ := map_eq_ok.mp hanswer
  exact ⟨count, Prod.ext (mapError_eq_ok.mp hcount) rfl⟩

theorem load_of_act (h : (call .load).act r s now = (.ok answer, s')) :
    (s.cache.load s.tree now).1 = none ∧ s' = (s.load now).2 := by
  cases hfault : (s.cache.load s.tree now).1 with
  | none =>
    have hload : (s.load now).1 = none := hfault
    simp only [act, Call.act, hload] at h
    exact ⟨rfl, (Prod.mk.inj h).2.symm⟩
  | some f =>
    have hload : (s.load now).1 = some f := hfault
    simp only [act, Call.act, hload] at h
    cases h

/-! ### A run -/

/-- A file with `dio`, and replies of which the last tells of `http` twice and of a package that
nobody looked for. -/
def startOfMixed : State :=
  { stateWith "\x7b\"dio\": \x7b\"name\": \"dio\", \"categories\": []\x7d\x7d" bodyText with
    exchange.replies := [.response 200 (encodeText bodyText).toList, .response 201 [],
      .response 404 [], .response 200 (encodeText ("\x7b\"packages\": [7, " ++
        "\x7b\"name\": \"http\", \"categories\": [\"Old\"]\x7d, " ++
        "\x7b\"name\": \"lints\", \"categories\": []\x7d, " ++
        "\x7b\"name\": \"http\", \"categories\": [\"New\"]\x7d]\x7d")).toList] }

/-- The service knows `http`, but not `yaml`, and is asked anew for both. -/
def mixedRun : List (Stamp × Operation) :=
  [(noon, call .load), (noon, call (.resolve "http")), (noon, call (.classify "yaml")),
    (noon, call .refresh), (noon, call (.categories "dio")), (noon, call (.classify "yaml"))]

/-- What is told of a package by a document with these categories and nothing else. -/
def plainAnswer (name : String) (categories : List String) : Assignment where
  name := name
  categories := categories
  primary := primaryOf categories
  source := Assignment.remoteSource
  confidence := Assignment.usualConfidence
  fetched := noon.orUniversal

/-- The document in the last reply. -/
def lastDocument : Value :=
  .object [("packages", .array [.int 7,
    .object [("name", .string "http"), ("categories", .ofStrings ["Old"])],
    .object [("name", .string "lints"), ("categories", .ofStrings [])],
    .object [("name", .string "http"), ("categories", .ofStrings ["New"])]])]

theorem ofAnswer_lastDocument : Assignment.ofAnswer noon lastDocument =
    .ok [plainAnswer "http" ["Old"], plainAnswer "lints" [], plainAnswer "http" ["New"]] := by
  have hseven : Assignment.ofJson noon (.int 7) = .error .notObject := rfl
  have hpackages : lastDocument.field? "packages" = some (.array [.int 7,
    .object [("name", .string "http"), ("categories", .ofStrings ["Old"])],
    .object [("name", .string "lints"), ("categories", .ofStrings [])],
    .object [("name", .string "http"), ("categories", .ofStrings ["New"])]]) := rfl
  rw [Assignment.ofAnswer, hpackages]
  simp only [Assignment.ofItems, hseven, Assignment.ofJson_name_categories]
  rfl

set_option maxRecDepth 1000 in
theorem exists_replies_startOfMixed : ∃ body,
    startOfMixed.exchange.replies = [.response 200 (encodeText bodyText).toList, .response 201 [],
      .response 404 [], .response 200 body] ∧ Service.readBody? body = some lastDocument :=
  ⟨_, rfl, Service.readBody?_of_readValue (Text.append_eq_ofList
    (Text.append_eq_ofList (Text.append_eq_ofList rfl rfl) rfl) rfl) rfl rfl⟩

/-- The state once the file is read. -/
def loadedMixed : State :=
  { startOfMixed with
    cache := { startOfMixed.cache with entries := [("dio", plainAnswer "dio" [])] } }

theorem storedFields_startOfMixed : startOfMixed.cache.storedFields startOfMixed.tree =
    [("dio", .object [("name", .string "dio"), ("categories", .ofStrings [])])] :=
  Cache.storedFields_of_read rfl (Json.read?_of_readValue rfl rfl)

theorem load_startOfMixed : startOfMixed.load noon = (none, loadedMixed) := by
  rw [State.load, Cache.load, storedFields_startOfMixed, Cache.readEntries,
    Assignment.ofJson_name_categories]
  rfl

/-- The service tells of `http`, which is published. -/
theorem exists_resolve_http {body : List UInt8} (hreplies : startOfMixed.exchange.replies =
    [.response 200 (encodeText bodyText).toList, .response 201 [], .response 404 [],
      .response 200 body]) :
    ∃ s, withService.resolve loadedMixed noon "http" = (.ok (plainAnswer "http" []), s) ∧
      s.cache = loadedMixed.cache.put "http" (plainAnswer "http" []) ∧
      s.exchange.replies = [.response 404 [], .response 200 body] ∧ s.exchange.sent.length = 2 := by
  obtain ⟨service, hservice, hscheme⟩ := Call.exists_service
  have hread : service.assignmentsIn noon (.response 200 (encodeText bodyText).toList) =
      .ok [plainAnswer "http" []] :=
    Service.assignmentsIn_of_readBody hscheme Call.readBody?_bodyText rfl
  have htaken : service.isTaken (.response 201 []) = .ok true := if_pos hscheme
  exact ⟨_, resolve_of_told hservice rfl rfl (by decide) hreplies hread rfl
    (Call.isWritable_answerFetched _) htaken, rfl, rfl, rfl⟩

/-- The service does not know `yaml`. -/
theorem exists_resolve_yaml {reply : Reply} (hcache : s.cache.get? "yaml" = none)
    (hreplies : s.exchange.replies = [.response 404 [], reply]) :
    ∃ s', withService.resolve s noon "yaml" = (.ok (guess noon "yaml"), s') ∧
      s'.cache = s.cache.put "yaml" (guess noon "yaml") ∧ s'.exchange.replies = [reply] ∧
      s'.exchange.sent.length = s.exchange.sent.length + 1 := by
  obtain ⟨service, hservice, -⟩ := Call.exists_service
  have hnone : s.cache.fresh? noon "yaml" = none := by
    rw [Cache.fresh?, hcache]
    rfl
  have hread : service.assignmentsIn noon (.response 404 []) = .ok [] := rfl
  exact ⟨_, resolve_of_untold hservice hnone (by decide) hreplies hread rfl, rfl, rfl,
    List.length_append⟩

/-- The service tells of `http` twice, and of a package that is not in the cache. -/
theorem exists_refresh {body : List UInt8} (hbody : Service.readBody? body = some lastDocument)
    (hnames : s.cache.names = ["dio", "http", "yaml"])
    (hreplies : s.exchange.replies = [.response 200 body]) :
    ∃ count s', withService.refresh s noon = (.ok count, s') ∧
      s'.cache = s.cache.putAll [plainAnswer "http" ["Old"], plainAnswer "http" ["New"]] ∧
      s'.exchange.sent.length = s.exchange.sent.length + 1 := by
  obtain ⟨service, hservice, hscheme⟩ := Call.exists_service
  obtain ⟨question, hquestion⟩ : ∃ question,
      service.questionFor? s.cache.names = some question := by
    rw [hnames]
    exact ⟨_, if_neg (by decide)⟩
  have hread := Service.assignmentsIn_of_readBody hscheme hbody ofAnswer_lastDocument
  refine ⟨_, _, refresh_of_questionFor? hservice hquestion hreplies hread, ?_, ?_⟩
  · rw [cache_saveAll, hnames]
    rfl
  · rw [exchange_saveAll]
    exact List.length_append

/-- The run answers. It takes two questions, one publication and one request for all three packages. -/
theorem answers_mixedRun : Answers withService startOfMixed mixedRun ∧
    (after withService startOfMixed mixedRun).exchange.sent.length = 4 := by
  obtain ⟨body, hreplies, hbody⟩ := exists_replies_startOfMixed
  obtain ⟨s₁, hhttp, hcache₁, hreplies₁, hsent₁⟩ := exists_resolve_http hreplies
  have hunknown : s₁.cache.get? "yaml" = none := by
    rw [hcache₁]
    rfl
  obtain ⟨s₂, hyaml, hcache₂, hreplies₂, hsent₂⟩ := exists_resolve_yaml hunknown hreplies₁
  have hnames : s₂.cache.names = ["dio", "http", "yaml"] := by
    rw [hcache₂, hcache₁]
    rfl
  obtain ⟨count, s₃, hrefresh, hcache₃, hsent₃⟩ := exists_refresh hbody hnames hreplies₂
  rw [hcache₂, hcache₁] at hcache₃
  -- what is left is fresh
  have hdio : withService.resolve s₃ noon "dio" = (.ok (plainAnswer "dio" []), s₃) := by
    refine resolve_of_isFresh ?_ (by rw [hcache₃]; decide)
    rw [hcache₃]
    rfl
  have hagain : withService.resolve s₃ noon "yaml" = (.ok (guess noon "yaml"), s₃) := by
    refine resolve_of_isFresh ?_ (by rw [hcache₃]; decide)
    rw [hcache₃]
    rfl
  have hload := act_of_load (r := withService) load_startOfMixed
  have hhttp := act_of_resolve (o := call (.resolve "http")) rfl hhttp
  have hyaml := act_of_resolve (o := call (.classify "yaml")) rfl hyaml
  have hrefresh := act_of_refresh hrefresh
  have hdio := act_of_resolve (o := call (.categories "dio")) rfl hdio
  have hagain := act_of_resolve (o := call (.classify "yaml")) rfl hagain
  rw [mixedRun, answers_cons_of_act hload, answers_cons_of_act hhttp, answers_cons_of_act hyaml,
    answers_cons_of_act hrefresh, answers_cons_of_act hdio, answers_cons_of_act hagain,
    after_cons_of_act hload, after_cons_of_act hhttp, after_cons_of_act hyaml,
    after_cons_of_act hrefresh, after_cons_of_act hdio, after_cons_of_act hagain]
  refine ⟨trivial, ?_⟩
  change s₃.exchange.sent.length = 4
  rw [hsent₃, hsent₂, hsent₁]

end Operation
end Resolver
end PubspecTidy.Category
