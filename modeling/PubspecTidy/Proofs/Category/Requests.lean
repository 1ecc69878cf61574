import PubspecTidy.Proofs.Category.Runs

/-!
# The requests of a run

Main statement: only what the service has just told of a package is ever published, and what becomes
of the publication changes nothing.
-/
namespace PubspecTidy.Category.Resolver.Operation

open Call (withService)
open Time (Stamp)

variable {r : Resolver} {s s' : State} {service : Service} {now : Stamp} {name : String}
  {a : Assignment} {o : Operation} {answer : Answer} {run : List (Stamp × Operation)}

/-- The requests that an operation sends. -/
inductive Sends (r : Resolver) (service : Service) (s : State) (now : Stamp) :
    Operation → List Request → Prop where
  /-- What is fresh is not asked for. -/
  | fresh {o : Operation} {name : String} {a : Assignment} (hasked : o.asked? = some name)
      (hfresh : s.cache.fresh? now name = some a) : Sends r service s now o []
  /-- There is no way to write the question. -/
  | unwritable {o : Operation} {name : String} (hasked : o.asked? = some name)
      (hnone : s.cache.fresh? now name = none) (hname : Text.holdsHalf name.toList = true) :
      Sends r service s now o []
  /-- The reply does not tell of the package, which is guessed. -/
  | guessed {o : Operation} {name : String} (hasked : o.asked? = some name)
      (hnone : s.cache.fresh? now name = none) (hname : Text.holdsHalf name.toList = false)
      (htold : (service.told now (s.exchange.send (service.question name)).1).find?
        (·.name == name) = none) : Sends r service s now o [service.question name]
  /-- The first that the reply tells of the package is published, unless that is switched off. -/
  | told {o : Operation} {name : String} {a : Assignment} (hasked : o.asked? = some name)
      (hnone : s.cache.fresh? now name = none) (hname : Text.holdsHalf name.toList = false)
      (htold : (service.told now (s.exchange.send (service.question name)).1).find?
        (·.name == name) = some a) :
      Sends r service s now o
        (service.question name :: if r.publishes then [service.publication a] else [])
  /-- All packages in the cache are asked for in one request. -/
  | refresh : Sends r service s now (call .refresh) (service.questionFor? s.cache.names).toList
  | load : Sends r service s now (call .load) []
  | clear : Sends r service s now clear []

/-- The requests of a run, operation by operation. -/
inductive Trace (r : Resolver) (service : Service) :
    State → List (Stamp × Operation) → List Request → Prop where
  | nil {s : State} : Trace r service s [] []
  | cons {s : State} {now : Stamp} {o : Operation} {rest : List (Stamp × Operation)}
      {requests more : List Request} (hfirst : Sends r service s now o requests)
      (hrest : Trace r service (o.act r s now).2 rest more) :
      Trace r service s ((now, o) :: rest) (requests ++ more)

/-- An operation that looks for a package sends nothing, or the question for it and, at most, what
the reply tells of it. -/
theorem sends_of_asked (hasked : o.asked? = some name)
    (hnone : s.cache.fresh? now name = none) :
    Sends r service s now o (r.inquiries service s.exchange now name) := by
  unfold inquiries Service.questions Service.answerTo?
  cases hname : Text.holdsHalf name.toList with
  | true => simpa using Sends.unwritable hasked hnone hname
  | false =>
    cases htold : (service.told now (s.exchange.send (service.question name)).1).find?
        (·.name == name) with
    | none => simpa using Sends.guessed hasked hnone hname htold
    | some a => simpa using Sends.told hasked hnone hname htold

theorem sends_of_act (hservice : r.service = some service)
    (h : o.act r s now = (.ok answer, s')) :
    ∃ requests, s'.exchange.sent = s.exchange.sent ++ requests ∧
      Sends r service s now o requests := by
  cases hasked : o.asked? with
  | some name =>
    obtain ⟨a, hresolve, -⟩ := exists_of_asked hasked h
    rcases resolve_ok hresolve with ⟨hfresh, rfl⟩ | ⟨hnone, -, -, hsent⟩
    · exact ⟨[], (List.append_nil _).symm, .fresh hasked hfresh⟩
    · rw [hservice] at hsent
      exact ⟨_, hsent, sends_of_asked hasked hnone⟩
  | none =>
    cases o with
    | clear =>
      cases h
      exact ⟨[], (List.append_nil _).symm, .clear⟩
    | call c =>
      cases c with
      | load =>
        obtain ⟨-, rfl⟩ := load_of_act h
        exact ⟨[], (List.append_nil _).symm, .load⟩
      | refresh =>
        obtain ⟨count, hrefresh⟩ := exists_of_refresh h
        have hsent := (refresh_ok hrefresh).2
        rw [hservice] at hsent
        exact ⟨_, hsent, .refresh⟩
      | _ => cases hasked

/-- What is found depends on the cache and on the reply to the question alone. -/
theorem resolve_congr {x : Exchange} {s'' : State} {b : Assignment}
    (hservice : r.service = some service)
    (hreply : (x.send (service.question name)).1 = (s.exchange.send (service.question name)).1)
    (h : r.resolve s now name = (.ok a, s'))
    (hother : r.resolve { s with exchange := x } now name = (.ok b, s'')) :
    b = a ∧ s''.cache = s'.cache ∧ s''.tree = s'.tree := by
  have htold : r.told? x now name = r.told? s.exchange now name := by
    simp only [told?, hservice, Option.bind_some, Service.answerTo?, hreply]
  rcases resolve_ok h with ⟨hfresh, rfl⟩ | ⟨hnone, rfl, hsaved, -⟩
  · rcases resolve_ok hother with ⟨hfresh', rfl⟩ | ⟨hnone, -⟩
    · exact ⟨Option.some.inj (hfresh'.symm.trans hfresh), rfl, rfl⟩
    · cases hfresh.symm.trans hnone
  · rcases resolve_ok hother with ⟨hfresh', -⟩ | ⟨-, rfl, hsaved', -⟩
    · cases hfresh'.symm.trans hnone
    · rw [htold] at hsaved' ⊢
      obtain ⟨hcache, htree⟩ := Prod.mk.inj (hsaved'.trans hsaved.symm)
      exact ⟨rfl, hcache, htree⟩

theorem trace_of_answers (hservice : r.service = some service) (hrun : Answers r s run) :
    ∃ requests, (after r s run).exchange.sent = s.exchange.sent ++ requests ∧
      Trace r service s run requests := by
  induction run generalizing s with
  | nil => exact ⟨[], (List.append_nil _).symm, .nil⟩
  | cons e rest ih =>
    obtain ⟨now, o⟩ := e
    obtain ⟨answer, s', hact, hrest⟩ := exists_of_answers_cons hrun
    obtain ⟨requests, hfirst, hsends⟩ := sends_of_act hservice hact
    obtain ⟨more, hmore, htrace⟩ := ih hrest
    have hstate : (o.act r s now).2 = s' := congrArg Prod.snd hact
    refine ⟨requests ++ more, ?_, .cons hsends (by rw [hstate]; exact htrace)⟩
    rw [after_cons_of_act hact, hmore, hfirst, List.append_assoc]

/-- With a service, and as long as every operation answers: the service is asked for a package only
if the cache has nothing fresh, once each time, and what is published is the first that the reply to
that question tells of the package. What follows the question, the reply to the publication among
it, changes neither the answer nor what is kept. -/
theorem requests_of_run (hservice : r.service = some service) (hrun : Answers r s run) :
    (∃ requests, (after r s run).exchange.sent = s.exchange.sent ++ requests ∧
      Trace r service s run requests) ∧
    ∀ earlier now o later name x answer s', run = earlier ++ (now, o) :: later →
      o.asked? = some name →
      (x.send (service.question name)).1 =
        ((after r s earlier).exchange.send (service.question name)).1 →
      o.act r { after r s earlier with exchange := x } now = (.ok answer, s') →
      (o.act r (after r s earlier) now).1 = .ok answer ∧
        s'.cache = (after r s (earlier ++ [(now, o)])).cache ∧
        s'.tree = (after r s (earlier ++ [(now, o)])).tree := by
  refine ⟨trace_of_answers hservice hrun, ?_⟩
  rintro earlier now o later name x answer s' rfl hasked hreply hother
  obtain ⟨answer', hact⟩ := exists_of_answers hrun
  obtain ⟨a, hresolve, rfl⟩ := exists_of_asked hasked hact
  obtain ⟨b, hresolve', rfl⟩ := exists_of_asked hasked hother
  obtain ⟨rfl, hcache, htree⟩ := resolve_congr hservice hreply hresolve hresolve'
  exact ⟨congrArg Prod.fst hact, hcache, htree⟩

theorem requests_of_mixed :
    withService.service.isSome = true ∧ Answers withService startOfMixed mixedRun ∧
    ∃ service ∈ withService.service, ∃ requests, requests.length = 4 ∧
      (after withService startOfMixed mixedRun).exchange.sent = requests ∧
      Trace withService service startOfMixed mixedRun requests := by
  obtain ⟨service, hservice⟩ : ∃ service, withService.service = some service := ⟨_, rfl⟩
  obtain ⟨hanswers, hlength⟩ := answers_mixedRun
  obtain ⟨⟨requests, hsent, htrace⟩, -⟩ := requests_of_run hservice hanswers
  rw [hsent] at hlength
  exact ⟨rfl, hanswers, service, hservice, requests, hlength, hsent, htrace⟩

end PubspecTidy.Category.Resolver.Operation
