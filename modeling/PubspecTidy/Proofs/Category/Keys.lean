import PubspecTidy.Proofs.Category.Runs

/-!
# The names in the cache

Main statement: after a run the cache holds the names that it was last loaded with, followed by the
packages that were looked for since, in the order in which they came up. What is found for a package
is what the cache holds of it then, and to ask the service anew changes entries, but no names.
-/
namespace PubspecTidy.Category.Resolver.Operation

open Call (withService)
open Time (Stamp)

variable {r : Resolver} {s s' : State} {now : Stamp} {name other : String} {a : Assignment}
  {o : Operation} {answer : Answer} {run : List (Stamp × Operation)}

/-! ## New names -/

/-- The names that are not known, in the order in which they come first. -/
def newNames (known names : List String) : List String :=
  (names.filter fun name => name ∉ known).eraseDups

theorem mem_newNames {known names : List String} :
    name ∈ newNames known names ↔ name ∈ names ∧ name ∉ known := by
  simp [newNames]

theorem newNames_concat (known names : List String) (name : String) :
    known ++ newNames known (names ++ [name]) =
      if name ∈ known ++ newNames known names then known ++ newNames known names
      else known ++ newNames known names ++ [name] := by
  by_cases hknown : name ∈ known
  · have hfilter : (names ++ [name]).filter (fun name => name ∉ known) =
        names.filter fun name => name ∉ known := by simp [hknown]
    rw [if_pos (List.mem_append_left _ hknown), newNames, hfilter, newNames]
  · have hfilter : (names ++ [name]).filter (fun name => name ∉ known) =
        (names.filter fun name => name ∉ known) ++ [name] := by simp [hknown]
    rw [newNames, hfilter, List.eraseDups_append, ← newNames]
    by_cases hnew : name ∈ names
    · rw [if_pos (List.mem_append_right _ ((mem_newNames).mpr ⟨hnew, hknown⟩))]
      simp [List.removeAll, hnew, hknown]
    · rw [if_neg (by simp [mem_newNames, hknown, hnew]), List.append_assoc]
      simp [List.removeAll, hnew, List.eraseDups_cons]

/-! ## What one operation does to the cache -/

/-- What is found for a package is put into the cache, if it does not stand there already. -/
theorem cache_of_resolve (h : r.resolve s now name = (.ok a, s')) :
    s'.cache.names = (if name ∈ s.cache.names then s.cache.names else s.cache.names ++ [name]) ∧
      s'.cache.get? name = some a ∧
      ∀ other, other ≠ name → s'.cache.get? other = s.cache.get? other := by
  rcases resolve_ok h with ⟨hfresh, rfl⟩ | ⟨-, -, hsaved, -⟩
  · have hentry : s'.cache.get? name = some a := (Option.filter_eq_some_iff.mp hfresh).1
    have hname : name ∈ s'.cache.names := Table.mem_keys_of_get? hentry
    rw [if_pos hname]
    exact ⟨rfl, hentry, fun other _ => rfl⟩
  · have hcache : s'.cache = s.cache.put name a := congrArg Prod.fst hsaved
    rw [hcache]
    refine ⟨Cache.names_put s.cache name a, ?_, fun other hother => ?_⟩
    · rw [Cache.get?_put, if_pos rfl]
    · rw [Cache.get?_put, if_neg (Ne.symm hother)]

/-- What is told of a package is put in for it if its name is in the cache. -/
theorem filter_told (names : List String) (found : List Assignment) (name : String) :
    (found.filter fun a => names.contains a.name).filter (fun a => a.name == name) =
      if name ∈ names then found.filter fun a => a.name == name else [] := by
  rw [List.filter_filter]
  split
  · rename_i hname
    refine List.filter_congr fun a _ => ?_
    rw [Bool.and_eq_left_iff_imp]
    intro ha
    simpa [eq_of_beq ha] using hname
  · rename_i hname
    rw [List.filter_eq_nil_iff]
    rintro a - ha
    simp only [Bool.and_eq_true, beq_iff_eq, List.contains_iff_mem] at ha
    exact hname (ha.1 ▸ ha.2)

/-- Asking the service anew keeps the names; of what it tells of a package the last counts. -/
theorem cache_of_refresh {count : Nat} (h : r.refresh s now = (.ok count, s')) :
    s'.cache.names = s.cache.names ∧
      ∀ name, s'.cache.get? name = (s.cache.get? name).map fun a =>
        ((r.refetched s now).filter fun b => b.name == name).getLast?.getD a := by
  obtain ⟨hcache, -⟩ := refresh_ok h
  rw [hcache]
  constructor
  · exact Cache.names_putAll fun a ha => by simpa using (List.mem_filter.mp ha).2
  · intro name
    rw [Cache.get?_putAll, filter_told]
    cases hentry : s.cache.get? name with
    | none =>
      have hname : name ∉ s.cache.names := (Table.get?_eq_none_iff _ _).mp hentry
      rw [if_neg hname]
      rfl
    | some a =>
      have hname : name ∈ s.cache.names := Table.mem_keys_of_get? hentry
      rw [if_pos hname]
      cases ((r.refetched s now).filter fun b => b.name == name).getLast? <;> rfl

/-! ## Runs -/

/-- Whether an operation leaves nothing of what the cache held. -/
def startsAnew : Operation → Bool
  | .call .load => true
  | .clear => true
  | _ => false

/-- The operations since the cache was last loaded or emptied. -/
def since (run : List (Stamp × Operation)) : List (Stamp × Operation) :=
  run.rtakeWhile fun e => !e.2.startsAnew

/-- The operations until the cache was last loaded or emptied, and that one. -/
def opening (run : List (Stamp × Operation)) : List (Stamp × Operation) :=
  run.rdropWhile fun e => !e.2.startsAnew

/-- The names that the cache was last loaded with: those in its file then. There are none if it was
emptied afterwards or never loaded. -/
def loadedNames (r : Resolver) (s : State) (run : List (Stamp × Operation)) : List String :=
  match (opening run).getLast? with
  | some (now, .call .load) =>
    let before := after r s (opening run).dropLast
    before.cache.storedNames before.tree now
  | _ => []

/-- The packages that the operations look for. -/
def askedNames (run : List (Stamp × Operation)) : List String :=
  run.filterMap fun e => e.2.asked?

theorem loadedNames_concat (r : Resolver) (s : State) (run : List (Stamp × Operation))
    (now : Stamp) (h : o.startsAnew = false) :
    loadedNames r s (run ++ [(now, o)]) = loadedNames r s run := by
  have hopening : opening (run ++ [(now, o)]) = opening run :=
    List.rdropWhile_concat_pos _ _ _ (by simp [h])
  rw [loadedNames, hopening, ← loadedNames]

theorem since_concat (run : List (Stamp × Operation)) (now : Stamp) (h : o.startsAnew = false) :
    since (run ++ [(now, o)]) = since run ++ [(now, o)] :=
  List.rtakeWhile_concat_pos _ _ _ (by simp [h])

theorem since_concat_of_startsAnew (run : List (Stamp × Operation)) (now : Stamp)
    (h : o.startsAnew = true) : since (run ++ [(now, o)]) = [] :=
  List.rtakeWhile_concat_neg _ _ _ (by simp [h])

theorem opening_concat (run : List (Stamp × Operation)) (now : Stamp)
    (h : o.startsAnew = true) : opening (run ++ [(now, o)]) = run ++ [(now, o)] :=
  List.rdropWhile_concat_neg _ _ _ (by simp [h])

theorem askedNames_concat (run : List (Stamp × Operation)) (now : Stamp) (o : Operation) :
    askedNames (run ++ [(now, o)]) = askedNames run ++ o.asked?.toList := by
  unfold askedNames
  rw [List.filterMap_append]
  cases hasked : o.asked? <;> simp [hasked]

/-- An operation that leaves nothing leaves the names of the file, or none. -/
theorem names_of_startsAnew (hanew : o.startsAnew = true)
    (hact : o.act r (after r s run) now = (.ok answer, s')) :
    s'.cache.names = loadedNames r s (run ++ [(now, o)]) := by
  unfold loadedNames
  rw [opening_concat run now hanew, List.getLast?_concat, List.dropLast_concat]
  cases o with
  | clear =>
    cases hact
    rfl
  | call c =>
    cases c with
    | load =>
      obtain ⟨hfault, rfl⟩ := load_of_act hact
      exact Cache.names_load hfault
    | _ => cases hanew

/-- Any other operation keeps the names and adds at most the one that it looks for. -/
theorem names_of_act (hanew : o.startsAnew = false) (hact : o.act r s now = (.ok answer, s')) :
    s'.cache.names = o.asked?.elim s.cache.names fun name =>
      if name ∈ s.cache.names then s.cache.names else s.cache.names ++ [name] := by
  cases hasked : o.asked? with
  | some name =>
    obtain ⟨a, hresolve, -⟩ := exists_of_asked hasked hact
    exact (cache_of_resolve hresolve).1
  | none =>
    cases o with
    | clear => cases hanew
    | call c =>
      cases c with
      | refresh =>
        obtain ⟨count, hrefresh⟩ := exists_of_refresh hact
        exact (cache_of_refresh hrefresh).1
      | load => cases hanew
      | _ => cases hasked

theorem names_of_run (hstart : s.cache.entries = []) (hrun : Answers r s run) :
    (after r s run).cache.names =
      loadedNames r s run ++ newNames (loadedNames r s run) (askedNames (since run)) := by
  induction run using List.reverseRecOn with
  | nil =>
    change Table.keys s.cache.entries = _
    rw [hstart]
    rfl
  | append_singleton run e ih =>
    obtain ⟨now, o⟩ := e
    have ih := ih (answers_append.mp hrun).1
    obtain ⟨answer, hact⟩ := exists_of_answers hrun
    cases hanew : o.startsAnew with
    | true =>
      rw [since_concat_of_startsAnew run now hanew, names_of_startsAnew hanew hact]
      exact (List.append_nil _).symm
    | false =>
      rw [loadedNames_concat r s run now hanew, since_concat run now hanew, askedNames_concat,
        names_of_act hanew hact, ih]
      cases o.asked? with
      | none => exact congrArg _ (congrArg _ (List.append_nil _).symm)
      | some name => exact (newNames_concat _ _ name).symm

/-- After a run that answers, the cache has the names that it was last loaded with, followed by the
new ones that were looked for since, each once. Whenever a package is looked for, what is found is
what the cache holds of it afterwards, and nothing else changes. Asking the service anew keeps the
names and changes an entry only to the last that it tells of the package. -/
theorem names_after (hstart : s.cache.entries = []) (hrun : Answers r s run) :
    (after r s run).cache.names =
        loadedNames r s run ++ newNames (loadedNames r s run) (askedNames (since run)) ∧
      (∀ earlier now o later name, run = earlier ++ (now, o) :: later → o.asked? = some name →
        ∃ a, o.act r (after r s earlier) now =
            (.ok (o.tells a), after r s (earlier ++ [(now, o)])) ∧
          (after r s (earlier ++ [(now, o)])).cache.get? name = some a ∧
          ∀ other, other ≠ name → (after r s (earlier ++ [(now, o)])).cache.get? other =
            (after r s earlier).cache.get? other) ∧
      ∀ earlier now later, run = earlier ++ (now, call .refresh) :: later →
        (after r s (earlier ++ [(now, call .refresh)])).cache.names =
            (after r s earlier).cache.names ∧
          ∀ name, (after r s (earlier ++ [(now, call .refresh)])).cache.get? name =
            ((after r s earlier).cache.get? name).map fun a =>
              ((r.refetched (after r s earlier) now).filter fun b => b.name == name).getLast?.getD
                a := by
  refine ⟨names_of_run hstart hrun, ?_, ?_⟩
  · rintro earlier now o later name rfl hasked
    obtain ⟨answer, hact⟩ := exists_of_answers hrun
    obtain ⟨a, hresolve, rfl⟩ := exists_of_asked hasked hact
    exact ⟨a, hact, (cache_of_resolve hresolve).2⟩
  · rintro earlier now later rfl
    obtain ⟨answer, hact⟩ := exists_of_answers hrun
    obtain ⟨count, hrefresh⟩ := exists_of_refresh hact
    exact cache_of_refresh hrefresh

theorem names_after_mixed :
    startOfMixed.cache.entries = [] ∧ Answers withService startOfMixed mixedRun ∧
    (after withService startOfMixed mixedRun).cache.names = ["dio", "http", "yaml"] := by
  have hstart : startOfMixed.cache.entries = [] := rfl
  obtain ⟨hanswers, -⟩ := answers_mixedRun
  obtain ⟨hnames, -⟩ := names_after hstart hanswers
  have hopening : opening mixedRun = [(Call.noon, call .load)] := rfl
  have hloaded : loadedNames withService startOfMixed mixedRun = ["dio"] := by
    rw [loadedNames, hopening]
    change startOfMixed.cache.storedNames startOfMixed.tree Call.noon = ["dio"]
    rw [Cache.storedNames, storedFields_startOfMixed]
    rfl
  rw [hloaded] at hnames
  exact ⟨hstart, hanswers, hnames⟩

end PubspecTidy.Category.Resolver.Operation
