import PubspecTidy.Proofs.Category.Documents
import PubspecTidy.Proofs.FileTree.Frame

/-!
# The file of the cache

Main statement: after every operation of every run, the file holds what the cache holds, so that
another cache of the same path has the same entries, in the same order, once it is loaded.
-/
namespace PubspecTidy.Category

open Json (Value)
open Time (Stamp)

variable {entries : Table String Assignment} {name : String} {a : Assignment} {now : Stamp}

/-! ## Entries in a document -/

/-- The fields of the document that holds the entries. -/
def documentFields (entries : Table String Assignment) : Table String Value :=
  entries.map fun e => (e.1, e.2.toJson)

/-- The entries can be written and are read again as they are. -/
structure IsStorable (entries : Table String Assignment) : Prop where
  distinct : (Table.keys entries).Nodup
  names : ∀ e ∈ entries, Json.IsWhole e.1.toList
  whole : ∀ e ∈ entries, e.2.IsWhole
  proper : ∀ e ∈ entries, e.2.IsProper

theorem isStorable_nil : IsStorable [] := by
  refine ⟨List.nodup_nil, fun e he => ?_, fun e he => ?_, fun e he => ?_⟩ <;> cases he

theorem IsStorable.put (h : IsStorable entries) (hname : Json.IsWhole name.toList)
    (hwhole : a.IsWhole) (hproper : a.IsProper) : IsStorable (Table.put entries name a) := by
  have hmem {p : String × Assignment → Prop} (hentries : ∀ e ∈ entries, p e) (ha : p (name, a)) :
      ∀ e ∈ Table.put entries name a, p e := by
    intro e he
    rcases Table.of_mem_put he with he | rfl
    · exact hentries e he
    · exact ha
  refine ⟨?_, hmem h.names hname, hmem h.whole hwhole, hmem h.proper hproper⟩
  rw [Table.keys_put]
  split
  · exact h.distinct
  · rename_i hnew
    refine List.nodup_append.mpr ⟨h.distinct, List.nodup_singleton name, fun k hk k' hk' => ?_⟩
    rintro rfl
    rw [List.mem_singleton] at hk'
    exact hnew (hk' ▸ hk)

theorem IsStorable.isProper (h : IsStorable entries) :
    (Value.object (documentFields entries)).IsProper := by
  have hkeys : Table.keys (documentFields entries) = Table.keys entries := by
    unfold documentFields Table.keys
    rw [List.map_map]
    rfl
  refine .object (hkeys ▸ h.distinct) (fun e he => ?_) fun e he => ?_
  · obtain ⟨e', he', rfl⟩ := List.mem_map.mp he
    exact h.names e' he'
  · obtain ⟨e', he', rfl⟩ := List.mem_map.mp he
    exact Assignment.isProper_toJson (h.whole e' he') (h.proper e' he').confidence

namespace Cache

variable {c c' : Cache} {t t' : FileTree}

theorem readEntries_documentFields (h : ∀ e ∈ entries, e.2.IsProper) (now : Stamp) :
    readEntries now (documentFields entries) = (entries, none) := by
  induction entries with
  | nil => rfl
  | cons e entries ih =>
    have hread := Assignment.ofJson_toJson (h e List.mem_cons_self) now
    have hrest := ih fun e' he' => h e' (List.mem_cons_of_mem e he')
    change readEntries now ((e.1, e.2.toJson) :: documentFields entries) = _
    unfold readEntries
    rw [hread]
    dsimp only
    rw [hrest]

/-! ## What the file holds -/

theorem storedFields_congr (h : c'.path = c.path) (t : FileTree) :
    c'.storedFields t = c.storedFields t := by
  unfold storedFields
  rw [h]

theorem storedFields_of_isFile (h : t.isFile c.path = false) : c.storedFields t = [] := by
  unfold storedFields
  cases hread : t.read c.path with
  | error e => rfl
  | ok bytes =>
    rw [FileTree.isFile_of_read hread] at h
    cases h

/-- The directory of the file can be made, and no other directory stands in its place. -/
def IsWritable (c : Cache) (t : FileTree) : Prop :=
  ∃ t' place, t.makeDirectory c.path.parent = .ok t' ∧ t'.place c.path = .ok place ∧ t'.IsOpen place

theorem IsWritable.congr (h : c.IsWritable t) (hpath : c'.path = c.path) : c'.IsWritable t := by
  unfold IsWritable
  rw [hpath]
  exact h

theorem exists_write (h : c.IsWritable t) (now : Stamp) :
    c.IsWritable (c.write t now) ∧
      (c.write t now).read c.path = .ok (encodeText (Json.print c.toJson)) := by
  obtain ⟨t', place, hmake, hplace, hopen⟩ := h
  obtain ⟨t'', hwrite⟩ := FileTree.exists_write hplace hopen (encodeText (Json.print c.toJson))
    now.sinceEpoch
  have hdirectories := FileTree.directories_write hwrite
  have hafter : c.write t now = t'' := by
    unfold Cache.write
    rw [hmake]
    dsimp only
    rw [hwrite]
  rw [hafter]
  exact ⟨⟨t'', place, FileTree.makeDirectory_again hmake hdirectories,
    (FileTree.place_congr hdirectories).mpr hplace, hopen.congr hdirectories⟩,
    FileTree.read_write hwrite⟩

/-- The file holds what the cache holds, all of it can be stored, and the file can be written. -/
structure IsMirrored (c : Cache) (t : FileTree) : Prop where
  writable : c.IsWritable t
  storable : IsStorable c.entries
  stored : c.storedFields t = documentFields c.entries

theorem isMirrored_of_isFile (hentries : c.entries = []) (hfile : t.isFile c.path = false)
    (hwritable : c.IsWritable t) : c.IsMirrored t := by
  refine ⟨hwritable, hentries ▸ isStorable_nil, ?_⟩
  rw [storedFields_of_isFile hfile, hentries]
  rfl

/-- Whatever the time, and whatever a cache held before, it takes over all entries. -/
theorem IsMirrored.load (h : c.IsMirrored t) (hpath : c'.path = c.path) (now : Stamp) :
    c'.load t now = (none, { c' with entries := c.entries }) := by
  unfold Cache.load
  rw [storedFields_congr hpath, h.stored, readEntries_documentFields h.storable.proper]

theorem IsMirrored.save (h : c.IsMirrored t) (hname : Json.IsWhole name.toList)
    (hwhole : a.IsWhole) (hproper : a.IsProper) (now : Stamp) :
    (c.save t now name a).1.IsMirrored (c.save t now name a).2 := by
  have hstorable : IsStorable (c.put name a).entries := h.storable.put hname hwhole hproper
  have hbefore : (c.put name a).IsWritable t := h.writable.congr rfl
  obtain ⟨hwritable, hread⟩ := exists_write hbefore now
  exact ⟨hwritable, hstorable, storedFields_of_read hread (Json.read?_print hstorable.isProper)⟩

theorem IsWritable.delete (h : c.IsWritable t) (hdelete : t.delete c.path = .ok t') :
    c.IsWritable t' := by
  obtain ⟨t₁, place, hmake, hplace, hopen⟩ := h
  obtain ⟨t₂, hmake', hdirectories⟩ := FileTree.exists_makeDirectoriesFrom
    (FileTree.directories_delete hdelete) (fun q => FileTree.isFileAt_delete hdelete) hmake
  exact ⟨t₂, place, hmake', (FileTree.place_congr hdirectories).mpr hplace,
    hopen.congr hdirectories⟩

theorem IsMirrored.clear (h : c.IsMirrored t) : (c.clear t).1.IsMirrored (c.clear t).2 := by
  unfold Cache.clear
  cases hdelete : t.delete c.path with
  | error e =>
    exact isMirrored_of_isFile rfl (FileTree.isFile_of_delete hdelete) (h.writable.congr rfl)
  | ok t' =>
    exact isMirrored_of_isFile rfl (FileTree.isFile_delete hdelete)
      ((h.writable.delete hdelete).congr rfl)

end Cache

/-! ## Runs -/

namespace Assignment

/-- The assignment was read from a document or is a guess, and no text in it holds halves that are
one character. The numbers of a document are as they are kept. -/
inductive IsObtained : Assignment → Prop where
  | read {now : Stamp} {v : Value} {a : Assignment} : now.IsValid →
      (∀ x, v.field? "confidence" = some (.float x) → x.IsCanonical) →
      ofJson now v = .ok a → a.IsWhole → IsObtained a
  | guess {now : Stamp} {name : String} : now.IsValid → Json.IsWhole name.toList →
      IsObtained (Resolver.guess now name)

theorem IsObtained.isWhole (h : a.IsObtained) : a.IsWhole := by
  cases h with
  | read _ _ _ hwhole => exact hwhole
  | guess _ hname => exact isWhole_guess hname _

theorem IsObtained.isProper (h : a.IsObtained) : a.IsProper := by
  cases h with
  | read hnow hfloat hread _ => exact isProper_ofJson hnow hfloat hread
  | guess hnow _ => exact isProper_guess hnow _

end Assignment

namespace Cache

/-- What is done with a cache. -/
inductive Operation where
  | save (now : Stamp) (name : String) (a : Assignment)
  | get (name : String)
  /-- Asks for an assignment while it is fresh. -/
  | getFresh (now : Stamp) (name : String)
  | clear
  | load (now : Stamp)

namespace Operation

open Resolver (State)
open Resolver.Call (noon)

/-- The cache and the files after an operation. What is asked for changes neither. -/
def act (s : State) : Operation → State
  | .save now name a => s.save now name a
  | .get _ => s
  | .getFresh _ _ => s
  | .clear => s.clear
  | .load now => (s.load now).2

def run (s : State) (operations : List Operation) : State := operations.foldl act s

/-- What is put in can be told from a document or from a name. -/
def IsAllowed : Operation → Prop
  | .save _ name a => Json.IsWhole name.toList ∧ a.IsObtained
  | _ => True

variable {s : State} {operations : List Operation} {o : Operation}

theorem path_act (s : State) (o : Operation) : (act s o).cache.path = s.cache.path := by
  cases o <;> rfl

theorem path_run (s : State) (operations : List Operation) :
    (run s operations).cache.path = s.cache.path := by
  induction operations generalizing s with
  | nil => rfl
  | cons o operations ih => exact (ih (act s o)).trans (path_act s o)

theorem isMirrored_act (h : s.cache.IsMirrored s.tree) (ho : o.IsAllowed) :
    (act s o).cache.IsMirrored (act s o).tree := by
  cases o with
  | save now name a =>
    obtain ⟨hname, hobtained⟩ := ho
    exact h.save hname hobtained.isWhole hobtained.isProper now
  | get => exact h
  | getFresh => exact h
  | clear => exact h.clear
  | load now =>
    -- The file holds what the cache holds, so that nothing is lost.
    have hload := h.load rfl now
    have hact : act s (.load now) = s := by
      change { s with cache := (s.cache.load s.tree now).2 } = s
      rw [hload]
    rw [hact]
    exact h

theorem isMirrored_run (h : s.cache.IsMirrored s.tree) (hallowed : ∀ o ∈ operations, o.IsAllowed) :
    (run s operations).cache.IsMirrored (run s operations).tree := by
  induction operations generalizing s with
  | nil => exact h
  | cons o operations ih =>
    exact ih (isMirrored_act h (hallowed o List.mem_cons_self)) fun o' ho' =>
      hallowed o' (List.mem_cons_of_mem o ho')

/-- After every run of operations that starts without a file, another cache of the same path has
all entries of the cache in their order, once it is loaded. -/
theorem load_run (hentries : s.cache.entries = []) (hfile : s.tree.isFile s.cache.path = false)
    (hwritable : s.cache.IsWritable s.tree) (hallowed : ∀ o ∈ operations, o.IsAllowed) {c : Cache}
    (hpath : c.path = s.cache.path) (now : Stamp) :
    c.load (run s operations).tree now =
      (none, { c with entries := (run s operations).cache.entries }) := by
  have hstart := isMirrored_of_isFile hentries hfile hwritable
  have hmirrored := isMirrored_run hstart hallowed
  exact hmirrored.load (hpath.trans (path_run s operations).symm) now

/-! ### A run -/

theorem isValid_noon : noon.IsValid := by
  refine ⟨by decide, by decide, fun o ho => ?_⟩
  cases ho
  exact .inl rfl

/-- An empty cache in a directory that has yet to be made. -/
def start : State where
  cache := { path := ["home", "categories.json"], life := Time.day }
  tree := .empty "."

/-- A document with an empty primary category, no source, no number and an offset of its own. -/
def document : Value :=
  .object [("name", .int 7), ("categories", .array [.string "Paths", .string "Storage"]),
    ("primaryCategory", .string ""), ("confidence", .float .nan),
    ("fetchedAt", .string "2024-05-20T06:00:00.5+05:30")]

def answer : Assignment where
  name := "7"
  categories := ["Paths", "Storage"]
  primary := "Storage"
  source := Assignment.remoteSource
  confidence := .nan
  fetched := ⟨⟨2024, 5, 20⟩, 6 * Time.hour + 500000, some (5 * Time.hour + 30 * Time.minute)⟩

theorem isObtained_answer : answer.IsObtained := by
  refine .read (v := document) isValid_noon (fun x hx => ?_) (by decide +kernel)
    fun text htext => ?_
  · cases hx
    trivial
  · have hhalf : ∀ text ∈ answer.name :: answer.primary :: answer.source :: answer.categories,
        Text.holdsHalf text.toList = false := by decide
    exact Json.isWhole_of_holdsHalf (hhalf text htext)

/-- A guess is put in, dropped and put in anew, an answer comes after it, and the guess is put in
again in its old place. -/
def mixed : List Operation :=
  [.load noon, .save noon "http" (Resolver.guess noon "http"), .clear,
    .save noon "http" (Resolver.guess noon "http"), .getFresh noon "http", .save noon "7" answer,
    .save noon "http" (Resolver.guess noon "http")]

theorem isAllowed_mixed : ∀ o ∈ mixed, o.IsAllowed := by
  have hhttp : Json.IsWhole "http".toList := Json.isWhole_of_holdsHalf (by decide)
  have hguess : (Resolver.guess noon "http").IsObtained := .guess isValid_noon hhttp
  have hanswer : Json.IsWhole "7".toList := Json.isWhole_of_holdsHalf (by decide)
  intro o ho
  simp only [mixed, List.mem_cons, List.not_mem_nil, or_false] at ho
  rcases ho with rfl | rfl | rfl | rfl | rfl | rfl | rfl
  · trivial
  · exact ⟨hhttp, hguess⟩
  · trivial
  · exact ⟨hhttp, hguess⟩
  · trivial
  · exact ⟨hanswer, isObtained_answer⟩
  · exact ⟨hhttp, hguess⟩

theorem isWritable_start : start.cache.IsWritable start.tree :=
  ⟨{ start.tree with directories := [["home"]] }, ["home", "categories.json"], rfl, rfl, by decide⟩

theorem load_run_mixed :
    start.cache.entries = [] ∧ start.tree.isFile start.cache.path = false ∧
    start.cache.IsWritable start.tree ∧ (∀ o ∈ mixed, o.IsAllowed) ∧
    start.cache.load (run start mixed).tree noon =
      (none, { start.cache with
        entries := [("http", Resolver.guess noon "http"), ("7", answer)] }) :=
  ⟨rfl, rfl, isWritable_start, isAllowed_mixed,
    load_run (c := start.cache) rfl rfl isWritable_start isAllowed_mixed rfl noon⟩

end Operation
end Cache
end PubspecTidy.Category
