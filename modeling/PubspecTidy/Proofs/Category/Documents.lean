import PubspecTidy.Category.Resolver
import PubspecTidy.Proofs.Category.Lifetime
import PubspecTidy.Proofs.Json.Documents
import PubspecTidy.Proofs.Time.Iso

/-!
# Assignments as documents

An assignment that is read from a document, or guessed from a name, has a time with an offset, a
confidence as numbers are kept, and no empty primary category where its categories name one. Main
statement: every such assignment is read again from the document that is made of it.
-/
namespace PubspecTidy.Category

open Json (Value IsWhole)
open Number (Double Layout)
open Time (Stamp)

variable {now : Stamp} {v : Value} {a : Assignment} {fields : Table String Value}

/-! ## Values as texts -/

theorem append_ne_empty {s : String} (h : s ≠ "") (s' : String) : s ++ s' ≠ "" := by
  intro hempty
  exact h (String.append_eq_empty_iff.mp hempty).1

theorem decimal_ne_nil (l : Layout) (d : Number.Decimal) : l.decimal d ≠ [] := by
  unfold Layout.decimal
  dsimp only
  split
  · split <;> simp [Layout.power]
  · split
    · simp
    · split <;> simp

theorem text_layout_ne_empty (x : Double) : Layout.valueText.text x ≠ "" := by
  cases x with
  | nan => decide
  | infinite negative => cases negative <;> decide
  | finite negative m e =>
    unfold Layout.text
    dsimp only
    intro hempty
    have hbody := congrArg String.toList hempty
    rw [String.toList_ofList] at hbody
    split at hbody
    · cases hbody
    · split at hbody
      · cases hbody
      · exact decimal_ne_nil _ _ hbody

/-- A value that counts for something is no empty text. -/
theorem text_ne_empty (h : Assignment.isVoid v = false) : v.text ≠ "" := by
  cases v with
  | null => cases h
  | bool b =>
    cases b with
    | false => cases h
    | true => decide
  | int n =>
    change Text.ofInt n ≠ ""
    unfold Text.ofInt
    intro hempty
    have hdigits := congrArg String.toList hempty
    rw [String.toList_ofList] at hdigits
    split at hdigits
    · cases hdigits
    · exact Nat.toDigits_ne_nil hdigits
  | float x => exact text_layout_ne_empty x
  | string s =>
    rintro rfl
    cases h
  | array items =>
    change Value.written (.array items) ≠ ""
    rw [Value.written]
    exact append_ne_empty (append_ne_empty (by decide) _) _
  | object fields =>
    change Value.written (.object fields) ≠ ""
    rw [Value.written]
    exact append_ne_empty (append_ne_empty (by decide) _) _

/-! ## Assignments that are read or guessed -/

namespace Assignment

/-- An assignment as it comes from a document or from a guess. -/
structure IsProper (a : Assignment) : Prop where
  /-- An empty primary category is the one that the categories give. -/
  primary : a.primary = "" → primaryOf a.categories = ""
  confidence : a.confidence.IsCanonical
  fetched : a.fetched.IsValid
  offset : a.fetched.offset.isSome = true

theorem readFetched_isValid {t : Stamp} (hnow : now.IsValid) (h : readFetched now fields = .ok t) :
    t.IsValid ∧ t.offset.isSome = true := by
  unfold readFetched at h
  split at h
  · cases h
    exact ⟨hnow.orUniversal, Time.Stamp.isSome_orUniversal now⟩
  · split at h
    · rename_i t hread
      cases h
      exact ⟨(Time.ofIso?_isValid hread).orUniversal, Time.Stamp.isSome_orUniversal t⟩
    · cases h
  · cases h

theorem readConfidence_isCanonical {x : Double}
    (hfloat : ∀ x, Table.get? fields "confidence" = some (.float x) → x.IsCanonical)
    (h : readConfidence fields = .ok x) : x.IsCanonical := by
  unfold readConfidence at h
  split at h
  · rw [← Except.ok.inj h, usualConfidence]
    exact Number.ofDecimal_isCanonical false 9 (-1)
  · rename_i x' hx'
    cases h
    exact hfloat x hx'
  · split at h
    · rename_i hread
      cases h
      exact Number.ofInt?_isCanonical hread
    · cases h
  · cases h
    exact Number.ofInt_isCanonical _
  · split at h
    · rename_i hread
      cases h
      exact Number.readDouble?_isCanonical hread
    · cases h
  · cases h

/-- What is read from a document can be written as it is. -/
theorem isProper_ofJson (hnow : now.IsValid)
    (hfloat : ∀ x, v.field? "confidence" = some (.float x) → x.IsCanonical)
    (h : ofJson now v = .ok a) : a.IsProper := by
  unfold ofJson at h
  cases hfields : v.fields? with
  | none =>
    rw [hfields] at h
    cases h
  | some fields =>
    obtain rfl : v = .object fields := by
      cases v <;> simp_all [Value.fields?]
    rw [hfields] at h
    obtain ⟨fetched, hfetched, h⟩ := bind_eq_ok.mp h
    obtain ⟨categories, -, h⟩ := bind_eq_ok.mp h
    obtain ⟨name, -, h⟩ := bind_eq_ok.mp h
    obtain ⟨confidence, hconfidence, h⟩ := bind_eq_ok.mp h
    obtain ⟨hvalid, hoffset⟩ := readFetched_isValid hnow hfetched
    cases h
    refine ⟨fun hempty => ?_, readConfidence_isCanonical hfloat hconfidence, hvalid, hoffset⟩
    dsimp only at hempty ⊢
    split at hempty
    · rename_i p hp
      have hfilled := (Option.filter_eq_some_iff.mp hp).2
      exact absurd hempty (text_ne_empty (by simpa using hfilled))
    · exact hempty

theorem isProper_guess (hnow : now.IsValid) (name : String) : (Resolver.guess now name).IsProper := by
  have hprimary : infer name = "" → primaryOf [infer name] = "" := by
    intro hempty
    rw [hempty]
    decide
  have hconfidence : (Resolver.guess now name).confidence = .ofDecimal false 5 (-1) := by
    rw [Resolver.guess]
  refine ⟨hprimary, ?_, hnow.orUniversal, Time.Stamp.isSome_orUniversal now⟩
  rw [hconfidence]
  exact Number.ofDecimal_isCanonical false 5 (-1)

/-! ## Reading a written assignment -/

theorem iso_ne_empty {t : Stamp} (h : t.IsValid) : isVoid (.string t.iso) = false := by
  rw [Bool.eq_false_iff]
  intro hvoid
  have hread := Time.ofIso?_iso h
  rw [ofIso?_of_isVoid hvoid] at hread
  cases hread

/-- The fields of the document of an assignment. -/
def fieldsOf (a : Assignment) : Table String Value :=
  [("name", .string a.name), ("categories", .ofStrings a.categories),
    ("primaryCategory", .string a.primary), ("source", .string a.source),
    ("confidence", .float a.confidence), ("fetchedAt", .string a.fetched.iso)]

/-- An assignment is read again from its document, at whatever time. -/
theorem ofJson_toJson (h : a.IsProper) (now : Stamp) : ofJson now a.toJson = .ok a := by
  have hname : Table.get? (fieldsOf a) "name" = some (.string a.name) := rfl
  have hcategories : Table.get? (fieldsOf a) "categories" = some (.ofStrings a.categories) := rfl
  have hprimary : Table.get? (fieldsOf a) "primaryCategory" = some (.string a.primary) := rfl
  have hsource : Table.get? (fieldsOf a) "source" = some (.string a.source) := rfl
  have hconfidence : Table.get? (fieldsOf a) "confidence" = some (.float a.confidence) := rfl
  have hfetched : Table.get? (fieldsOf a) "fetchedAt" = some (.string a.fetched.iso) := rfl
  have hfields : a.toJson.fields? = some (fieldsOf a) := rfl
  have htime : readFetched now (fieldsOf a) = .ok a.fetched := by
    have huniversal : a.fetched.orUniversal = a.fetched := if_pos h.offset
    unfold readFetched filled?
    rw [hfetched, Option.filter_some, iso_ne_empty h.fetched]
    simp only [Bool.not_false, if_true, Time.ofIso?_iso h.fetched, huniversal]
  have hread : readCategories (fieldsOf a) = .ok a.categories := by
    unfold readCategories
    rw [hcategories]
    dsimp only
    rw [textsOf?_ofStrings]
  have hfilled : filled? (fieldsOf a) "primaryCategory" =
      if a.primary = "" then none else some (.string a.primary) := by
    unfold filled?
    rw [hprimary, Option.filter_some]
    by_cases hempty : a.primary = ""
    · rw [hempty]
      rfl
    · have hvoid : isVoid (.string a.primary) = false := by
        simpa [isVoid] using hempty
      rw [hvoid, if_neg hempty]
      rfl
  unfold ofJson
  rw [hfields]
  dsimp only
  rw [htime, hread, readName, hname, readConfidence, hconfidence]
  dsimp only [bind, Except.bind, pure, Except.pure]
  rw [hsource, hfilled]
  by_cases hempty : a.primary = ""
  · rw [if_pos hempty]
    dsimp only
    rw [h.primary hempty, ← hempty]
    rfl
  · rw [if_neg hempty]
    rfl

/-! ## The document of an assignment -/

/-- No text of the assignment holds halves that are one character. -/
def IsWhole (a : Assignment) : Prop :=
  ∀ text ∈ a.name :: a.primary :: a.source :: a.categories, Json.IsWhole text.toList

theorem isWhole_iso (t : Stamp) : Json.IsWhole t.iso.toList := by
  refine Json.isWhole_of_holdsHalf (List.any_eq_false.mpr fun c hc => ?_)
  rw [Time.half?_of_ascii (Time.lt_of_mem_iso hc)]
  exact Bool.false_ne_true

theorem isProper_ofStrings {texts : List String} (h : ∀ text ∈ texts, Json.IsWhole text.toList) :
    (Value.ofStrings texts).IsProper := by
  refine .array fun v hv => ?_
  obtain ⟨text, htext, rfl⟩ := List.mem_map.mp hv
  exact .string (h text htext)

/-- The document of an assignment can be written and read again. -/
theorem isProper_toJson (hwhole : a.IsWhole) (hconfidence : a.confidence.IsCanonical) :
    a.toJson.IsProper := by
  obtain ⟨hname, hprimary, hsource, hcategories⟩ :
      Json.IsWhole a.name.toList ∧ Json.IsWhole a.primary.toList ∧ Json.IsWhole a.source.toList ∧
        ∀ text ∈ a.categories, Json.IsWhole text.toList := by
    simpa [IsWhole] using hwhole
  have hkeys : Table.keys (fieldsOf a) =
      ["name", "categories", "primaryCategory", "source", "confidence", "fetchedAt"] := rfl
  refine .object (hkeys ▸ by decide) (fun e he => ?_) fun e he => ?_
  · have hhalf : ∀ name ∈ Table.keys (fieldsOf a), Text.holdsHalf name.toList = false := by
      rw [hkeys]
      decide
    exact Json.isWhole_of_holdsHalf (hhalf e.1 (List.mem_map_of_mem he))
  · simp only [List.mem_cons, List.not_mem_nil, or_false] at he
    rcases he with rfl | rfl | rfl | rfl | rfl | rfl
    · exact .string hname
    · exact isProper_ofStrings hcategories
    · exact .string hprimary
    · exact .string hsource
    · exact .float hconfidence
    · exact .string (isWhole_iso a.fetched)

theorem isWhole_infer (name : String) : Json.IsWhole (infer name).toList := by
  have hrules : ∀ category ∈ fallback :: rules.map Rule.category,
      Text.holdsHalf category.toList = false := by decide
  refine Json.isWhole_of_holdsHalf (hrules _ ?_)
  unfold infer
  dsimp only
  split
  · rename_i r hr
    exact List.mem_cons_of_mem _ (List.mem_map_of_mem (List.mem_of_find?_eq_some hr))
  · exact List.mem_cons_self

/-- A guess is as whole as the name that it is made for. -/
theorem isWhole_guess {name : String} (h : Json.IsWhole name.toList) (now : Stamp) :
    (Resolver.guess now name).IsWhole := by
  have hsource : Json.IsWhole "heuristic".toList := Json.isWhole_of_holdsHalf (by decide)
  intro text htext
  unfold Resolver.guess at htext
  simp only [List.mem_cons, List.not_mem_nil, or_false] at htext
  rcases htext with rfl | rfl | rfl | rfl
  · exact h
  · exact isWhole_infer name
  · exact hsource
  · exact isWhole_infer name

end Assignment

end PubspecTidy.Category
