import PubspecTidy.Proofs.Json.Numbers
import PubspecTidy.Proofs.Json.Strings

/-!
# JSON documents

Main statement: a value that is written as an indented document is read from it again. The reader's
fuel is enough, for no value takes more steps to read than it has characters.
-/
namespace PubspecTidy.Json

open Text (isAsciiDigit)

variable {c : Char} {rest : List Char} {level fuel : Nat} {v : Value} {vs : List Value}
  {fields : List (String × Value)}

/-- A value as a document can hold it: its numbers are as they are kept or not too long, its texts
hold no halves that are one character, and no name comes twice in an object. -/
inductive Value.IsProper : Value → Prop where
  | null : IsProper .null
  | bool (b : Bool) : IsProper (.bool b)
  | int {n : Int} : (Text.digits n.natAbs).length ≤ Number.maxDigits → IsProper (.int n)
  | float {x : Number.Double} : x.IsCanonical → IsProper (.float x)
  | string {s : String} : IsWhole s.toList → IsProper (.string s)
  | array {vs : List Value} : (∀ v ∈ vs, IsProper v) → IsProper (.array vs)
  | object {fields : List (String × Value)} : (Table.keys fields).Nodup →
      (∀ e ∈ fields, IsWhole e.1.toList) → (∀ e ∈ fields, IsProper e.2) → IsProper (.object fields)

/-! ## Blanks -/

theorem isSpace_of_mem_newLine (h : c ∈ newLine level) : isSpace c = true := by
  rcases List.mem_cons.mp h with rfl | h
  · rfl
  · rw [List.eq_of_mem_replicate h]
    rfl

theorem skipSpace_newLine (h : isSpace c = false) (level : Nat) (rest : List Char) :
    skipSpace (newLine level ++ c :: rest) = c :: rest := by
  unfold skipSpace
  rw [List.dropWhile_append_of_pos fun c => isSpace_of_mem_newLine,
    List.dropWhile_cons_of_neg (by simp [h])]

theorem skipSpace_blank (h : isSpace c = false) (rest : List Char) :
    skipSpace (' ' :: c :: rest) = c :: rest := by
  change (c :: rest).dropWhile isSpace = c :: rest
  exact List.dropWhile_cons_of_neg (by simp [h])

/-! ## What stands after a number -/

theorem endsNumber_nil : EndsNumber [] := by
  intro c hc
  cases hc

/-- A comma or a line feed ends a number. -/
theorem endsNumber_cons (hdigit : isAsciiDigit c = false) (hc : c ∉ ['.', 'e', 'E'])
    (rest : List Char) : EndsNumber (c :: rest) := by
  intro c' hc'
  obtain rfl : c = c' := by simpa using hc'
  simp only [List.mem_cons, List.not_mem_nil, or_false, not_or] at hc
  exact ⟨hdigit, hc⟩

theorem endsNumber_newLine (level : Nat) (rest : List Char) :
    EndsNumber (newLine level ++ rest) :=
  endsNumber_cons (c := '\n') rfl (by decide) _

/-! ## The first character of a value -/

/-- What a value starts with. -/
def StartsValue (c : Char) : Prop := StartsWord c ∨ c ∈ ['"', '[', '\x7b']

theorem StartsWord.ne {c : Char} (h : StartsWord c) (c' : Char) (hdigit : isAsciiDigit c' = false)
    (hmem : c' ∉ ['-', 'N', 'I', 'n', 't', 'f']) : c ≠ c' := by
  rintro rfl
  rcases h with h | h
  · rw [hdigit] at h
    cases h
  · exact hmem h

theorem StartsValue.ne {c : Char} (h : StartsValue c) (c' : Char) (hdigit : isAsciiDigit c' = false)
    (hmem : c' ∉ ['-', 'N', 'I', 'n', 't', 'f']) (hmem' : c' ∉ ['"', '[', '\x7b']) : c ≠ c' := by
  rcases h with h | h
  · exact h.ne c' hdigit hmem
  · rintro rfl
    exact hmem' h

theorem StartsValue.isSpace (h : StartsValue c) : isSpace c = false := by
  have hblank := h.ne ' ' (by decide) (by decide) (by decide)
  have htab := h.ne '\t' (by decide) (by decide) (by decide)
  have hfeed := h.ne '\n' (by decide) (by decide) (by decide)
  have hreturn := h.ne '\r' (by decide) (by decide) (by decide)
  simp [Json.isSpace, hblank, htab, hfeed, hreturn]

theorem exists_first (h : v.IsProper) (level : Nat) :
    ∃ c cs, indented level v = c :: cs ∧ StartsValue c := by
  cases h with
  | null => exact ⟨'n', _, rfl, .inl (.inr (by decide))⟩
  | bool b =>
    cases b with
    | false => exact ⟨'f', _, rfl, .inl (.inr (by decide))⟩
    | true => exact ⟨'t', _, rfl, .inl (.inr (by decide))⟩
  | int hn =>
    obtain ⟨-, c, cs, htext, hc⟩ := readWord_int hn endsNumber_nil
    exact ⟨c, cs, htext, .inl hc⟩
  | float hx =>
    obtain ⟨-, c, cs, htext, hc⟩ := readWord_float hx endsNumber_nil
    exact ⟨c, cs, htext, .inl hc⟩
  | string => exact ⟨'"', _, rfl, .inr (by decide)⟩
  | @array vs =>
    cases vs <;> exact ⟨'[', _, rfl, .inr (by decide)⟩
  | @object fields =>
    cases fields <;> exact ⟨'\x7b', _, rfl, .inr (by decide)⟩

/-! ## Reading -/

theorem readValue_word (hc : StartsWord c) (fuel : Nat) (cs : List Char) :
    readValue (fuel + 1) (c :: cs) = readWord (c :: cs) := by
  have hquote := hc.ne '"' (by decide) (by decide)
  have hbracket := hc.ne '[' (by decide) (by decide)
  have hbrace := hc.ne '\x7b' (by decide) (by decide)
  unfold readValue
  split
  · rename_i hcons
    cases hcons
    exact absurd rfl hquote
  · rename_i hcons
    cases hcons
    exact absurd rfl hbracket
  · rename_i hcons
    cases hcons
    exact absurd rfl hbrace
  · rfl

theorem readString_stringText {s : String} (h : IsWhole s.toList) (rest : List Char) :
    ∃ cs, stringText s ++ rest = '"' :: cs ∧ readString cs = some (s.toList, rest) := by
  refine ⟨s.toList.flatMap escapeChar ++ '"' :: rest, ?_, readString_flatMap h rest⟩
  simp [stringText]

/-- The value is read wherever it stands in an indented document. -/
def Value.IsRead (v : Value) : Prop :=
  ∀ (level fuel : Nat) (rest : List Char), EndsNumber rest → (indented level v).length ≤ fuel →
    readValue fuel (indented level v ++ rest) = some (v, rest)

/-- Items up to the bracket after them are read if each of them is. -/
theorem readItems_indented (hproper : ∀ v' ∈ v :: vs, v'.IsProper) (hread : ∀ v' ∈ v :: vs, v'.IsRead)
    (fuel level last : Nat) (rest : List Char)
    (hfuel : (indented level v).length + (indentedItems level vs).length < fuel) :
    readItems fuel (indented level v ++ (indentedItems level vs ++ (newLine last ++ ']' :: rest))) =
      some (v :: vs, rest) := by
  induction vs generalizing v fuel with
  | nil =>
    obtain ⟨fuel, rfl⟩ : ∃ k, fuel = k + 1 := ⟨fuel - 1, by omega⟩
    have hfirst := hread v List.mem_cons_self level fuel (newLine last ++ ']' :: rest)
      (endsNumber_newLine last _) (by omega)
    have hspace : skipSpace (newLine last ++ ']' :: rest) = ']' :: rest :=
      skipSpace_newLine rfl last rest
    unfold readItems
    rw [indentedItems_nil, List.nil_append, hfirst]
    dsimp only
    rw [hspace]
    rfl
  | cons v' vs ih =>
    obtain ⟨fuel, rfl⟩ : ∃ k, fuel = k + 1 := ⟨fuel - 1, by omega⟩
    rw [indentedItems_cons, List.length_cons, List.length_append, List.length_append] at hfuel
    obtain ⟨hv, hvs⟩ := List.forall_mem_cons.mp hread
    obtain ⟨-, hproper⟩ := List.forall_mem_cons.mp hproper
    have hfirst := hv level fuel (indentedItems level (v' :: vs) ++ (newLine last ++ ']' :: rest))
      (endsNumber_cons (c := ',') rfl (by decide) _) (by omega)
    have hmore := ih hproper hvs fuel (by omega)
    obtain ⟨c, cs, htext, hc⟩ := exists_first (hproper v' List.mem_cons_self) level
    have hcomma : skipSpace (indentedItems level (v' :: vs) ++ (newLine last ++ ']' :: rest)) =
        ',' :: (newLine level ++
          (indented level v' ++ (indentedItems level vs ++ (newLine last ++ ']' :: rest)))) := by
      rw [indentedItems_cons, List.cons_append, List.append_assoc, List.append_assoc]
      rfl
    have hspace : skipSpace (newLine level ++
        (indented level v' ++ (indentedItems level vs ++ (newLine last ++ ']' :: rest)))) =
        indented level v' ++ (indentedItems level vs ++ (newLine last ++ ']' :: rest)) := by
      rw [htext]
      exact skipSpace_newLine hc.isSpace level _
    unfold readItems
    rw [hfirst]
    dsimp only
    rw [hcomma]
    change (readItems fuel (skipSpace _)).map (fun p => (v :: p.1, p.2)) = _
    rw [hspace, hmore]
    rfl

/-- What comes of the fields from one on, by what stands after its value. -/
def fieldThen (fuel : Nat) (field : String × Value) (after : List Char) :
    Option (List (String × Value) × List Char) :=
  match skipSpace after with
  | '\x7d' :: rest => some ([field], rest)
  | ',' :: rest => (readFields fuel (skipSpace rest)).map fun p => (field :: p.1, p.2)
  | _ => none

theorem readFields_field (name : String) (v : Value) {after : List Char}
    (hname : IsWhole name.toList) (hproper : v.IsProper) (hread : v.IsRead)
    (hafter : EndsNumber after) (level fuel : Nat)
    (hfuel : (indented level v).length ≤ fuel) :
    readFields (fuel + 1) (stringText name ++ ([':', ' '] ++ (indented level v ++ after))) =
      fieldThen fuel (name, v) after := by
  obtain ⟨cs, htext, hstring⟩ := readString_stringText hname ([':', ' '] ++ (indented level v ++ after))
  obtain ⟨c, cs', hvalue, hc⟩ := exists_first hproper level
  have hcolon : skipSpace ([':', ' '] ++ (indented level v ++ after)) =
      ':' :: ' ' :: (indented level v ++ after) := rfl
  have hspace : skipSpace (' ' :: (indented level v ++ after)) = indented level v ++ after := by
    rw [hvalue]
    exact skipSpace_blank hc.isSpace _
  have hstep := hread level fuel after hafter hfuel
  rw [htext, readFields, hstring]
  simp only [hcolon, hspace, hstep, String.ofList_toList]
  rfl

/-- Fields up to the brace after them are read if the value of each of them is. -/
theorem readFields_indented {name : String} (hnames : ∀ e ∈ (name, v) :: fields, IsWhole e.1.toList)
    (hproper : ∀ e ∈ (name, v) :: fields, e.2.IsProper)
    (hread : ∀ e ∈ (name, v) :: fields, e.2.IsRead) (fuel level last : Nat) (rest : List Char)
    (hfuel : (indented level v).length + (indentedFields level fields).length < fuel) :
    readFields fuel (stringText name ++ ([':', ' '] ++ (indented level v ++
      (indentedFields level fields ++ (newLine last ++ '\x7d' :: rest))))) =
      some ((name, v) :: fields, rest) := by
  induction fields generalizing name v fuel with
  | nil =>
    obtain ⟨fuel, rfl⟩ : ∃ k, fuel = k + 1 := ⟨fuel - 1, by omega⟩
    have hspace : skipSpace (newLine last ++ '\x7d' :: rest) = '\x7d' :: rest :=
      skipSpace_newLine rfl last rest
    have hfield := readFields_field name v (hnames _ List.mem_cons_self) (hproper _ List.mem_cons_self)
      (hread _ List.mem_cons_self) (endsNumber_newLine last ('\x7d' :: rest)) level fuel (by omega)
    rw [indentedFields_nil, List.nil_append, hfield, fieldThen, hspace]
    rfl
  | cons e fields ih =>
    obtain ⟨name', v'⟩ := e
    obtain ⟨fuel, rfl⟩ : ∃ k, fuel = k + 1 := ⟨fuel - 1, by omega⟩
    obtain ⟨hname, hnames⟩ := List.forall_mem_cons.mp hnames
    obtain ⟨hv, hproper⟩ := List.forall_mem_cons.mp hproper
    obtain ⟨hvalue, hread⟩ := List.forall_mem_cons.mp hread
    simp only [indentedFields_cons, List.length_append, List.length_cons] at hfuel
    have hmore := ih hnames hproper hread fuel (by omega)
    have hcomma : skipSpace (indentedFields level ((name', v') :: fields) ++
        (newLine last ++ '\x7d' :: rest)) = ',' :: (newLine level ++ (stringText name' ++
          ([':', ' '] ++ (indented level v' ++
            (indentedFields level fields ++ (newLine last ++ '\x7d' :: rest)))))) := by
      simp only [indentedFields_cons, List.cons_append, List.append_assoc]
      rfl
    have hspace (after : List Char) : skipSpace (newLine level ++ (stringText name' ++ after)) =
        stringText name' ++ after := skipSpace_newLine (c := '"') rfl level _
    have hafter : EndsNumber
        (indentedFields level ((name', v') :: fields) ++ (newLine last ++ '\x7d' :: rest)) :=
      endsNumber_cons (c := ',') rfl (by decide) _
    have hfield := readFields_field name v hname hv hvalue hafter level fuel (by omega)
    rw [hfield, fieldThen, hcomma]
    change (readFields fuel (skipSpace _)).map (fun p => ((name, v) :: p.1, p.2)) = _
    rw [hspace, hmore]
    rfl

/-- A value that is written as one word is read where its word is. -/
theorem isRead_of_readWord (h : ∀ level rest, EndsNumber rest → ∃ c cs, indented level v = c :: cs ∧
    StartsWord c ∧ readWord (c :: cs ++ rest) = some (v, rest)) : v.IsRead := by
  intro level fuel rest hrest hfuel
  obtain ⟨c, cs, htext, hc, hword⟩ := h level rest hrest
  rw [htext, List.length_cons] at hfuel
  obtain ⟨fuel, rfl⟩ : ∃ k, fuel = k + 1 := ⟨fuel - 1, by omega⟩
  rw [htext]
  exact (readValue_word hc fuel _).trans hword

theorem isRead_string {s : String} (h : IsWhole s.toList) : (Value.string s).IsRead := by
  intro level fuel rest hrest hfuel
  obtain ⟨cs, htext, hread⟩ := readString_stringText h rest
  rw [indented_string] at hfuel ⊢
  obtain ⟨fuel, rfl⟩ : ∃ k, fuel = k + 1 := ⟨fuel - 1, by simp [stringText] at hfuel; omega⟩
  rw [htext]
  unfold readValue
  change (readString cs).map (fun p => (Value.string (String.ofList p.1), p.2)) = _
  rw [hread, Option.map_some, String.ofList_toList]

theorem isRead_array (hproper : ∀ v ∈ vs, v.IsProper) (hread : ∀ v ∈ vs, v.IsRead) :
    (Value.array vs).IsRead := by
  intro level fuel rest hrest hfuel
  cases vs with
  | nil =>
    obtain ⟨fuel, rfl⟩ : ∃ k, fuel = k + 1 := ⟨fuel - 1, by change 2 ≤ fuel at hfuel; omega⟩
    rfl
  | cons v vs =>
    simp only [indented_array_cons, List.length_append, List.length_cons, List.length_nil] at hfuel
    obtain ⟨fuel, rfl⟩ : ∃ k, fuel = k + 1 := ⟨fuel - 1, by omega⟩
    obtain ⟨c, cs, htext, hc⟩ := exists_first (hproper v List.mem_cons_self) (level + 1)
    have hitems := readItems_indented hproper hread fuel (level + 1) level rest (by omega)
    have hopen : indented level (.array (v :: vs)) ++ rest = '[' :: (newLine (level + 1) ++
        (indented (level + 1) v ++ (indentedItems (level + 1) vs ++
          (newLine level ++ ']' :: rest)))) := by
      simp only [indented_array_cons, List.cons_append, List.append_assoc, List.nil_append]
    have hspace : skipSpace (newLine (level + 1) ++ (indented (level + 1) v ++
        (indentedItems (level + 1) vs ++ (newLine level ++ ']' :: rest)))) =
        indented (level + 1) v ++
          (indentedItems (level + 1) vs ++ (newLine level ++ ']' :: rest)) := by
      rw [htext]
      exact skipSpace_newLine hc.isSpace _ _
    have hclose := hc.ne ']' (by decide) (by decide) (by decide)
    rw [hopen, readValue, hspace]
    split
    · rename_i hbracket
      rw [htext] at hbracket
      cases hbracket
      exact absurd rfl hclose
    · rw [hitems]
      rfl

theorem isRead_object (hkeys : (Table.keys fields).Nodup)
    (hnames : ∀ e ∈ fields, IsWhole e.1.toList) (hproper : ∀ e ∈ fields, e.2.IsProper)
    (hread : ∀ e ∈ fields, e.2.IsRead) : (Value.object fields).IsRead := by
  intro level fuel rest hrest hfuel
  cases fields with
  | nil =>
    obtain ⟨fuel, rfl⟩ : ∃ k, fuel = k + 1 := ⟨fuel - 1, by change 2 ≤ fuel at hfuel; omega⟩
    rfl
  | cons e fields =>
    obtain ⟨name, v⟩ := e
    simp only [indented_object_cons, List.length_append, List.length_cons, List.length_nil] at hfuel
    obtain ⟨fuel, rfl⟩ : ∃ k, fuel = k + 1 := ⟨fuel - 1, by omega⟩
    have hfields := readFields_indented hnames hproper hread fuel (level + 1) level rest (by omega)
    have hopen : indented level (.object ((name, v) :: fields)) ++ rest =
        '\x7b' :: (newLine (level + 1) ++ (stringText name ++ ([':', ' '] ++
          (indented (level + 1) v ++ (indentedFields (level + 1) fields ++
            (newLine level ++ '\x7d' :: rest)))))) := by
      simp only [indented_object_cons, List.cons_append, List.append_assoc, List.nil_append]
    have hspace (after : List Char) :
        skipSpace (newLine (level + 1) ++ (stringText name ++ after)) = stringText name ++ after :=
      skipSpace_newLine (c := '"') rfl (level + 1) _
    rw [hopen, readValue, hspace]
    change (readFields fuel (stringText name ++ ([':', ' '] ++ _))).map
      (fun p => (Value.object (Table.ofList p.1), p.2)) = _
    rw [hfields, Option.map_some, Table.ofList_of_nodup hkeys]

/-- A value is read wherever it stands in an indented document. -/
theorem Value.IsProper.isRead (h : v.IsProper) : v.IsRead := by
  induction h with
  | null => exact isRead_of_readWord fun level rest _ => ⟨'n', _, rfl, .inr (by decide), rfl⟩
  | bool b =>
    refine isRead_of_readWord fun level rest _ => ?_
    cases b with
    | false => exact ⟨'f', _, rfl, .inr (by decide), rfl⟩
    | true => exact ⟨'t', _, rfl, .inr (by decide), rfl⟩
  | int hn =>
    refine isRead_of_readWord fun level rest hrest => ?_
    obtain ⟨hword, c, cs, htext, hc⟩ := readWord_int hn hrest
    exact ⟨c, cs, htext, hc, htext ▸ hword⟩
  | float hx =>
    refine isRead_of_readWord fun level rest hrest => ?_
    obtain ⟨hword, c, cs, htext, hc⟩ := readWord_float hx hrest
    exact ⟨c, cs, htext, hc, htext ▸ hword⟩
  | string hs => exact isRead_string hs
  | array hproper hread => exact isRead_array hproper hread
  | object hkeys hnames hproper hread => exact isRead_object hkeys hnames hproper hread

/-- A value that is written as an indented document is read from it again. -/
theorem read?_print (h : v.IsProper) : read? (print v) = some v := by
  obtain ⟨c, cs, htext, hc⟩ := exists_first h 0
  have hspace : skipSpace (indented 0 v) = indented 0 v := by
    rw [htext]
    exact List.dropWhile_cons_of_neg (by simp [hc.isSpace])
  have hread := h.isRead 0 (2 * (indented 0 v).length + 2) [] endsNumber_nil (by omega)
  rw [List.append_nil] at hread
  exact read?_of_readValue rfl (by rw [hspace]; exact hread)

end PubspecTidy.Json
