import PubspecTidy.Proofs.Manifest.Headers
import PubspecTidy.Manifest.Section
import Mathlib.Data.List.TakeWhile
import Mathlib.Tactic.ByContra

/-!
# Where sections and their entries lie

Main statements: two tracked sections have no line in common, the block of an entry lies inside its
section and holds no header, and lines without a header that come in anywhere shift the sections
behind them and lengthen the one that they stand in.
-/
namespace PubspecTidy.Manifest

/-- No line among these ends a section. -/
def NoHeader (lines : List String) : Prop := ∀ line ∈ lines, isHeader line = false

theorem noHeader_takeWhile (lines : List String) : NoHeader (lines.takeWhile (!isHeader ·)) := by
  intro line hline
  simpa using List.mem_takeWhile_imp hline

theorem NoHeader.not_isHeaderOf (h : NoHeader lines) (kind : SectionKind) :
    ∀ line ∈ lines, isHeaderOf kind.name line = false := by
  intro line hline
  rw [← Bool.not_eq_true]
  intro hheader
  have hnone := h line hline
  rw [isHeader_of_isHeaderOf hheader] at hnone
  cases hnone

/-- A section ends at a header, whatever is behind it. -/
theorem takeWhile_append_header {header : String} (h : isHeader header = true)
    (lines rest : List String) :
    (lines ++ header :: rest).takeWhile (!isHeader ·) = lines.takeWhile (!isHeader ·) := by
  rw [List.takeWhile_append, List.takeWhile_cons_of_neg (by simp [h]), List.append_nil]
  split
  · rename_i hall
    exact ((List.takeWhile_prefix _).eq_of_length hall).symm
  · rfl

theorem take_append_between {α : Type} {i j : Nat} (h : i ≤ j) (all : List α) :
    all.take i ++ (all.drop i).take (j - i) ++ all.drop j = all := by
  have hdrop : all.drop j = (all.drop i).drop (j - i) := by
    rw [List.drop_drop]
    congr 1
    omega
  rw [hdrop, List.append_assoc, List.take_append_drop, List.take_append_drop]

theorem Extent.lines_append {x : Extent} (h : x.start ≤ x.stop) (lines : List String) :
    lines.take x.start ++ x.lines lines ++ lines.drop x.stop = lines :=
  take_append_between h lines

/-! ## Where a section is found -/

theorem findFrom_eq_some {name : String} {index : Nat} {lines : List String} {s : Section}
    (h : findFrom name index lines = some s) :
    ∃ (before : List String) (line : String) (after : List String),
      lines = before ++ line :: after ∧ isHeaderOf name line = true ∧
      s.header = index + before.length ∧
      s.last = s.header + (after.takeWhile (!isHeader ·)).length := by
  induction lines generalizing index with
  | nil => simp [findFrom] at h
  | cons line rest ih =>
    unfold findFrom at h
    split at h
    · rename_i hline
      cases h
      exact ⟨[], line, rest, rfl, hline, rfl, rfl⟩
    · obtain ⟨before, found, after, hrest, hfound, hheader, hlast⟩ := ih h
      refine ⟨line :: before, found, after, by rw [hrest, List.cons_append], hfound, ?_, hlast⟩
      rw [hheader, List.length_cons]
      omega

theorem findSection?_eq_some {lines : List String} {name : String} {s : Section}
    (h : findSection? lines name = some s) :
    ∃ (before : List String) (line : String) (after : List String),
      lines = before ++ line :: after ∧ isHeaderOf name line = true ∧ s.header = before.length ∧
      s.last = s.header + (after.takeWhile (!isHeader ·)).length := by
  simpa using findFrom_eq_some h

theorem header_of_findSection? {lines : List String} {name : String} {s : Section}
    (h : findSection? lines name = some s) :
    ∃ line, lines[s.header]? = some line ∧ isHeaderOf name line = true := by
  obtain ⟨before, line, after, rfl, hline, hheader, -⟩ := findSection?_eq_some h
  exact ⟨line, by simp [hheader], hline⟩

theorem header_le_last {lines : List String} {name : String} {s : Section}
    (h : findSection? lines name = some s) : s.header ≤ s.last := by
  obtain ⟨_, _, _, -, -, -, hlast⟩ := findSection?_eq_some h
  omega

theorem last_lt_length {lines : List String} {name : String} {s : Section}
    (h : findSection? lines name = some s) : s.last < lines.length := by
  obtain ⟨before, line, after, rfl, -, hheader, hlast⟩ := findSection?_eq_some h
  have hle := (List.takeWhile_prefix (!isHeader ·) (l := after)).length_le
  simp only [List.length_append, List.length_cons]
  omega

theorem isHeader_of_mem_body {lines : List String} {name : String} {s : Section}
    (h : findSection? lines name = some s) {i : Nat} {line : String} (hlow : s.header < i)
    (hhigh : i ≤ s.last) (hline : lines[i]? = some line) : isHeader line = false := by
  obtain ⟨before, header, after, rfl, -, hheader, hlast⟩ := findSection?_eq_some h
  obtain ⟨k, rfl⟩ : ∃ k, i = before.length + (k + 1) := ⟨i - before.length - 1, by omega⟩
  have hk : k < (after.takeWhile (!isHeader ·)).length := by omega
  rw [List.getElem?_append_right (by omega)] at hline
  have hafter : after[k]? = some line := by simpa using hline
  have htake : (after.takeWhile (!isHeader ·))[k]? = some line := by
    rw [← hafter]
    exact (List.prefix_iff_getElem?.mp (List.takeWhile_prefix _) k hk).symm ▸
      List.getElem?_eq_getElem hk
  exact noHeader_takeWhile after line (List.mem_of_getElem? htake)

/-- The two tracked sections have no line in common. -/
theorem sections_apart {lines : List String} {kind kind' : SectionKind} {s s' : Section}
    (hne : kind ≠ kind') (h : findSection? lines kind.name = some s)
    (h' : findSection? lines kind'.name = some s') :
    s.last < s'.header ∨ s'.last < s.header := by
  obtain ⟨line, hline, hkind⟩ := header_of_findSection? h
  obtain ⟨line', hline', hkind'⟩ := header_of_findSection? h'
  rcases Nat.lt_trichotomy s.header s'.header with hlt | heq | hgt
  · left
    by_contra hle
    have := isHeader_of_mem_body h hlt (by omega) hline'
    simp [isHeader_of_isHeaderOf hkind'] at this
  · rw [heq, hline'] at hline
    cases hline
    exact absurd (kind_eq_of_isHeaderOf hkind hkind') hne
  · right
    by_contra hle
    have := isHeader_of_mem_body h' hgt (by omega) hline
    simp [isHeader_of_isHeaderOf hkind] at this

/-! ## Lines that come in -/

/-- A section after `count` lines without a header came in at `position`. -/
def Section.widen (position count : Nat) (s : Section) : Section :=
  if position ≤ s.header then ⟨s.header + count, s.last + count⟩
  else if position ≤ s.last + 1 then ⟨s.header, s.last + count⟩
  else s

theorem findFrom_add (name : String) (index count : Nat) (lines : List String) :
    findFrom name (index + count) lines =
      (findFrom name index lines).map fun s => ⟨s.header + count, s.last + count⟩ := by
  induction lines generalizing index with
  | nil => rfl
  | cons line rest ih =>
    unfold findFrom
    split
    · simp [Nat.add_right_comm]
    · rw [Nat.add_right_comm, ih]

theorem findFrom_append_of_noHeader {kind : SectionKind} {new : List String} (hnew : NoHeader new)
    (index : Nat) (lines : List String) :
    findFrom kind.name index (new ++ lines) = findFrom kind.name (index + new.length) lines := by
  induction new generalizing index with
  | nil => rfl
  | cons line rest ih =>
    have hline := hnew.not_isHeaderOf kind line List.mem_cons_self
    rw [List.cons_append, findFrom, if_neg (by simp [hline]),
      ih (fun l hl => hnew l (List.mem_cons_of_mem _ hl)), List.length_cons]
    congr 1
    omega

/-- The lines up to the next header, if lines without one come in. -/
theorem takeWhile_insert {before new : List String} (hnew : NoHeader new) (after : List String) :
    ((before ++ new ++ after).takeWhile (!isHeader ·)).length =
      if before.length ≤ ((before ++ after).takeWhile (!isHeader ·)).length then
        ((before ++ after).takeWhile (!isHeader ·)).length + new.length
      else ((before ++ after).takeWhile (!isHeader ·)).length := by
  induction before with
  | nil =>
    have hall : ∀ l ∈ new, (!isHeader l) = true := fun l hl => by simp [hnew l hl]
    simp [List.takeWhile_append_of_pos hall, Nat.add_comm]
  | cons line rest ih =>
    by_cases hline : isHeader line = true
    · simp [hline]
    · rw [Bool.not_eq_true] at hline
      simp only [List.cons_append, List.takeWhile_cons, hline, Bool.not_false, if_true,
        List.length_cons, ih, Nat.add_le_add_iff_right]
      split <;> omega

theorem findFrom_insert (kind : SectionKind) {new : List String} (hnew : NoHeader new)
    (index : Nat) (before after : List String) :
    findFrom kind.name index (before ++ new ++ after) =
      (findFrom kind.name index (before ++ after)).map
        (Section.widen (index + before.length) new.length) := by
  induction before generalizing index with
  | nil =>
    rw [List.nil_append, List.nil_append, findFrom_append_of_noHeader hnew, findFrom_add]
    refine Option.map_congr fun s hs => ?_
    obtain ⟨_, _, _, -, -, hheader, -⟩ := findFrom_eq_some hs
    rw [Section.widen, if_pos (by rw [List.length_nil]; omega)]
  | cons line before ih =>
    simp only [List.cons_append]
    unfold findFrom
    split
    · rw [Option.map_some, Section.widen, List.length_cons, if_neg (by simp),
        takeWhile_insert hnew]
      by_cases hle : before.length ≤ ((before ++ after).takeWhile (!isHeader ·)).length
      · rw [if_pos hle, if_pos (by simp; omega), Nat.add_assoc]
      · rw [if_neg hle, if_neg (by simp; omega)]
    · rw [ih]
      simp only [List.length_cons, Nat.add_assoc, Nat.add_comm 1]

theorem findSection?_insert (kind : SectionKind) {new : List String} (hnew : NoHeader new)
    (before after : List String) :
    findSection? (before ++ new ++ after) kind.name =
      (findSection? (before ++ after) kind.name).map (Section.widen before.length new.length) := by
  have h := findFrom_insert kind hnew 0 before after
  rwa [Nat.zero_add] at h

/-! ## Blocks -/

theorem openLines_cons (base : Nat) (line : String) (rest : List String) :
    openLines base (line :: rest) = 0 ∨
      openLines base (line :: rest) = openLines base rest + 1 := by
  rw [openLines]
  split
  · split
    · split <;> simp
    · exact .inl rfl
  · split <;> simp

theorem openLines_le (base : Nat) (lines : List String) : openLines base lines ≤ lines.length := by
  induction lines with
  | nil => exact Nat.le_refl 0
  | cons line rest ih =>
    rw [List.length_cons]
    rcases openLines_cons base line rest with hnone | hopen <;> omega

/-- The lines of a block after its declaration are blank or deeper. -/
theorem blank_or_deeper_of_mem_take {base : Nat} {lines : List String} {line : String}
    (h : line ∈ lines.take (openLines base lines)) :
    isBlankLine line = true ∨ base < indentation line := by
  induction lines with
  | nil => simp at h
  | cons first rest ih =>
    unfold openLines at h
    split at h
    · rename_i hblank
      split at h
      · split at h
        · rw [List.take_succ_cons, List.mem_cons] at h
          rcases h with rfl | h
          · exact .inl hblank
          · exact ih h
        · simp at h
      · simp at h
    · split at h
      · rename_i hdeep
        rw [List.take_succ_cons, List.mem_cons] at h
        rcases h with rfl | h
        · exact .inr hdeep
        · exact ih h
      · simp at h

theorem noHeader_block {line : String} (hline : isDependencyLine line = true)
    (rest : List String) :
    NoHeader (line :: rest.take (openLines (indentation line) rest)) := by
  intro l hl
  rcases List.mem_cons.mp hl with rfl | hl
  · exact isHeader_of_startsBlank (startsBlank_of_isDependencyLine hline)
  · rcases blank_or_deeper_of_mem_take hl with hblank | hdeep
    · exact isHeader_of_isBlankLine hblank
    · exact isHeader_of_startsBlank (startsBlank_of_indentation_pos (by omega))

/-! ## Entries -/

/-- The entry is declared on a line among these, of which the first one is the line `index`, and
its block goes on as far as the lines after it are open. -/
def Entry.DeclaredIn (entry : Entry) (index : Nat) (lines : List String) : Prop :=
  ∃ before line rest, lines = before ++ line :: rest ∧ isDependencyLine line = true ∧
    declaredName? line = some entry.name ∧ entry.extent.start = index + before.length ∧
    entry.extent.stop = entry.extent.start + 1 + openLines (indentation line) rest

theorem Entry.DeclaredIn.cons {entry : Entry} {index : Nat} {lines : List String}
    (h : entry.DeclaredIn (index + 1) lines) (line : String) :
    entry.DeclaredIn index (line :: lines) := by
  obtain ⟨before, found, rest, rfl, hfound, hname, hstart, hstop⟩ := h
  refine ⟨line :: before, found, rest, rfl, hfound, hname, ?_, hstop⟩
  rw [hstart, List.length_cons]
  omega

namespace Section

theorem mem_entriesFrom {index skip : Nat} {lines : List String} {entry : Entry}
    (h : entry ∈ entriesFrom index skip lines) : entry.DeclaredIn index lines := by
  induction lines generalizing index skip with
  | nil => cases skip <;> simp [entriesFrom] at h
  | cons line rest ih =>
    have later {skip : Nat} (h : entry ∈ entriesFrom (index + 1) skip rest) :
        entry.DeclaredIn index (line :: rest) := (ih h).cons line
    cases skip with
    | succ skip => exact later h
    | zero =>
      rw [entriesFrom] at h
      split at h
      · rename_i hline
        split at h
        · rename_i name hname
          rcases List.mem_cons.mp h with rfl | h
          · exact ⟨[], line, rest, rfl, hline, hname, rfl, rfl⟩
          · exact later h
        · exact later h
      · exact later h

/-- The place of an entry: its declaration and the lines after it, all inside the section. -/
theorem mem_entries {s : Section} {lines : List String} {entry : Entry}
    (h : entry ∈ s.entries lines) :
    ∃ (before : List String) (line : String) (rest after : List String),
      lines = before ++ line :: (rest ++ after) ∧
      isDependencyLine line = true ∧ declaredName? line = some entry.name ∧
      entry.extent.start = before.length ∧
      entry.extent.stop = entry.extent.start + 1 + openLines (indentation line) rest ∧
      s.header < before.length ∧ before.length + rest.length ≤ s.last := by
  obtain ⟨before, line, rest, hbody, hline, hname, hstart, hstop⟩ := mem_entriesFrom h
  have hdrop := List.take_append_drop (s.last - s.header) (lines.drop (s.header + 1))
  have htake : (lines.drop (s.header + 1)).take (s.last - s.header) = before ++ line :: rest := by
    rw [← hbody, body, linesBetween, Nat.add_sub_add_right]
  rw [htake] at hdrop
  have hlength := congrArg List.length htake
  have hdropped := congrArg List.length hdrop
  simp only [List.length_take, List.length_drop, List.length_append, List.length_cons]
    at hlength hdropped
  have hhead : (lines.take (s.header + 1)).length = s.header + 1 := by
    rw [List.length_take]
    omega
  refine ⟨lines.take (s.header + 1) ++ before, line, rest,
    (lines.drop (s.header + 1)).drop (s.last - s.header), ?_, hline, hname, ?_, hstop, ?_, ?_⟩
  · rw [List.append_assoc, ← List.cons_append, ← List.append_assoc before, hdrop,
      List.take_append_drop]
  · rw [List.length_append, hhead, hstart]
  · rw [List.length_append, hhead]
    omega
  · rw [List.length_append, hhead]
    omega

theorem start_lt_stop {s : Section} {lines : List String} {entry : Entry}
    (h : entry ∈ s.entries lines) : entry.extent.start < entry.extent.stop := by
  obtain ⟨_, _, _, _, -, -, -, -, hstop, -, -⟩ := mem_entries h
  omega

theorem header_lt_start {s : Section} {lines : List String} {entry : Entry}
    (h : entry ∈ s.entries lines) : s.header < entry.extent.start := by
  obtain ⟨_, _, _, _, -, -, -, hstart, -, hheader, -⟩ := mem_entries h
  omega

theorem stop_le_last {s : Section} {lines : List String} {entry : Entry}
    (h : entry ∈ s.entries lines) : entry.extent.stop ≤ s.last + 1 := by
  obtain ⟨before, line, rest, -, -, -, -, hstart, hstop, -, hlast⟩ := mem_entries h
  have := openLines_le (indentation line) rest
  omega

theorem stop_le_length {s : Section} {lines : List String} {entry : Entry}
    (h : entry ∈ s.entries lines) : entry.extent.stop ≤ lines.length := by
  obtain ⟨before, line, rest, after, rfl, -, -, hstart, hstop, -, -⟩ := mem_entries h
  have := openLines_le (indentation line) rest
  simp only [List.length_append, List.length_cons]
  omega

theorem noHeader_lines {s : Section} {lines : List String} {entry : Entry}
    (h : entry ∈ s.entries lines) : NoHeader (entry.extent.lines lines) := by
  obtain ⟨before, line, rest, after, rfl, hline, -, hstart, hstop, -, -⟩ := mem_entries h
  have hsize : entry.extent.size = openLines (indentation line) rest + 1 := by
    rw [Extent.size]
    omega
  have hle := openLines_le (indentation line) rest
  rw [Extent.lines, hsize, hstart, List.drop_left, List.take_succ_cons,
    List.take_append_of_le_length hle]
  exact noHeader_block hline rest

theorem mem_entries_of_locate? {s : Section} {lines : List String} {name : String} {x : Extent}
    (h : s.locate? lines name = some x) :
    ∃ entry ∈ s.entries lines, entry.name = name ∧ entry.extent = x := by
  obtain ⟨entry, hfind, hx⟩ := Option.map_eq_some_iff.mp h
  exact ⟨entry, List.mem_of_find?_eq_some hfind, by simpa using List.find?_some hfind, hx⟩

theorem header_lt_entriesEnd (s : Section) (lines : List String) :
    s.header < s.entriesEnd lines := by
  unfold entriesEnd
  split
  · rename_i entry hlast
    have hmem := List.mem_of_getLast? hlast
    have := header_lt_start hmem
    have := start_lt_stop hmem
    omega
  · omega

theorem entriesEnd_le_last {lines : List String} {s : Section} (hs : s.header ≤ s.last) :
    s.entriesEnd lines ≤ s.last + 1 := by
  unfold entriesEnd
  split
  · rename_i entry hlast
    exact stop_le_last (List.mem_of_getLast? hlast)
  · omega

end Section
end PubspecTidy.Manifest
