import PubspecTidy.Proofs.Manifest.Blocks
import Mathlib.Data.List.Find

/-!
# The entries among lines, piece by piece

Main statements: where no block goes on from one piece of a text to the next, the entries of the text
are those of its pieces; and without the block of an entry all other entries are there as before,
those behind it as many lines further up as went out.
-/
namespace PubspecTidy.Manifest

variable {base : Option Nat} {index : Nat} {name line : String}
  {lines before rest after : List String} {kind kind' : SectionKind} {s : Section} {x y : Extent}

/-! ## Extents -/

namespace Extent

/-- As many lines further down. -/
def down (count : Nat) (x : Extent) : Extent := ⟨x.start + count, x.stop + count⟩

/-- Where the lines of `y` stand after those of `x` went out, if the two have none in common. -/
def without (x y : Extent) : Extent :=
  if x.stop ≤ y.start then ⟨y.start - x.size, y.stop - x.size⟩ else y

/-- No line stands in both. -/
def Apart (x y : Extent) : Prop := y.stop ≤ x.start ∨ x.stop ≤ y.start

theorem exists_down {count : Nat} (h : count ≤ x.start) (hx : x.start ≤ x.stop) :
    ∃ y, x = down count y := by
  obtain ⟨start, stop⟩ := x
  refine ⟨⟨start - count, stop - count⟩, ?_⟩
  simp only [down, Extent.mk.injEq] at h hx ⊢
  omega

theorem lines_append_left (h : x.stop ≤ lines.length) (more : List String) :
    x.lines (lines ++ more) = x.lines lines := by
  rw [Extent.lines, Extent.lines, Extent.size]
  rcases Nat.le_total x.start lines.length with hle | hle
  · rw [List.drop_append_of_le_length hle, List.take_append_of_le_length]
    rw [List.length_drop]
    omega
  · rw [Nat.sub_eq_zero_of_le (h.trans hle), List.take_zero, List.take_zero]

theorem lines_append_right {count : Nat} (h : lines.length = count) (more : List String) :
    (x.down count).lines (lines ++ more) = x.lines more := by
  have hsize : (x.down count).size = x.size := by
    simp only [Extent.size, down]
    omega
  rw [Extent.lines, Extent.lines, hsize, down, ← h, Nat.add_comm, ← List.drop_drop, List.drop_left]

theorem without_of_before (h : y.stop ≤ x.start) (hy : y.start < y.stop) (hx : x.start ≤ x.stop) :
    x.without y = y := if_neg (by omega)

theorem without_down (h : x.start ≤ y.start) (hx : x.start ≤ x.stop) :
    x.without (y.down x.size) = y := by
  have hsize : x.size = x.stop - x.start := rfl
  rw [without, if_pos (by simp only [down]; omega)]
  simp [down]

end Extent

namespace Entry

def down (count : Nat) (entry : Entry) : Entry := ⟨entry.name, entry.extent.down count⟩

/-- The entry after the lines of an extent went out. -/
def without (x : Extent) (entry : Entry) : Entry := ⟨entry.name, x.without entry.extent⟩

end Entry

/-! ## Pieces -/

namespace Section

theorem entriesFrom_add (index count skip : Nat) (lines : List String) :
    entriesFrom (index + count) skip lines = (entriesFrom index skip lines).map (·.down count) := by
  induction lines generalizing index skip with
  | nil => rw [entriesFrom_nil, entriesFrom_nil]; rfl
  | cons line rest ih =>
    have hnext : index + count + 1 = index + 1 + count := Nat.add_right_comm index count 1
    cases skip with
    | succ skip =>
      rw [entriesFrom, entriesFrom, hnext]
      exact ih (index + 1) skip
    | zero =>
      rw [entriesFrom, entriesFrom, hnext]
      dsimp only
      rw [ih, ih]
      split
      · split
        · rename_i name _
          have hstop (inner : Nat) : index + 1 + count + inner = index + 1 + inner + count := by omega
          rw [List.map_cons, hstop]
          rfl
        · rfl
      · rfl

theorem bounds_of_mem_entriesFrom {skip : Nat} {entry : Entry}
    (h : entry ∈ entriesFrom index skip lines) :
    index ≤ entry.extent.start ∧ entry.extent.start < entry.extent.stop ∧
      entry.extent.stop ≤ index + lines.length := by
  obtain ⟨before, line, rest, rfl, -, -, hstart, hstop⟩ := mem_entriesFrom h
  have hle := openLines_le (indentation line) rest
  simp only [List.length_append, List.length_cons]
  omega

end Section

open Section

/-- Where no block goes on from one piece to the next, the text has the entries of both. -/
theorem IsPlace.entriesFrom_append (h : IsPlace base before after) (index : Nat) :
    entriesFrom index (openCount base (before ++ after)) (before ++ after) =
      entriesFrom index (openCount base before) before ++
        entriesFrom (index + before.length) 0 after := by
  induction before generalizing base index with
  | nil =>
    have hcount : openCount base after = 0 := by
      cases base with
      | none => rfl
      | some n => exact openLines_of_shallow (h n rfl)
    rw [entriesFrom_nil, List.nil_append, hcount]
    rfl
  | cons line before ih =>
    have hrest : IsPlace (openAfter base line) before after := h
    have hnext : index + (line :: before).length = index + 1 + before.length := by
      rw [List.length_cons]
      omega
    rw [List.cons_append, entriesFrom_cons, entriesFrom_cons, ih hrest, List.append_assoc, hnext]
    cases hname : nameAt? base line with
    | none => rfl
    | some name =>
      obtain ⟨hdeclares, hends, -⟩ := of_nameAt?_eq_some hname
      rw [openAfter_of_declares hdeclares hends] at hrest
      rw [hrest.openLines_append]

/-- A block that stands is one entry, and all others are as if it was not there. -/
theorem Stands.entriesFrom_eq (h : Stands none name before line rest after) (index : Nat) :
    entriesFrom index 0 (before ++ (line :: rest) ++ after) =
      entriesFrom index 0 before ++
        ⟨name, ⟨index + before.length, index + before.length + (line :: rest).length⟩⟩ ::
          entriesFrom (index + before.length + (line :: rest).length) 0 after := by
  have hbefore : IsPlace none before (line :: rest ++ after) := h.isBlock.isPlace_before h.ends _
  have hopen : openLines (indentation line) (rest ++ after) = rest.length := by
    rw [openLines_append h.whole, openLines_of_shallow h.shallow, Nat.add_zero]
  have hfirst := hbefore.entriesFrom_append index
  rw [openCount, openCount] at hfirst
  rw [List.append_assoc, hfirst, List.cons_append, entriesFrom, if_pos h.isBlock.declares,
    h.isBlock.declared, hopen]
  dsimp only
  rw [entriesFrom_skip, List.length_cons, Nat.add_assoc _ 1, Nat.add_comm 1]

/-! ## The entries of a section -/

/-- The entries of a section; there are none if there is no such section. -/
def entriesIn (lines : List String) (kind : SectionKind) : List Entry :=
  (findSection? lines kind.name).elim [] (·.entries lines)

theorem located_eq (lines : List String) (kind : SectionKind) (name : String) :
    located lines kind name = ((entriesIn lines kind).find? (·.name == name)).map (·.extent) := by
  rw [located, entriesIn]
  cases findSection? lines kind.name <;> rfl

theorem entriesIn_eq {body : List String} (hs : findSection? lines kind.name = some s)
    (hbody : bodyOf? kind.name lines = some body) :
    entriesIn lines kind = entriesFrom (s.header + 1) 0 body := by
  rw [← map_body_findSection?, hs, Option.map_some, Option.some.injEq] at hbody
  rw [entriesIn, hs, ← hbody]
  rfl

/-! ## Lines that go out -/

/-- What the block of an entry is among the entries of a section: those `above` it, itself if it is
in this section, and those `below` it, which move up when it goes out. -/
structure Splits (lines : List String) (kind : SectionKind) (name : String) (x : Extent)
    (kind' : SectionKind) (above below : List Entry) : Prop where
  eq : entriesIn lines kind' = above ++ (if kind' = kind then [⟨name, x⟩] else []) ++ below
  without : entriesIn (Splice.without x lines) kind' = above ++ below.map (·.without x)
  above_le : ∀ entry ∈ above, entry.extent.stop ≤ x.start
  le_below : ∀ entry ∈ below, x.stop ≤ entry.extent.start

theorem findSection?_without (h : located lines kind name = some x) (kind' : SectionKind) :
    findSection? lines kind'.name =
      (findSection? (Splice.without x lines) kind'.name).map (.widen x.start x.size) := by
  obtain ⟨hextent, hlines, hblock⟩ := Editor.exists_of_located h
  have hstart : (lines.take x.start).length = x.start := (congrArg Extent.start hextent).symm
  have hsize : (x.lines lines).length = x.size := by
    rw [Extent.size, congrArg Extent.stop hextent, hstart, Nat.add_sub_cancel_left]
  have hfound := findSection?_insert kind' hblock (lines.take x.start) (lines.drop x.stop)
  rwa [hlines, hstart, hsize] at hfound

theorem map_without_entriesFrom (hx : x.start ≤ x.stop) (h : x.start ≤ index) :
    (entriesFrom (index + x.size) 0 lines).map (·.without x) = entriesFrom index 0 lines := by
  rw [entriesFrom_add, List.map_map]
  refine (List.map_congr_left fun entry hentry => ?_).trans (List.map_id _)
  have hlow := (bounds_of_mem_entriesFrom hentry).1
  exact congrArg (Entry.mk entry.name) (Extent.without_down (h.trans hlow) hx)

/-- The section that holds the block. -/
theorem splits_same (hs : findSection? lines kind.name = some s)
    (hx : s.locate? lines name = some x) :
    ∃ above below, Splits lines kind name x kind above below := by
  obtain ⟨before, line, rest, after, hbody, hstands, -, hextent⟩ := exists_of_locate? hx
  have hlocated : located lines kind name = some x := by rw [located, hs, Option.bind_some, hx]
  have hold : bodyOf? kind.name lines = some (before ++ (line :: rest) ++ after) := by
    rw [← map_body_findSection?, hs, Option.map_some, hbody]
  have hstart : x.start = s.header + 1 + before.length := congrArg Extent.start hextent
  have hstop : x.stop = s.header + 1 + before.length + (line :: rest).length :=
    congrArg Extent.stop hextent
  have hsize : x.size = (line :: rest).length := by
    rw [Extent.size, hstop, hstart, Nat.add_sub_cancel_left]
  have hnew := bodyOf?_replace hs hbody noHeader_nil kind
  rw [List.append_nil, List.append_nil, if_pos rfl, ← hstop, ← hstart] at hnew
  -- the header stays where it is
  have hfound := findSection?_without hlocated kind
  rw [hs] at hfound
  obtain ⟨s', hs', hwiden⟩ := Option.map_eq_some_iff.mp hfound.symm
  have hheader : s'.header = s.header := by
    have hplace := congrArg Section.header hwiden
    unfold Section.widen at hplace
    split at hplace
    · simp only at hplace
      omega
    · split at hplace <;> exact hplace
  have hbelow : (entriesFrom (x.start + x.size) 0 after).map (·.without x) =
      entriesFrom x.start 0 after :=
    map_without_entriesFrom (by omega) le_rfl
  refine ⟨entriesFrom (s.header + 1) 0 before, entriesFrom (x.start + x.size) 0 after, ?_, ?_, ?_,
    ?_⟩
  · rw [entriesIn_eq hs hold, hstands.entriesFrom_eq, ← hextent, hsize, hstart, if_pos rfl,
      List.append_assoc]
    rfl
  · have hplace := hstands.isPlace_without.entriesFrom_append (s.header + 1)
    rw [openCount, openCount] at hplace
    rw [entriesIn_eq hs' hnew, hheader, hplace, hbelow, hstart]
  · intro entry hentry
    have := bounds_of_mem_entriesFrom hentry
    omega
  · intro entry hentry
    have := bounds_of_mem_entriesFrom hentry
    omega

/-- A section that does not hold the block stands behind it or before it. -/
theorem splits_other (hs : findSection? lines kind.name = some s)
    (hx : s.locate? lines name = some x) (hne : kind' ≠ kind) :
    ∃ above below, Splits lines kind name x kind' above below := by
  have hlocated : located lines kind name = some x := by rw [located, hs, Option.bind_some, hx]
  obtain ⟨before, line, rest, after, hbody, -, -, hextent⟩ := exists_of_locate? hx
  have hbodies := bodyOf?_replace hs hbody noHeader_nil kind'
  have hstart : x.start = s.header + 1 + before.length := congrArg Extent.start hextent
  have hstop : x.stop = s.header + 1 + before.length + (line :: rest).length :=
    congrArg Extent.stop hextent
  rw [List.append_nil, if_neg hne, ← hstop, ← hstart] at hbodies
  obtain ⟨entry, hentry, -, rfl⟩ := mem_entries_of_locate? hx
  have hle := (start_lt_stop hentry).le
  have hlast := stop_le_last hentry
  have hfound := findSection?_without hlocated kind'
  cases hs' : findSection? (Splice.without entry.extent lines) kind'.name with
  | none =>
    rw [hs'] at hfound
    refine ⟨[], [], ?_, ?_, by simp, by simp⟩
    · rw [entriesIn, hfound, if_neg hne]
      rfl
    · rw [entriesIn, hs']
      rfl
  | some s' =>
    rw [hs', Option.map_some] at hfound
    have hnew : bodyOf? kind'.name (Splice.without entry.extent lines) =
        some (s'.body (Splice.without entry.extent lines)) := by
      rw [← map_body_findSection?, hs', Option.map_some]
    have hold := hbodies.symm.trans hnew
    have hapart := sections_apart hne.symm hs hfound
    by_cases hbehind : entry.extent.start ≤ s'.header
    · rw [Section.widen, if_pos hbehind] at hfound
      have hentries := entriesIn_eq hfound hold
      rw [Nat.add_right_comm] at hentries
      refine ⟨[], entriesIn lines kind', by rw [if_neg hne]; rfl, ?_, by simp, ?_⟩
      · rw [entriesIn_eq hs' hnew, hentries, map_without_entriesFrom hle (by omega)]
        rfl
      · intro other hother
        rw [hentries] at hother
        have := bounds_of_mem_entriesFrom hother
        rw [Extent.size] at this
        omega
    · have hbefore : ¬ entry.extent.start ≤ s'.last + 1 := by
        intro hinside
        rw [Section.widen, if_neg hbehind, if_pos hinside] at hapart
        simp only at hapart
        have := start_lt_stop hentry
        omega
      rw [Section.widen, if_neg hbehind, if_neg hbefore] at hfound
      refine ⟨entriesIn lines kind', [], by rw [if_neg hne]; simp, ?_, ?_, by simp⟩
      · rw [entriesIn_eq hs' hnew, entriesIn_eq hfound hold]
        simp
      · intro other hother
        rw [entriesIn, hfound] at hother
        have := stop_le_last hother
        omega

/-- The block of an entry among the entries of any section. -/
theorem exists_splits (h : located lines kind name = some x) (kind' : SectionKind) :
    ∃ above below, Splits lines kind name x kind' above below := by
  obtain ⟨s, hs, hx⟩ := Option.bind_eq_some_iff.mp h
  by_cases hkind : kind' = kind
  · rw [hkind]
    exact splits_same hs hx
  · exact splits_other hs hx hkind

/-! ## All other entries -/

theorem start_lt_stop_of_mem_entriesIn {entry : Entry} (h : entry ∈ entriesIn lines kind) :
    entry.extent.start < entry.extent.stop := by
  rw [entriesIn] at h
  cases hs : findSection? lines kind.name with
  | none =>
    rw [hs] at h
    cases h
  | some s =>
    rw [hs] at h
    exact start_lt_stop h

theorem bounds_of_located (h : located lines kind name = some x) :
    x.start < x.stop ∧ x.stop ≤ lines.length := by
  obtain ⟨s, -, hx⟩ := Option.bind_eq_some_iff.mp h
  obtain ⟨entry, hentry, -, rfl⟩ := mem_entries_of_locate? hx
  exact ⟨start_lt_stop hentry, stop_le_length hentry⟩

/-- An entry is the one whose block is located, or it has no line in common with it. -/
theorem eq_or_apart (h : located lines kind name = some x) {entry : Entry}
    (hentry : entry ∈ entriesIn lines kind') :
    (kind' = kind ∧ entry = ⟨name, x⟩) ∨ x.Apart entry.extent := by
  obtain ⟨above, below, hsplits⟩ := exists_splits h kind'
  rw [hsplits.eq, List.mem_append, List.mem_append] at hentry
  rcases hentry with (habove | hself) | hbelow
  · exact .inr (.inl (hsplits.above_le entry habove))
  · split at hself
    · rename_i hkind
      exact .inl ⟨hkind, List.mem_singleton.mp hself⟩
    · cases hself
  · exact .inr (.inr (hsplits.le_below entry hbelow))

theorem Extent.Apart.ne (h : x.Apart y) (hx : x.start < x.stop) : y ≠ x := by
  rintro rfl
  rcases h with h | h <;> omega

/-- Without the block of an entry each section has all other entries as before. -/
theorem entriesIn_without (h : located lines kind name = some x) (kind' : SectionKind) :
    entriesIn (Splice.without x lines) kind' =
      ((entriesIn lines kind').filter (·.extent ≠ x)).map (·.without x) := by
  obtain ⟨above, below, hsplits⟩ := exists_splits h kind'
  have hx := (bounds_of_located h).1
  have hmem {entry : Entry} (hentry : entry ∈ above ∨ entry ∈ below) :
      entry ∈ entriesIn lines kind' := by
    rw [hsplits.eq, List.mem_append, List.mem_append]
    exact hentry.imp_left .inl
  have habove : above.filter (·.extent ≠ x) = above :=
    List.filter_eq_self.mpr fun entry hentry => by
      simpa using Extent.Apart.ne (.inl (hsplits.above_le entry hentry)) hx
  have hbelow : below.filter (·.extent ≠ x) = below :=
    List.filter_eq_self.mpr fun entry hentry => by
      simpa using Extent.Apart.ne (.inr (hsplits.le_below entry hentry)) hx
  have hself : (if kind' = kind then [(⟨name, x⟩ : Entry)] else []).filter (·.extent ≠ x) = [] := by
    split <;> simp
  have hfixed : above.map (·.without x) = above := by
    refine (List.map_congr_left fun entry hentry => ?_).trans (List.map_id _)
    exact congrArg (Entry.mk entry.name) (Extent.without_of_before (hsplits.above_le entry hentry)
      (start_lt_stop_of_mem_entriesIn (hmem (.inl hentry))) hx.le)
  rw [hsplits.without, hsplits.eq, List.filter_append, List.filter_append, habove, hself, hbelow,
    List.append_nil, List.map_append, hfixed]

/-- Without the block of one package every other one is located as before. -/
theorem located_without (h : located lines kind name = some x) {name' : String}
    (hne : (kind', name') ≠ (kind, name)) :
    located (Splice.without x lines) kind' name' = (located lines kind' name').map x.without := by
  have hkept : ∀ entry ∈ entriesIn lines kind',
      decide (decide (entry.extent ≠ x) = true ∧ (entry.name == name') = true) =
        (entry.name == name') := by
    intro entry hentry
    rcases eq_or_apart h hentry with ⟨rfl, rfl⟩ | hapart
    · have hname : name ≠ name' := fun heq => hne (by rw [heq])
      simp [hname]
    · have hother := hapart.ne (bounds_of_located h).1
      simp only [hother, ne_eq, not_false_eq_true, decide_true, true_and, Bool.decide_eq_true]
  rw [located_eq, located_eq, entriesIn_without h, List.find?_map, List.find?_filter,
    Option.map_map, Option.map_map]
  exact congrArg (Option.map _) (List.find?_congr hkept)

/-- Lines that stand apart from those that go out are still the same. -/
theorem Extent.lines_without (hx : x.start ≤ x.stop) (hle : x.stop ≤ lines.length)
    (h : x.Apart y) (hy : y.start < y.stop) :
    (x.without y).lines (Splice.without x lines) = y.lines lines := by
  have hstart : (lines.take x.start).length = x.start := by
    rw [List.length_take]
    omega
  have hstop : (lines.take x.stop).length = x.stop := by
    rw [List.length_take]
    omega
  rcases h with hbefore | hbehind
  · calc (x.without y).lines (Splice.without x lines)
      _ = y.lines (lines.take x.start ++ lines.drop x.stop) := by
          rw [without_of_before hbefore hy hx, Splice.without]
      _ = y.lines (lines.take x.start ++ lines.drop x.start) := by
          rw [lines_append_left (by omega), lines_append_left (by omega)]
      _ = y.lines lines := by rw [List.take_append_drop]
  · obtain ⟨z, rfl⟩ := exists_down hbehind hy.le
    have hz : x.without (z.down x.stop) = z.down x.start := by
      rw [without, if_pos hbehind]
      simp only [down, Extent.size, Extent.mk.injEq]
      omega
    calc (x.without (z.down x.stop)).lines (Splice.without x lines)
      _ = (z.down x.start).lines (lines.take x.start ++ lines.drop x.stop) := by
          rw [hz, Splice.without]
      _ = (z.down x.stop).lines (lines.take x.stop ++ lines.drop x.stop) := by
          rw [lines_append_right hstart, lines_append_right hstop]
      _ = (z.down x.stop).lines lines := by rw [List.take_append_drop]

end PubspecTidy.Manifest
