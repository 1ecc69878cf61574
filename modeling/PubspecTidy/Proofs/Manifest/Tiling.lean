import PubspecTidy.Proofs.Manifest.Entries
import PubspecTidy.Proofs.Manifest.OpenBlock
import Mathlib.Data.List.Pairwise

/-!
# The blocks of a section side by side

The entries of a section are found in one pass from its header to its end, which takes the block of
each declaration that it comes to and goes on behind it. Main statement: such a pass comes to an end;
its blocks stand one behind the other inside the section and hold all declarations, each as the first
line of one block or as a deeper line of one; and those with a key are the entries.
-/
namespace PubspecTidy.Manifest

variable {i k last : Nat} {name line : String} {lines : List String} {x : Extent}
  {xs ys : List Extent} {s : Section}

/-- These are the blocks that a pass from line `i` up to line `last` finds. -/
inductive Pass (lines : List String) (last : Nat) : Nat → List Extent → Prop
  | done {i : Nat} (hi : last < i) : Pass lines last i []
  | block {i : Nat} {line : String} {x : Extent} {xs : List Extent} (hi : i ≤ last)
      (hline : lines[i]? = some line) (hdeclares : isDependencyLine line = true)
      (hx : blockAt? lines i last = some x) (rest : Pass lines last x.stop xs) :
      Pass lines last i (x :: xs)
  | other {i : Nat} {line : String} {xs : List Extent} (hi : i ≤ last)
      (hline : lines[i]? = some line) (hother : isDependencyLine line = false)
      (rest : Pass lines last (i + 1) xs) : Pass lines last i xs

/-- The entry of a block, which is called by the key of its first line. There is none if that line
has no key. -/
def entryOf? (lines : List String) (x : Extent) : Option Entry :=
  (lines[x.start]?.bind declaredName?).map (⟨·, x⟩)

theorem map_extent_filterMap (lines : List String) (xs : List Extent) :
    (xs.filterMap (entryOf? lines)).map (·.extent) =
      xs.filter fun x => (entryOf? lines x).isSome := by
  induction xs with
  | nil => rfl
  | cons x xs ih =>
    rw [List.filterMap_cons, List.filter_cons, ← ih, entryOf?]
    cases lines[x.start]?.bind declaredName? <;> rfl

/-! ## One step -/

theorem bounds_of_blockAt? (hi : i ≤ last) (hx : blockAt? lines i last = some x) :
    x.start = i ∧ i < x.stop ∧ x.stop ≤ last + 1 := by
  obtain ⟨line, -, rfl⟩ := Option.map_eq_some_iff.mp hx
  have hle := openLines_le (indentation line) (linesBetween lines (i + 1) last)
  have hlength : (linesBetween lines (i + 1) last).length ≤ last + 1 - (i + 1) :=
    List.length_take_le _ _
  dsimp only
  omega

theorem linesBetween_eq_cons (hi : i ≤ last) (hline : lines[i]? = some line) :
    linesBetween lines i last = line :: linesBetween lines (i + 1) last := by
  obtain ⟨hlength, rfl⟩ := List.getElem?_eq_some_iff.mp hline
  have hcount : last + 1 - i = last + 1 - (i + 1) + 1 := by omega
  rw [linesBetween, linesBetween, List.drop_eq_getElem_cons hlength, hcount, List.take_succ_cons]

theorem linesBetween_eq_nil (hi : last < i) : linesBetween lines i last = [] := by
  rw [linesBetween, Nat.sub_eq_zero_of_le hi, List.take_zero]

namespace Section

/-- The entries from a declaration on are that of its block, if there is one, and those behind the
block. -/
theorem entriesFrom_block (hi : i ≤ last) (hline : lines[i]? = some line)
    (hdeclares : isDependencyLine line = true) (hx : blockAt? lines i last = some x) :
    entriesFrom i 0 (linesBetween lines i last) =
      (entryOf? lines x).toList ++ entriesFrom x.stop 0 (linesBetween lines x.stop last) := by
  rw [blockAt?_eq hline, Option.some.injEq] at hx
  subst hx
  generalize hcount : openLines (indentation line) (linesBetween lines (i + 1) last) = count
  have hle : count ≤ (linesBetween lines (i + 1) last).length := hcount ▸ openLines_le _ _
  have hskip := entriesFrom_skip (i + 1) ((linesBetween lines (i + 1) last).take count)
    ((linesBetween lines (i + 1) last).drop count)
  rw [List.take_append_drop, List.length_take_of_le hle, drop_linesBetween] at hskip
  rw [linesBetween_eq_cons hi hline, entriesFrom, if_pos hdeclares, hcount]
  dsimp only
  rw [hskip, entryOf?, hline, Option.bind_some]
  cases declaredName? line <;> rfl

/-- A pass comes to an end, and the blocks that it finds give the entries. -/
theorem exists_pass (hlast : last < lines.length) (i : Nat) :
    ∃ xs, Pass lines last i xs ∧
      entriesFrom i 0 (linesBetween lines i last) = xs.filterMap (entryOf? lines) := by
  -- Each step leaves fewer lines behind it, a block as well as a line on its own.
  induction hleft : last + 1 - i using Nat.strong_induction_on generalizing i with
  | _ left ih =>
    rcases Nat.lt_or_ge last i with hdone | hi
    · refine ⟨[], .done hdone, ?_⟩
      rw [linesBetween_eq_nil hdone]
      rfl
    · have hline := List.getElem?_eq_getElem (Nat.lt_of_le_of_lt hi hlast)
      cases hdeclares : isDependencyLine lines[i] with
      | true =>
        obtain ⟨x, hx⟩ : ∃ x, blockAt? lines i last = some x := ⟨_, blockAt?_eq hline last⟩
        obtain ⟨-, hstop, -⟩ := bounds_of_blockAt? hi hx
        obtain ⟨xs, hpass, hentries⟩ := ih (last + 1 - x.stop) (by omega) x.stop rfl
        refine ⟨x :: xs, .block hi hline hdeclares hx hpass, ?_⟩
        rw [entriesFrom_block hi hline hdeclares hx, hentries, List.filterMap_cons]
        cases entryOf? lines x <;> rfl
      | false =>
        obtain ⟨xs, hpass, hentries⟩ := ih (last + 1 - (i + 1)) (by omega) (i + 1) rfl
        refine ⟨xs, .other hi hline hdeclares hpass, ?_⟩
        rw [linesBetween_eq_cons hi hline, entriesFrom, if_neg (by simp [hdeclares]), hentries]

end Section

/-! ## A whole pass -/

namespace Pass

/-- There is only one pass. -/
theorem eq (h : Pass lines last i xs) (h' : Pass lines last i ys) : xs = ys := by
  induction h generalizing ys with
  | done hi =>
    cases h' with
    | done => rfl
    | block hi' => omega
    | other hi' => omega
  | block hi hline hdeclares hx _ ih =>
    cases h' with
    | done hi' => omega
    | block _ _ _ hx' rest =>
      rw [hx, Option.some.injEq] at hx'
      subst hx'
      rw [ih rest]
    | other _ hline' hother =>
      rw [hline, Option.some.injEq] at hline'
      rw [← hline', hdeclares] at hother
      cases hother
  | other hi hline hother _ ih =>
    cases h' with
    | done hi' => omega
    | block _ hline' hdeclares =>
      rw [hline, Option.some.injEq] at hline'
      rw [← hline', hother] at hdeclares
      cases hdeclares
    | other _ _ _ rest => exact ih rest

theorem bounds (h : Pass lines last i xs) :
    ∀ x ∈ xs, i ≤ x.start ∧ x.start < x.stop ∧ x.stop ≤ last + 1 := by
  induction h with
  | done => simp
  | block hi _ _ hx _ ih =>
    obtain ⟨hstart, hstop, hlast⟩ := bounds_of_blockAt? hi hx
    refine List.forall_mem_cons.mpr ⟨by omega, fun y hy => ?_⟩
    have hy := ih y hy
    omega
  | other _ _ _ _ ih =>
    intro x hx
    have hx := ih x hx
    omega

theorem pairwise (h : Pass lines last i xs) : xs.Pairwise fun x y => x.stop ≤ y.start := by
  induction h with
  | done => exact .nil
  | block _ _ _ _ rest ih => exact .cons (fun y hy => (rest.bounds y hy).1) ih
  | other _ _ _ _ ih => exact ih

theorem isBlock (h : Pass lines last i xs) (hx : x ∈ xs) :
    blockAt? lines x.start last = some x ∧
      ∃ line, lines[x.start]? = some line ∧ isDependencyLine line = true := by
  induction h with
  | done => cases hx
  | block hi hline hdeclares hblock _ ih =>
    rcases List.mem_cons.mp hx with rfl | hx
    · rw [(bounds_of_blockAt? hi hblock).1]
      exact ⟨hblock, _, hline, hdeclares⟩
    · exact ih hx
  | other _ _ _ _ ih => exact ih hx

/-- A pass goes past no declaration. -/
theorem covers (h : Pass lines last i xs) (hlow : i ≤ k) (hhigh : k ≤ last)
    (hline : lines[k]? = some line) (hdeclares : isDependencyLine line = true) :
    ∃ x ∈ xs, x.start ≤ k ∧ k < x.stop := by
  induction h with
  | done hi => omega
  | @block i _ x _ hi _ _ hx _ ih =>
    obtain ⟨hstart, -, -⟩ := bounds_of_blockAt? hi hx
    rcases Nat.lt_or_ge k x.stop with hinside | hbehind
    · exact ⟨x, List.mem_cons_self, by omega, hinside⟩
    · obtain ⟨y, hy, hplace⟩ := ih hbehind
      exact ⟨y, List.mem_cons_of_mem _ hy, hplace⟩
  | other _ hpassed hother _ ih =>
    refine ih (Nat.lt_of_le_of_ne hlow ?_)
    rintro rfl
    rw [hline, Option.some.injEq] at hpassed
    rw [← hpassed, hdeclares] at hother
    cases hother

/-- No line stands in two blocks of a pass. -/
theorem eq_of_common (h : Pass lines last i xs) {y : Extent} (hx : x ∈ xs) (hy : y ∈ xs)
    (hkx : x.start ≤ k ∧ k < x.stop) (hky : y.start ≤ k ∧ k < y.stop) : x = y := by
  have : Std.Symm Extent.Apart := ⟨fun _ _ => Or.symm⟩
  have hapart : xs.Pairwise Extent.Apart := h.pairwise.imp .inr
  by_contra hne
  rcases hapart.forall hx hy hne with hbefore | hbehind <;> omega

end Pass

/-! ## The blocks of a section -/

/-- The line `i` is the first line of the block, or it is a line behind the first one and deeper. -/
def Extent.Owns (x : Extent) (lines : List String) (i : Nat) (line : String) : Prop :=
  x.start = i ∨ (x.start < i ∧ i < x.stop ∧
    ∃ first, lines[x.start]? = some first ∧ indentation first < indentation line)

namespace Section

/-- The blocks are all that a section declares, side by side. -/
structure Tiles (s : Section) (lines : List String) (blocks : List Extent) : Prop where
  /-- They are found in one pass. -/
  pass : Pass lines s.last (s.header + 1) blocks
  /-- Those with a key are listed, under their key. -/
  entries_eq : s.entries lines = blocks.filterMap (entryOf? lines)
  extents_sublist : ((s.entries lines).map (·.extent)).Sublist blocks
  bounds : ∀ x ∈ blocks, s.header + 1 ≤ x.start ∧ x.start < x.stop ∧ x.stop ≤ s.last + 1
  pairwise : blocks.Pairwise fun x y => x.stop ≤ y.start
  owned : ∀ i line, s.header < i → i ≤ s.last → lines[i]? = some line →
    isDependencyLine line = true → ∃! x, x ∈ blocks ∧ x.Owns lines i line
  entriesEnd_eq : s.entriesEnd lines =
    ((s.entries lines).map (·.extent.stop)).getLast?.getD (s.header + 1)
  entriesEnd_le : s.entriesEnd lines ≤ s.last + 1

theorem existsUnique_owns {blocks : List Extent} (h : Pass lines last i blocks) (hlow : i ≤ k)
    (hhigh : k ≤ last) (hline : lines[k]? = some line) (hdeclares : isDependencyLine line = true) :
    ∃! x, x ∈ blocks ∧ x.Owns lines k line := by
  obtain ⟨x, hx, hstart, hstop⟩ := h.covers hlow hhigh hline hdeclares
  refine ⟨x, ⟨hx, ?_⟩, ?_⟩
  · rcases Nat.eq_or_lt_of_le hstart with heq | hlt
    · exact .inl heq
    · obtain ⟨hblock, first, hfirst, -⟩ := h.isBlock hx
      have hend := (isGreatest_blockAt? hfirst hblock).1.2.2
      exact .inr ⟨hlt, hstop, first, hfirst, hend.deeper k line hlt (by omega) hline
        (isBlankLine_of_isDependencyLine hdeclares)⟩
  · rintro y ⟨hy, howns⟩
    have hbounds := h.bounds y hy
    refine h.eq_of_common hy hx ?_ ⟨hstart, hstop⟩
    rcases howns with heq | ⟨hlt, hinside, -⟩
    · omega
    · exact ⟨hlt.le, hinside⟩

/-- The blocks that one pass finds in a section hold all its declarations, each of them once. -/
theorem blocks_tile (h : findSection? lines name = some s) : ∃! blocks, s.Tiles lines blocks := by
  obtain ⟨blocks, hpass, hentries⟩ := exists_pass (last_lt_length h) (s.header + 1)
  refine ⟨blocks, ⟨hpass, hentries, ?_, hpass.bounds, hpass.pairwise, ?_, ?_,
    entriesEnd_le_last (header_le_last h)⟩, fun other hother => hother.pass.eq hpass⟩
  · have hextents := congrArg (List.map (·.extent)) hentries
    rw [map_extent_filterMap] at hextents
    exact hextents ▸ List.filter_sublist
  · intro i line hlow hhigh hline hdeclares
    exact existsUnique_owns hpass hlow hhigh hline hdeclares
  · rw [entriesEnd, List.getLast?_map]
    cases (s.entries lines).getLast? <;> rfl

/-- A section with a stray line, a declaration without a key and blocks that are not even. -/
def unevenLines : List String :=
  ["name: x", "dependencies:", "stray", "    deep: 1", "  a:", "      b: 2", "", "    c: 3",
    "  : none", "    x: 4", "# note", "  d: 5", "", "dev_dependencies:"]

theorem blocks_tile_uneven : findSection? unevenLines "dependencies" = some ⟨1, 12⟩ ∧
    ∃! blocks, (⟨1, 12⟩ : Section).Tiles unevenLines blocks := by
  have hsection : findSection? unevenLines "dependencies" = some ⟨1, 12⟩ := by decide
  exact ⟨hsection, blocks_tile hsection⟩

end Section
end PubspecTidy.Manifest
