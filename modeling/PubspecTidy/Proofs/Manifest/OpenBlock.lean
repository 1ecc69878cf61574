import PubspecTidy.Proofs.Manifest.Names
import Mathlib.Order.Bounds.Basic

/-!
# Where a block ends

The block of a declaration goes on over blank lines, but it does not end on one. Main statement: its
last line is the greatest of the lines that it can end on, up to the end of the section. So a blank
line is in the block just if a deeper line of the block is behind it, and what comes next behind the
block, blank lines apart, is not deeper than its declaration.
-/
namespace PubspecTidy.Manifest

variable {n i j k start last : Nat} {first line : String} {lines rest : List String} {x : Extent}

/-- A block of column `n` that starts on line `start` can end on line `j`: up to there, whatever is
not blank behind its start is deeper, and line `j` is its start or is not blank itself. -/
structure CanEnd (lines : List String) (n start j : Nat) : Prop where
  deeper : ∀ i line, start < i → i ≤ j → lines[i]? = some line → isBlankLine line = false →
    n < indentation line
  filled : j = start ∨ ∃ line, lines[j]? = some line ∧ isBlankLine line = false

theorem canEnd_start (lines : List String) (n start : Nat) : CanEnd lines n start start :=
  ⟨fun _ _ hlow hhigh => absurd hhigh (Nat.not_le.mpr hlow), .inl rfl⟩

theorem CanEnd.lt_length (h : CanEnd lines n start j) (hstart : start < lines.length) :
    j < lines.length := by
  rcases h.filled with rfl | ⟨line, hline, -⟩
  · exact hstart
  · exact (List.getElem?_eq_some_iff.mp hline).1

/-- A blank line stands before the end of a block just if a deeper line does that is behind it. -/
theorem CanEnd.le_iff_of_isBlankLine (h : CanEnd lines n start j) (hstart : start < i)
    (hline : lines[i]? = some line) (hblank : isBlankLine line = true) :
    i ≤ j ↔ ∃ k next, i < k ∧ k ≤ j ∧ lines[k]? = some next ∧ isBlankLine next = false ∧
      n < indentation next := by
  constructor
  · intro hle
    obtain ⟨last, hlast, hfilled⟩ := h.filled.resolve_left (by omega)
    have hne : i ≠ j := by
      rintro rfl
      rw [hline] at hlast
      obtain rfl := Option.some.inj hlast
      rw [hblank] at hfilled
      cases hfilled
    exact ⟨j, last, by omega, le_rfl, hlast, hfilled, h.deeper j last (by omega) le_rfl hlast hfilled⟩
  · rintro ⟨k, -, hlow, hhigh, -⟩
    omega

/-! ## Line by line -/

/-- The line next to the start goes on with the block, and behind it a block can end as if it
started there. -/
theorem canEnd_cons :
    CanEnd (first :: line :: rest) n 0 (k + 1) ↔
      (isBlankLine line = true ∨ n < indentation line) ∧ (k = 0 → isBlankLine line = false) ∧
        CanEnd (line :: rest) n 0 k := by
  constructor
  · intro h
    have hfilled := h.filled.resolve_left (Nat.succ_ne_zero k)
    rw [List.getElem?_cons_succ] at hfilled
    refine ⟨?_, fun hk => ?_, fun i l hlow hhigh => ?_, .inr hfilled⟩
    · cases hblank : isBlankLine line with
      | true => exact .inl rfl
      | false => exact .inr (h.deeper 1 line Nat.one_pos (Nat.le_add_left 1 k) rfl hblank)
    · obtain ⟨found, hfound, hcontent⟩ := hfilled
      rw [hk, List.getElem?_cons_zero] at hfound
      obtain rfl := Option.some.inj hfound
      exact hcontent
    · exact h.deeper (i + 1) l (Nat.succ_pos i) (Nat.succ_le_succ hhigh)
  · rintro ⟨hline, hk, h⟩
    refine ⟨fun i l hlow hhigh hl hcontent => ?_, .inr ?_⟩
    · obtain ⟨i, rfl⟩ := Nat.exists_eq_add_one.mpr hlow
      rw [List.getElem?_cons_succ] at hl
      rcases Nat.eq_zero_or_pos i with rfl | hi
      · obtain rfl := Option.some.inj hl
        exact hline.resolve_left (by simp [hcontent])
      · exact h.deeper i l hi (Nat.le_of_succ_le_succ hhigh) hl hcontent
    · rw [List.getElem?_cons_succ]
      rcases Nat.eq_zero_or_pos k with rfl | hpos
      · exact ⟨line, rfl, hk rfl⟩
      · exact h.filled.resolve_left hpos.ne'

/-- As many lines are open behind a start as there are up to the last one that its block can end
on. -/
theorem isGreatest_openLines (n : Nat) (first : String) (lines : List String) :
    IsGreatest {k | CanEnd (first :: lines) n 0 k} (openLines n lines) := by
  induction lines generalizing first with
  | nil =>
    refine ⟨canEnd_start _ n 0, fun k h => ?_⟩
    exact Nat.le_of_lt_succ (h.lt_length Nat.one_pos)
  | cons line rest ih =>
    obtain ⟨hopen, hgreatest⟩ := ih line
    refine ⟨?_, fun k h => ?_⟩
    · cases hblank : isBlankLine line with
      | true =>
        rw [openLines_of_isBlankLine hblank]
        split
        · exact canEnd_start _ n 0
        · rename_i hrest
          exact (canEnd_cons).mpr ⟨.inl hblank, fun hzero => absurd hzero hrest, hopen⟩
      | false =>
        rcases Nat.lt_or_ge n (indentation line) with hdeep | hends
        · rw [openLines_of_deeper hblank hdeep]
          exact (canEnd_cons).mpr ⟨.inr hdeep, fun _ => hblank, hopen⟩
        · rw [openLines_of_ends hblank hends]
          exact canEnd_start _ n 0
    · cases k with
      | zero => exact Nat.zero_le _
      | succ k =>
        obtain ⟨hline, hcontent, hrest⟩ := (canEnd_cons).mp h
        have hle : k ≤ openLines n rest := hgreatest hrest
        cases hblank : isBlankLine line with
        | true =>
          -- A block does not end on a blank line, so some line behind it is open.
          have hpos : k ≠ 0 := fun hzero => by simp [hcontent hzero] at hblank
          rw [openLines_of_isBlankLine hblank, if_neg (by omega)]
          exact Nat.succ_le_succ hle
        | false =>
          rw [openLines_of_deeper hblank (hline.resolve_left (by simp [hblank]))]
          exact Nat.succ_le_succ hle

/-! ## Some lines among all -/

theorem getElem?_linesBetween (lines : List String) (start last i : Nat) :
    (linesBetween lines start last)[i]? = if start + i ≤ last then lines[start + i]? else none := by
  rw [linesBetween, List.getElem?_take, List.getElem?_drop]
  by_cases h : start + i ≤ last
  · rw [if_pos h, if_pos (by omega)]
  · rw [if_neg h, if_neg (by omega)]

theorem drop_linesBetween (lines : List String) (start last count : Nat) :
    (linesBetween lines start last).drop count = linesBetween lines (start + count) last := by
  rw [linesBetween, linesBetween, List.drop_take, List.drop_drop]
  congr 1
  omega

theorem canEnd_linesBetween (hfirst : lines[start]? = some first) :
    CanEnd (first :: linesBetween lines (start + 1) last) n 0 k ↔
      start + k ≤ max start last ∧ CanEnd lines n start (start + k) := by
  have hget (i : Nat) (hi : start + i ≤ max start last) :
      (first :: linesBetween lines (start + 1) last)[i]? = lines[start + i]? := by
    cases i with
    | zero => exact hfirst.symm
    | succ i =>
      rw [List.getElem?_cons_succ, getElem?_linesBetween, if_pos (by omega), Nat.add_right_comm,
        Nat.add_assoc]
  constructor
  · intro h
    have hk : start + k ≤ max start last := by
      rcases h.filled with rfl | ⟨line, hline, -⟩
      · exact Nat.le_max_left start last
      · cases k with
        | zero => exact Nat.le_max_left start last
        | succ k =>
          rw [List.getElem?_cons_succ, getElem?_linesBetween] at hline
          split at hline
          · omega
          · cases hline
    refine ⟨hk, fun i line hlow hhigh hline => ?_, ?_⟩
    · obtain ⟨i, rfl⟩ := Nat.exists_eq_add_of_lt hlow
      refine h.deeper (i + 1) line (Nat.succ_pos i) (by omega) ?_
      rw [hget (i + 1) (by omega)]
      exact hline
    · rw [← hget k hk]
      exact h.filled.imp_left fun hzero => by rw [hzero, Nat.add_zero]
  · rintro ⟨hk, h⟩
    refine ⟨fun i line hlow hhigh hline => ?_, ?_⟩
    · rw [hget i (by omega)] at hline
      exact h.deeper (start + i) line (by omega) (by omega) hline
    · rw [hget k hk]
      exact h.filled.imp_left fun heq => by omega

/-! ## The block -/

theorem blockAt?_eq (hfirst : lines[start]? = some first) (last : Nat) :
    blockAt? lines start last = some ⟨start, start + 1 +
      openLines (indentation first) (linesBetween lines (start + 1) last)⟩ := by
  rw [blockAt?, hfirst]
  rfl

theorem isGreatest_blockAt? (hfirst : lines[start]? = some first)
    (h : blockAt? lines start last = some x) :
    IsGreatest {j | start ≤ j ∧ j ≤ max start last ∧ CanEnd lines (indentation first) start j}
      (x.stop - 1) := by
  rw [blockAt?_eq hfirst] at h
  obtain rfl := Option.some.inj h
  obtain ⟨hopen, hgreatest⟩ :=
    isGreatest_openLines (indentation first) first (linesBetween lines (start + 1) last)
  rw [Nat.add_right_comm, Nat.add_sub_cancel]
  refine ⟨⟨Nat.le_add_right _ _, (canEnd_linesBetween hfirst).mp hopen⟩, ?_⟩
  rintro j ⟨hlow, hhigh, hj⟩
  obtain ⟨k, rfl⟩ := Nat.exists_eq_add_of_le hlow
  exact Nat.add_le_add_left (hgreatest ((canEnd_linesBetween hfirst).mpr ⟨hhigh, hj⟩)) start

/-- The last line that there is up to the end of a section. -/
def lastLine (lines : List String) (sectionEnd : Int) : Int := min sectionEnd (lines.length - 1)

/-- The lines are the block of column `n` that is open at line `start`, in a section that ends on
line `sectionEnd`. -/
structure IsOpenBlock (lines : List String) (n start : Nat) (sectionEnd : Int) (x : Extent) :
    Prop where
  start_eq : x.start = start
  start_lt_stop : start < x.stop
  /-- No line behind the last one is a line that the block can end on. -/
  isGreatest : IsGreatest {j : Nat | start ≤ j ∧
    (j : Int) ≤ max (start : Int) (lastLine lines sectionEnd) ∧ CanEnd lines n start j} (x.stop - 1)
  blank_iff : ∀ i line, start < i → lines[i]? = some line → isBlankLine line = true →
    (i < x.stop ↔ ∃ k next, i < k ∧ k < x.stop ∧ lines[k]? = some next ∧
      isBlankLine next = false ∧ n < indentation next)
  filled : x.stop = start + 1 ∨ ∃ line, lines[x.stop - 1]? = some line ∧ isBlankLine line = false
  /-- The section has nothing deeper next behind the block. -/
  shallow : Shallow n (linesBetween lines x.stop sectionEnd.toNat)

theorem isOpenBlock_of_blockAt? (hfirst : lines[start]? = some first) {sectionEnd : Int}
    (h : blockAt? lines start sectionEnd.toNat = some x) :
    IsOpenBlock lines (indentation first) start sectionEnd x := by
  have hgreatest := isGreatest_blockAt? hfirst h
  have hlength := (List.getElem?_eq_some_iff.mp hfirst).1
  have hend := hgreatest.1.2.2
  rw [blockAt?_eq hfirst, Option.some.injEq] at h
  have hstart : x.start = start := (congrArg Extent.start h).symm
  have hstop : x.stop = start + 1 +
      openLines (indentation first) (linesBetween lines (start + 1) sectionEnd.toNat) :=
    (congrArg Extent.stop h).symm
  have hlt : start < x.stop := by omega
  -- A block cannot end behind the lines, so the end of the section is all that bounds it.
  have hset : {j : Nat | start ≤ j ∧ (j : Int) ≤ max (start : Int) (lastLine lines sectionEnd) ∧
      CanEnd lines (indentation first) start j} =
        {j | start ≤ j ∧ j ≤ max start sectionEnd.toNat ∧
          CanEnd lines (indentation first) start j} := by
    ext j
    refine and_congr_right fun hlow => and_congr_left fun hj => ?_
    have hjlength := hj.lt_length hlength
    rw [lastLine]
    omega
  refine ⟨hstart, hlt, hset ▸ hgreatest, fun i line hi hline hblank => ?_, ?_, ?_⟩
  · have hiff := hend.le_iff_of_isBlankLine hi hline hblank
    simpa only [Nat.lt_iff_le_pred (Nat.zero_lt_of_lt hlt)] using hiff
  · exact hend.filled.imp_left fun heq => by omega
  · rw [hstop, ← drop_linesBetween]
    exact shallow_drop_openLines _ _

/-- What is taken as a block is just the one that is open at its start. For a start that is counted
from the end, the lines are those from there on and then all lines once more. -/
theorem blockAt?_isOpenBlock (lines : List String) (sectionEnd : Int) :
    (∀ start (_ : start < lines.length), ∃ x,
      blockAt? lines start sectionEnd.toNat = some x ∧
        IsOpenBlock lines (indentation lines[start]) start sectionEnd x) ∧
    ∀ back (_ : 0 < back) (_ : back ≤ lines.length), ∃ x,
      blockSizeFromEnd? lines back sectionEnd = some x.size ∧
        IsOpenBlock (lines.drop (lines.length - back) ++ lines)
          (indentation lines[lines.length - back]) 0 (sectionEnd + back) x := by
  constructor
  · intro start hstart
    have hfirst := List.getElem?_eq_getElem hstart
    have hx := blockAt?_eq hfirst sectionEnd.toNat
    exact ⟨_, hx, isOpenBlock_of_blockAt? hfirst hx⟩
  · intro back hpos hle
    have hfirst : (lines.drop (lines.length - back) ++ lines)[0]? =
        some lines[lines.length - back] := by
      rw [List.getElem?_append_left (by rw [List.length_drop]; omega), List.getElem?_drop,
        Nat.add_zero, List.getElem?_eq_getElem]
    have hx := blockAt?_eq hfirst (sectionEnd + back).toNat
    refine ⟨_, ?_, isOpenBlock_of_blockAt? hfirst hx⟩
    rw [blockSizeFromEnd?, if_neg (by omega)]
    dsimp only
    rw [hx]
    rfl

/-- A mapping with blank lines in it and one behind it. -/
def mappingLines : List String := ["  a:", "    b: 1", "", " \t ", "    c: 2", "", "d:"]

theorem blockAt?_isOpenBlock_mapping :
    (0 < mappingLines.length ∧ blockAt? mappingLines 0 5 = some ⟨0, 5⟩ ∧
      IsOpenBlock mappingLines 2 0 5 ⟨0, 5⟩) ∧
    0 < 1 ∧ 1 ≤ mappingLines.length ∧ blockSizeFromEnd? mappingLines 1 5 = some 6 ∧
      IsOpenBlock ("d:" :: mappingLines) 0 0 6 ⟨0, 6⟩ := by
  obtain ⟨hstarts, hbacks⟩ := blockAt?_isOpenBlock mappingLines 5
  have hblock : blockAt? mappingLines 0 5 = some ⟨0, 5⟩ := by decide
  have hsize : blockSizeFromEnd? mappingLines 1 5 = some 6 := by decide
  obtain ⟨x, hx, hopen⟩ := hstarts 0 (by decide)
  obtain ⟨y, hy, hback⟩ := hbacks 1 (by decide) (by decide)
  obtain rfl : x = ⟨0, 5⟩ := Option.some.inj (hx.symm.trans hblock)
  obtain rfl : y = ⟨0, 6⟩ := by
    have hstart := hback.start_eq
    have hstop : y.size = 6 := Option.some.inj (hy.symm.trans hsize)
    rw [Extent.size, hstart] at hstop
    cases y
    simp_all
  exact ⟨⟨by decide, hblock, hopen⟩, by decide, by decide, hsize, hback⟩

end PubspecTidy.Manifest
