import PubspecTidy.Proofs.Manifest.Entries
import PubspecTidy.Proofs.Manifest.Moving
import Mathlib.Data.List.Nodup

/-!
# Removals as one deletion

The editor looks for every package anew, in lines that the removals before it have left. Main
statement: a batch of removals of different packages comes to one deletion of all the lines of the
blocks that are located in the text as it was, so that their order does not matter.
-/
namespace PubspecTidy.Manifest

variable {lines : List String} {kind : SectionKind} {name : String} {x : Extent}
  {xs ys : List Extent} {index : Nat}

/-! ## Lines outside of extents -/

/-- Whether the line `i` stands in one of the extents. -/
def covered (xs : List Extent) (i : Nat) : Bool :=
  xs.any fun x => decide (x.start ≤ i) && decide (i < x.stop)

/-- The lines that stand in none of the extents, where the first one is the line `index`. -/
def uncoveredFrom (index : Nat) (xs : List Extent) (lines : List String) : List String :=
  ((lines.zipIdx index).filter fun line => !covered xs line.2).map Prod.fst

def uncovered (xs : List Extent) (lines : List String) : List String := uncoveredFrom 0 xs lines

theorem covered_iff {i : Nat} : covered xs i = true ↔ ∃ x ∈ xs, x.start ≤ i ∧ i < x.stop := by
  simp [covered]

theorem covered_cons_iff {i : Nat} :
    covered (x :: xs) i = true ↔ (x.start ≤ i ∧ i < x.stop) ∨ covered xs i = true := by
  simp [covered]

theorem covered_map_iff {α : Type} {f : α → Extent} {all : List α} {i : Nat} :
    covered (all.map f) i = true ↔ ∃ a ∈ all, (f a).start ≤ i ∧ i < (f a).stop := by
  simp [covered]

theorem uncoveredFrom_append (index : Nat) (xs : List Extent) (lines more : List String) :
    uncoveredFrom index xs (lines ++ more) =
      uncoveredFrom index xs lines ++ uncoveredFrom (index + lines.length) xs more := by
  rw [uncoveredFrom, List.zipIdx_append, List.filter_append, List.map_append]
  rfl

theorem uncoveredFrom_cons (index : Nat) (xs : List Extent) (line : String) (rest : List String) :
    uncoveredFrom index xs (line :: rest) =
      (if covered xs index then [] else [line]) ++ uncoveredFrom (index + 1) xs rest := by
  rw [uncoveredFrom, List.zipIdx_cons, List.filter_cons]
  cases covered xs index <;> rfl

/-- It only matters which of the lines the extents cover. -/
theorem uncoveredFrom_congr {index' : Nat}
    (h : ∀ i < lines.length, covered xs (index + i) = covered ys (index' + i)) :
    uncoveredFrom index xs lines = uncoveredFrom index' ys lines := by
  induction lines generalizing index index' with
  | nil => rfl
  | cons line rest ih =>
    have hfirst := h 0 (by simp)
    have hrest : ∀ i < rest.length, covered xs (index + 1 + i) = covered ys (index' + 1 + i) := by
      intro i hi
      have := h (i + 1) (by simpa using hi)
      rwa [← Nat.add_assoc, ← Nat.add_assoc, Nat.add_right_comm, Nat.add_right_comm index'] at this
    rw [uncoveredFrom_cons, uncoveredFrom_cons, ih hrest]
    simp only [Nat.add_zero] at hfirst
    rw [hfirst]

theorem uncoveredFrom_of_covered (h : ∀ i < lines.length, covered xs (index + i) = true) :
    uncoveredFrom index xs lines = [] := by
  induction lines generalizing index with
  | nil => rfl
  | cons line rest ih =>
    have hfirst := h 0 (by simp)
    have hrest : ∀ i < rest.length, covered xs (index + 1 + i) = true := by
      intro i hi
      have := h (i + 1) (by simpa using hi)
      rwa [← Nat.add_assoc, Nat.add_right_comm] at this
    rw [uncoveredFrom_cons, ih hrest]
    simp only [Nat.add_zero] at hfirst
    rw [hfirst, if_pos rfl]
    rfl

theorem uncoveredFrom_nil (index : Nat) (lines : List String) :
    uncoveredFrom index [] lines = lines := by
  induction lines generalizing index with
  | nil => rfl
  | cons line rest ih =>
    rw [uncoveredFrom_cons, ih]
    rfl

theorem uncovered_congr (h : ∀ x, x ∈ xs ↔ x ∈ ys) (lines : List String) :
    uncovered xs lines = uncovered ys lines := by
  refine uncoveredFrom_congr fun i _ => ?_
  rw [Bool.eq_iff_iff, covered_iff, covered_iff]
  simp only [h]

/-- Above the lines that go out nothing changes. -/
theorem covered_without_above {i : Nat} (hx : x.start ≤ x.stop)
    (hys : ∀ y ∈ ys, x.Apart y ∧ y.start < y.stop) (hi : i < x.start) :
    covered (ys.map x.without) i = covered (x :: ys) i := by
  have hsame : ∀ y ∈ ys, ((x.without y).start ≤ i ∧ i < (x.without y).stop ↔
      y.start ≤ i ∧ i < y.stop) := by
    intro y hy
    obtain ⟨hbefore | hbehind, hne⟩ := hys y hy
    · rw [Extent.without_of_before hbefore hne hx]
    · rw [Extent.without, if_pos hbehind, Extent.size]
      dsimp only
      omega
  rw [Bool.eq_iff_iff, covered_map_iff, covered_cons_iff, covered_iff]
  constructor
  · rintro ⟨y, hy, hholds⟩
    exact .inr ⟨y, hy, (hsame y hy).mp hholds⟩
  · rintro (hholds | ⟨y, hy, hholds⟩)
    · omega
    · exact ⟨y, hy, (hsame y hy).mpr hholds⟩

/-- Below them the lines move up. -/
theorem covered_without_below (i : Nat) (hx : x.start ≤ x.stop)
    (hys : ∀ y ∈ ys, x.Apart y ∧ y.start < y.stop) :
    covered (ys.map x.without) (x.start + i) = covered (x :: ys) (x.stop + i) := by
  have hsame : ∀ y ∈ ys, ((x.without y).start ≤ x.start + i ∧ x.start + i < (x.without y).stop ↔
      y.start ≤ x.stop + i ∧ x.stop + i < y.stop) := by
    intro y hy
    obtain ⟨hbefore | hbehind, hne⟩ := hys y hy
    · rw [Extent.without_of_before hbefore hne hx]
      omega
    · rw [Extent.without, if_pos hbehind, Extent.size]
      dsimp only
      omega
  rw [Bool.eq_iff_iff, covered_map_iff, covered_cons_iff, covered_iff]
  constructor
  · rintro ⟨y, hy, hholds⟩
    exact .inr ⟨y, hy, (hsame y hy).mp hholds⟩
  · rintro (hholds | ⟨y, hy, hholds⟩)
    · omega
    · exact ⟨y, hy, (hsame y hy).mpr hholds⟩

/-- Extents that go out one after the other are the same as all of them at once. -/
theorem uncovered_without (hx : x.start ≤ x.stop) (hle : x.stop ≤ lines.length)
    (hys : ∀ y ∈ ys, x.Apart y ∧ y.start < y.stop) :
    uncovered (ys.map x.without) (Splice.without x lines) = uncovered (x :: ys) lines := by
  have habove : (lines.take x.start).length = x.start := by
    rw [List.length_take]
    omega
  have hblock : (x.lines lines).length = x.stop - x.start := by
    rw [Extent.lines, List.length_take, List.length_drop, Extent.size]
    omega
  have hsplit := Extent.lines_append hx lines
  have hfirst : uncoveredFrom 0 (ys.map x.without) (lines.take x.start) =
      uncoveredFrom 0 (x :: ys) (lines.take x.start) :=
    uncoveredFrom_congr fun i hi => covered_without_above hx hys (by omega)
  have hlast : uncoveredFrom x.start (ys.map x.without) (lines.drop x.stop) =
      uncoveredFrom x.stop (x :: ys) (lines.drop x.stop) :=
    uncoveredFrom_congr fun i _ => covered_without_below i hx hys
  have hnone : uncoveredFrom x.start (x :: ys) (x.lines lines) = [] :=
    uncoveredFrom_of_covered fun i hi =>
      (covered_iff).mpr ⟨x, List.mem_cons_self, by omega, by omega⟩
  conv_rhs => rw [← hsplit]
  rw [uncovered, uncovered, Splice.without, uncoveredFrom_append, uncoveredFrom_append,
    uncoveredFrom_append, List.length_append, Nat.zero_add, Nat.zero_add, habove, hblock,
    Nat.add_sub_cancel' hx, hfirst, hnone, hlast, List.append_nil]

/-! ## Entries that are not among the extents -/

/-- The entries of a section, each with the lines of its block. -/
def blocksIn (lines : List String) (kind : SectionKind) : List (String × List String) :=
  (entriesIn lines kind).map fun entry => (entry.name, entry.extent.lines lines)

theorem Editor.blocks_eq_blocksIn {e : Editor} (h : e.Tracked) (kind : SectionKind) :
    e.blocks kind = blocksIn e.lines kind := by
  rw [Editor.blocks, h kind, blocksIn, entriesIn]
  cases findSection? e.lines kind.name <;> rfl

/-- The entries of a section whose blocks are none of the extents, each with its lines. -/
def blocksWithout (gone : List Extent) (lines : List String) (kind : SectionKind) :
    List (String × List String) :=
  ((entriesIn lines kind).filter (·.extent ∉ gone)).map fun entry =>
    (entry.name, entry.extent.lines lines)

theorem blocksWithout_nil (lines : List String) (kind : SectionKind) :
    blocksWithout [] lines kind = blocksIn lines kind := by
  rw [blocksWithout, List.filter_eq_self.mpr fun entry _ => by simp]
  rfl

/-- Extents that have no line in common with `x` are told apart after its lines went out. -/
theorem Extent.without_inj {y z : Extent} (hx : x.start ≤ x.stop) (hy : x.Apart y)
    (hy' : y.start < y.stop) (hz : x.Apart z) (hz' : z.start < z.stop)
    (h : x.without y = x.without z) : y = z := by
  have hsize : x.size = x.stop - x.start := rfl
  have hbehind {z : Extent} (hz : x.stop ≤ z.start) :
      x.without z = ⟨z.start - x.size, z.stop - x.size⟩ := if_pos hz
  rcases hy with hy | hy <;> rcases hz with hz | hz
  · rwa [without_of_before hy hy' hx, without_of_before hz hz' hx] at h
  · rw [without_of_before hy hy' hx, hbehind hz] at h
    have := congrArg Extent.start h
    dsimp only at this
    omega
  · rw [without_of_before hz hz' hx, hbehind hy] at h
    have := congrArg Extent.start h
    dsimp only at this
    omega
  · rw [hbehind hy, hbehind hz, Extent.mk.injEq] at h
    obtain ⟨a, b⟩ := y
    obtain ⟨c, d⟩ := z
    rw [Extent.mk.injEq]
    dsimp only at h hy hy' hz hz'
    omega

theorem blocksWithout_without (h : located lines kind name = some x)
    (hys : ∀ y ∈ ys, x.Apart y ∧ y.start < y.stop) (kind' : SectionKind) :
    blocksWithout (ys.map x.without) (Splice.without x lines) kind' =
      blocksWithout (x :: ys) lines kind' := by
  obtain ⟨hx, hle⟩ := bounds_of_located h
  have hapart {entry : Entry} (hentry : entry ∈ entriesIn lines kind') (hne : entry.extent ≠ x) :
      x.Apart entry.extent := by
    rcases eq_or_apart h hentry with ⟨-, rfl⟩ | hapart
    · exact absurd rfl hne
    · exact hapart
  have hgone : ∀ entry ∈ (entriesIn lines kind').filter (·.extent ≠ x),
      decide ((entry.without x).extent ∉ ys.map x.without) = decide (entry.extent ∉ ys) := by
    intro entry hmem
    obtain ⟨hentry, hne⟩ := List.mem_filter.mp hmem
    have hother := hapart hentry (of_decide_eq_true hne)
    have hfull := start_lt_stop_of_mem_entriesIn hentry
    rw [decide_eq_decide, not_iff_not]
    constructor
    · intro hshifted
      obtain ⟨y, hy, heq⟩ := List.mem_map.mp hshifted
      obtain ⟨hy', hne'⟩ := hys y hy
      exact Extent.without_inj hx.le hy' hne' hother hfull heq ▸ hy
    · exact List.mem_map_of_mem
  have hkept : ((entriesIn lines kind').filter (·.extent ≠ x)).filter
      (fun entry => (entry.without x).extent ∉ ys.map x.without) =
        (entriesIn lines kind').filter (·.extent ∉ x :: ys) := by
    rw [List.filter_congr hgone, List.filter_filter]
    refine List.filter_congr fun entry _ => ?_
    rw [Bool.and_comm, ← Bool.decide_and, decide_eq_decide, List.mem_cons, not_or]
  have hlines : ∀ entry ∈ (entriesIn lines kind').filter (·.extent ∉ x :: ys),
      ((entry.without x).name, (entry.without x).extent.lines (Splice.without x lines)) =
        (entry.name, entry.extent.lines lines) := by
    intro entry hmem
    obtain ⟨hentry, hnone⟩ := List.mem_filter.mp hmem
    have hne : entry.extent ≠ x := fun heq => of_decide_eq_true hnone (heq ▸ List.mem_cons_self)
    rw [Entry.without, Extent.lines_without hx.le hle (hapart hentry hne)
      (start_lt_stop_of_mem_entriesIn hentry)]
  rw [blocksWithout, blocksWithout, entriesIn_without h, List.filter_map, List.map_map]
  exact (congrArg (List.map _) hkept).trans (List.map_congr_left hlines)

/-! ## Removals, one by one -/

/-- The sections out of which a removal takes its package, in the order in which it looks there. -/
def Change.sources (c : Change) : List SectionKind :=
  match c.action with
  | .remove => [.dependencies, .devDependencies]
  | .moveTo _ => []
  | .removeFrom source => [source]

def Change.isRemoval (c : Change) : Bool :=
  match c.action with
  | .moveTo _ => false
  | _ => true

/-- The declarations that a removal takes out, each a section and a name. -/
def Change.targets (c : Change) : List (SectionKind × String) := c.sources.map (·, c.package)

/-- Where the declarations are located. -/
def extentsOf (targets : List (SectionKind × String)) (lines : List String) : List Extent :=
  targets.filterMap fun target => located lines target.1 target.2

namespace Editor

/-- Takes declarations out, one after the other. -/
def removeEach (e : Editor) (targets : List (SectionKind × String)) : Editor :=
  targets.foldl (fun e target => (e.removeFrom target.1 target.2).2) e

variable {e : Editor} {targets : List (SectionKind × String)} {c : Change} {changes : List Change}

theorem removeEach_append (e : Editor) (targets more : List (SectionKind × String)) :
    e.removeEach (targets ++ more) = (e.removeEach targets).removeEach more :=
  List.foldl_append

theorem fst_removeFrom (h : e.Tracked) (kind : SectionKind) (name : String) :
    (e.removeFrom kind name).1 = (located e.lines kind name).isSome := by
  rw [← locate?_eq_located h, removeFrom, cut?]
  cases e.locate? kind name <;> rfl

theorem lines_removeFrom_of_located (h : e.Tracked) (hx : located e.lines kind name = some x) :
    (e.removeFrom kind name).2.lines = Splice.without x e.lines := by
  rw [← locate?_eq_located h] at hx
  rw [removeFrom, cut?, hx]
  rfl

theorem removeFrom_of_not_located (h : e.Tracked) (hx : located e.lines kind name = none) :
    (e.removeFrom kind name).2 = e := by
  rw [← locate?_eq_located h] at hx
  rw [removeFrom, cut?, hx]
  rfl

/-- What is left of the lines after declarations went out, all of them different. -/
structure Deleted (lines : List String) (targets : List (SectionKind × String)) (e : Editor) :
    Prop where
  tracked : e.Tracked
  lines_eq : e.lines = uncovered (extentsOf targets lines) lines
  blocks_eq : ∀ kind, e.blocks kind = blocksWithout (extentsOf targets lines) lines kind
  located_eq : ∀ kind name, (kind, name) ∉ targets →
    (located e.lines kind name).isSome = (located lines kind name).isSome

theorem extentsOf_without (hx : located lines kind name = some x)
    (hnew : (kind, name) ∉ targets) :
    extentsOf targets (Splice.without x lines) = (extentsOf targets lines).map x.without := by
  rw [extentsOf, extentsOf, List.map_filterMap]
  refine List.filterMap_congr fun target htarget => ?_
  exact located_without hx fun heq => hnew (heq ▸ htarget)

theorem apart_of_mem_extentsOf (hx : located lines kind name = some x)
    (hnew : (kind, name) ∉ targets) {y : Extent} (hy : y ∈ extentsOf targets lines) :
    x.Apart y ∧ y.start < y.stop := by
  obtain ⟨target, htarget, hy⟩ := List.mem_filterMap.mp hy
  refine ⟨?_, (bounds_of_located hy).1⟩
  rw [Manifest.located_eq] at hy
  obtain ⟨entry, hfind, rfl⟩ := Option.map_eq_some_iff.mp hy
  rcases eq_or_apart hx (List.mem_of_find?_eq_some hfind) with ⟨hkind, rfl⟩ | hapart
  · have hname : name = target.2 := by simpa using List.find?_some hfind
    exact absurd htarget (by rw [hname, ← hkind] at hnew; exact hnew)
  · exact hapart

theorem deleted_removeEach (h : e.Tracked) (hnew : targets.Nodup) :
    Deleted e.lines targets (e.removeEach targets) := by
  induction targets generalizing e with
  | nil =>
    refine ⟨h, (uncoveredFrom_nil 0 e.lines).symm, fun kind => ?_, fun _ _ _ => rfl⟩
    rw [extentsOf, List.filterMap_nil, blocksWithout_nil]
    exact blocks_eq_blocksIn h kind
  | cons target targets ih =>
    obtain ⟨kind, name⟩ := target
    obtain ⟨hfresh, hrest⟩ := List.nodup_cons.mp hnew
    have hfirst := h.removeFrom kind name
    obtain ⟨htracked, hlines, hblocks, hlocated⟩ := ih hfirst hrest
    rw [removeEach, List.foldl_cons]
    cases hx : located e.lines kind name with
    | none =>
      have hextents : extentsOf ((kind, name) :: targets) e.lines = extentsOf targets e.lines :=
        List.filterMap_cons_none hx
      rw [removeFrom_of_not_located h hx] at htracked hlines hblocks hlocated ⊢
      rw [← hextents] at hlines
      refine ⟨htracked, hlines, fun kind' => ?_, fun kind' name' hother => ?_⟩
      · rw [hextents]
        exact hblocks kind'
      · exact hlocated kind' name' fun hmem => hother (List.mem_cons_of_mem _ hmem)
    | some x =>
      have hextents : extentsOf ((kind, name) :: targets) e.lines =
          x :: extentsOf targets e.lines := List.filterMap_cons_some hx
      have happart := fun y => apart_of_mem_extentsOf hx hfresh (y := y)
      obtain ⟨hle, hlast⟩ := bounds_of_located hx
      rw [lines_removeFrom_of_located h hx, extentsOf_without hx hfresh] at hlines
      rw [uncovered_without hle.le hlast happart, ← hextents] at hlines
      refine ⟨htracked, hlines, fun kind' => ?_, fun kind' name' hother => ?_⟩
      · have hrest := hblocks kind'
        rw [lines_removeFrom_of_located h hx, extentsOf_without hx hfresh,
          blocksWithout_without hx happart, ← hextents] at hrest
        exact hrest
      · obtain ⟨hne, hmem⟩ := List.ne_and_not_mem_of_not_mem_cons hother
        have hrest := hlocated kind' name' hmem
        rw [lines_removeFrom_of_located h hx, located_without hx hne, Option.isSome_map] at hrest
        exact hrest

/-! ## A batch of removals -/

theorem snd_perform (hremoval : c.isRemoval = true) : (e.perform c).2 = e.removeEach c.targets := by
  obtain ⟨name, action, version⟩ := c
  cases action with
  | remove => rfl
  | moveTo target => cases hremoval
  | removeFrom source => rfl

theorem snd_apply (hremovals : ∀ c ∈ changes, c.isRemoval = true) :
    (e.apply changes).2 = e.removeEach (changes.flatMap Change.targets) := by
  induction changes generalizing e with
  | nil => rfl
  | cons c changes ih =>
    obtain ⟨hfirst, hrest⟩ := List.forall_mem_cons.mp hremovals
    rw [List.flatMap_cons, removeEach_append, ← snd_perform hfirst, ← ih hrest]
    rfl

theorem nodup_targets (c : Change) : c.targets.Nodup := by
  obtain ⟨name, action, version⟩ := c
  cases action <;> simp [Change.targets, Change.sources]

theorem snd_of_mem_targets {target : SectionKind × String} (h : target ∈ c.targets) :
    target.2 = c.package := by
  obtain ⟨kind, -, rfl⟩ := List.mem_map.mp h
  rfl

theorem nodup_flatMap_targets (hdistinct : (changes.map (·.package)).Nodup) :
    (changes.flatMap Change.targets).Nodup := by
  rw [List.nodup_flatMap]
  refine ⟨fun c _ => nodup_targets c, ?_⟩
  refine (List.pairwise_map.mp hdistinct).imp fun hne target hfirst hsecond => hne ?_
  exact (snd_of_mem_targets hfirst).symm.trans (snd_of_mem_targets hsecond)

theorem extentsOf_ne_nil_iff : extentsOf targets lines ≠ [] ↔
    ∃ target ∈ targets, (located lines target.1 target.2).isSome = true := by
  rw [Ne, extentsOf, List.filterMap_eq_nil_iff]
  simp only [Option.isSome_iff_ne_none, not_forall, exists_prop]

/-- A removal takes effect if there is a block to take out. -/
theorem fst_perform (h : e.Tracked) (hremoval : c.isRemoval = true) :
    (e.perform c).1 = decide (extentsOf c.targets e.lines ≠ []) := by
  rw [Bool.eq_iff_iff, decide_eq_true_eq, extentsOf_ne_nil_iff]
  obtain ⟨name, action, version⟩ := c
  cases action with
  | moveTo target => cases hremoval
  | removeFrom source =>
    rw [perform, fst_removeFrom h]
    simp [Change.targets, Change.sources]
  | remove =>
    have hfirst : Deleted e.lines [(.dependencies, name)] (e.removeFrom .dependencies name).2 :=
      deleted_removeEach h (List.nodup_singleton _)
    have hsecond := hfirst.located_eq .devDependencies name (by simp)
    have hdone : (e.perform ⟨name, .remove, version⟩).1 = ((e.removeFrom .dependencies name).1 ||
        ((e.removeFrom .dependencies name).2.removeFrom .devDependencies name).1) := rfl
    rw [hdone, fst_removeFrom h, fst_removeFrom hfirst.tracked, hsecond]
    simp [Change.targets, Change.sources]

theorem fst_apply (h : e.Tracked) (hremovals : ∀ c ∈ changes, c.isRemoval = true)
    (hdistinct : (changes.map (·.package)).Nodup) :
    (e.apply changes).1 = changes.filter fun c => extentsOf c.targets e.lines ≠ [] := by
  induction changes generalizing e with
  | nil => rfl
  | cons c changes ih =>
    obtain ⟨hfirst, hrest⟩ := List.forall_mem_cons.mp hremovals
    obtain ⟨hfresh, hothers⟩ := List.nodup_cons.mp hdistinct
    have hdeleted : Deleted e.lines c.targets (e.perform c).2 := by
      rw [snd_perform hfirst]
      exact deleted_removeEach h (nodup_targets c)
    have hlater : ∀ c' ∈ changes, decide (extentsOf c'.targets (e.perform c).2.lines ≠ []) =
        decide (extentsOf c'.targets e.lines ≠ []) := by
      intro c' hc'
      have hpackage : c'.package ≠ c.package := fun heq =>
        hfresh (List.mem_map.mpr ⟨c', hc', heq⟩)
      rw [decide_eq_decide, extentsOf_ne_nil_iff, extentsOf_ne_nil_iff]
      refine exists_congr fun target => and_congr_right fun htarget => ?_
      rw [hdeleted.located_eq target.1 target.2 fun hmem =>
        hpackage ((snd_of_mem_targets htarget).symm.trans (snd_of_mem_targets hmem))]
    rw [List.filter_cons, ← fst_perform h hfirst, ← List.filter_congr hlater,
      ← ih hdeleted.tracked hrest hothers]
    rfl

/-- A batch of removals of different packages is one deletion: what is left are the lines outside of
the blocks that are located in the text as it was, each section keeps its other entries with their
lines, the order of the changes does not matter, and those that are returned are those for which a
block is located. -/
theorem apply_removals (text : String) (changes : List Change)
    (hremovals : ∀ c ∈ changes, c.isRemoval = true)
    (hdistinct : (changes.map (·.package)).Nodup) :
    let lines := Text.splitLines text
    let gone := extentsOf (changes.flatMap Change.targets) lines
    let result := (ofText text).apply changes
    result.2.lines = uncovered gone lines ∧
    (∀ kind, result.2.blocks kind = blocksWithout gone lines kind) ∧
    (∀ changes', changes'.Perm changes →
      ((ofText text).apply changes').2.text = result.2.text) ∧
    result.1 = changes.filter fun c => extentsOf c.targets lines ≠ [] := by
  intro lines gone result
  have htracked : (ofText text).Tracked := tracked_ofLines lines
  have hdeleted {changes : List Change} (hremovals : ∀ c ∈ changes, c.isRemoval = true)
      (hdistinct : (changes.map (·.package)).Nodup) :
      Deleted lines (changes.flatMap Change.targets) ((ofText text).apply changes).2 := by
    rw [snd_apply hremovals]
    exact deleted_removeEach htracked (nodup_flatMap_targets hdistinct)
  have hresult := hdeleted hremovals hdistinct
  refine ⟨hresult.lines_eq, hresult.blocks_eq, fun changes' hperm => ?_,
    fst_apply htracked hremovals hdistinct⟩
  have hresult' := hdeleted (fun c hc => hremovals c (hperm.mem_iff.mp hc))
    ((hperm.map _).nodup_iff.mpr hdistinct)
  have hsame : ∀ x, x ∈ extentsOf (changes'.flatMap Change.targets) lines ↔ x ∈ gone := by
    intro x
    exact ((hperm.flatMap_right _).filterMap _).mem_iff
  exact congrArg Text.joinLines
    (hresult'.lines_eq.trans ((uncovered_congr hsame lines).trans hresult.lines_eq.symm))

/-- One package in both sections and twice in one of them, and a mapping with an empty line. -/
def listedTwice : String :=
  "dependencies:\n  http: 1\n  path:\n\n    git: x\n  http: 2\ndev_dependencies:\n  http: 3\n"

/-- Removals of which the second finds nothing: its package is no entry of the section. -/
def removals : List Change :=
  [⟨"http", .remove, none⟩, ⟨"git", .removeFrom .dependencies, none⟩,
   ⟨"path", .removeFrom .dependencies, none⟩]

theorem apply_removals_listed_twice :
    (∀ c ∈ removals, c.isRemoval = true) ∧ (removals.map (·.package)).Nodup ∧
    extentsOf (removals.flatMap Change.targets) (Text.splitLines listedTwice) =
      [⟨1, 2⟩, ⟨7, 8⟩, ⟨2, 5⟩] ∧
    ((ofText listedTwice).apply removals).2.lines =
      ["dependencies:", "  http: 2", "dev_dependencies:", ""] ∧
    ((ofText listedTwice).apply removals).2.blocks .dependencies = [("http", ["  http: 2"])] ∧
    ((ofText listedTwice).apply removals.reverse).2.text =
      ((ofText listedTwice).apply removals).2.text ∧
    ((ofText listedTwice).apply removals).1 =
      [⟨"http", .remove, none⟩, ⟨"path", .removeFrom .dependencies, none⟩] := by
  have hsplit : Text.splitLines listedTwice = ["dependencies:", "  http: 1", "  path:", "",
      "    git: x", "  http: 2", "dev_dependencies:", "  http: 3", ""] :=
    Text.splitLines_of_eq_ofList rfl rfl
  have hremovals : ∀ c ∈ removals, c.isRemoval = true := by decide
  have hdistinct : (removals.map (·.package)).Nodup := by decide
  obtain ⟨hlines, hblocks, horder, hreturned⟩ :=
    apply_removals listedTwice removals hremovals hdistinct
  have hextents : extentsOf (removals.flatMap Change.targets) (Text.splitLines listedTwice) =
      [⟨1, 2⟩, ⟨7, 8⟩, ⟨2, 5⟩] := by
    rw [hsplit]
    decide
  rw [hextents, hsplit] at hlines hblocks
  rw [hsplit] at hreturned
  exact ⟨hremovals, hdistinct, hextents, hlines.trans (by decide),
    (hblocks .dependencies).trans (by decide), horder _ (List.reverse_perm _),
    hreturned.trans (by decide)⟩

end Editor
end PubspecTidy.Manifest
