import PubspecTidy.Proofs.Manifest.Tracking

/-!
# What a batch does to the lines

Every change cuts the block of a package out of the lines, and a move puts the same lines in
elsewhere, behind a new header if there was no section for them. Main statement: that is all that a
batch of changes does, so a line that never stands in a block of a change keeps its place among the
other such lines, and moves alone lose no line.

A splice acts on lists of any kind, so what it does to the lines it also does to their numbers,
which tell for every line of the result where it comes from.
-/
namespace PubspecTidy.Manifest

/-! ## One change, in terms of the lines alone -/

/-- The block of a package in a section of the lines. -/
def located (lines : List String) (kind : SectionKind) (name : String) : Option Extent :=
  (findSection? lines kind.name).bind fun s => s.locate? lines name

/-- What removing a package from a section makes of the lines, and whether it takes effect. -/
inductive Removes (kind : SectionKind) (name : String) : List String → Bool → List String → Prop
  | absent {lines : List String} : located lines kind name = none →
      Removes kind name lines false lines
  | cut {before block after : List String} :
      located (before ++ block ++ after) kind name =
        some ⟨before.length, before.length + block.length⟩ →
      Removes kind name (before ++ block ++ after) true (before ++ after)

/-- The two lines that start a new section. -/
def headerLines (lineEnd : String) (kind : SectionKind) : List String :=
  [lineEnd, kind.name ++ ":" ++ lineEnd]

/-- What moving a package between two sections makes of the lines, and whether it takes effect. The
header of the target comes in first if there is none. -/
inductive Moves (lineEnd name : String) (source target : SectionKind) :
    List String → Bool → List String → Prop
  | absent {lines : List String} : located lines source name = none →
      Moves lineEnd name source target lines false lines
  | carry {before block after before' after' : List String} :
      located (before ++ block ++ after) source name =
        some ⟨before.length, before.length + block.length⟩ →
      findSection? (before ++ block ++ after) target.name ≠ none →
      before ++ after = before' ++ after' →
      Moves lineEnd name source target (before ++ block ++ after) true (before' ++ block ++ after')
  | carryOpening {before block after above below before' after' : List String} :
      located (before ++ block ++ after) source name =
        some ⟨before.length, before.length + block.length⟩ →
      findSection? (before ++ block ++ after) target.name = none →
      before ++ after = above ++ below →
      above ++ headerLines lineEnd target ++ below = before' ++ after' →
      Moves lineEnd name source target (before ++ block ++ after) true (before' ++ block ++ after')

/-- What one change makes of the lines, and whether it takes effect. -/
inductive Steps (lineEnd : String) : Change → List String → Bool → List String → Prop
  | remove {name : String} {version : Option String} {lines between after : List String}
      {first second : Bool} :
      Removes .dependencies name lines first between →
      Removes .devDependencies name between second after →
      Steps lineEnd ⟨name, .remove, version⟩ lines (first || second) after
  | removeFrom {kind : SectionKind} {name : String} {version : Option String}
      {lines after : List String} {done : Bool} :
      Removes kind name lines done after →
      Steps lineEnd ⟨name, .removeFrom kind, version⟩ lines done after
  | move {target : SectionKind} {name : String} {version : Option String}
      {lines after : List String} {done : Bool} :
      Moves lineEnd name target.other target lines done after →
      Steps lineEnd ⟨name, .moveTo target, version⟩ lines done after

theorem Removes.lines_eq {kind : SectionKind} {name : String} {lines after : List String}
    (h : Removes kind name lines false after) : after = lines := by
  cases h
  rfl

theorem Steps.lines_eq {lineEnd : String} {c : Change} {lines after : List String}
    (h : Steps lineEnd c lines false after) : after = lines := by
  generalize hdone : false = done at h
  cases h with
  | remove hfirst hsecond =>
    obtain ⟨rfl, rfl⟩ := Bool.or_eq_false_iff.mp hdone.symm
    exact hsecond.lines_eq.trans hfirst.lines_eq
  | removeFrom hremoves =>
    cases hdone
    exact hremoves.lines_eq
  | move hmoves =>
    cases hdone
    cases hmoves
    rfl

/-! ## Splices -/

inductive Splice where
  /-- The lines of an extent go out. -/
  | cut (x : Extent)
  /-- The lines of an extent go out and come in again at `place`, once the header of a section
  that is `opened` has come in at its own place. -/
  | carry (x : Extent) (opened : Option (SectionKind × Nat)) (place : Nat)

namespace Splice
open scoped List

variable {α β : Type}

/-- The members of a list that stand in an extent. -/
def within (x : Extent) (all : List α) : List α := (all.drop x.start).take x.size

def without (x : Extent) (all : List α) : List α := all.take x.start ++ all.drop x.stop

def putIn (place : Nat) (block all : List α) : List α := all.take place ++ block ++ all.drop place

/-- The list with the header of a section that is opened. -/
def withHeader (header : SectionKind → List α) (opened : Option (SectionKind × Nat))
    (all : List α) : List α :=
  match opened with
  | some (kind, place) => putIn place (header kind) all
  | none => all

def extent : Splice → Extent
  | cut x => x
  | carry x _ _ => x

/-- The section that is opened. -/
def opened? : Splice → Option SectionKind
  | cut _ => none
  | carry _ opened _ => opened.map (·.1)

def isCarry : Splice → Bool
  | cut _ => false
  | carry .. => true

/-- What a splice makes of a list. -/
def act (header : SectionKind → List α) (s : Splice) (all : List α) : List α :=
  match s with
  | cut x => without x all
  | carry x opened place =>
    putIn place (within x all) (withHeader header opened (without x all))

def run (header : SectionKind → List α) (splices : List Splice) (all : List α) : List α :=
  splices.foldl (fun all s => s.act header all) all

/-- The members that stand in an extent when its turn comes. -/
def touched (header : SectionKind → List α) : List Splice → List α → List α
  | [], _ => []
  | s :: rest, all => within s.extent all ++ touched header rest (s.act header all)

theorem without_append_within (x : Extent) (hx : x.start ≤ x.stop) (all : List α) :
    all.take x.start ++ within x all ++ all.drop x.stop = all := take_append_between hx all

theorem run_append (header : SectionKind → List α) (splices more : List Splice) (all : List α) :
    run header (splices ++ more) all = run header more (run header splices all) := by
  simp [run]

/-! ### What splices do to the members of a list, whatever they are -/

theorem act_map (f : α → β) (header : SectionKind → List α) (s : Splice) (all : List α) :
    s.act (fun kind => (header kind).map f) (all.map f) = (s.act header all).map f := by
  cases s with
  | cut x => simp [act, without]
  | carry x opened place =>
    cases opened <;> simp [act, without, within, putIn, withHeader, List.map_take, List.map_drop]

theorem run_map (f : α → β) (header : SectionKind → List α) (splices : List Splice)
    (all : List α) :
    run (fun kind => (header kind).map f) splices (all.map f) = (run header splices all).map f := by
  induction splices generalizing all with
  | nil => rfl
  | cons s rest ih =>
    simp only [run, List.foldl_cons, act_map] at ih ⊢
    exact ih _

theorem filter_putIn {p : α → Bool} {block : List α} (hblock : block.filter p = []) (place : Nat)
    (all : List α) : (putIn place block all).filter p = all.filter p := by
  rw [putIn, List.filter_append, List.filter_append, hblock, List.append_nil, ← List.filter_append,
    List.take_append_drop]

theorem filter_without {p : α → Bool} {x : Extent} (hx : x.start ≤ x.stop) {all : List α}
    (hblock : (within x all).filter p = []) : (without x all).filter p = all.filter p := by
  conv_rhs => rw [← without_append_within x hx all]
  rw [without, List.filter_append, List.filter_append, List.filter_append, hblock, List.append_nil]

/-- Members outside of the extent of a splice stay, in their order. -/
theorem filter_act {p : α → Bool} {header : SectionKind → List α}
    (hheader : ∀ kind, (header kind).filter p = []) {s : Splice}
    (hs : s.extent.start ≤ s.extent.stop) {all : List α}
    (hblock : (within s.extent all).filter p = []) :
    (s.act header all).filter p = all.filter p := by
  cases s with
  | cut x => exact filter_without hs hblock
  | carry x opened place =>
    have hrest : (without x all).filter p = all.filter p := filter_without hs hblock
    refine (filter_putIn hblock place _).trans ?_
    cases opened with
    | none => exact hrest
    | some o => rw [withHeader, filter_putIn (hheader o.1), hrest]

theorem filter_run {p : α → Bool} {header : SectionKind → List α}
    (hheader : ∀ kind, (header kind).filter p = []) {splices : List Splice}
    (hs : ∀ s ∈ splices, s.extent.start ≤ s.extent.stop) {all : List α}
    (htouched : (touched header splices all).filter p = []) :
    (run header splices all).filter p = all.filter p := by
  induction splices generalizing all with
  | nil => rfl
  | cons s rest ih =>
    rw [touched, List.filter_append, List.append_eq_nil_iff] at htouched
    have hrest := ih (fun s' hs' => hs s' (List.mem_cons_of_mem _ hs')) htouched.2
    exact hrest.trans (filter_act hheader (hs s List.mem_cons_self) htouched.1)

theorem putIn_perm (place : Nat) (block all : List α) :
    (putIn place block all).Perm (block ++ all) := by
  unfold putIn
  calc all.take place ++ block ++ all.drop place
      ~ block ++ all.take place ++ all.drop place := List.perm_append_comm.append_right _
    _ = block ++ all := by rw [List.append_assoc, List.take_append_drop]

/-- A splice that carries its lines only adds those of a header. -/
theorem act_perm {header : SectionKind → List α} {s : Splice} (hcarry : s.isCarry = true)
    (hs : s.extent.start ≤ s.extent.stop) (all : List α) :
    (s.act header all).Perm (all ++ s.opened?.toList.flatMap header) := by
  cases s with
  | cut x => simp [isCarry] at hcarry
  | carry x opened place =>
    have hback : (within x all ++ without x all).Perm all := by
      conv_rhs => rw [← without_append_within x hs all]
      rw [without, ← List.append_assoc]
      exact List.perm_append_comm.append_right _
    cases opened with
    | none => simpa [act, withHeader, opened?] using (putIn_perm _ _ _).trans hback
    | some o =>
      calc act header (carry x (some o) place) all
          ~ within x all ++ putIn o.2 (header o.1) (without x all) := putIn_perm _ _ _
        _ ~ within x all ++ (header o.1 ++ without x all) := (putIn_perm _ _ _).append_left _
        _ ~ within x all ++ (without x all ++ header o.1) := List.perm_append_comm.append_left _
        _ = within x all ++ without x all ++ header o.1 := (List.append_assoc ..).symm
        _ ~ all ++ header o.1 := hback.append_right _
        _ = all ++ (some o.1).toList.flatMap header := by simp

theorem run_perm {header : SectionKind → List α} {splices : List Splice}
    (hcarry : ∀ s ∈ splices, s.isCarry = true)
    (hs : ∀ s ∈ splices, s.extent.start ≤ s.extent.stop) (all : List α) :
    (run header splices all).Perm (all ++ (splices.filterMap opened?).flatMap header) := by
  induction splices generalizing all with
  | nil => simp [run]
  | cons s rest ih =>
    have hrest := ih (fun s' hs' => hcarry s' (List.mem_cons_of_mem _ hs'))
      (fun s' hs' => hs s' (List.mem_cons_of_mem _ hs')) (s.act header all)
    have hfirst : (s.act header all).Perm (all ++ s.opened?.toList.flatMap header) :=
      act_perm (hcarry s List.mem_cons_self) (hs s List.mem_cons_self) all
    refine hrest.trans ((hfirst.append_right _).trans (List.Perm.of_eq ?_))
    cases hopen : s.opened? <;> simp [hopen]

end Splice

namespace Editor

/-! ## The splices of a batch -/

/-- The cut that takes a package out of a section, if it is there. -/
def cutsOf (e : Editor) (kind : SectionKind) (name : String) : List Splice :=
  ((e.locate? kind name).map .cut).toList

/-- Where a package goes in a section. -/
def placeIn (e : Editor) (kind : SectionKind) (name : String) : Nat :=
  ((e.sectionAt kind).map fun s => e.insertionPlace s name).getD e.lines.length

/-- The splice that carries a package from one section to another, if it is there. -/
def carriesOf (e : Editor) (name : String) (source target : SectionKind) : List Splice :=
  match e.locate? source name with
  | none => []
  | some x =>
    let rest := e.delete x source
    if (rest.sectionAt target).isSome then [.carry x none (rest.placeIn target name)]
    else
      let opened := rest.createSection target (rest.sectionAt source)
      [.carry x (some (target, rest.headerPlace (rest.sectionAt source)))
        (opened.placeIn target name)]

/-- What one change does, as splices. -/
def splicesOf (e : Editor) (c : Change) : List Splice :=
  match c.action with
  | .remove =>
    e.cutsOf .dependencies c.package ++
      (e.removeFrom .dependencies c.package).2.cutsOf .devDependencies c.package
  | .removeFrom kind => e.cutsOf kind c.package
  | .moveTo target => e.carriesOf c.package target.other target

/-- What a batch does, as splices. -/
def splices (e : Editor) : List Change → List Splice
  | [] => []
  | c :: cs => e.splicesOf c ++ (e.perform c).2.splices cs

/-- Where a line of the result comes from. -/
inductive Origin where
  /-- A line that was there before, by its number. -/
  | kept (number : Nat)
  /-- A line of a new header. -/
  | added (line : String)

namespace Origin

def line (lines : List String) : Origin → String
  | kept number => lines[number]?.getD ""
  | added line => line

def number? : Origin → Option Nat
  | kept number => some number
  | added _ => none

end Origin

/-- The origins of the lines before a batch. -/
def numbered (e : Editor) : List Origin := (List.range e.lines.length).map .kept

def addedHeader (e : Editor) (kind : SectionKind) : List Origin :=
  (headerLines e.lineEnd kind).map .added

/-- Where each line of the result of a batch comes from. -/
def origins (e : Editor) (changes : List Change) : List Origin :=
  Splice.run e.addedHeader (e.splices changes) e.numbered

/-- The numbers of the lines that stand in the block of a change when its turn comes. -/
def touched (e : Editor) (changes : List Change) : List Nat :=
  (Splice.touched e.addedHeader (e.splices changes) e.numbered).filterMap Origin.number?

/-- The sections that a batch opens. -/
def opened (e : Editor) (changes : List Change) : List SectionKind :=
  (e.splices changes).filterMap Splice.opened?

/-! ## One change -/

/-- A new line ends as the lines of a manifest do. -/
def HasLineEnd (e : Editor) : Prop := e.lineEnd = "" ∨ e.lineEnd = "\r"

theorem hasLineEnd_ofLines (lines : List String) : (ofLines lines).HasLineEnd := by
  unfold HasLineEnd ofLines
  dsimp only
  split
  · exact .inr rfl
  · exact .inl rfl

theorem isHeaderOf_headerLine {lineEnd : String} (h : lineEnd = "" ∨ lineEnd = "\r")
    (kind : SectionKind) : isHeaderOf kind.name (kind.name ++ ":" ++ lineEnd) = true := by
  rcases h with rfl | rfl <;> cases kind <;> decide

theorem findFrom_isSome {name line : String} (h : isHeaderOf name line = true) (index : Nat)
    {lines : List String} (hmem : line ∈ lines) : (findFrom name index lines).isSome = true := by
  induction lines generalizing index with
  | nil => simp at hmem
  | cons first rest ih =>
    unfold findFrom
    split
    · rfl
    · rename_i hfirst
      rcases List.mem_cons.mp hmem with rfl | hmem
      · exact absurd h hfirst
      · exact ih _ hmem

/-- A section that has been created is there. -/
theorem sectionAt_createSection {e : Editor} (h : e.HasLineEnd) (kind : SectionKind)
    (after : Option Section) : ((e.createSection kind after).sectionAt kind).isSome = true := by
  rw [createSection, tracked_writeHeader e kind.name after kind]
  refine findFrom_isSome (isHeaderOf_headerLine h kind) 0 ?_
  simp [writeHeader, rescan]

theorem lines_removeFrom (e : Editor) (kind : SectionKind) (name : String)
    (header : SectionKind → List String) :
    (e.removeFrom kind name).2.lines = Splice.run header (e.cutsOf kind name) e.lines := by
  unfold removeFrom cut? cutsOf
  cases e.locate? kind name <;> rfl

theorem lines_paste {e : Editor} {kind : SectionKind} (h : (e.sectionAt kind).isSome = true)
    (name : String) (block : List String) :
    (e.paste kind name block).lines = Splice.putIn (e.placeIn kind name) block e.lines := by
  obtain ⟨s, hs⟩ := Option.isSome_iff_exists.mp h
  unfold paste placeIn
  rw [hs]
  rfl

theorem lines_move {e : Editor} (h : e.HasLineEnd) (name : String) (source target : SectionKind) :
    (e.move name source target).2.lines =
      Splice.run (headerLines e.lineEnd) (e.carriesOf name source target) e.lines := by
  unfold move cut? carriesOf
  cases e.locate? source name with
  | none => rfl
  | some x =>
    dsimp only [Option.map_some]
    by_cases hs : ((e.delete x source).sectionAt target).isSome = true
    · rw [if_pos hs, if_pos hs, lines_paste hs]
      rfl
    · have hopened := sectionAt_createSection (e := e.delete x source) h target
        ((e.delete x source).sectionAt source)
      rw [if_neg hs, if_neg hs, lines_paste hopened]
      rfl

/-- What a change does to the lines are its splices. -/
theorem lines_perform {e : Editor} (h : e.HasLineEnd) (c : Change) :
    (e.perform c).2.lines = Splice.run (headerLines e.lineEnd) (e.splicesOf c) e.lines := by
  obtain ⟨name, action, version⟩ := c
  cases action with
  | remove =>
    rw [splicesOf, Splice.run_append, ← lines_removeFrom, ← lines_removeFrom]
    rfl
  | moveTo target => exact lines_move h name target.other target
  | removeFrom kind => exact lines_removeFrom e kind name _

theorem lineEnd_removeFrom (e : Editor) (kind : SectionKind) (name : String) :
    (e.removeFrom kind name).2.lineEnd = e.lineEnd := by
  unfold removeFrom cut?
  cases e.locate? kind name <;> rfl

theorem lineEnd_paste (e : Editor) (kind : SectionKind) (name : String) (block : List String) :
    (e.paste kind name block).lineEnd = e.lineEnd := by
  unfold paste
  split <;> rfl

theorem lineEnd_move (e : Editor) (name : String) (source target : SectionKind) :
    (e.move name source target).2.lineEnd = e.lineEnd := by
  unfold move cut?
  cases e.locate? source name with
  | none => rfl
  | some x =>
    dsimp only [Option.map_some]
    rw [lineEnd_paste]
    split <;> rfl

theorem lineEnd_perform (e : Editor) (c : Change) : (e.perform c).2.lineEnd = e.lineEnd := by
  unfold perform
  split
  · exact (lineEnd_removeFrom _ _ _).trans (lineEnd_removeFrom _ _ _)
  · exact lineEnd_move e _ _ _
  · exact lineEnd_removeFrom e _ _

/-! ## What one change does -/

theorem locate?_eq_located {e : Editor} (h : e.Tracked) (kind : SectionKind) (name : String) :
    e.locate? kind name = located e.lines kind name := by
  rw [locate?, located, h kind]

/-- A located block is a run of the lines and holds no header. -/
theorem exists_of_located {lines : List String} {kind : SectionKind} {name : String} {x : Extent}
    (h : located lines kind name = some x) :
    x = ⟨(lines.take x.start).length, (lines.take x.start).length + (x.lines lines).length⟩ ∧
      lines.take x.start ++ x.lines lines ++ lines.drop x.stop = lines ∧
      NoHeader (x.lines lines) := by
  obtain ⟨s, -, hlocate⟩ := Option.bind_eq_some_iff.mp h
  obtain ⟨entry, hmem, -, rfl⟩ := Section.mem_entries_of_locate? hlocate
  have hle := (Section.start_lt_stop hmem).le
  have hlength := Section.stop_le_length hmem
  refine ⟨?_, Extent.lines_append hle lines, Section.noHeader_lines hmem⟩
  have hstart : (lines.take entry.extent.start).length = entry.extent.start := by
    rw [List.length_take]
    omega
  have hsize : (entry.extent.lines lines).length = entry.extent.stop - entry.extent.start := by
    rw [Extent.lines, List.length_take, List.length_drop, Extent.size]
    omega
  rw [hstart, hsize, Nat.add_sub_cancel' hle]

theorem removes_removeFrom {e : Editor} (h : e.Tracked) (kind : SectionKind) (name : String) :
    Removes kind name e.lines (e.removeFrom kind name).1 (e.removeFrom kind name).2.lines := by
  have hlocate := locate?_eq_located h kind name
  unfold removeFrom cut?
  cases hx : e.locate? kind name with
  | none => exact .absent (hlocate.symm.trans hx)
  | some x =>
    have hfound := hlocate.symm.trans hx
    obtain ⟨hextent, hlines, -⟩ := exists_of_located hfound
    have hcut : Removes kind name (e.lines.take x.start ++ x.lines e.lines ++ e.lines.drop x.stop)
        true (e.lines.take x.start ++ e.lines.drop x.stop) := by
      refine .cut ?_
      rw [hlines, ← hextent]
      exact hfound
    rw [hlines] at hcut
    exact hcut

theorem findSection?_isSome_delete (kind' : SectionKind) {lines : List String} {kind : SectionKind}
    {name : String} {x : Extent} (h : located lines kind name = some x) :
    (findSection? (lines.take x.start ++ lines.drop x.stop) kind'.name).isSome =
      (findSection? lines kind'.name).isSome := by
  obtain ⟨-, hlines, hblock⟩ := exists_of_located h
  have hfound := findSection?_insert kind' hblock (lines.take x.start) (lines.drop x.stop)
  rw [hlines] at hfound
  rw [hfound, Option.isSome_map]

theorem moves_move {e : Editor} (h : e.Tracked) (hend : e.HasLineEnd) (name : String)
    (source target : SectionKind) :
    Moves e.lineEnd name source target e.lines (e.move name source target).1
      (e.move name source target).2.lines := by
  have hlocate := locate?_eq_located h source name
  unfold move cut?
  cases hx : e.locate? source name with
  | none => exact .absent (hlocate.symm.trans hx)
  | some x =>
    have hfound := hlocate.symm.trans hx
    obtain ⟨hextent, hlines, -⟩ := exists_of_located hfound
    have hsome := findSection?_isSome_delete target hfound
    have hrest : (e.delete x source).Tracked := by
      have hcut : e.cut? source name = some (x.lines e.lines, e.delete x source) := by
        rw [cut?, hx]
        rfl
      exact (h.cut hcut).1
    have hblock : located (e.lines.take x.start ++ x.lines e.lines ++ e.lines.drop x.stop) source
        name = some ⟨(e.lines.take x.start).length,
          (e.lines.take x.start).length + (x.lines e.lines).length⟩ := by
      rw [hlines, ← hextent]
      exact hfound
    dsimp only [Option.map_some]
    by_cases hs : ((e.delete x source).sectionAt target).isSome = true
    · rw [if_pos hs, lines_paste hs]
      have htarget : findSection? e.lines target.name ≠ none := by
        rw [← Option.isSome_iff_ne_none, ← hsome]
        exact hrest target ▸ hs
      rw [← hlines] at htarget
      have hmoves : Moves e.lineEnd name source target _ true _ := .carry hblock htarget
        (List.take_append_drop ((e.delete x source).placeIn target name) _).symm
      rwa [hlines] at hmoves
    · have hopened := sectionAt_createSection (e := e.delete x source) hend target
        ((e.delete x source).sectionAt source)
      rw [if_neg hs, lines_paste hopened]
      have htarget : findSection? e.lines target.name = none := by
        rw [← Option.not_isSome_iff_eq_none, ← hsome]
        exact hrest target ▸ hs
      rw [← hlines] at htarget
      have hmoves : Moves e.lineEnd name source target _ true _ := .carryOpening hblock htarget
        (List.take_append_drop
          ((e.delete x source).headerPlace ((e.delete x source).sectionAt source)) _).symm
        (List.take_append_drop (((e.delete x source).createSection target
          ((e.delete x source).sectionAt source)).placeIn target name) _).symm
      rwa [hlines] at hmoves

theorem steps_perform {e : Editor} (h : e.Tracked) (hend : e.HasLineEnd) (c : Change) :
    Steps e.lineEnd c e.lines (e.perform c).1 (e.perform c).2.lines := by
  obtain ⟨name, action, version⟩ := c
  cases action with
  | remove =>
    exact .remove (removes_removeFrom h .dependencies name)
      (removes_removeFrom (h.removeFrom .dependencies name) .devDependencies name)
  | moveTo target => exact .move (moves_move h hend name target.other target)
  | removeFrom kind => exact .removeFrom (removes_removeFrom h kind name)

/-! ## A batch -/

theorem apply_append (e : Editor) (changes more : List Change) :
    (e.apply (changes ++ more)).2 = ((e.apply changes).2.apply more).2 := by
  induction changes generalizing e with
  | nil => rfl
  | cons c cs ih => exact ih (e.perform c).2

theorem lineEnd_apply (e : Editor) (changes : List Change) :
    (e.apply changes).2.lineEnd = e.lineEnd := by
  induction changes generalizing e with
  | nil => rfl
  | cons c cs ih => exact (ih (e.perform c).2).trans (lineEnd_perform e c)

theorem lines_apply {e : Editor} (h : e.HasLineEnd) (changes : List Change) :
    (e.apply changes).2.lines =
      Splice.run (headerLines e.lineEnd) (e.splices changes) e.lines := by
  induction changes generalizing e with
  | nil => rfl
  | cons c cs ih =>
    have hend := lineEnd_perform e c
    have hrest := ih (e := (e.perform c).2) (by rwa [HasLineEnd, hend])
    rw [hend, lines_perform h] at hrest
    exact hrest.trans (Splice.run_append ..).symm

theorem start_le_stop_of_locate? {e : Editor} {kind : SectionKind} {name : String} {x : Extent}
    (h : e.locate? kind name = some x) : x.start ≤ x.stop := by
  obtain ⟨s, -, hlocate⟩ := Option.bind_eq_some_iff.mp h
  obtain ⟨entry, hmem, -, rfl⟩ := Section.mem_entries_of_locate? hlocate
  exact (Section.start_lt_stop hmem).le

theorem locate?_of_mem_cutsOf {e : Editor} {kind : SectionKind} {name : String} {s : Splice}
    (h : s ∈ e.cutsOf kind name) : e.locate? kind name = some s.extent := by
  unfold cutsOf at h
  cases hx : e.locate? kind name with
  | none => simp [hx] at h
  | some x =>
    have hs : s = .cut x := by simpa [hx] using h
    rw [hs]
    rfl

theorem exists_locate?_of_mem_splicesOf {e : Editor} {c : Change} {s : Splice}
    (h : s ∈ e.splicesOf c) :
    ∃ (e : Editor) (kind : SectionKind), e.locate? kind c.package = some s.extent := by
  unfold splicesOf at h
  split at h
  · rcases List.mem_append.mp h with h | h
    · exact ⟨_, _, locate?_of_mem_cutsOf h⟩
    · exact ⟨_, _, locate?_of_mem_cutsOf h⟩
  · exact ⟨_, _, locate?_of_mem_cutsOf h⟩
  · unfold carriesOf at h
    split at h
    · simp at h
    · rename_i x hx
      dsimp only at h
      split at h
      · rw [List.mem_singleton.mp h]
        exact ⟨_, _, hx⟩
      · rw [List.mem_singleton.mp h]
        exact ⟨_, _, hx⟩

/-- Every splice is about a block that is located when its turn comes. -/
theorem exists_locate?_of_mem_splices {e : Editor} {changes : List Change} {s : Splice}
    (h : s ∈ e.splices changes) :
    ∃ (e : Editor) (kind : SectionKind) (name : String), e.locate? kind name = some s.extent := by
  induction changes generalizing e with
  | nil => simp [splices] at h
  | cons c cs ih =>
    rcases List.mem_append.mp h with h | h
    · obtain ⟨before, kind, hx⟩ := exists_locate?_of_mem_splicesOf h
      exact ⟨before, kind, c.package, hx⟩
    · exact ih h

theorem start_le_stop_of_mem_splices {e : Editor} {changes : List Change} {s : Splice}
    (h : s ∈ e.splices changes) : s.extent.start ≤ s.extent.stop := by
  obtain ⟨_, _, _, hx⟩ := exists_locate?_of_mem_splices h
  exact start_le_stop_of_locate? hx

/-- A change that takes no effect does nothing, and a move that does carries its lines. -/
theorem isCarry_of_mem_splicesOf {e : Editor} {c : Change}
    (hmove : (e.perform c).1 = true → ∃ target, c.action = .moveTo target) {s : Splice}
    (h : s ∈ e.splicesOf c) : s.isCarry = true := by
  obtain ⟨name, action, version⟩ := c
  have absent {e : Editor} {kind : SectionKind} (hdone : (e.removeFrom kind name).1 = false) :
      e.cutsOf kind name = [] := by
    unfold removeFrom cut? at hdone
    unfold cutsOf
    cases hx : e.locate? kind name with
    | none => rfl
    | some x => simp [hx] at hdone
  cases action with
  | remove =>
    have hdone : (e.perform ⟨name, .remove, version⟩).1 = false := by
      by_contra hdone
      simpa using hmove (by simpa using hdone)
    obtain ⟨hfirst, hsecond⟩ : (e.removeFrom .dependencies name).1 = false ∧
        ((e.removeFrom .dependencies name).2.removeFrom .devDependencies name).1 = false :=
      Bool.or_eq_false_iff.mp hdone
    have hnil : e.cutsOf .dependencies name ++
        (e.removeFrom .dependencies name).2.cutsOf .devDependencies name = [] := by
      rw [absent hfirst, absent hsecond, List.append_nil]
    change s ∈ e.cutsOf .dependencies name ++
      (e.removeFrom .dependencies name).2.cutsOf .devDependencies name at h
    simp [hnil] at h
  | moveTo target =>
    simp only [splicesOf, carriesOf] at h
    split at h
    · simp at h
    · split at h <;> rw [List.mem_singleton.mp h, Splice.isCarry]
  | removeFrom kind =>
    have hdone : (e.perform ⟨name, .removeFrom kind, version⟩).1 = false := by
      by_contra hdone
      simpa using hmove (by simpa using hdone)
    have hnil : e.cutsOf kind name = [] := absent hdone
    change s ∈ e.cutsOf kind name at h
    simp [hnil] at h

theorem isCarry_of_mem_splices {e : Editor} {changes : List Change}
    (hmoves : ∀ c ∈ (e.apply changes).1, ∃ target, c.action = .moveTo target) {s : Splice}
    (h : s ∈ e.splices changes) : s.isCarry = true := by
  induction changes generalizing e with
  | nil => simp [splices] at h
  | cons c cs ih =>
    have happly : (e.apply (c :: cs)).1 =
        if (e.perform c).1 then c :: ((e.perform c).2.apply cs).1
        else ((e.perform c).2.apply cs).1 := rfl
    rw [happly] at hmoves
    rcases List.mem_append.mp h with h | h
    · refine isCarry_of_mem_splicesOf (fun hdone => hmoves c ?_) h
      rw [if_pos hdone]
      exact List.mem_cons_self
    · refine ih (fun c' hc' => hmoves c' ?_) h
      split
      · exact List.mem_cons_of_mem _ hc'
      · exact hc'

theorem map_numbered (e : Editor) : e.numbered.map (Origin.line e.lines) = e.lines := by
  refine List.ext_getElem (by simp [numbered]) fun i h₁ h₂ => ?_
  simp [numbered, Origin.line, h₂]

theorem map_addedHeader (e : Editor) (kind : SectionKind) :
    (e.addedHeader kind).map (Origin.line e.lines) = headerLines e.lineEnd kind := by
  simp [addedHeader, Origin.line, Function.comp_def]

/-- The lines after a batch, by where they come from. -/
theorem map_origins {e : Editor} (h : e.HasLineEnd) (changes : List Change) :
    (e.origins changes).map (Origin.line e.lines) = (e.apply changes).2.lines := by
  rw [lines_apply h, origins, ← Splice.run_map]
  simp only [map_addedHeader, map_numbered]

/-- Lines that stand in no block of a change are all there afterwards, in the same order. -/
theorem filter_origins (e : Editor) (changes : List Change) :
    ((e.origins changes).filterMap Origin.number?).filter (fun i => i ∉ e.touched changes) =
      (List.range e.lines.length).filter (fun i => i ∉ e.touched changes) := by
  let untouched (o : Origin) : Bool := o.number?.any fun i => decide (i ∉ e.touched changes)
  have hnumbers (all : List Origin) :
      (all.filterMap Origin.number?).filter (fun i => i ∉ e.touched changes) =
        (all.filter untouched).filterMap Origin.number? := by
    induction all with
    | nil => rfl
    | cons o rest ih =>
      cases o with
      | added line =>
        rw [List.filterMap_cons_none rfl,
          List.filter_cons_of_neg (by simp [untouched, Origin.number?])]
        exact ih
      | kept i =>
        by_cases hi : i ∈ e.touched changes <;> simp_all [Origin.number?, untouched]
  have hrange : e.numbered.filterMap Origin.number? = List.range e.lines.length := by
    simp [numbered, List.filterMap_map, Function.comp_def, Origin.number?]
  rw [← hrange, hnumbers, hnumbers, origins, Splice.filter_run]
  · intro kind
    simp [addedHeader, untouched, Origin.number?]
  · exact fun s hs => start_le_stop_of_mem_splices hs
  · refine List.filter_eq_nil_iff.mpr fun o ho => ?_
    cases o with
    | added line => simp [untouched, Origin.number?]
    | kept i =>
      have hmem : i ∈ e.touched changes := List.mem_filterMap.mpr ⟨_, ho, rfl⟩
      simp [untouched, Origin.number?, hmem]

/-- A batch only cuts blocks out, puts blocks of moves in again and adds headers. Step by step the
lines change as `Steps` says, and a change without effect leaves them alone. Over the whole batch
every line has an origin; the lines that never stand in a block of a change stay, once and in their
order; and where nothing but moves takes effect, the lines are those from before and those of the
headers added, in some order. -/
theorem apply_cuts_and_carries (text : String) (changes : List Change) :
    let e := ofText text
    (∀ step c, changes[step]? = some c →
      let before := (e.apply (changes.take step)).2
      let after := (e.apply (changes.take (step + 1))).2
      Steps e.lineEnd c before.lines (before.perform c).1 after.lines ∧
        ((before.perform c).1 = false → after.lines = before.lines)) ∧
    (e.apply changes).2.lines = (e.origins changes).map (Origin.line e.lines) ∧
    ((e.origins changes).filterMap Origin.number?).filter (fun i => i ∉ e.touched changes) =
      (List.range e.lines.length).filter (fun i => i ∉ e.touched changes) ∧
    ((∀ c ∈ (e.apply changes).1, ∃ target, c.action = .moveTo target) →
      (e.apply changes).2.lines.Perm
        (e.lines ++ (e.opened changes).flatMap (headerLines e.lineEnd))) := by
  intro e
  have hend : e.HasLineEnd := hasLineEnd_ofLines _
  refine ⟨fun step c hc => ?_, (map_origins hend changes).symm, filter_origins e changes,
    fun hmoves => ?_⟩
  · have htake : changes.take (step + 1) = changes.take step ++ [c] := by
      rw [List.take_add_one, hc]
      rfl
    have hlineEnd := lineEnd_apply e (changes.take step)
    have htracked : (e.apply (changes.take step)).2.Tracked := (tracked_ofLines _).apply _
    have hsteps := steps_perform htracked (by rwa [HasLineEnd, hlineEnd]) c
    rw [hlineEnd] at hsteps
    rw [htake, apply_append]
    exact ⟨hsteps, fun hdone => Steps.lines_eq (hdone ▸ hsteps)⟩
  · rw [lines_apply hend]
    exact Splice.run_perm (fun s hs => isCarry_of_mem_splices hmoves hs)
      (fun s hs => start_le_stop_of_mem_splices hs) e.lines

end Editor
end PubspecTidy.Manifest
