import PubspecTidy.Proofs.Grouping.Lines
import PubspecTidy.Proofs.Manifest.Removals
import PubspecTidy.Proofs.Text.Returns

/-!
# The windows of a regrouped manifest

Regrouping writes one section of a manifest anew and then looks for the other one in what it has
written. Main statement: what it gives is the manifest with two windows replaced at once, each by
lines that depend on nothing but the lines of their section and its groups, and these are the lines
that a preview shows, behind the entries that are in no group.
-/
namespace PubspecTidy.Grouping

open Manifest (Extent NoHeader Section SectionKind Surrounds blocksFrom blocksIn bodyOf? covered
  findSection? isHeader linesBetween uncoveredFrom)

variable {index : Nat} {lines before old after above body below between own : List String}
  {header header' : String} {kind kind' : SectionKind} {g g' : Grouping} {s s' : Section}

/-! ## Lines that come in place of others -/

/-- Lines that come in place of those of an extent. -/
structure Window where
  place : Extent
  body : List String

variable {w : Window} {windows more : List Window}

/-- What comes in at the line `i`. -/
def bodiesAt (windows : List Window) (i : Nat) : List String :=
  (windows.filter (·.place.start == i)).flatMap (·.body)

/-- The lines with all windows replaced at once, where the first one is the line `index`: a body comes
in where its window starts, and the lines of a window go out. -/
def replacedFrom (index : Nat) (windows : List Window) : List String → List String
  | [] => bodiesAt windows index
  | line :: rest =>
    bodiesAt windows index ++ (if covered (windows.map (·.place)) index then [] else [line]) ++
      replacedFrom (index + 1) windows rest

def replaced (windows : List Window) (lines : List String) : List String :=
  replacedFrom 0 windows lines

theorem bodiesAt_cons (w : Window) (windows : List Window) (i : Nat) :
    bodiesAt (w :: windows) i = (if w.place.start = i then w.body else []) ++ bodiesAt windows i := by
  rw [bodiesAt, List.filter_cons]
  by_cases h : w.place.start = i
  · rw [if_pos (by simpa using h), if_pos h, List.flatMap_cons]
    rfl
  · rw [if_neg (by simpa using h), if_neg h]
    rfl

theorem bodiesAt_append (windows more : List Window) (i : Nat) :
    bodiesAt (windows ++ more) i = bodiesAt windows i ++ bodiesAt more i := by
  rw [bodiesAt, List.filter_append, List.flatMap_append]
  rfl

theorem bodiesAt_eq_nil {i : Nat} (h : ∀ w ∈ windows, w.place.start ≠ i) :
    bodiesAt windows i = [] := by
  rw [bodiesAt, List.filter_eq_nil_iff.mpr fun w hw => by simpa using h w hw]
  rfl

theorem covered_eq_false {i : Nat} (h : ∀ w ∈ windows, i < w.place.start) :
    covered (windows.map (·.place)) i = false := by
  rw [← Bool.not_eq_true, Manifest.covered_map_iff]
  rintro ⟨w, hw, hle, -⟩
  have := h w hw
  omega

/-- It only matters what comes in and what goes out from the first line on. -/
theorem replacedFrom_congr (lines : List String)
    (h : ∀ i, index ≤ i → bodiesAt windows i = bodiesAt more i ∧
      covered (windows.map (·.place)) i = covered (more.map (·.place)) i) :
    replacedFrom index windows lines = replacedFrom index more lines := by
  induction lines generalizing index with
  | nil => exact (h index le_rfl).1
  | cons line rest ih =>
    rw [replacedFrom, replacedFrom, (h index le_rfl).1, (h index le_rfl).2,
      ih fun i hi => h i (by omega)]

theorem replacedFrom_nil (index : Nat) (lines : List String) :
    replacedFrom index [] lines = lines := by
  induction lines generalizing index with
  | nil => rfl
  | cons line rest ih =>
    rw [replacedFrom, ih]
    rfl

/-- Where no window starts lines can only go out. -/
theorem replacedFrom_append (rest : List String)
    (h : ∀ i < lines.length, bodiesAt windows (index + i) = []) :
    replacedFrom index windows (lines ++ rest) =
      uncoveredFrom index (windows.map (·.place)) lines ++
        replacedFrom (index + lines.length) windows rest := by
  induction lines generalizing index with
  | nil => rfl
  | cons line lines ih =>
    have hfirst : bodiesAt windows index = [] := h 0 (by simp)
    have hrest : ∀ i < lines.length, bodiesAt windows (index + 1 + i) = [] := by
      intro i hi
      have := h (i + 1) (by simpa using hi)
      rwa [← Nat.add_assoc, Nat.add_right_comm] at this
    rw [List.cons_append, replacedFrom, ih hrest, Manifest.uncoveredFrom_cons, hfirst,
      List.nil_append, List.append_assoc, List.length_cons, Nat.add_assoc index 1,
      Nat.add_comm 1]

/-- Lines before the first window stay. -/
theorem replacedFrom_before (index : Nat) (windows : List Window) (before rest : List String)
    (h : ∀ w ∈ windows, index + before.length ≤ w.place.start) :
    replacedFrom index windows (before ++ rest) =
      before ++ replacedFrom (index + before.length) windows rest := by
  have hstarts {i : Nat} (hi : i < before.length) : ∀ w ∈ windows, index + i < w.place.start := by
    intro w hw
    have := h w hw
    omega
  have hkept : uncoveredFrom index (windows.map (·.place)) before = before :=
    (Manifest.uncoveredFrom_congr fun i hi => covered_eq_false (hstarts hi)).trans
      (Manifest.uncoveredFrom_nil index before)
  rw [replacedFrom_append rest fun i hi => bodiesAt_eq_nil fun w hw => (hstarts hi w hw).ne', hkept]

/-- The body of a window comes in where it starts. -/
theorem replacedFrom_start (w : Window) (windows : List Window) (lines : List String) :
    replacedFrom w.place.start (w :: windows) lines =
      w.body ++ replacedFrom w.place.start (⟨w.place, []⟩ :: windows) lines := by
  have hbody : bodiesAt (w :: windows) w.place.start =
      w.body ++ bodiesAt (⟨w.place, []⟩ :: windows) w.place.start := by
    rw [bodiesAt_cons, bodiesAt_cons, if_pos rfl, ite_self, List.nil_append]
  cases lines with
  | nil => exact hbody
  | cons line rest =>
    have hrest : replacedFrom (w.place.start + 1) (w :: windows) rest =
        replacedFrom (w.place.start + 1) (⟨w.place, []⟩ :: windows) rest := by
      refine replacedFrom_congr rest fun i hi => ⟨?_, rfl⟩
      rw [bodiesAt_cons, bodiesAt_cons, if_neg (by omega), ite_self]
    rw [replacedFrom, replacedFrom, hbody, hrest, List.append_assoc, List.append_assoc,
      List.append_assoc]
    rfl

/-- The first window, where all others start behind it. -/
theorem replacedFrom_window (before old newLines after : List String)
    (h : ∀ w ∈ windows, index + before.length + old.length ≤ w.place.start) :
    replacedFrom index
        (⟨⟨index + before.length, index + before.length + old.length⟩, newLines⟩ :: windows)
        (before ++ (old ++ after)) =
      before ++ (newLines ++ replacedFrom (index + before.length + old.length) windows after) := by
  have hgone : ∀ i < old.length, covered ((⟨⟨index + before.length,
      index + before.length + old.length⟩, []⟩ :: windows : List Window).map (·.place))
      (index + before.length + i) = true := by
    intro i hi
    rw [List.map_cons, Manifest.covered_cons_iff]
    exact .inl ⟨by simp, by simpa using hi⟩
  have hnone : ∀ i < old.length, bodiesAt (⟨⟨index + before.length,
      index + before.length + old.length⟩, []⟩ :: windows) (index + before.length + i) = [] := by
    intro i hi
    rw [bodiesAt_cons, ite_self, List.nil_append]
    refine bodiesAt_eq_nil fun w hw => ?_
    have := h w hw
    omega
  have hin : replacedFrom (index + before.length)
      (⟨⟨index + before.length, index + before.length + old.length⟩, newLines⟩ :: windows)
      (old ++ after) = newLines ++ replacedFrom (index + before.length)
        (⟨⟨index + before.length, index + before.length + old.length⟩, []⟩ :: windows)
        (old ++ after) :=
    replacedFrom_start ⟨⟨_, _⟩, newLines⟩ windows _
  rw [replacedFrom_before index _ before, hin, replacedFrom_append after hnone,
    Manifest.uncoveredFrom_of_covered hgone, List.nil_append]
  · refine congrArg (fun rest => before ++ (newLines ++ rest))
      (replacedFrom_congr after fun i hi => ⟨?_, ?_⟩)
    · rw [bodiesAt_cons, ite_self, List.nil_append]
    · rw [Bool.eq_iff_iff, List.map_cons, Manifest.covered_cons_iff]
      refine or_iff_right ?_
      rintro ⟨-, hlt⟩
      simp only at hlt
      omega
  · rw [List.forall_mem_cons]
    exact ⟨le_rfl, fun w hw => by have := h w hw; omega⟩

/-- Windows that do not start together come in any order. -/
theorem replaced_append_comm (lines : List String)
    (h : ∀ w ∈ windows, ∀ w' ∈ more, w.place.start ≠ w'.place.start) :
    replaced (windows ++ more) lines = replaced (more ++ windows) lines := by
  refine replacedFrom_congr lines fun i _ => ⟨?_, ?_⟩
  · rw [bodiesAt_append, bodiesAt_append]
    by_cases hstarts : ∃ w ∈ windows, w.place.start = i
    · obtain ⟨w, hw, rfl⟩ := hstarts
      have hmore : bodiesAt more w.place.start = [] :=
        bodiesAt_eq_nil fun w' hw' => (h w hw w' hw').symm
      rw [hmore, List.append_nil, List.nil_append]
    · have hwindows : bodiesAt windows i = [] :=
        bodiesAt_eq_nil fun w hw hi => hstarts ⟨w, hw, hi⟩
      rw [hwindows, List.append_nil, List.nil_append]
  · rw [Bool.eq_iff_iff, Manifest.covered_map_iff, Manifest.covered_map_iff]
    simp only [List.mem_append, or_comm]

/-! ## The lines that one section takes in -/

/-- How many lines of a body stand up to the end of its last entry. -/
def entriesLength (body : List String) : Nat :=
  ((Section.entriesFrom 0 0 body).getLast?.map (·.extent.stop)).getD 0

theorem entriesEnd_eq (s : Section) (lines : List String) :
    s.entriesEnd lines = s.header + 1 + entriesLength (s.body lines) := by
  have hentries : s.entries lines =
      (Section.entriesFrom 0 0 (s.body lines)).map (·.down (s.header + 1)) := by
    rw [← Section.entriesFrom_add, Nat.zero_add]
    rfl
  rw [Section.entriesEnd, hentries, entriesLength, List.getLast?_map]
  cases (Section.entriesFrom 0 0 (s.body lines)).getLast? with
  | none => rfl
  | some entry => exact Nat.add_comm _ _

theorem entriesLength_le (body : List String) : entriesLength body ≤ body.length := by
  rw [entriesLength]
  cases hlast : (Section.entriesFrom 0 0 body).getLast? with
  | none => exact Nat.zero_le _
  | some entry =>
    have := Section.bounds_of_mem_entriesFrom (List.mem_of_getLast? hlast)
    simp only [Option.map_some, Option.getD_some]
    omega

/-- The lines of a section, its header included. -/
def ownLines (s : Section) (lines : List String) : List String := linesBetween lines s.header s.last

/-- What comes in for the entries of a section that has these lines, its header included. -/
def newBody (own : List String) (g : Grouping) : List String :=
  sectionBody own ⟨0, own.length - 1⟩ g

/-- How the entries of a section are written, given its body. -/
def entriesOfBody (body : List String) : Entries :=
  ⟨Table.ofList (blocksFrom none body), indentOf ((blocksFrom none body).map (·.2))⟩

theorem entriesOf_eq (lines : List String) (s : Section) :
    entriesOf lines (some s) = entriesOfBody (s.body lines) := by
  rw [entriesOf, Manifest.map_entries, entriesOfBody]

/-- The entries that are in no group. -/
def outside (blocks : Table String (List String)) (g : Grouping) : Table String (List String) :=
  blocks.filter fun e => !(g.packages.map (·.name)).contains e.1

/-- Entries that are in no group and, behind an empty line, all groups. -/
def written (es : Entries) (lineEnd : String) (g : Grouping) : List String :=
  (if ((outside es.blocks g).flatMap (·.2)).isEmpty then []
    else (outside es.blocks g).flatMap (·.2) ++ [lineEnd]) ++ g.lines es lineEnd

theorem sectionBody_eq_written (lines : List String) (s : Section) (g : Grouping) :
    sectionBody lines s g = written (entriesOf lines (some s))
      (if Text.endsWith (lines[s.header]?.getD "") "\r" then "\r" else "") g := rfl

/-- What comes in for the entries of a section depends on nothing but its own lines. -/
theorem sectionBody_congr {lines' : List String} (hheader : lines[s.header]? = lines'[s'.header]?)
    (hbody : s.body lines = s'.body lines') (g : Grouping) :
    sectionBody lines s g = sectionBody lines' s' g := by
  rw [sectionBody, sectionBody, entriesOf_eq, entriesOf_eq, hheader, hbody]

/-- The window that regrouping replaces, if the section is found and there are groups for it. -/
def windowsOf (lines : List String) (kind : SectionKind) (g : Grouping) : List Window :=
  if g.isEmpty then []
  else (findSection? lines kind.name).toList.map fun s =>
    ⟨⟨s.header + 1, s.entriesEnd lines⟩, newBody (ownLines s lines) g⟩

/-- A body after regrouping. -/
def regroupBody (header : String) (body : List String) (g : Grouping) : List String :=
  if g.isEmpty then body else newBody (header :: body) g ++ body.drop (entriesLength body)

/-! ### No header comes in -/

theorem startsBlank_of_mem_packageLines {es : Entries} {lineEnd line : String} {f : Finding}
    (hindent : Manifest.startsBlank es.indent = true)
    (h : line ∈ packageLines es lineEnd f) :
    (∃ e ∈ es.blocks, line ∈ e.2) ∨ Manifest.startsBlank line = true := by
  unfold packageLines at h
  split at h
  · rename_i first rest hblock
    exact .inl ⟨_, Table.mem_of_get? hblock, h⟩
  · right
    rw [List.mem_singleton.mp h]
    simp only [String.append_assoc]
    exact startsBlank_append hindent _

theorem noHeader_sectionBody (hone : ∀ line ∈ lines, Text.IsOneLine line) (s : Section)
    (g : Grouping) : NoHeader (sectionBody lines s g) := by
  intro line hline
  have hindent := (isIndent_entriesOf hone s).starts
  obtain ⟨lineEnd, hend, rfl | ⟨e, he, hline⟩ | ⟨c, -, rfl⟩ | ⟨f, -, hline⟩⟩ := mem_sectionBody hline
  · exact (hend.harmless lines).inside
  · exact Section.noHeader_lines he line hline
  · apply Manifest.isHeader_of_startsBlank
    simp only [String.append_assoc]
    exact startsBlank_append hindent _
  · rcases startsBlank_of_mem_packageLines hindent hline with ⟨⟨name, block⟩, hblock, hline⟩ | hstarts
    · obtain ⟨e, he, -, rfl⟩ := mem_blocks hblock
      exact Section.noHeader_lines he line hline
    · exact Manifest.isHeader_of_startsBlank hstarts

theorem noHeader_regroupBody (hbody : NoHeader body)
    (hone : ∀ line ∈ header :: body, Text.IsOneLine line) (g : Grouping) :
    NoHeader (regroupBody header body g) := by
  rw [regroupBody]
  split
  · exact hbody
  · exact (noHeader_sectionBody hone _ g).append fun line hline =>
      hbody line (List.mem_of_mem_drop hline)

theorem isOneLine_own
    (h : ∀ line ∈ above ++ header :: (body ++ below), Text.IsOneLine line) :
    ∀ line ∈ header :: body, Text.IsOneLine line := by
  intro line hline
  refine h line (List.mem_append_right above ?_)
  rw [← List.cons_append]
  exact List.mem_append_left below hline

/-! ### One window -/

/-- The first section of a text and what stands above it, where all other windows are below. -/
theorem replacedFrom_regroupBody (index : Nat) (above : List String) (header : String)
    (body below : List String) (g : Grouping)
    (h : ∀ w ∈ windows, index + above.length + 1 + body.length ≤ w.place.start) :
    replacedFrom index ((if g.isEmpty then [] else
        [⟨⟨index + above.length + 1, index + above.length + 1 + entriesLength body⟩,
          newBody (header :: body) g⟩]) ++ windows) (above ++ header :: (body ++ below)) =
      above ++ header :: (regroupBody header body g ++
        replacedFrom (index + above.length + 1 + body.length) windows below) := by
  have hle := entriesLength_le body
  rw [regroupBody]
  split
  · have hbefore := replacedFrom_before index windows (above ++ header :: body) below fun w hw => by
      have := h w hw
      simp only [List.length_append, List.length_cons]
      omega
    have hlength : index + (above ++ header :: body).length =
        index + above.length + 1 + body.length := by
      simp only [List.length_append, List.length_cons]
      omega
    rw [hlength, List.append_assoc, List.append_assoc] at hbefore
    exact hbefore
  · have htake : (body.take (entriesLength body)).length = entriesLength body := by
      rw [List.length_take]
      omega
    have hplace : index + (above ++ [header]).length = index + above.length + 1 := by
      rw [List.length_append, List.length_singleton, Nat.add_assoc]
    have hbelow : ∀ w ∈ windows, index + (above ++ [header]).length +
        (body.take (entriesLength body)).length ≤ w.place.start := by
      intro w hw
      have := h w hw
      omega
    have hwindow := replacedFrom_window (above ++ [header]) (body.take (entriesLength body))
      (newBody (header :: body) g) (body.drop (entriesLength body) ++ below) hbelow
    have hrest := replacedFrom_before (index + above.length + 1 + entriesLength body) windows
      (body.drop (entriesLength body)) below fun w hw => by
        have := h w hw
        rw [List.length_drop]
        omega
    have hlength : index + above.length + 1 + entriesLength body +
        (body.drop (entriesLength body)).length = index + above.length + 1 + body.length := by
      rw [List.length_drop]
      omega
    rw [hplace, htake, hrest, hlength, ← List.append_assoc (body.take _), List.take_append_drop,
      List.append_assoc] at hwindow
    rw [List.append_assoc]
    simpa only [List.append_assoc, List.cons_append, List.nil_append] using hwindow

/-! ### Where a section stands -/

theorem ownLines_eq (above : List String) (header : String) (body below : List String) :
    ownLines ⟨above.length, above.length + body.length⟩ (above ++ header :: (body ++ below)) =
      header :: body := by
  have hsize : above.length + body.length + 1 - above.length = body.length + 1 := by omega
  rw [ownLines, linesBetween, List.drop_left, hsize, List.take_succ_cons, List.take_left]

theorem body_own (header : String) (body : List String) :
    Section.body ⟨0, (header :: body).length - 1⟩ (header :: body) = body := by
  simpa using Section.body_append [] header body []

theorem sectionBody_eq (above : List String) (header : String) (body below : List String)
    (g : Grouping) : sectionBody (above ++ header :: (body ++ below))
      ⟨above.length, above.length + body.length⟩ g = newBody (header :: body) g := by
  refine sectionBody_congr ?_ ?_ g
  · simp
  · rw [Section.body_append, body_own]

theorem windowsOf_of_surrounds (h : Surrounds kind above header below) (hbody : NoHeader body)
    (g : Grouping) : windowsOf (above ++ header :: (body ++ below)) kind g =
      if g.isEmpty then [] else
        [⟨⟨above.length + 1, above.length + 1 + entriesLength body⟩, newBody (header :: body) g⟩] := by
  rw [windowsOf, h.findSection?_eq hbody, Option.toList_some, List.map_singleton, ownLines_eq,
    entriesEnd_eq, Section.body_append]

theorem regroupSection_of_surrounds (h : Surrounds kind above header below) (hbody : NoHeader body)
    (g : Grouping) : regroupSection kind g (above ++ header :: (body ++ below)) =
      above ++ header :: (regroupBody header body g ++ below) := by
  rw [regroupSection, h.findSection?_eq hbody, regroupBody]
  dsimp only
  split
  · rfl
  · have htake : (above ++ header :: (body ++ below)).take (above.length + 1) = above ++ [header] := by
      rw [List.take_length_add_append, List.take_succ_cons, List.take_zero]
    have hdrop : (above ++ header :: (body ++ below)).drop
        (above.length + 1 + entriesLength body) = body.drop (entriesLength body) ++ below := by
      rw [Nat.add_assoc, ← List.drop_drop, List.drop_left, Nat.add_comm 1, List.drop_succ_cons,
        List.drop_append_of_le_length (entriesLength_le body)]
    rw [sectionBody_eq, htake, entriesEnd_eq, Section.body_append, hdrop]
    simp only [List.append_assoc, List.cons_append, List.nil_append]

/-! ## Both sections -/

/-- Two sections of a text: whatever stands in place of the body of one of them, the other is still
found. -/
theorem exists_both (hne : kind ≠ kind') (hs : findSection? lines kind.name = some s)
    (hs' : findSection? lines kind'.name = some s') (hlt : s.header < s'.header) :
    ∃ above header body between header' body' below,
      lines = above ++ header :: (body ++ (between ++ header' :: (body' ++ below))) ∧
      NoHeader body ∧ NoHeader body' ∧
      (∀ new, Surrounds kind above header (between ++ header' :: (new ++ below))) ∧
      ∀ new, NoHeader new → Surrounds kind' (above ++ header :: (new ++ between)) header' below := by
  obtain ⟨above, header, rest, hsurrounds, hbody, hlines, hplace⟩ := Manifest.exists_surrounds hs
  obtain ⟨above', header', below, hsurrounds', hbody', hlines', hplace'⟩ :=
    Manifest.exists_surrounds hs'
  have hlast : s.last < s'.header := by
    have := Manifest.header_le_last hs'
    have := Manifest.sections_apart hne hs hs'
    omega
  have hfound := hsurrounds.findSection?_eq hbody
  rw [← hlines, hs, Option.some.injEq] at hfound
  rw [hfound] at hlast
  obtain ⟨between, hbetween⟩ : above ++ header :: s.body lines <+: above' := by
    have hleft : above ++ header :: s.body lines <+: lines := by
      refine ⟨rest, ?_⟩
      rw [List.append_assoc]
      exact hlines.symm
    refine List.prefix_of_prefix_length_le hleft ⟨_, hlines'.symm⟩ ?_
    simp only [List.length_append, List.length_cons] at hlast ⊢
    omega
  have hrest : rest = between ++ header' :: (s'.body lines ++ below) := by
    have hboth := hlines.symm.trans hlines'
    rw [← hbetween] at hboth
    simpa using hboth
  have hnext := Manifest.isHeader_of_isHeaderOf hsurrounds'.isHeaderOf
  refine ⟨above, header, s.body lines, between, header', s'.body lines, below, ?_, hbody, hbody',
    fun new => ⟨hsurrounds.isHeaderOf, hsurrounds.first, ?_⟩,
    fun new hnew => ⟨hsurrounds'.isHeaderOf, ?_, hsurrounds'.ends⟩⟩
  · rw [← hrest]
    exact hlines
  · have hends := hsurrounds.ends
    rw [hrest] at hends
    rwa [Manifest.takeWhile_append_header hnext] at hends ⊢
  · have hfirst := hsurrounds'.first
    rw [← hbetween] at hfirst
    simp only [List.mem_append, List.mem_cons] at hfirst ⊢
    rintro line (hline | hline | hline | hline)
    · exact hfirst line (by simp [hline])
    · exact hfirst line (by simp [hline])
    · exact hnew.not_isHeaderOf kind' line hline
    · exact hfirst line (by simp [hline])

theorem append_both (above body between new below : List String) (header header' : String) :
    above ++ header :: (body ++ (between ++ header' :: (new ++ below))) =
      (above ++ header :: (body ++ between)) ++ header' :: (new ++ below) := by
  simp only [List.append_assoc, List.cons_append]

/-- The windows of two sections, of which the first one in the text is called `kind`. -/
theorem replaced_both
    (hlines : lines = above ++ header :: (body ++ (between ++ header' :: (body' ++ below))))
    (hfirst : Surrounds kind above header (between ++ header' :: (body' ++ below)))
    (hsecond : Surrounds kind' (above ++ header :: (body ++ between)) header' below)
    (hbody : NoHeader body) (hbody' : NoHeader body') (g g' : Grouping) :
    replaced (windowsOf lines kind g ++ windowsOf lines kind' g') lines =
      above ++ header :: (regroupBody header body g ++
        (between ++ header' :: (regroupBody header' body' g' ++ below))) := by
  have hwindows := windowsOf_of_surrounds hfirst hbody g
  have hwindows' := windowsOf_of_surrounds hsecond hbody' g'
  have hlength : (above ++ header :: (body ++ between)).length =
      0 + above.length + 1 + body.length + between.length := by
    simp only [List.length_append, List.length_cons]
    omega
  rw [← append_both, ← hlines, hlength] at hwindows'
  rw [← hlines, ← Nat.zero_add above.length] at hwindows
  have hbelow : ∀ w ∈ windowsOf lines kind' g',
      0 + above.length + 1 + body.length ≤ w.place.start := by
    rw [hwindows']
    intro w hw
    split at hw
    · cases hw
    · rw [List.mem_singleton.mp hw]
      dsimp only
      omega
  have houter := replacedFrom_regroupBody 0 above header body
    (between ++ header' :: (body' ++ below)) g hbelow
  have hinner := replacedFrom_regroupBody (0 + above.length + 1 + body.length) between header' body'
    below g' (List.forall_mem_nil _)
  rw [List.append_nil, replacedFrom_nil, ← hwindows'] at hinner
  rw [← hlines, hinner, ← hwindows] at houter
  exact houter

/-- Two sections are regrouped in any order, and both windows are those of the text as it was. -/
theorem regroupSection_both (hone : ∀ line ∈ lines, Text.IsOneLine line) (hne : kind ≠ kind')
    (hs : findSection? lines kind.name = some s) (hs' : findSection? lines kind'.name = some s')
    (hlt : s.header < s'.header) (g g' : Grouping) :
    regroupSection kind g (regroupSection kind' g' lines) =
        replaced (windowsOf lines kind g ++ windowsOf lines kind' g') lines ∧
      regroupSection kind' g' (regroupSection kind g lines) =
        replaced (windowsOf lines kind g ++ windowsOf lines kind' g') lines := by
  obtain ⟨above, header, body, between, header', body', below, hlines, hbody, hbody', hfirst,
    hsecond⟩ := exists_both hne hs hs' hlt
  have hnew : NoHeader (regroupBody header body g) :=
    noHeader_regroupBody hbody (isOneLine_own (hlines ▸ hone)) g
  rw [replaced_both hlines (hfirst body') (hsecond body hbody) hbody hbody', hlines]
  constructor
  · rw [append_both above body, regroupSection_of_surrounds (hsecond body hbody) hbody',
      ← append_both, regroupSection_of_surrounds (hfirst _) hbody]
  · rw [regroupSection_of_surrounds (hfirst body') hbody, append_both,
      regroupSection_of_surrounds (hsecond _ hnew) hbody', ← append_both]

/-- Where one of the sections is missing there is one window. -/
theorem regroupSection_alone (hone : ∀ line ∈ lines, Text.IsOneLine line) (hne : kind ≠ kind')
    (hs : findSection? lines kind.name = some s) (hs' : findSection? lines kind'.name = none)
    (g g' : Grouping) :
    regroupSection kind g (regroupSection kind' g' lines) = replaced (windowsOf lines kind g) lines ∧
      regroupSection kind' g' (regroupSection kind g lines) =
        replaced (windowsOf lines kind g) lines := by
  obtain ⟨above, header, below, hsurrounds, hbody, hlines, -⟩ := Manifest.exists_surrounds hs
  generalize s.body lines = body at hbody hlines
  have hnew : NoHeader (regroupBody header body g) :=
    noHeader_regroupBody hbody (isOneLine_own (hlines ▸ hone)) g
  have hkept {lines : List String} (h : findSection? lines kind'.name = none) :
      regroupSection kind' g' lines = lines := by
    rw [regroupSection, h]
  have hreplaced : replaced (windowsOf lines kind g) lines =
      above ++ header :: (regroupBody header body g ++ below) := by
    have hwindow := replacedFrom_regroupBody 0 above header body below g (List.forall_mem_nil _)
    rw [List.append_nil, replacedFrom_nil, Nat.zero_add,
      ← windowsOf_of_surrounds hsurrounds hbody g, ← hlines] at hwindow
    exact hwindow
  have hmissing : findSection? (above ++ header :: (regroupBody header body g ++ below)) kind'.name =
      none := by
    have hother := Manifest.bodyOf?_other hne.symm hsurrounds.isHeaderOf hbody hnew above below
    rw [← hlines, ← Manifest.map_body_findSection?, ← Manifest.map_body_findSection?, hs',
      Option.map_none, Option.map_eq_none_iff] at hother
    exact hother
  have hwritten : regroupSection kind g lines =
      above ++ header :: (regroupBody header body g ++ below) := by
    rw [hlines, regroupSection_of_surrounds hsurrounds hbody]
  rw [hreplaced, hkept hs', hwritten, hkept hmissing]
  exact ⟨rfl, rfl⟩

theorem windowsOf_of_missing (hs : findSection? lines kind.name = none) (g : Grouping) :
    windowsOf lines kind g = [] := by
  rw [windowsOf, hs]
  exact ite_self _

theorem exists_of_mem_windowsOf (hw : w ∈ windowsOf lines kind g) :
    ∃ s, findSection? lines kind.name = some s ∧ w.place.start = s.header + 1 := by
  rw [windowsOf] at hw
  split at hw
  · cases hw
  · obtain ⟨s, hs, rfl⟩ := List.mem_map.mp hw
    exact ⟨s, Option.mem_toList.mp hs, rfl⟩

theorem replaced_windowsOf_comm (hne : kind ≠ kind') (g g' : Grouping) :
    replaced (windowsOf lines kind g ++ windowsOf lines kind' g') lines =
      replaced (windowsOf lines kind' g' ++ windowsOf lines kind g) lines := by
  refine replaced_append_comm lines fun w hw w' hw' => ?_
  obtain ⟨s, hs, hstart⟩ := exists_of_mem_windowsOf hw
  obtain ⟨s', hs', hstart'⟩ := exists_of_mem_windowsOf hw'
  have := Manifest.header_le_last hs
  have := Manifest.header_le_last hs'
  have := Manifest.sections_apart hne hs hs'
  omega

/-- Regrouping both sections, in any order, replaces both windows at once. -/
theorem regroupSection_eq_replaced (hone : ∀ line ∈ lines, Text.IsOneLine line) (hne : kind ≠ kind')
    (g g' : Grouping) :
    regroupSection kind g (regroupSection kind' g' lines) =
      replaced (windowsOf lines kind g ++ windowsOf lines kind' g') lines := by
  cases hs : findSection? lines kind.name with
  | none =>
    rw [windowsOf_of_missing hs, List.nil_append]
    cases hs' : findSection? lines kind'.name with
    | none =>
      rw [windowsOf_of_missing hs', regroupSection, regroupSection, hs']
      dsimp only
      rw [hs]
      exact (replacedFrom_nil 0 lines).symm
    | some s' => exact (regroupSection_alone hone hne.symm hs' hs g' g).2
  | some s =>
    cases hs' : findSection? lines kind'.name with
    | none =>
      rw [windowsOf_of_missing hs', List.append_nil]
      exact (regroupSection_alone hone hne hs hs' g g').1
    | some s' =>
      rcases Nat.lt_trichotomy s.header s'.header with hlt | heq | hgt
      · exact (regroupSection_both hone hne hs hs' hlt g g').1
      · have := Manifest.header_le_last hs
        have := Manifest.header_le_last hs'
        have := Manifest.sections_apart hne hs hs'
        omega
      · rw [replaced_windowsOf_comm hne]
        exact (regroupSection_both hone hne.symm hs' hs hgt g' g).2

/-- It does not matter which section is regrouped first. -/
theorem regroupSection_comm (hone : ∀ line ∈ lines, Text.IsOneLine line) (hne : kind ≠ kind')
    (g g' : Grouping) :
    regroupSection kind g (regroupSection kind' g' lines) =
      regroupSection kind' g' (regroupSection kind g lines) := by
  rw [regroupSection_eq_replaced hone hne, regroupSection_eq_replaced hone hne.symm,
    replaced_windowsOf_comm hne]

/-! ## The lines of a preview -/

/-- Lines outside of the windows are kept. -/
theorem uncoveredFrom_sublist (index : Nat) (windows : List Window) (lines : List String) :
    (uncoveredFrom index (windows.map (·.place)) lines).Sublist (replacedFrom index windows lines) := by
  induction lines generalizing index with
  | nil => exact List.nil_sublist _
  | cons line rest ih =>
    rw [Manifest.uncoveredFrom_cons, replacedFrom, List.append_assoc]
    exact (ih (index + 1)).append_left _ |>.trans (List.sublist_append_right _ _)

/-- The lines that a preview shows under the header of a section. -/
def linesUnder (lines : List String) (kind : SectionKind) (g : Grouping) : List String :=
  g.lines (entriesOf lines (findSection? lines kind.name)) ""

/-- The sections of a preview: those for which there are groups, each with its header. -/
def shownSections (lines : List String) (dependencies dev : Grouping) : List (List String) :=
  ([(SectionKind.dependencies, dependencies), (SectionKind.devDependencies, dev)].filter
    fun p => !p.2.isEmpty).map fun p => (p.1.name ++ ":") :: linesUnder lines p.1 p.2

/-- Sections with an empty line between any two of them. -/
def printed (sections : List (List String)) : String :=
  if sections.isEmpty then "" else Text.joinLines (separate "" sections) ++ "\n"

theorem preview_eq_printed (manifest : String) (dependencies dev : Grouping) :
    preview (some manifest) dependencies dev =
      printed (shownSections (Text.splitLines manifest) dependencies dev) := by
  have hsections : sectionPreview (Text.splitLines manifest) .dependencies dependencies ++
      sectionPreview (Text.splitLines manifest) .devDependencies dev =
        shownSections (Text.splitLines manifest) dependencies dev := by
    rw [sectionPreview, sectionPreview, shownSections, List.filter_cons, List.filter_cons,
      List.filter_nil]
    cases dependencies.isEmpty <;> cases dev.isEmpty <;> rfl
  rw [← hsections]
  rfl

/-- The entries of a section that are in no group; a name that comes twice keeps its first place and
its last lines. -/
def ungrouped (lines : List String) (kind : SectionKind) (g : Grouping) :
    List (String × List String) :=
  outside (Table.ofList (blocksIn lines kind)) g

/-- The lines of entries with an empty line behind them, if there are any. -/
def closed (blocks : List (String × List String)) : List String :=
  if blocks.isEmpty then [] else blocks.flatMap (·.2) ++ [""]

theorem flatMap_isEmpty_ungrouped (lines : List String) (kind : SectionKind) (g : Grouping) :
    ((ungrouped lines kind g).flatMap (·.2)).isEmpty = (ungrouped lines kind g).isEmpty := by
  cases hblocks : ungrouped lines kind g with
  | nil => rfl
  | cons e rest =>
    have hmem : e ∈ ungrouped lines kind g := by
      rw [hblocks]
      exact List.mem_cons_self
    obtain ⟨entry, hentry, rfl⟩ :=
      List.mem_map.mp (Table.mem_of_mem_ofList (List.mem_filter.mp hmem).1)
    rw [Manifest.entriesIn] at hentry
    cases hs : findSection? lines kind.name with
    | none =>
      rw [hs] at hentry
      cases hentry
    | some s =>
      rw [hs] at hentry
      obtain ⟨line, more, hlines, -⟩ := head?_block hentry
      rw [List.flatMap_cons, hlines]
      rfl

theorem not_endsWith_return {manifest line : String} (hreturn : '\r' ∉ manifest.toList)
    (hline : line ∈ Text.splitLines manifest) : Text.endsWith line "\r" = false := by
  rw [← Bool.not_eq_true, Text.endsWith, List.isSuffixOf_iff_suffix]
  intro hends
  exact hreturn (Text.mem_of_mem_splitLines hline (hends.subset (by decide)))

/-- Without carriage returns a section is written as a preview shows it, behind its entries that are
in no group. -/
theorem newBody_eq {manifest : String} (hreturn : '\r' ∉ manifest.toList)
    (hs : findSection? (Text.splitLines manifest) kind.name = some s) (g : Grouping) :
    newBody (ownLines s (Text.splitLines manifest)) g =
      closed (ungrouped (Text.splitLines manifest) kind g) ++
        linesUnder (Text.splitLines manifest) kind g := by
  have hheader : Text.endsWith ((Text.splitLines manifest)[s.header]?.getD "") "\r" = false := by
    obtain ⟨line, hline, -⟩ := Manifest.header_of_findSection? hs
    rw [hline]
    exact not_endsWith_return hreturn (List.mem_of_getElem? hline)
  have hungrouped : outside (entriesOf (Text.splitLines manifest) (some s)).blocks g =
      ungrouped (Text.splitLines manifest) kind g := by
    rw [ungrouped, blocksIn, Manifest.entriesIn, hs]
    rfl
  obtain ⟨above, header, below, hsurrounds, hbody, hlines, -⟩ := Manifest.exists_surrounds hs
  have hfound := hsurrounds.findSection?_eq hbody
  rw [← hlines, hs, Option.some.injEq] at hfound
  have hwritten : newBody (ownLines s (Text.splitLines manifest)) g =
      sectionBody (Text.splitLines manifest) s g := by
    generalize s.body (Text.splitLines manifest) = body at hfound hlines
    rw [hfound, hlines, ownLines_eq, sectionBody_eq]
  rw [hwritten, sectionBody_eq_written, hheader, written, hungrouped, flatMap_isEmpty_ungrouped,
    closed, linesUnder, hs]
  rfl

/-- Regrouping replaces two windows of a manifest at once, whatever the order of the sections, and
keeps all other lines. Without carriage returns the lines that come in are the entries of the
section that are in no group, and then what a preview shows under its header. -/
theorem regroup_windows (manifest : String) (dependencies dev : Grouping) :
    let lines := Text.splitLines manifest
    let windows := windowsOf lines .dependencies dependencies ++ windowsOf lines .devDependencies dev
    regroup manifest dependencies dev = Text.joinLines (replaced windows lines) ∧
    regroupSection .devDependencies dev (regroupSection .dependencies dependencies lines) =
      replaced windows lines ∧
    (Manifest.uncovered (windows.map (·.place)) lines).Sublist (replaced windows lines) ∧
    preview (some manifest) dependencies dev = printed (shownSections lines dependencies dev) ∧
    ('\r' ∉ manifest.toList → ∀ kind s g, findSection? lines kind.name = some s →
      newBody (ownLines s lines) g = closed (ungrouped lines kind g) ++ linesUnder lines kind g) := by
  intro lines windows
  have hone : ∀ line ∈ lines, Text.IsOneLine line := fun line => Text.isOneLine_of_mem_splitLines
  have hkinds : SectionKind.dependencies ≠ .devDependencies := by decide
  have hboth := regroupSection_eq_replaced hone hkinds dependencies dev
  exact ⟨congrArg Text.joinLines hboth,
    (regroupSection_comm hone hkinds.symm dev dependencies).trans hboth,
    uncoveredFrom_sublist 0 windows lines, preview_eq_printed manifest dependencies dev,
    fun hreturn kind s g hs => newBody_eq hreturn hs g⟩

/-- The section that is written first stands in front of the other one. -/
def bothSections : String :=
  "dev_dependencies:\n  lints: 1\n  test: 2\n# end\ndependencies:\n  sdk:\n    x: y\n  dio: 3\n"

def bothLines : List String :=
  ["dev_dependencies:", "  lints: 1", "  test: 2", "# end", "dependencies:", "  sdk:", "    x: y",
    "  dio: 3", ""]

theorem splitLines_bothSections : Text.splitLines bothSections = bothLines :=
  Text.splitLines_of_eq_ofList rfl rfl

def oneGroup (category name : String) : Grouping :=
  ⟨[(category, [findingOf name "1"])], [category]⟩

theorem regroup_windows_both_sections :
    '\r' ∉ bothSections.toList ∧
    regroup bothSections (oneGroup "Networking" "dio") (oneGroup "Testing" "test") =
      "dev_dependencies:\n  lints: 1\n\n  # Testing\n  test: 2\n# end\ndependencies:\n" ++
        "  sdk:\n    x: y\n\n  # Networking\n  dio: 3\n" ∧
    preview (some bothSections) (oneGroup "Networking" "dio") (oneGroup "Testing" "test") =
      "dependencies:\n  # Networking\n  dio: 3\n\ndev_dependencies:\n  # Testing\n  test: 2\n" ∧
    newBody (ownLines ⟨4, 8⟩ (Text.splitLines bothSections)) (oneGroup "Networking" "dio") =
      ["  sdk:", "    x: y", ""] ++ ["  # Networking", "  dio: 3"] := by
  have hreturn : '\r' ∉ bothSections.toList := by
    rw [Text.toList_of_eq_ofList (rfl : bothSections = String.ofList _)]
    decide
  have hs : findSection? (Text.splitLines bothSections) SectionKind.dependencies.name =
      some ⟨4, 8⟩ := by
    rw [splitLines_bothSections]
    decide
  obtain ⟨hregroup, -, -, hpreview, hbodies⟩ := regroup_windows bothSections
    (oneGroup "Networking" "dio") (oneGroup "Testing" "test")
  have hbody := hbodies hreturn .dependencies ⟨4, 8⟩ (oneGroup "Networking" "dio") hs
  rw [splitLines_bothSections] at hregroup hpreview hbody
  have hlines : replaced (windowsOf bothLines .dependencies (oneGroup "Networking" "dio") ++
      windowsOf bothLines .devDependencies (oneGroup "Testing" "test")) bothLines =
        ["dev_dependencies:", "  lints: 1", "", "  # Testing", "  test: 2", "# end",
          "dependencies:", "  sdk:", "    x: y", "", "  # Networking", "  dio: 3", ""] := by
    decide
  have hsections : shownSections bothLines (oneGroup "Networking" "dio") (oneGroup "Testing" "test") =
      [["dependencies:", "  # Networking", "  dio: 3"],
        ["dev_dependencies:", "  # Testing", "  test: 2"]] := by
    decide
  have hshown : Text.joinLines (separate "" [["dependencies:", "  # Networking", "  dio: 3"],
      ["dev_dependencies:", "  # Testing", "  test: 2"]]) =
        "dependencies:\n  # Networking\n  dio: 3\n\ndev_dependencies:\n  # Testing\n  test: 2" :=
    Text.joinLines_of_eq_ofList rfl rfl
  refine ⟨hreturn, ?_, ?_, ?_⟩
  · rw [hregroup, hlines]
    exact Text.joinLines_of_eq_ofList (Text.append_eq_ofList rfl rfl) rfl
  · rw [hpreview, hsections, printed, hshown, if_neg (by decide)]
    decide
  · rw [splitLines_bothSections, hbody]
    decide

end PubspecTidy.Grouping
