import PubspecTidy.Proofs.Manifest.Alike

/-!
# Line ends

A text is cut at line feeds, so a carriage return in front of one travels with its line, and the
last line, which no line feed ends, has none. Main statement: with a carriage return in front of
every line feed the same changes take effect, and they leave the same lines, each with a carriage
return but for the one that was the last. So the line ends stay consistent where that line is still
the last one, as it is in every text that ends in a line feed.
-/
namespace PubspecTidy.Manifest

/-! ## The last member of a list -/

namespace Splice

variable {α β : Type} {header : SectionKind → List α} {header' : SectionKind → List β}

theorem getLast?_without {x : Extent} {all : List α} (h : x.stop < all.length) :
    (without x all).getLast? = all.getLast? := by
  rw [without, List.getLast?_append, List.getLast?_drop, if_neg (Nat.not_le.mpr h)]
  cases all with
  | nil => simp at h
  | cons first rest => rw [List.getLast?_cons, Option.some_or]

theorem getLast?_putIn {place : Nat} {block all : List α} (h : place < all.length) :
    (putIn place block all).getLast? = all.getLast? := by
  rw [putIn, List.getLast?_append, List.getLast?_drop, if_neg (Nat.not_le.mpr h)]
  cases all with
  | nil => simp at h
  | cons first rest => rw [List.getLast?_cons, Option.some_or]

/-- Splices act alike on lists of one length, so they give lists of one length. -/
theorem length_run (hheader : ∀ kind, (header kind).length = (header' kind).length)
    (splices : List Splice) {all : List α} {all' : List β} (h : all.length = all'.length) :
    (run header splices all).length = (run header' splices all').length := by
  have hmap := run_map (fun _ => ()) header splices all
  have hmap' := run_map (fun _ => ()) header' splices all'
  have hheaders : (fun kind => (header kind).map fun _ => ()) =
      fun kind => (header' kind).map fun _ => () := by
    funext kind
    rw [List.map_const', List.map_const', hheader]
  rw [List.map_const', hheaders, h, ← List.map_const', hmap'] at hmap
  simpa using (congrArg List.length hmap).symm

theorem forall_mem_act {p : α → Prop} (hheader : ∀ kind, ∀ a ∈ header kind, p a) {all : List α}
    (h : ∀ a ∈ all, p a) (s : Splice) : ∀ a ∈ s.act header all, p a := by
  have hput {place : Nat} {block all : List α} (hblock : ∀ a ∈ block, p a) (h : ∀ a ∈ all, p a) :
      ∀ a ∈ putIn place block all, p a := fun a ha =>
    (List.mem_append.mp ((putIn_perm place block all).mem_iff.mp ha)).elim (hblock a) (h a)
  have hwithout (x : Extent) : ∀ a ∈ without x all, p a := fun a ha =>
    (List.mem_append.mp ha).elim (fun ha => h a (List.mem_of_mem_take ha))
      (fun ha => h a (List.mem_of_mem_drop ha))
  cases s with
  | cut x => exact hwithout x
  | carry x opened place =>
    refine hput (fun a ha => h a (List.mem_of_mem_drop (List.mem_of_mem_take ha))) ?_
    cases opened with
    | none => exact hwithout x
    | some o => exact hput (hheader o.1) (hwithout x)

/-- Every member of the result was one of the list or of a header. -/
theorem forall_mem_run {p : α → Prop} (hheader : ∀ kind, ∀ a ∈ header kind, p a) {all : List α}
    (h : ∀ a ∈ all, p a) (splices : List Splice) : ∀ a ∈ run header splices all, p a := by
  induction splices generalizing all with
  | nil => exact h
  | cons s rest ih => exact ih (forall_mem_act hheader h s)

theorem nodup_filterMap_act {g : α → Option β} (hheader : ∀ kind, (header kind).filterMap g = [])
    {s : Splice} (hs : s.extent.start ≤ s.extent.stop) {all : List α}
    (h : (all.filterMap g).Nodup) : ((s.act header all).filterMap g).Nodup := by
  cases s with
  | cut x =>
    have hrest : (without x all).Sublist all := by
      have hall := without_append_within x hs all
      rw [List.append_assoc] at hall
      have hpart := (List.sublist_append_right (within x all) (all.drop x.stop)).append_left
        (all.take x.start)
      rwa [hall] at hpart
    exact h.sublist (hrest.filterMap g)
  | carry x opened place =>
    have hcarry : ((carry x opened place).act header all).Perm
        (all ++ (carry x opened place).opened?.toList.flatMap header) := act_perm rfl hs all
    have hperm := hcarry.filterMap g
    have hnew : ((carry x opened place).opened?.toList.flatMap header).filterMap g = [] := by
      cases opened with
      | none => rfl
      | some o => simpa [opened?] using hheader o.1
    rw [List.filterMap_append, hnew, List.append_nil] at hperm
    exact hperm.nodup_iff.mpr h

theorem nodup_filterMap_run {g : α → Option β} (hheader : ∀ kind, (header kind).filterMap g = [])
    {splices : List Splice} (hs : ∀ s ∈ splices, s.extent.start ≤ s.extent.stop) {all : List α}
    (h : (all.filterMap g).Nodup) : ((run header splices all).filterMap g).Nodup := by
  induction splices generalizing all with
  | nil => exact h
  | cons s rest ih =>
    exact ih (fun s' hs' => hs s' (List.mem_cons_of_mem s hs'))
      (nodup_filterMap_act hheader (hs s List.mem_cons_self) h)

end Splice

/-! ## An empty line at the end -/

variable {lines : List String} {s : Section} {kind : SectionKind} {name : String}

/-- An empty line at the end belongs to no block. -/
theorem openLines_concat_lt (base : Nat) (lines : List String) :
    openLines base (lines ++ [""]) < (lines ++ [""]).length := by
  induction lines with
  | nil =>
    rw [List.nil_append, openLines_of_shallow shallow_blank]
    exact Nat.one_pos
  | cons line rest ih =>
    rw [List.cons_append, List.length_cons]
    rcases openLines_cons base line (rest ++ [""]) with hnone | hopen <;> omega

/-- Every entry ends before an empty line at the end. -/
theorem stop_lt_length (h : lines.getLast? = some "") {entry : Entry}
    (hentry : entry ∈ s.entries lines) : entry.extent.stop < lines.length := by
  obtain ⟨before, line, rest, after, rfl, hline, -, hstart, hstop, -, -⟩ :=
    Section.mem_entries hentry
  have hle := openLines_le (indentation line) rest
  simp only [List.length_append, List.length_cons]
  rcases List.eq_nil_or_concat' after with rfl | ⟨after, last, rfl⟩
  · rcases List.eq_nil_or_concat' rest with rfl | ⟨rest, last, rfl⟩
    · have hempty : line = "" := by simpa using h
      rw [hempty] at hline
      exact absurd hline (by decide)
    · have hempty : last = "" := by
        rw [List.append_nil, ← List.cons_append, ← List.append_assoc, List.getLast?_concat] at h
        exact Option.some.inj h
      have hlt := openLines_concat_lt (indentation line) rest
      rw [hempty] at hstop
      simp only [List.length_append, List.length_singleton] at hlt ⊢
      omega
  · simp only [List.length_append, List.length_singleton]
    omega

/-- The header of a section is not the empty line at the end. -/
theorem entriesEnd_lt_length (h : lines.getLast? = some "")
    (hs : findSection? lines kind.name = some s) : s.entriesEnd lines < lines.length := by
  unfold Section.entriesEnd
  split
  · rename_i entry hlast
    exact stop_lt_length h (List.mem_of_getLast? hlast)
  · obtain ⟨before, line, after, rfl, hline, hheader, -⟩ := findSection?_eq_some hs
    rcases List.eq_nil_or_concat' after with rfl | ⟨after, last, rfl⟩
    · have hempty : line = "" := by simpa using h
      rw [hempty] at hline
      cases kind <;> exact absurd hline (by decide)
    · simp only [List.length_append, List.length_cons]
      omega

namespace Editor

variable {e : Editor} {α : Type} {header : SectionKind → List α} {all : List α}

theorem locate?_stop_lt (hlast : e.lines.getLast? = some "") {x : Extent}
    (hx : e.locate? kind name = some x) : x.stop < e.lines.length := by
  obtain ⟨s, -, hlocate⟩ := Option.bind_eq_some_iff.mp hx
  obtain ⟨entry, hmem, -, rfl⟩ := Section.mem_entries_of_locate? hlocate
  exact stop_lt_length hlast hmem

theorem placeIn_lt (h : e.Tracked) (hlast : e.lines.getLast? = some "")
    (hs : (e.sectionAt kind).isSome = true) (name : String) :
    e.placeIn kind name < e.lines.length := by
  obtain ⟨s, hs⟩ := Option.isSome_iff_exists.mp hs
  have hfound := (h kind).symm.trans hs
  rw [placeIn, hs, Option.map_some, Option.getD_some, insertionPlace]
  split
  · rename_i entry hfind
    have hmem := List.mem_of_find?_eq_some hfind
    exact (Section.start_lt_stop hmem).trans (stop_lt_length hlast hmem)
  · exact entriesEnd_lt_length hlast hfound

theorem getLast?_cutsOf (hlast : e.lines.getLast? = some "") (kind : SectionKind) (name : String)
    (hall : all.length = e.lines.length) :
    (Splice.run header (e.cutsOf kind name) all).getLast? = all.getLast? := by
  unfold cutsOf
  cases hx : e.locate? kind name with
  | none => rfl
  | some x => exact Splice.getLast?_without (hall ▸ locate?_stop_lt hlast hx)

theorem getLast?_carriesOf (h : e.Tracked) (hend : e.HasLineEnd)
    (hlast : e.lines.getLast? = some "") (name : String) (source target : SectionKind)
    (hheader : ∀ kind, (header kind).length = 2) (hall : all.length = e.lines.length) :
    (Splice.run header (e.carriesOf name source target) all).getLast? = all.getLast? := by
  unfold carriesOf
  cases hx : e.locate? source name with
  | none => rfl
  | some x =>
    have hstop := locate?_stop_lt hlast hx
    have hcut : e.cut? source name = some (x.lines e.lines, e.delete x source) := by
      rw [cut?, hx, Option.map_some]
    have htracked := (h.cut hcut).1
    have hrest : (e.delete x source).lines.getLast? = some "" :=
      (Splice.getLast?_without hstop).trans hlast
    have hleft : (Splice.without x all).getLast? = all.getLast? :=
      Splice.getLast?_without (hall ▸ hstop)
    have hlength : (Splice.without x all).length = (e.delete x source).lines.length := by
      unfold Splice.without delete
      simp only [List.length_append, List.length_take, List.length_drop, hall]
    obtain ⟨s, hs⟩ : ∃ s, (e.delete x source).sectionAt source = some s := by
      obtain ⟨s, hs, -⟩ := Option.bind_eq_some_iff.mp hx
      exact ⟨_, by rw [sectionAt_delete, hs, Option.map_some]⟩
    dsimp only
    split
    · rename_i htarget
      have hplace := placeIn_lt htracked hrest htarget name
      exact (Splice.getLast?_putIn (hlength ▸ hplace)).trans hleft
    · have hplace : (e.delete x source).headerPlace (some s) < (e.delete x source).lines.length :=
        entriesEnd_lt_length hrest ((htracked source).symm.trans hs)
      rw [hs]
      have hopened := sectionAt_createSection (e := e.delete x source) hend target (some s)
      have hcreated : ((e.delete x source).createSection target (some s)).lines =
        Splice.putIn ((e.delete x source).headerPlace (some s)) (headerLines e.lineEnd target)
          (e.delete x source).lines := rfl
      have hempty : ((e.delete x source).createSection target (some s)).lines.getLast? = some "" := by
        rw [hcreated, Splice.getLast?_putIn hplace, hrest]
      have hinto := placeIn_lt (tracked_writeHeader _ _ _) hempty hopened name
      have hput : (Splice.putIn ((e.delete x source).headerPlace (some s)) (header target)
          (Splice.without x all)).length =
            ((e.delete x source).createSection target (some s)).lines.length := by
        rw [hcreated, Splice.putIn, Splice.putIn]
        simp only [List.length_append, List.length_take, List.length_drop, hlength, hheader,
          headerLines, List.length_cons, List.length_nil]
      exact (Splice.getLast?_putIn (hput ▸ hinto)).trans
        ((Splice.getLast?_putIn (hlength ▸ hplace)).trans hleft)

/-- One change leaves the empty line at the end where it is. -/
theorem getLast?_splicesOf (h : e.Tracked) (hend : e.HasLineEnd)
    (hlast : e.lines.getLast? = some "") (c : Change)
    (hheader : ∀ kind, (header kind).length = 2) (hall : all.length = e.lines.length) :
    (Splice.run header (e.splicesOf c) all).getLast? = all.getLast? := by
  obtain ⟨name, action, version⟩ := c
  cases action with
  | remove =>
    have hmiddle : (e.removeFrom .dependencies name).2.lines.getLast? = some "" := by
      rw [lines_removeFrom e .dependencies name (headerLines e.lineEnd),
        getLast?_cutsOf hlast .dependencies name rfl, hlast]
    have hlength : (Splice.run header (e.cutsOf .dependencies name) all).length =
        (e.removeFrom .dependencies name).2.lines.length := by
      rw [lines_removeFrom e .dependencies name (headerLines e.lineEnd)]
      exact Splice.length_run (fun kind => hheader kind) _ hall
    rw [splicesOf, Splice.run_append]
    exact (getLast?_cutsOf hmiddle .devDependencies name hlength).trans
      (getLast?_cutsOf hlast .dependencies name hall)
  | moveTo target => exact getLast?_carriesOf h hend hlast name target.other target hheader hall
  | removeFrom kind => exact getLast?_cutsOf hlast kind name hall

theorem getLast?_splices (h : e.Tracked) (hend : e.HasLineEnd)
    (hlast : e.lines.getLast? = some "") (changes : List Change)
    (hheader : ∀ kind, (header kind).length = 2) (hall : all.length = e.lines.length) :
    (Splice.run header (e.splices changes) all).getLast? = all.getLast? := by
  induction changes generalizing e all with
  | nil => rfl
  | cons c cs ih =>
    have hnext : (e.perform c).2.lines.getLast? = some "" := by
      rw [lines_perform hend, getLast?_splicesOf h hend hlast c (fun _ => rfl) rfl, hlast]
    have hnextEnd : (e.perform c).2.HasLineEnd := by
      rw [HasLineEnd, lineEnd_perform]
      exact hend
    have hlength : (Splice.run header (e.splicesOf c) all).length = (e.perform c).2.lines.length := by
      rw [lines_perform hend]
      exact Splice.length_run (fun kind => hheader kind) _ hall
    rw [splices, Splice.run_append, ih (h.perform c) hnextEnd hnext hlength]
    exact getLast?_splicesOf h hend hlast c hheader hall

/-! ## The origins of the lines -/

theorem start_pos_of_mem_splices {changes : List Change} {s : Splice}
    (h : s ∈ e.splices changes) : 0 < s.extent.start := by
  obtain ⟨before, kind, name, hx⟩ := exists_locate?_of_mem_splices h
  obtain ⟨s, -, hlocate⟩ := Option.bind_eq_some_iff.mp hx
  obtain ⟨entry, hmem, -, hextent⟩ := Section.mem_entries_of_locate? hlocate
  have := Section.header_lt_start hmem
  rw [← hextent]
  omega

/-- No batch cuts the first line out. -/
theorem run_splices_ne_nil {splices : List Splice} (h : ∀ s ∈ splices, 0 < s.extent.start)
    (hall : all ≠ []) : Splice.run header splices all ≠ [] := by
  induction splices generalizing all with
  | nil => exact hall
  | cons s rest ih =>
    refine ih (fun s' hs' => h s' (List.mem_cons_of_mem s hs')) fun hnil => ?_
    have hleft : Splice.without s.extent all = [] := by
      cases s with
      | cut x => exact hnil
      | carry x opened place =>
        have hput {place : Nat} {block all : List α} (h : Splice.putIn place block all = []) :
            all = [] := by
          have hperm := Splice.putIn_perm place block all
          rw [h] at hperm
          exact (List.append_eq_nil_iff.mp hperm.nil_eq.symm).2
        have hwithout := hput hnil
        cases opened with
        | none => exact hwithout
        | some o => exact hput hwithout
    have hstart := h s List.mem_cons_self
    rw [Splice.without, List.append_eq_nil_iff, List.take_eq_nil_iff] at hleft
    rcases hleft.1 with hzero | hnil
    · simp only [Splice.extent] at hstart hzero
      omega
    · exact hall hnil

theorem origins_ne_nil (h : e.lines ≠ []) (changes : List Change) : e.origins changes ≠ [] := by
  refine run_splices_ne_nil (fun s hs => start_pos_of_mem_splices hs) ?_
  rw [numbered, ne_eq, List.map_eq_nil_iff, List.range_eq_nil, List.length_eq_zero_iff]
  exact h

/-- No line comes to stand twice. -/
theorem nodup_origins (e : Editor) (changes : List Change) :
    ((e.origins changes).filterMap Origin.number?).Nodup := by
  refine Splice.nodup_filterMap_run (fun kind => ?_)
    (fun s hs => start_le_stop_of_mem_splices hs) ?_
  · simp [addedHeader, Origin.number?]
  · have hrange : e.numbered.filterMap Origin.number? = List.range e.lines.length := by
      simp [numbered, List.filterMap_map, Function.comp_def, Origin.number?]
    rw [hrange]
    exact List.nodup_range

/-! ## Carriage returns in front of the line feeds -/

/-- A line by its origin, with a carriage return if it was not the last line. -/
def Origin.returned (lines : List String) (o : Origin) : String :=
  if o.number? = some (lines.length - 1) then o.line lines else o.line lines ++ "\r"

theorem map_returned_numbered (h : e.lines ≠ []) :
    e.numbered.map (Origin.returned e.lines) = Text.returnedLines e.lines := by
  obtain ⟨before, last, hlines⟩ := (List.eq_nil_or_concat' e.lines).resolve_left h
  rw [numbered, hlines, Text.returnedLines_concat]
  refine List.ext_getElem (by simp) fun i hi _ => ?_
  have hle : i < before.length + 1 := by simpa using hi
  rcases Nat.lt_or_eq_of_le (Nat.le_of_lt_succ hle) with hlt | rfl
  · simp [Origin.returned, Origin.number?, Origin.line, hlt, Nat.ne_of_lt hlt,
      List.getElem?_append_left]
  · simp [Origin.returned, Origin.number?, Origin.line]

theorem map_returned_addedHeader (hend : e.lineEnd = "") (kind : SectionKind) :
    (e.addedHeader kind).map (Origin.returned e.lines) = headerLines "\r" kind := by
  simp [addedHeader, headerLines, Origin.returned, Origin.number?, Origin.line, hend]

theorem cutsOf_of_one_line (h : e.lines.length ≤ 1) (kind : SectionKind) (name : String) :
    e.locate? kind name = none ∧ e.cutsOf kind name = [] := by
  have hnone : e.locate? kind name = none := by
    rw [Option.eq_none_iff_forall_ne_some]
    intro x hx
    obtain ⟨s, -, hlocate⟩ := Option.bind_eq_some_iff.mp hx
    obtain ⟨entry, hmem, -, -⟩ := Section.mem_entries_of_locate? hlocate
    have := Section.header_lt_start hmem
    have := Section.start_lt_stop hmem
    have := Section.stop_le_length hmem
    omega
  rw [cutsOf, hnone]
  exact ⟨rfl, rfl⟩

theorem splicesOf_of_one_line (h : e.lines.length ≤ 1) (c : Change) : e.splicesOf c = [] := by
  unfold splicesOf
  split
  · have hsame := lines_removeFrom e .dependencies c.package (headerLines e.lineEnd)
    rw [(cutsOf_of_one_line h _ _).2] at hsame
    rw [(cutsOf_of_one_line h _ _).2, (cutsOf_of_one_line (hsame ▸ h) _ _).2, List.append_nil]
  · exact (cutsOf_of_one_line h _ _).2
  · rw [carriesOf, (cutsOf_of_one_line h _ _).1]

/-- No package stands in a text of one line. -/
theorem splices_of_one_line (hend : e.HasLineEnd) (h : e.lines.length ≤ 1)
    (changes : List Change) : e.splices changes = [] := by
  induction changes generalizing e with
  | nil => rfl
  | cons c cs ih =>
    have hsame := lines_perform hend c
    rw [splicesOf_of_one_line h c] at hsame
    have hnextEnd : (e.perform c).2.HasLineEnd := by
      rw [HasLineEnd, lineEnd_perform]
      exact hend
    rw [splices, splicesOf_of_one_line h c, List.nil_append, ih hnextEnd (hsame ▸ h)]

/-! ## Texts -/

theorem readsAs_returnedLines (lines : List String) :
    List.Forall₂ Manifest.ReadsAs lines (Text.returnedLines lines) := by
  induction lines with
  | nil => exact .nil
  | cons line rest ih =>
    cases rest with
    | nil => exact .cons (.refl line) .nil
    | cons next rest => exact .cons (.append_return line) ih

theorem endsInReturn_append_return (line : String) : endsInReturn (line ++ "\r") = true := by
  have hlist : (line ++ "\r").toList = line.toList ++ ['\r'] := String.toList_append
  rw [endsInReturn, hlist, List.getLast?_concat]
  rfl

/-- A text without a carriage return has lines that end in nothing. -/
theorem lineEnd_ofText {text : String} (h : '\r' ∉ text.toList) : (ofText text).lineEnd = "" := by
  have hnone : (Text.splitLines text).any endsInReturn = false := by
    rw [List.any_eq_false]
    intro line hline hreturn
    rw [endsInReturn, beq_iff_eq] at hreturn
    exact h (Text.mem_of_mem_splitLines hline (List.mem_of_getLast? hreturn))
  unfold ofText ofLines
  rw [hnone]
  rfl

theorem lineEnd_returnedLines {lines : List String} (h : 1 < lines.length) :
    (ofLines (Text.returnedLines lines)).lineEnd = "\r" := by
  have hsome : (Text.returnedLines lines).any endsInReturn = true := by
    rcases lines with _ | ⟨line, _ | ⟨next, rest⟩⟩
    · simp at h
    · simp at h
    · rw [Text.returnedLines, List.any_cons, endsInReturn_append_return, Bool.true_or]
  unfold ofLines
  rw [hsome]
  rfl

theorem ofText_withReturns (text : String) :
    ofText (Text.withReturns text) = ofLines (Text.returnedLines (ofText text).lines) := by
  rw [ofText, Text.splitLines_withReturns]
  rfl

/-- With a carriage return in front of every line feed, the same changes take effect and leave the
same lines, each with a carriage return but for the one that was the last. -/
theorem lines_apply_returnedLines {lines : List String} (hne : lines ≠ [])
    (hend : (ofLines lines).lineEnd = "") (changes : List Change) :
    let e := ofLines lines
    let e' := ofLines (Text.returnedLines lines)
    (e'.apply changes).1 = (e.apply changes).1 ∧
      (e'.apply changes).2.lines = (e.origins changes).map (Origin.returned lines) := by
  intro e e'
  have hreads : e.ReadsAs e' := readsAs_ofLines (readsAs_returnedLines lines) (.inl hend)
  obtain ⟨hdone, hsplices⟩ := hreads.apply changes
  have hlines : e.numbered.map (Origin.returned lines) = e'.lines := map_returned_numbered (e := e) hne
  refine ⟨hdone, ?_⟩
  rw [lines_apply (hasLineEnd_ofLines _), hsplices, origins, ← Splice.run_map, hlines]
  by_cases hone : e.lines.length ≤ 1
  · rw [splices_of_one_line (hasLineEnd_ofLines _) hone]
    rfl
  · have hheader : (fun kind => (e.addedHeader kind).map (Origin.returned lines)) =
        headerLines "\r" := funext fun kind => map_returned_addedHeader (e := e) hend kind
    have hreturn : e'.lineEnd = "\r" := lineEnd_returnedLines (Nat.not_le.mp hone)
    rw [hheader, hreturn]

theorem ne_append_return (line : String) : line ≠ line ++ "\r" := by
  intro heq
  have hlength := congrArg (fun s : String => s.toList.length) heq
  simp [String.toList_append] at hlength

/-- The lines with their carriage returns are those of a text with a carriage return in front of
every line feed just where the last line is still the last one. -/
theorem map_returned_eq_iff {lines : List String} {origins : List Origin} (hne : origins ≠ [])
    (hnodup : (origins.filterMap Origin.number?).Nodup) :
    origins.map (Origin.returned lines) = Text.returnedLines (origins.map (Origin.line lines)) ↔
      origins.getLast?.bind Origin.number? = some (lines.length - 1) := by
  obtain ⟨before, last, rfl⟩ := (List.eq_nil_or_concat' origins).resolve_left hne
  rw [List.map_append, List.map_append, List.map_singleton, List.map_singleton,
    Text.returnedLines_concat, List.getLast?_concat, Option.bind_some]
  constructor
  · intro heq
    have hlast := (List.append_inj' heq rfl).2
    rw [List.singleton_inj, Origin.returned] at hlast
    by_contra hother
    rw [if_neg hother] at hlast
    exact ne_append_return _ hlast.symm
  · intro hlast
    have hrest : before.map (Origin.returned lines) =
        (before.map (Origin.line lines)).map (· ++ "\r") := by
      rw [List.map_map]
      refine List.map_congr_left fun o ho => if_neg fun hnumber => ?_
      rw [List.filterMap_append, List.nodup_append] at hnodup
      exact hnodup.2.2 _ (List.mem_filterMap.mpr ⟨o, ho, hnumber⟩) _
        (List.mem_filterMap.mpr ⟨last, List.mem_singleton_self last, hlast⟩) rfl
    rw [hrest, Origin.returned, if_pos hlast]

/-- The lines of a text stay lines. -/
theorem isOneLine_apply (text : String) (changes : List Change) :
    ∀ line ∈ (ofText text |>.apply changes).2.lines, Text.IsOneLine line := by
  have hend : (ofText text).HasLineEnd := hasLineEnd_ofLines _
  rw [lines_apply hend]
  refine Splice.forall_mem_run (fun kind line hline => ?_)
    (fun line => Text.isOneLine_of_mem_splitLines) _
  have hone : Text.IsOneLine (ofText text).lineEnd := by
    rcases hend with hend | hend <;> rw [hend] <;> decide
  have hname : Text.IsOneLine (kind.name ++ ":") := by cases kind <;> decide
  rcases List.mem_cons.mp hline with rfl | hline
  · exact hone
  · rw [List.mem_singleton.mp hline]
    exact hname.append hone

/-- A carriage return in front of every line feed of a text without one changes nothing about what
takes effect, and it comes to stand after every line but the one that was the last. So the lines end
alike afterwards just where that line is still the last one, and in every text that ends in a line
feed. -/
theorem apply_withReturns {text : String} (h : '\r' ∉ text.toList) (changes : List Change) :
    let e := ofText text
    let e' := ofText (Text.withReturns text)
    (e'.apply changes).1 = (e.apply changes).1 ∧
    (e'.apply changes).2.lines = (e.origins changes).map (Origin.returned e.lines) ∧
    ((e'.apply changes).2.text = Text.withReturns (e.apply changes).2.text ↔
      (e.origins changes).getLast?.bind Origin.number? = some (e.lines.length - 1)) ∧
    (Text.endsWith text "\n" = true →
      (e'.apply changes).2.text = Text.withReturns (e.apply changes).2.text) := by
  intro e e'
  have hne : e.lines ≠ [] := Text.splitLines_ne_nil text
  have hsame : e' = ofLines (Text.returnedLines e.lines) := ofText_withReturns text
  obtain ⟨hdone, hlines⟩ : (e'.apply changes).1 = (e.apply changes).1 ∧
      (e'.apply changes).2.lines = (e.origins changes).map (Origin.returned e.lines) := by
    rw [hsame]
    exact lines_apply_returnedLines hne (lineEnd_ofText h) changes
  have horigins := origins_ne_nil hne changes
  have hone := isOneLine_apply text changes
  have hone' := isOneLine_apply (Text.withReturns text) changes
  have hiff : (e'.apply changes).2.text = Text.withReturns (e.apply changes).2.text ↔
      (e.origins changes).getLast?.bind Origin.number? = some (e.lines.length - 1) := by
    have hmap := map_origins (e := e) (hasLineEnd_ofLines _) changes
    have hleft : (e.apply changes).2.lines ≠ [] := by
      rw [← hmap, ne_eq, List.map_eq_nil_iff]
      exact horigins
    have hleft' : (e'.apply changes).2.lines ≠ [] := by
      rw [hlines, ne_eq, List.map_eq_nil_iff]
      exact horigins
    rw [Editor.text, Editor.text, Text.withReturns_joinLines hone,
      Text.joinLines_inj hleft' (Text.returnedLines_ne_nil hleft) hone'
        (Text.isOneLine_of_mem_returnedLines hone), hlines, ← hmap]
    exact map_returned_eq_iff horigins (nodup_origins e changes)
  refine ⟨hdone, hlines, hiff, fun hfeed => hiff.mpr ?_⟩
  have hlast : e.lines.getLast? = some "" := Text.getLast?_splitLines hfeed
  have hnumbered : e.numbered.length = e.lines.length := by
    rw [numbered, List.length_map, List.length_range]
  have hkept : (Splice.run e.addedHeader (e.splices changes) e.numbered).getLast? =
      e.numbered.getLast? :=
    getLast?_splices (tracked_ofLines _) (hasLineEnd_ofLines _) hlast changes (fun _ => rfl) hnumbered
  rw [origins, hkept, numbered, List.getLast?_map, List.getLast?_range,
    if_neg (List.length_eq_zero_iff.not.mpr hne)]
  rfl

/-- A move to the other section in a text that ends in a line feed. -/
theorem apply_withReturns_moved :
    '\r' ∉ "dependencies:\n  a: 1\n  b: 2\n".toList ∧
      (ofText (Text.withReturns "dependencies:\n  a: 1\n  b: 2\n") |>.apply
        [⟨"b", .moveTo .devDependencies, none⟩]).2.text =
          Text.withReturns "dependencies:\n  a: 1\n\ndev_dependencies:\n  b: 2\n" := by
  have hnone : '\r' ∉ "dependencies:\n  a: 1\n  b: 2\n".toList := by
    rw [Text.toList_of_eq_ofList rfl]
    decide
  have hsplit : Text.splitLines "dependencies:\n  a: 1\n  b: 2\n" =
      ["dependencies:", "  a: 1", "  b: 2", ""] := Text.splitLines_of_eq_ofList rfl rfl
  have hlines : (ofText "dependencies:\n  a: 1\n  b: 2\n" |>.apply
      [⟨"b", .moveTo .devDependencies, none⟩]).2.lines =
        ["dependencies:", "  a: 1", "", "dev_dependencies:", "  b: 2", ""] := by
    rw [ofText, hsplit]
    decide
  refine ⟨hnone, ?_⟩
  rw [(apply_withReturns hnone [⟨"b", .moveTo .devDependencies, none⟩]).2.2.2 (by decide),
    Editor.text, hlines]
  exact congrArg Text.withReturns (Text.joinLines_of_eq_ofList rfl rfl)

/-- Where the last line has no line feed and goes out, the line before it keeps its carriage
return. -/
theorem not_all_withReturns :
    ¬ ∀ (text : String) (changes : List Change), '\r' ∉ text.toList →
      (ofText (Text.withReturns text) |>.apply changes).2.text =
        Text.withReturns (ofText text |>.apply changes).2.text := by
  intro hall
  have hnone : '\r' ∉ "dependencies:\n  a: 1\n  b: 2".toList := by
    rw [Text.toList_of_eq_ofList rfl]
    decide
  have hsplit : Text.splitLines "dependencies:\n  a: 1\n  b: 2" =
      ["dependencies:", "  a: 1", "  b: 2"] := Text.splitLines_of_eq_ofList rfl rfl
  have hcut := hall "dependencies:\n  a: 1\n  b: 2" [⟨"b", .remove, none⟩] hnone
  rw [Editor.text, Editor.text, ofText, ofText, Text.splitLines_withReturns, hsplit] at hcut
  revert hcut
  decide

end Editor
end PubspecTidy.Manifest
