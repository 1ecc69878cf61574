import PubspecTidy.Proofs.Manifest.Blocks

/-!
# What a move does to the blocks of both sections

Main statement: a move takes the first entry of a package off the list of its section, with the whole
of its block. It comes into the other section as an entry with just that block, before the first
entry with a greater name, and every other entry keeps its lines, exactly where it fits.
-/
namespace PubspecTidy.Manifest.Editor

variable {e e' e₁ : Editor} {kind source target : SectionKind} {s : Section} {name line : String}
  {rest block : List String}

/-! ## The blocks of a section -/

/-- The entries of a section, each with the lines of its block. -/
def blocks (e : Editor) (kind : SectionKind) : List (String × List String) :=
  (e.sectionAt kind).elim [] fun s =>
    (s.entries e.lines).map fun entry => (entry.name, entry.extent.lines e.lines)

/-- The blocks of a section are those of its body. -/
theorem blocks_eq (h : e.Tracked) (kind : SectionKind) :
    e.blocks kind = ((bodyOf? kind.name e.lines).map (blocksFrom none)).getD [] := by
  rw [blocks, h kind, ← map_body_findSection?]
  cases findSection? e.lines kind.name with
  | none => rfl
  | some s => exact map_entries s e.lines

theorem blocks_eq_of_body {body : List String} (h : e.Tracked)
    (hbody : bodyOf? kind.name e.lines = some body) : e.blocks kind = blocksFrom none body := by
  rw [blocks_eq h, hbody]
  rfl

theorem bodyOf?_eq (h : e.Tracked) (hs : e.sectionAt kind = some s) :
    bodyOf? kind.name e.lines = some (s.body e.lines) := by
  rw [← map_body_findSection?, ← h kind, hs]
  rfl

/-- The blocks with one more, before the first whose name is greater. -/
def insertBlock (name : String) (block : List String) (all : List (String × List String)) :
    List (String × List String) :=
  all.takeWhile (fun b => !decide (name < b.1)) ++
    (name, block) :: all.dropWhile fun b => !decide (name < b.1)

theorem insertBlock_append {before after : List (String × List String)}
    (hbefore : ∀ n ∈ before.map Prod.fst, ¬ name < n)
    (hafter : ∀ n ∈ (after.map Prod.fst).head?, name < n) (block : List String) :
    insertBlock name block (before ++ after) = before ++ (name, block) :: after := by
  have hall : ∀ b ∈ before, (!decide (name < b.1)) = true := fun b hb => by
    simpa using hbefore b.1 (List.mem_map_of_mem hb)
  have hnone : after.takeWhile (fun b => !decide (name < b.1)) = [] ∧
      after.dropWhile (fun b => !decide (name < b.1)) = after := by
    cases after with
    | nil => exact ⟨rfl, rfl⟩
    | cons b after =>
      have hb : name < b.1 := hafter b.1 rfl
      constructor
      · rw [List.takeWhile_cons_of_neg (by simpa using hb)]
      · rw [List.dropWhile_cons_of_neg (by simpa using hb)]
  rw [insertBlock, List.takeWhile_append_of_pos hall, List.dropWhile_append_of_pos hall, hnone.1,
    hnone.2, List.append_nil]

/-! ## A cut -/

/-- A cut takes out the first entry of a package with the whole of its block; all others stay as they
were. -/
theorem blocks_cut (h : e.Tracked) (hcut : e.cut? kind name = some (block, e₁)) :
    ∃ line rest, block = line :: rest ∧ IsBlock name line rest ∧
      openLines (indentation line) rest = rest.length ∧
      (e.blocks kind).find? (·.1 == name) = some (name, line :: rest) ∧
      ∀ kind', e₁.blocks kind' =
        if kind' = kind then (e.blocks kind).eraseP (·.1 == name) else e.blocks kind' := by
  have htracked := (h.cut hcut).1
  obtain ⟨x, hx, hcut⟩ := Option.map_eq_some_iff.mp hcut
  cases hcut
  obtain ⟨s, hs, hlocate⟩ := Option.bind_eq_some_iff.mp hx
  have hfound := (h kind).symm.trans hs
  obtain ⟨before, line, rest, after, hbody, hstands, hfirst, rfl⟩ := exists_of_locate? hlocate
  have hold : e.blocks kind = blocksFrom none before ++ (name, line :: rest) ::
      blocksFrom none after := by
    rw [blocks_eq_of_body h (bodyOf?_eq h hs), hbody, hstands.blocksFrom_eq]
  have hothers : ∀ b ∈ blocksFrom none before, ¬ (b.1 == name) = true := by
    intro b hb heq
    rw [← map_fst_blocksFrom] at hfirst
    exact hfirst (eq_of_beq heq ▸ List.mem_map_of_mem hb)
  refine ⟨line, rest, lines_of_body hfound hbody, hstands.isBlock, hstands.whole, ?_,
    fun kind' => ?_⟩
  · rw [hold, List.find?_append, List.find?_eq_none.mpr hothers, Option.none_or,
      List.find?_cons_of_pos (by simp)]
  · have hbodies := bodyOf?_replace hfound hbody noHeader_nil kind'
    rw [List.append_nil, List.append_nil] at hbodies
    rw [blocks_eq htracked]
    dsimp only [delete]
    rw [hbodies]
    split
    · rename_i hkind
      rw [Option.map_some, Option.getD_some, hstands.isPlace_without.blocksFrom_append, hold,
        List.eraseP_append_right _ hothers, List.eraseP_cons_of_pos (by simp)]
    · exact (blocks_eq h kind').symm

/-! ## A section that is opened -/

/-- The editor with a section, which is opened behind the entries of another one if it is missing. -/
def withSection (e : Editor) (target source : SectionKind) : Editor :=
  if (e.sectionAt target).isSome then e else e.createSection target (e.sectionAt source)

theorem move_eq (hcut : e.cut? source name = some (block, e₁)) (target : SectionKind) :
    e.move name source target = (true, (e₁.withSection target source).paste target name block) := by
  rw [move, hcut]
  rfl

/-- Opening a section changes no block. -/
theorem blocks_withSection (h : e.Tracked) (hend : e.HasLineEnd) (hne : target ≠ source)
    (hs : e.sectionAt source = some s) :
    (e.withSection target source).Tracked ∧
      (∃ t, (e.withSection target source).sectionAt target = some t) ∧
      ∀ kind, (e.withSection target source).blocks kind = e.blocks kind := by
  unfold withSection
  split
  · rename_i hsome
    exact ⟨h, Option.isSome_iff_exists.mp hsome, fun _ => rfl⟩
  · rename_i hmissing
    have ht : e.sectionAt target = none := by simpa using hmissing
    have htracked : (e.createSection target (some s)).Tracked := tracked_writeHeader _ _ _
    obtain ⟨before, after, hbody, hplace, hafter, hsource, htarget⟩ :=
      bodyOf?_createSection h hend hs ht
    have hblank : isBlankLine e.lineEnd = true := by
      rcases hend with hend | hend <;> rw [hend] <;> decide
    have hnone : blocksFrom none after = [] := by
      rw [← List.map_eq_nil_iff, map_fst_blocksFrom, hafter]
    rw [hs]
    refine ⟨htracked, Option.isSome_iff_exists.mp (sectionAt_createSection hend target (some s)),
      fun kind => ?_⟩
    by_cases hkind : kind = source
    · have hclosed : IsPlace none before [e.lineEnd] := fun n _ =>
        shallow_cons (.inl hblank) shallow_nil
      have hempty : blocksFrom none [e.lineEnd] = [] := by
        rw [blocksFrom, nameAt?_of_isBlankLine hblank]
        rfl
      rw [hkind, blocks_eq_of_body htracked hsource, blocks_eq_of_body h (bodyOf?_eq h hs), hbody,
        hclosed.blocksFrom_append, hplace.blocksFrom_append, hempty, hnone]
    · obtain rfl : kind = target := by
        cases kind <;> cases target <;> cases source <;> simp_all
      rw [blocks_eq_of_body htracked htarget, hnone, blocks, ht]
      rfl

/-! ## A block that is put in -/

/-- A line fits at the place of a package in a section: it does not go on with the block that is
open there, and nothing behind it goes on with its own. -/
def FitsAt (e : Editor) (s : Section) (name line : String) : Prop :=
  goesOn (openAfterAll none ((s.body e.lines).take (e.insertionPlace s name - (s.header + 1))))
      line = false ∧
    Shallow (indentation line)
      ((s.body e.lines).drop (e.insertionPlace s name - (s.header + 1)))

/-- A block that is put in is an entry of its own and leaves the others as they were just where it
fits. -/
theorem blocks_paste (h : e.Tracked) (hs : e.sectionAt kind = some s)
    (hblock : IsBlock name line rest) (hrest : openLines (indentation line) rest = rest.length) :
    (∀ kind' ≠ kind, (e.paste kind name (line :: rest)).blocks kind' = e.blocks kind') ∧
      ((e.paste kind name (line :: rest)).blocks kind =
          insertBlock name (line :: rest) (e.blocks kind) ↔ e.FitsAt s name line) := by
  have htracked := h.paste kind name hblock.noHeader
  obtain ⟨before, after, hbody, hplace, hat, hless, hgreater⟩ := exists_place e s name
  have hbodies (kind') := bodyOf?_paste h hs hblock.noHeader kind' hbody hat
  constructor
  · intro kind' hne
    rw [blocks_eq htracked, hbodies kind', if_neg hne, blocks_eq h]
  · have hdistance : e.insertionPlace s name - (s.header + 1) = before.length := by omega
    have hnew : (e.paste kind name (line :: rest)).blocks kind =
        blocksFrom none (before ++ (line :: rest) ++ after) :=
      blocks_eq_of_body htracked ((hbodies kind).trans (if_pos rfl))
    have hold : insertBlock name (line :: rest) (e.blocks kind) =
        blocksFrom none before ++ (name, line :: rest) :: blocksFrom none after := by
      rw [blocks_eq_of_body h (bodyOf?_eq h hs), hbody, hplace.blocksFrom_append]
      rw [← map_fst_blocksFrom] at hless hgreater
      exact insertBlock_append hless hgreater _
    rw [hnew, hold, hblock.blocksFrom_insert_iff hrest hplace, FitsAt, hdistance, hbody,
      List.take_left, List.drop_left]

/-! ## Moves -/

theorem lineEnd_removeFromNamed (e : Editor) (sectionName name : String) :
    (e.removeFromNamed sectionName name).2.lineEnd = e.lineEnd := by
  unfold removeFromNamed
  split
  · exact lineEnd_removeFrom e _ name
  · rfl

theorem lineEnd_moveNamed (e : Editor) (name source target : String) :
    (e.moveNamed name source target).2.lineEnd = e.lineEnd := by
  unfold moveNamed
  split
  · rfl
  split
  · exact lineEnd_move e name _ _
  split
  · rfl
  · rename_i hcut
    obtain ⟨_, _, -, -, -, -, rfl⟩ := cut?_eq_some hcut
    rfl

theorem lineEnd_createNamed (e : Editor) (name : String) (after : Option Section) :
    (e.createNamed name after).2.lineEnd = e.lineEnd := by
  unfold createNamed
  dsimp only
  split <;> rfl

theorem lineEnd_act (e : Editor) (operation : Operation) :
    (e.act operation).lineEnd = e.lineEnd := by
  cases operation with
  | remove name => exact (lineEnd_removeFrom _ _ _).trans (lineEnd_removeFrom _ _ _)
  | removeFrom sectionName name => exact lineEnd_removeFromNamed e sectionName name
  | move name source target => exact lineEnd_moveNamed e name source target
  | create sectionName after => exact lineEnd_createNamed e sectionName after
  | apply changes => exact lineEnd_apply e changes

theorem hasLineEnd_run (h : e.HasLineEnd) (operations : List Operation) :
    (e.run operations).HasLineEnd := by
  induction operations generalizing e with
  | nil => exact h
  | cons operation operations ih =>
    exact ih (by rwa [HasLineEnd, lineEnd_act])

/-- Whatever the lines, and whatever was done with them: a move takes the first entry of a package,
with the whole of its block, off the list of its section and leaves the rest of the list as it was.
The other section then has this entry, with just this block, in its place by name, and all its own
as they were, exactly where the block fits. -/
theorem blocks_move (lines : List String) (operations : List Operation) (hne : target ≠ source)
    (hmove : ((ofLines lines).run operations).move name source target = (true, e')) :
    let e := (ofLines lines).run operations
    ∃ line rest e₁ s, e.cut? source name = some (line :: rest, e₁) ∧
      (e₁.withSection target source).sectionAt target = some s ∧
      (e.blocks source).find? (·.1 == name) = some (name, line :: rest) ∧
      e'.blocks source = (e.blocks source).eraseP (·.1 == name) ∧
      (e'.blocks target = insertBlock name (line :: rest) (e.blocks target) ↔
        (e₁.withSection target source).FitsAt s name line) := by
  intro e
  have htracked : e.Tracked := (tracked_ofLines lines).run operations
  have hend : e.HasLineEnd := hasLineEnd_run (hasLineEnd_ofLines lines) operations
  cases hcut : e.cut? source name with
  | none =>
    have hnone : e.move name source target = (false, e) := by rw [move, hcut]
    cases hnone.symm.trans hmove
  | some found =>
    obtain ⟨block, e₁⟩ := found
    obtain ⟨line, rest, rfl, hblock, hrest, hfirst, hblocks⟩ := blocks_cut htracked hcut
    have htracked₁ := (htracked.cut hcut).1
    obtain ⟨s₁, hs₁, hend₁⟩ : ∃ s₁, e₁.sectionAt source = some s₁ ∧ e₁.HasLineEnd := by
      obtain ⟨s, entry, hs, -, -, -, rfl⟩ := cut?_eq_some hcut
      exact ⟨_, by rw [sectionAt_delete, hs]; rfl, hend⟩
    obtain ⟨hopened, ⟨s, hs⟩, hsame⟩ := blocks_withSection htracked₁ hend₁ hne hs₁
    obtain ⟨hothers, hfits⟩ := blocks_paste hopened hs hblock hrest
    cases (move_eq hcut target).symm.trans hmove
    refine ⟨line, rest, e₁, s, rfl, hs, hfirst, ?_, ?_⟩
    · rw [hothers source hne.symm, hsame, hblocks, if_pos rfl]
    · rw [hsame, hblocks, if_neg hne] at hfits
      exact hfits

/-! ### Blocks that fit and blocks that do not -/

def evenLines : List String :=
  ["dependencies:", "  http: 1", "  test: 2", "dev_dependencies:", "  lints: 3", "  zed: 4", ""]

/-- The editor after `test` became a development dependency. -/
def evenMoved : Editor := ((ofLines evenLines).move "test" .dependencies .devDependencies).2

theorem blocks_move_even :
    SectionKind.devDependencies ≠ .dependencies ∧
    ((ofLines evenLines).run []).move "test" .dependencies .devDependencies = (true, evenMoved) ∧
    evenMoved.blocks .dependencies = [("http", ["  http: 1"])] ∧
    evenMoved.blocks .devDependencies =
      [("lints", ["  lints: 3"]), ("test", ["  test: 2"]), ("zed", ["  zed: 4"])] := by
  have hmove : ((ofLines evenLines).run []).move "test" .dependencies .devDependencies =
      (true, evenMoved) := rfl
  have hstart : (ofLines evenLines).run [] = ofLines evenLines := rfl
  obtain ⟨line, rest, e₁, s, hcut, hs, hfirst, hsource, hfits⟩ :=
    blocks_move evenLines [] (by decide) hmove
  rw [hstart] at hcut hfirst hsource hfits
  have hcut' : (ofLines evenLines).cut? .dependencies "test" =
      some (["  test: 2"], (ofLines evenLines).delete ⟨2, 3⟩ .dependencies) := rfl
  rw [hcut'] at hcut
  cases hcut
  have hs' : (((ofLines evenLines).delete ⟨2, 3⟩ .dependencies).withSection .devDependencies
      .dependencies).sectionAt .devDependencies = some ⟨2, 5⟩ := rfl
  rw [hs'] at hs
  cases hs
  have hsources : ((ofLines evenLines).blocks .dependencies).eraseP (·.1 == "test") =
      [("http", ["  http: 1"])] := by decide
  have htargets : insertBlock "test" ["  test: 2"] ((ofLines evenLines).blocks .devDependencies) =
      [("lints", ["  lints: 3"]), ("test", ["  test: 2"]), ("zed", ["  zed: 4"])] := by
    decide
  rw [hsources] at hsource
  rw [htargets] at hfits
  refine ⟨by decide, hmove, hsource, hfits.mpr ⟨by decide, ?_⟩⟩
  exact shallow_cons (.inr (by decide)) shallow_blank

/-- The entries of the second section are deeper than those of the first. -/
def unevenLines : List String :=
  ["dependencies:", "  http: 1", "  test: 2", "dev_dependencies:", "# tools", "    zed: 3", ""]

def unevenMoved : Editor := ((ofLines unevenLines).move "test" .dependencies .devDependencies).2

/-- A block that is put before a deeper entry takes it in. -/
theorem not_all_moved :
    ¬ ∀ (lines : List String) (name : String) (source target : SectionKind) (e' : Editor),
      target ≠ source → (ofLines lines).move name source target = (true, e') →
      ∃ block, ((ofLines lines).blocks source).find? (·.1 == name) = some (name, block) ∧
        e'.blocks source = ((ofLines lines).blocks source).eraseP (·.1 == name) ∧
        e'.blocks target = insertBlock name block ((ofLines lines).blocks target) := by
  intro h
  have hmove : (ofLines unevenLines).move "test" .dependencies .devDependencies =
      (true, unevenMoved) := rfl
  obtain ⟨block, -, -, htarget⟩ := h unevenLines "test" .dependencies .devDependencies unevenMoved
    (by decide) hmove
  have hold : (ofLines unevenLines).blocks .devDependencies = [("zed", ["    zed: 3"])] := by
    decide
  have hnew : unevenMoved.blocks .devDependencies = [("test", ["  test: 2", "    zed: 3"])] := by
    decide
  have hgreater : (!decide ("test" < "zed")) = false := by decide
  have hinserted : insertBlock "test" block [("zed", ["    zed: 3"])] =
      [("test", block), ("zed", ["    zed: 3"])] := by
    rw [insertBlock, List.takeWhile_cons_of_neg (by rw [hgreater]; decide),
      List.dropWhile_cons_of_neg (by rw [hgreater]; decide)]
    rfl
  rw [hold, hnew, hinserted] at htarget
  cases htarget

end PubspecTidy.Manifest.Editor
