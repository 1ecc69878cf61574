import PubspecTidy.Proofs.Yaml.Follow

/-!
# Composing entries one behind the other

Main statements: the nodes of entries one behind the other are those of the entries, those of a
mapping below a key come under that key, and the document of a block mapping has the nodes of its
entries.
-/
namespace PubspecTidy.Yaml.Compose

variable {p : Site} {k : Nat} {a a' w : Composer} {fuel fuel' : Nat}

/-! ## Entries in their place -/

theorem length_lt_of_advance {α : Type} {f : Unit → Compose α} {r : α} (hf : Shrinks (f ()))
    (hne : a.tokens ≠ []) (h : (advance >>= f) a = .ok (r, a')) :
    a'.tokens.length < a.tokens.length := by
  have hle : a'.tokens.length ≤ (a.tokens.drop 1).length := (hf h).length_le
  have hpos : 0 < a.tokens.length := List.length_pos_iff.mpr hne
  rw [List.length_drop] at hle
  omega

theorem length_lt_of_blockEntry {e : Nat × Nat} (hne : a.tokens ≠ [])
    (h : blockEntry fuel a = .ok (e, a')) : a'.tokens.length < a.tokens.length := by
  have hshrink := allShrink fuel
  exact length_lt_of_advance (shrinks_peek.bind fun t => (shrinks_orEmpty _ (hshrink.node _ _)).bind
    fun _ => hshrink.blockValue.bind fun _ => .pure _) hne h

theorem eq_of_entriesFrom {t : Token} {es : List (Nat × Nat)}
    (h : entriesFrom fuel t a = .ok (es, a')) : t = .blockEnd ∨ t = .key := by
  cases t
  case blockEnd => exact .inl rfl
  case key => exact .inr rfl
  all_goals cases h

/-- Composing entries takes a token at least. -/
theorem length_lt_of_blockEntries {es : List (Nat × Nat)}
    (h : blockEntries fuel a = .ok (es, a')) : a'.tokens.length < a.tokens.length := by
  cases fuel with
  | zero => cases h
  | succ fuel =>
    rw [blockEntries_succ] at h
    obtain ⟨t, a₁, hpeek, hrun⟩ := run_bind_eq_ok.mp h
    obtain ⟨rfl, ts, hts⟩ := peek_eq_ok.mp hpeek
    have hne : a₁.tokens ≠ [] := by simp [hts]
    rcases eq_of_entriesFrom hrun with rfl | rfl
    · exact length_lt_of_advance (f := fun _ => pure []) (.pure _) hne hrun
    · obtain ⟨e, a₂, hentry, hrest⟩ := run_bind_eq_ok.mp hrun
      have hle := (((allShrink fuel).blockEntries.bind fun _ => .pure _) hrest).length_le
      exact Nat.lt_of_le_of_lt hle (length_lt_of_blockEntry hne hentry)

/-- The entries that are composed on their own are composed in their place, and composing goes on
behind them. -/
theorem blockEntries_within {es : List (Nat × Nat)} (hnear : Near p k a w)
    (hfuel : fuel ≤ fuel') (h : blockEntries fuel a = .ok (es, a'))
    (hend : a'.tokens = [.streamEnd]) :
    ∃ a₁ w₁, Near p k a₁ w₁ ∧ a₁.tokens = [.blockEnd, .streamEnd] ∧
      a' = { a₁ with tokens := [.streamEnd] } ∧ PositiveEntries es ∧
      es.length + 2 ≤ a.tokens.length ∧ es.length < fuel ∧
      blockEntries fuel' w = (fun r => (renumber (· + p.shift) es ++ r.1, r.2)) <$>
        blockEntries (fuel' - es.length) w₁ := by
  induction fuel generalizing a w es fuel' with
  | zero => cases h
  | succ fuel ih =>
    obtain ⟨fuel', rfl⟩ : ∃ n, fuel' = n + 1 := ⟨fuel' - 1, by omega⟩
    rw [blockEntries_succ] at h
    obtain ⟨t, a₁, hpeek, hrun⟩ := run_bind_eq_ok.mp h
    obtain ⟨rfl, ts, hts⟩ := peek_eq_ok.mp hpeek
    obtain ⟨z, ha, hw, -⟩ := hnear.tokens
    cases z with
    | nil =>
      obtain ⟨rfl, -⟩ := List.cons.inj (hts.symm.trans ha)
      cases hrun
      refine ⟨a₁, w, hnear, ha, ?_, ?_, ?_, Nat.succ_pos _, (id_map _).symm⟩
      · dsimp only
        rw [ha]
        rfl
      · exact fun e he => by cases he
      · rw [ha]
        exact Nat.le_refl _
    | cons u z =>
      obtain ⟨rfl, -⟩ := List.cons.inj (hts.symm.trans ha)
      rcases eq_of_entriesFrom hrun with rfl | rfl
      · cases hrun
        change a₁.tokens.drop 1 = _ at hend
        rw [ha] at hend
        simpa using congrArg List.length hend
      · obtain ⟨e, a₂, hentry, hrest⟩ := run_bind_eq_ok.mp hrun
        obtain ⟨es', a₃, hentries, hpure⟩ := run_bind_eq_ok.mp hrest
        cases hpure
        have hne : a₁.tokens ≠ [] := by simp [hts]
        have htaken := length_lt_of_blockEntry hne hentry
        have hlt := length_lt_of_blockEntries hentries
        rw [hend] at hlt
        obtain ⟨w₂, hw₂, hnear₂, hpositive⟩ := follows_blockEntry
          (allFollow p (Nat.le_of_succ_le_succ hfuel)) hnear hentry hlt
        obtain ⟨a₄, w₄, hnear₄, hend₄, ha', hpositives, hlength, hless, heq⟩ :=
          ih hnear₂ (Nat.le_of_succ_le_succ hfuel) hentries
        refine ⟨a₄, w₄, hnear₄, hend₄, ha', .cons hpositive hpositives, ?_,
          Nat.succ_lt_succ hless, ?_⟩
        · rw [List.length_cons]
          omega
        · rw [blockEntries_succ]
          have hstep : (peek >>= entriesFrom fuel') w =
              (fun r : List (Nat × Nat) × Composer =>
                ((e.1 + p.shift, e.2 + p.shift) :: r.1, r.2)) <$> blockEntries fuel' w₂ := by
            rw [run_bind_of_ok (peek_of_cons hw)]
            change (blockEntry fuel' >>= _) w = _
            rw [run_bind_of_ok hw₂]
            exact run_bind_pure _ _ _
          rw [hstep, heq, List.length_cons, Nat.add_sub_add_right]
          rw [← comp_map]
          rfl

/-! ## Entries on their own -/

/-- The anchors among some tokens. -/
def anchorNames (ts : List Token) : List String :=
  ts.filterMap fun
    | .anchor x => some x
    | _ => none

theorem mem_anchorNames {ts : List Token} {x : String} :
    x ∈ anchorNames ts ↔ Token.anchor x ∈ ts := by
  refine List.mem_filterMap.trans ⟨fun ⟨t, ht, hx⟩ => ?_, fun h => ⟨_, h, rfl⟩⟩
  split at hx
  · rw [← Option.some.inj hx]
    exact ht
  · cases hx

/-- The state in which a mapping has just been opened as the root of a document. -/
def startAt (tokens : List Token) : Composer := ⟨tokens, none, [], 1, [], usualHandles⟩

/-- The state before the first of some entries that are a whole document. -/
def start (ts : List Token) : Composer := startAt (ts ++ [.blockEnd, .streamEnd])

/-- As much fuel as the document of some entries has for them. -/
def entriesFuel (ts : List Token) : Nat := 4 * ts.length + 19

/-- Some tokens are entries of a block mapping, with these nodes. -/
def Composed (ts : List Token) (es : List (Nat × Nat)) (nodes : Table Nat Node) (count : Nat) :
    Prop :=
  ∃ s, blockEntries (entriesFuel ts) (start ts) = .ok (es, s) ∧ s.tokens = [.streamEnd] ∧
    s.nodes = nodes ∧ s.count = count

/-- Where some entries stand in a state that comes before them. -/
def placeAt (ts : List Token) (next : Token) (ends : next = .key ∨ next = .blockEnd)
    (rest : List Token) (before : List String) (s : Composer) : Site where
  shift := s.count - 1
  names := anchorNames ts
  before := before
  next := next
  ends := ends
  rest := rest
  nodes := s.nodes

theorem near_start {ts : List Token} {next : Token} (ends : next = .key ∨ next = .blockEnd)
    {rest : List Token} {before : List String} {s : Composer}
    (htokens : s.tokens = ts ++ next :: rest) (hcount : 1 ≤ s.count)
    (hknown : ∀ x, Table.has s.anchors x = true → x ∈ before)
    (hfree : ∀ x ∈ before, Token.anchor x ∉ ts) (hhandles : s.handles = usualHandles) :
    Near (placeAt ts next ends rest before s) 1 (start ts) s where
  tokens := ⟨ts, rfl, htokens, fun x hx => (mem_anchorNames).mpr hx⟩
  nodes := rfl
  ids e he := by cases he
  refs e he := by cases he
  count := by
    change s.count = 1 + (s.count - 1)
    omega
  low := ⟨Nat.le_refl _, Nat.le_refl _⟩
  anchors x id hx := by cases hx
  free x hx _ := by
    cases hhas : Table.has s.anchors x with
    | false => rfl
    | true => exact absurd ((mem_anchorNames).mp hx) (hfree x (hknown x hhas))
  known x hx := .inr (hknown x hx)
  handles := ⟨rfl, hhandles⟩

/-- What is known of entries on their own. -/
structure Facts (ts : List Token) (es : List (Nat × Nat)) (nodes : Table Nat Node)
    (count : Nat) : Prop where
  entries : PositiveEntries es
  ids : ∀ e ∈ nodes, 1 ≤ e.1 ∧ e.1 < count
  refs : ∀ e ∈ nodes, ∀ j ∈ e.2.content.refs, 1 ≤ j
  count : 1 ≤ count

variable {ts us : List Token} {es es' : List (Nat × Nat)} {nodes nodes' : Table Nat Node}
  {count count' : Nat}

/-- Entries that can be composed on their own are composed behind and before others. -/
theorem Composed.within (h : Composed ts es nodes count) {next : Token}
    (ends : next = .key ∨ next = .blockEnd) (rest : List Token) (before : List String)
    {s : Composer} (htokens : s.tokens = ts ++ next :: rest) (hcount : 1 ≤ s.count)
    (hknown : ∀ x, Table.has s.anchors x = true → x ∈ before)
    (hfree : ∀ x ∈ before, Token.anchor x ∉ ts) (hhandles : s.handles = usualHandles)
    {fuel : Nat} (hfuel : entriesFuel ts ≤ fuel) :
    Facts ts es nodes count ∧ es.length ≤ ts.length ∧ ∃ s₁ : Composer,
      s₁.tokens = next :: rest ∧ s₁.nodes = shiftNodes (s.count - 1) nodes ++ s.nodes ∧
      s₁.count = count + (s.count - 1) ∧ s₁.handles = usualHandles ∧
      (∀ x, Table.has s₁.anchors x = true → Token.anchor x ∈ ts ∨ x ∈ before) ∧
      blockEntries fuel s = (fun r => (renumber (· + (s.count - 1)) es ++ r.1, r.2)) <$>
        blockEntries (fuel - es.length) s₁ := by
  obtain ⟨s', hrun, hs', rfl, rfl⟩ := h
  have hnear := near_start ends htokens hcount hknown hfree hhandles
  obtain ⟨a₁, s₁, hnear₁, hend, ha, hpositive, hlength, -, heq⟩ :=
    blockEntries_within hnear hfuel hrun hs'
  have hnodes : a₁.nodes = s'.nodes := (congrArg Composer.nodes ha).symm
  have hcount₁ : a₁.count = s'.count := (congrArg Composer.count ha).symm
  refine ⟨⟨hpositive, ?_, ?_, ?_⟩, ?_, s₁, ?_, ?_, ?_, ?_, fun x hx => ?_, heq⟩
  · rw [← hnodes, ← hcount₁]
    exact hnear₁.ids
  · rw [← hnodes]
    exact hnear₁.refs
  · rw [← hcount₁]
    exact hnear₁.low.1
  · have hstart : (start ts).tokens.length = ts.length + 2 := by simp [start, startAt]
    omega
  · obtain ⟨z, hz, hs₁, -⟩ := hnear₁.tokens
    have hnil : z = [] := by simpa [hend] using hz
    rw [hs₁, hnil]
    rfl
  · rw [hnear₁.nodes, hnodes]
    rfl
  · rw [hnear₁.count, hcount₁]
    rfl
  · exact hnear₁.handles.2
  · exact (hnear₁.known x hx).imp_left (mem_anchorNames).mp

theorem Composed.facts (h : Composed ts es nodes count) : Facts ts es nodes count :=
  (h.within (.inr rfl) [.streamEnd] [] (s := start ts) rfl (Nat.le_refl _)
    (fun x hx => by cases hx) (fun x hx => by cases hx) rfl (Nat.le_refl _)).1

theorem blockEntries_at_end {s : Composer} {rest : List Token} (hfuel : 0 < fuel)
    (hs : s.tokens = .blockEnd :: rest) :
    blockEntries fuel s = .ok ([], { s with tokens := rest }) := by
  obtain ⟨fuel, rfl⟩ : ∃ n, fuel = n + 1 := ⟨fuel - 1, by omega⟩
  rw [blockEntries_succ, run_bind_of_ok (peek_of_cons hs)]
  have hdrop : s.tokens.drop 1 = rest := by rw [hs]; rfl
  rw [← hdrop]
  rfl

theorem renumber_add_zero (es : List (Nat × Nat)) : renumber (· + 0) es = es := by
  unfold renumber
  simp

theorem content_map_add_zero (c : Content) : c.map (· + 0) = c := by
  cases c with
  | scalar text => rfl
  | sequence items => simp [Content.map]
  | mapping entries => exact congrArg Content.mapping (renumber_add_zero entries)

theorem shiftNodes_zero (nodes : Table Nat Node) : shiftNodes 0 nodes = nodes := by
  unfold shiftNodes Node.map
  simp only [content_map_add_zero]
  simp

/-- Entries one behind the other. -/
theorem Composed.append (h : Composed ts es nodes count) (h' : Composed us es' nodes' count')
    (hkey : us.head? = some .key) (hanchors : ∀ x, Token.anchor x ∈ ts → Token.anchor x ∉ us) :
    Composed (ts ++ us) (es ++ renumber (· + (count - 1)) es')
      (shiftNodes (count - 1) nodes' ++ nodes) (count' + (count - 1)) := by
  obtain ⟨us', rfl⟩ : ∃ us', us = .key :: us' := by
    cases us with
    | nil => simp at hkey
    | cons t us' => exact ⟨us', by rw [Option.some.inj hkey]⟩
  have hlength : entriesFuel (ts ++ .key :: us') =
      4 * ts.length + 4 * (Token.key :: us').length + 19 := by
    unfold entriesFuel
    rw [List.length_append]
    omega
  have hfuel : entriesFuel ts ≤ entriesFuel (ts ++ .key :: us') := by
    rw [hlength]
    unfold entriesFuel
    omega
  obtain ⟨hfacts, hes, s₁, htokens₁, hnodes₁, hcount₁, hhandles₁, hknown₁, hrun₁⟩ :=
    h.within (.inl rfl) (us' ++ [Token.blockEnd, .streamEnd]) []
      (s := start (ts ++ .key :: us')) (by simp [start, startAt]) (Nat.le_refl _) (fun x hx => by cases hx)
      (fun x hx => by cases hx) rfl hfuel
  have hzero : (start (ts ++ .key :: us')).count - 1 = 0 := rfl
  have hstart : (start (ts ++ .key :: us')).nodes = [] := rfl
  rw [hzero] at hcount₁ hnodes₁ hrun₁
  rw [shiftNodes_zero, hstart, List.append_nil] at hnodes₁
  rw [renumber_add_zero] at hrun₁
  rw [Nat.add_zero] at hcount₁
  have hfuel' : entriesFuel (.key :: us') ≤ entriesFuel (ts ++ .key :: us') - es.length := by
    rw [hlength]
    unfold entriesFuel
    omega
  obtain ⟨-, hes', s₂, htokens₂, hnodes₂, hcount₂, -, -, hrun₂⟩ :=
    h'.within (.inr rfl) [.streamEnd] (anchorNames ts) (s := s₁)
      htokens₁ (by rw [hcount₁]; exact hfacts.count)
      (fun x hx => (mem_anchorNames).mpr ((hknown₁ x hx).resolve_right (by simp)))
      (fun x hx => hanchors x ((mem_anchorNames).mp hx)) hhandles₁ hfuel'
  rw [hcount₁] at hcount₂ hnodes₂ hrun₂
  have hleft : 0 < entriesFuel (ts ++ .key :: us') - es.length - es'.length := by
    rw [hlength]
    omega
  refine ⟨{ s₂ with tokens := [.streamEnd] }, ?_, rfl, ?_, ?_⟩
  · rw [hrun₁, hrun₂, blockEntries_at_end hleft htokens₂]
    simp only [Functor.map, Except.map, List.append_nil]
  · dsimp only
    rw [hnodes₂, hnodes₁]
  · exact hcount₂

/-! ## A mapping below a key -/

theorem takeProperties_of_none {s : Composer} {t : Token} {rest : List Token}
    (hs : s.tokens = t :: rest) (hanchor : ∀ x, t ≠ .anchor x) (htag : ∀ h x, t ≠ .tag h x) :
    takeProperties s = .ok ((none, none), s) := by
  have hnoAnchor : takeAnchor? s = .ok (none, s) := by
    unfold takeAnchor?
    rw [run_bind_of_ok (peek_of_cons hs)]
    split
    · exact absurd rfl (hanchor _)
    · rfl
  have hnoTag : takeTag? s = .ok (none, s) := by
    unfold takeTag?
    rw [run_bind_of_ok (peek_of_cons hs)]
    split
    · exact absurd rfl (htag _ _)
    · rfl
  rw [takeProperties_eq]
  unfold writtenProperties
  rw [bind_assoc, run_bind_of_ok hnoAnchor, bind_assoc, run_bind_of_ok hnoTag]
  rfl

theorem node_of_scalar {s : Composer} {text : String} {plain : Bool} {rest : List Token}
    (hs : s.tokens = .scalar text plain :: rest) (block indentless : Bool) (fuel : Nat) :
    node block indentless (fuel + 1) s = .ok (s.count, { s with
      tokens := rest
      count := s.count + 1
      nodes := (s.count, ⟨scalarTag none plain text, .scalar text⟩) :: s.nodes }) := by
  have hproperties := takeProperties_of_none hs (by simp) (by simp)
  have hdrop : s.tokens.drop 1 = rest := by rw [hs]; rfl
  rw [node_succ, run_bind_of_ok (peek_of_cons hs)]
  change (takeProperties >>= _) s = _
  rw [run_bind_of_ok hproperties, run_bind_of_ok (peek_of_cons hs), ← hdrop]
  rfl

theorem node_of_mapping {s : Composer} {rest : List Token}
    (hs : s.tokens = .blockMappingStart :: rest) (indentless : Bool) (fuel : Nat) :
    node true indentless (fuel + 1) s = (fun r => (s.count,
      { r.2 with nodes := (s.count, ⟨.mapping, .mapping r.1⟩) :: r.2.nodes })) <$>
        blockEntries fuel { s with tokens := rest, count := s.count + 1 } := by
  have hproperties := takeProperties_of_none hs (by simp) (by simp)
  have hdrop : s.tokens.drop 1 = rest := by rw [hs]; rfl
  rw [node_succ, run_bind_of_ok (peek_of_cons hs)]
  change (takeProperties >>= _) s = _
  have hat : nodeAt true indentless fuel none none .blockMappingStart = advance >>= fun _ =>
      collect none none .mapping (Content.mapping <$> blockEntries fuel) := rfl
  have hadvance : advance s = .ok ((), { s with tokens := s.tokens.drop 1 }) := rfl
  have hreserve : reserve none { s with tokens := s.tokens.drop 1 } =
      .ok (s.count, { s with tokens := s.tokens.drop 1, count := s.count + 1 }) := rfl
  rw [run_bind_of_ok hproperties, run_bind_of_ok (peek_of_cons hs), hat, run_bind_of_ok hadvance,
    ← hdrop]
  unfold collect
  rw [run_bind_of_ok hreserve, map_eq_pure_bind, bind_assoc]
  simp only [pure_bind]
  rw [run_bind_eq]
  cases blockEntries fuel { s with tokens := s.tokens.drop 1, count := s.count + 1 } <;> rfl

/-- The node of a plain key. -/
def keyNode (name : String) : Node := ⟨Tag.ofPlain name, .scalar name⟩

/-- The state behind a plain key and its colon. -/
def afterKey (name : String) (rest : List Token) : Composer :=
  ⟨rest, none, [(1, keyNode name)], 2, [], usualHandles⟩

/-- The key of an entry and its colon. -/
theorem blockEntry_of_key (name : String) {rest : List Token} {t : Token} {ts : List Token}
    (hrest : rest = t :: ts) (fuel : Nat) :
    blockEntry (fuel + 1) (startAt (.key :: .scalar name true :: .value :: rest)) =
      (fun r => ((1, r.1), r.2)) <$>
        orEmpty (endsBlockPart t) (node true true fuel) (afterKey name rest) := by
  have hadvance : advance (startAt (.key :: .scalar name true :: .value :: rest)) =
      .ok ((), startAt (.scalar name true :: .value :: rest)) := rfl
  have hnode : node true true (fuel + 1) (startAt (.scalar name true :: .value :: rest)) =
      .ok (1, afterKey name (.value :: rest)) :=
    node_of_scalar (s := startAt (.scalar name true :: .value :: rest)) rfl true true fuel
  have hkey : orEmpty (endsBlockPart (.scalar name true)) (node true true (fuel + 1)) =
      node true true (fuel + 1) := rfl
  have hvalue : blockValue (fuel + 1) (afterKey name (.value :: rest)) =
      orEmpty (endsBlockPart t) (node true true fuel) (afterKey name rest) := by
    rw [blockValue_succ, run_bind_of_ok (peek_of_cons rfl)]
    have hstep : advance (afterKey name (.value :: rest)) = .ok ((), afterKey name rest) := rfl
    change (advance >>= _) _ = _
    rw [run_bind_of_ok hstep, run_bind_of_ok (peek_of_cons hrest)]
  unfold blockEntry
  rw [run_bind_of_ok hadvance, run_bind_of_ok (peek_of_cons rfl), hkey, run_bind_of_ok hnode,
    run_bind_pure, hvalue]

/-- A key with nothing behind its colon. -/
theorem composed_bare (name : String) :
    Composed [.key, .scalar name true, .value] [(1, 2)]
      [(2, ⟨.null, .scalar ""⟩), (1, keyNode name)] 3 := by
  have hentry := blockEntry_of_key name (rfl : [.blockEnd, .streamEnd] = _ :: _) 29
  have hempty : orEmpty (endsBlockPart .blockEnd) (node true true 29)
      (afterKey name [.blockEnd, .streamEnd]) = .ok (2, { afterKey name [.blockEnd, .streamEnd] with
        count := 3, nodes := [(2, ⟨.null, .scalar ""⟩), (1, keyNode name)] }) := rfl
  rw [hempty] at hentry
  refine ⟨{ afterKey name [.streamEnd] with
    count := 3, nodes := [(2, ⟨.null, .scalar ""⟩), (1, keyNode name)] }, ?_, rfl, rfl, rfl⟩
  change blockEntries 31 (startAt [.key, .scalar name true, .value, .blockEnd, .streamEnd]) = _
  rw [blockEntries_succ, run_bind_of_ok (peek_of_cons rfl)]
  change (blockEntry 30 >>= _) _ = _
  rw [run_bind_of_ok hentry, run_bind_pure, blockEntries_at_end (Nat.succ_pos _) rfl]
  rfl

/-- A mapping below a key. -/
theorem Composed.below (h : Composed ts es nodes count) (name : String) :
    Composed (.key :: .scalar name true :: .value :: .blockMappingStart :: (ts ++ [Token.blockEnd]))
      [(1, 2)] ((2, ⟨.mapping, .mapping (renumber (· + 2) es)⟩) ::
        (shiftNodes 2 nodes ++ [(1, keyNode name)])) (count + 2) := by
  obtain ⟨fuel, hfuel, hlength⟩ : ∃ fuel, entriesFuel ts ≤ fuel ∧
      entriesFuel (.key :: .scalar name true :: .value :: .blockMappingStart ::
        (ts ++ [Token.blockEnd])) = fuel + 1 + 1 + 1 := by
    refine ⟨entriesFuel ts + 17, Nat.le_add_right _ _, ?_⟩
    unfold entriesFuel
    simp only [List.length_cons, List.length_append, List.length_nil]
    omega
  let s : Composer :=
    { afterKey name (ts ++ [Token.blockEnd, .blockEnd, .streamEnd]) with count := 3 }
  obtain ⟨-, hes, s₁, htokens, hnodes, hcount, -, -, hrun⟩ :=
    h.within (.inr rfl) [.blockEnd, .streamEnd] [] (s := s) rfl (Nat.le_add_left 1 2)
      (fun x hx => by simp [s, afterKey, Table.has, Table.get?_nil] at hx) (fun x hx => by cases hx) rfl
      hfuel
  have hleft : 0 < fuel - es.length := by
    unfold entriesFuel at hfuel
    omega
  rw [blockEntries_at_end hleft htokens] at hrun
  have hnode : node true true (fuel + 1)
      (afterKey name (.blockMappingStart :: (ts ++ [Token.blockEnd, .blockEnd, .streamEnd]))) =
      .ok (2, { s₁ with
        tokens := [.blockEnd, .streamEnd]
        nodes := (2, ⟨.mapping, .mapping (renumber (· + 2) es)⟩) :: s₁.nodes }) := by
    rw [node_of_mapping rfl]
    change _ <$> blockEntries fuel s = _
    rw [hrun]
    simp only [Functor.map, Except.map, List.append_nil]
    rfl
  have hentry := blockEntry_of_key name
    (rfl : .blockMappingStart :: (ts ++ [Token.blockEnd, .blockEnd, .streamEnd]) = _ :: _)
    (fuel + 1)
  have hnothing : orEmpty (endsBlockPart .blockMappingStart) (node true true (fuel + 1)) =
      node true true (fuel + 1) := rfl
  rw [hnothing, hnode] at hentry
  have hstart : start (.key :: .scalar name true :: .value :: .blockMappingStart ::
      (ts ++ [Token.blockEnd])) = startAt (.key :: .scalar name true :: .value ::
        .blockMappingStart :: (ts ++ [Token.blockEnd, .blockEnd, .streamEnd])) := by
    unfold start
    simp
  refine ⟨{ s₁ with
    tokens := [.streamEnd]
    nodes := (2, ⟨.mapping, .mapping (renumber (· + 2) es)⟩) :: s₁.nodes }, ?_, rfl, ?_, hcount⟩
  · rw [hlength, hstart, blockEntries_succ, run_bind_of_ok (peek_of_cons rfl)]
    change (blockEntry (fuel + 1 + 1) >>= _) _ = _
    rw [run_bind_of_ok hentry, run_bind_pure, blockEntries_at_end (Nat.succ_pos _) rfl]
    rfl
  · dsimp only
    rw [hnodes]
    rfl

/-! ## The document of a block mapping -/

/-- What comes behind the root of a document. -/
def ending (fuel : Nat) (root : Nat) : Compose (Option Nat) :=
  skipDocumentEnds fuel >>= fun _ => peek >>= fun t =>
    if t == .streamEnd then pure (some root)
    else (modify fun s => { s with handles := [] }) >>= fun _ => directives fuel false >>= fun _ =>
      peek >>= fun _ => refuse

/-- The state at the start of a document. -/
def first (tokens : List Token) : Composer := ⟨tokens, none, [], 0, [], []⟩

theorem document_of_mapping (fuel : Nat) (rest : List Token) :
    document fuel (first (.blockMappingStart :: rest)) =
      (node true false fuel >>= ending fuel)
        { first (.blockMappingStart :: rest) with handles := usualHandles } := by
  unfold document
  rw [run_bind_of_ok (peek_of_cons rfl)]
  have hhandles : addUsualHandles (first (.blockMappingStart :: rest)) =
      .ok ((), { first (.blockMappingStart :: rest) with handles := usualHandles }) := rfl
  change ((addUsualHandles >>= fun _ => node true false fuel) >>= ending fuel) _ = _
  rw [bind_assoc, run_bind_of_ok hhandles]

theorem ending_at_end (fuel root : Nat) {s : Composer} (hs : s.tokens = [.streamEnd]) :
    ending (fuel + 1) root s = .ok (some root, s) := by
  have hskip : skipDocumentEnds (fuel + 1) s = .ok ((), s) := by
    unfold skipDocumentEnds
    rw [run_bind_of_ok (peek_of_cons hs)]
    rfl
  unfold ending
  rw [run_bind_of_ok hskip, run_bind_of_ok (peek_of_cons hs)]
  rfl

theorem node_at_root (ts : List Token) (fuel : Nat) :
    node true false (fuel + 1)
      { first (.blockMappingStart :: (ts ++ [Token.blockEnd, .streamEnd])) with
        handles := usualHandles } =
      (fun r => (0, { r.2 with nodes := (0, ⟨.mapping, .mapping r.1⟩) :: r.2.nodes })) <$>
        blockEntries fuel (start ts) :=
  node_of_mapping rfl false fuel

variable {text : String}

theorem ofText_eq (hscan : scan text =
      ⟨.blockMappingStart :: (ts ++ [Token.blockEnd, .streamEnd]), none⟩) :
    Graph.ofText text = (fun r => ⟨r.2.nodes, r.1⟩) <$> document (entriesFuel ts + 1)
      (first (.blockMappingStart :: (ts ++ [Token.blockEnd, .streamEnd]))) := by
  have hlength : 4 * (.blockMappingStart :: (ts ++ [Token.blockEnd, .streamEnd])).length + 8 =
      entriesFuel ts + 1 := by
    unfold entriesFuel
    simp only [List.length_cons, List.length_append, List.length_nil]
    omega
  unfold Graph.ofText
  rw [hscan, ← hlength]
  change (document _ (first _) >>= _) = _
  cases document (4 * (.blockMappingStart :: (ts ++ [Token.blockEnd, .streamEnd])).length + 8)
    (first (.blockMappingStart :: (ts ++ [Token.blockEnd, .streamEnd]))) <;> rfl

/-- The text of some entries has the nodes of the entries and their mapping as the root. -/
theorem Composed.ofText (h : Composed ts es nodes count)
    (hscan : scan text = ⟨.blockMappingStart :: (ts ++ [Token.blockEnd, .streamEnd]), none⟩) :
    Graph.ofText text = .ok ⟨(0, ⟨.mapping, .mapping es⟩) :: nodes, some 0⟩ := by
  obtain ⟨s, hrun, htokens, rfl, -⟩ := h
  have hnode := node_at_root ts (entriesFuel ts)
  rw [hrun] at hnode
  have hdocument : document (entriesFuel ts + 1)
      (first (.blockMappingStart :: (ts ++ [Token.blockEnd, .streamEnd]))) =
        .ok (some 0, { s with nodes := (0, ⟨.mapping, .mapping es⟩) :: s.nodes }) := by
    rw [document_of_mapping, run_bind_of_ok hnode]
    exact ending_at_end _ _ htokens
  rw [ofText_eq hscan, hdocument]
  rfl

/-- A node that a document goes on behind is the last of its entries. -/
theorem eq_of_ending {s s' : Composer} {fuel id : Nat} {root : Option Nat}
    (hsuffix : s.tokens <:+ ts ++ [Token.blockEnd, .streamEnd])
    (hinner : ∀ t ∈ ts, t ≠ .documentEnd ∧ t ≠ .streamEnd)
    (h : ending (fuel + 1) id s = .ok (root, s')) :
    s.tokens = [.streamEnd] ∧ root = some id ∧ s' = s := by
  unfold ending at h
  obtain ⟨u, s₁, hskip, hrest⟩ := run_bind_eq_ok.mp h
  obtain ⟨t, s₂, hpeek, hclose⟩ := run_bind_eq_ok.mp hrest
  obtain ⟨rfl, rest, htokens⟩ := peek_eq_ok.mp hpeek
  have hmem : ∀ t ∈ s.tokens, t ≠ .documentEnd := by
    intro t ht hdoc
    subst hdoc
    rcases List.mem_append.mp (hsuffix.subset ht) with hts | hlast
    · exact (hinner _ hts).1 rfl
    · simp at hlast
  have hs₁ : s₂ = s := by
    unfold skipDocumentEnds at hskip
    obtain ⟨t', s₃, hpeek', hbranch⟩ := run_bind_eq_ok.mp hskip
    obtain ⟨rfl, rest', htokens'⟩ := peek_eq_ok.mp hpeek'
    have hne : (t' == .documentEnd) = false := by
      simpa using hmem t' (by simp [htokens'])
    rw [if_neg (by simp [hne])] at hbranch
    cases hbranch
    rfl
  subst hs₁
  by_cases hend : (t == .streamEnd) = true
  · rw [if_pos hend] at hclose
    cases hclose
    obtain rfl : t = .streamEnd := by simpa using hend
    refine ⟨?_, rfl, rfl⟩
    obtain ⟨before, hbefore⟩ := hsuffix
    rw [htokens] at hbefore ⊢
    rcases List.append_eq_append_iff.mp hbefore with ⟨a, rfl, ha⟩ | ⟨c, rfl, hc⟩
    · cases a with
      | nil => cases ha
      | cons x a =>
        obtain ⟨rfl, -⟩ := List.cons.inj ha
        exact absurd rfl (hinner .streamEnd (by simp)).2
    · cases c with
      | nil => cases hc
      | cons x c =>
        have hlast := (List.cons.inj hc).2
        cases c with
        | nil => exact hlast.symm
        | cons y c => simp at hlast
  · rw [if_neg hend] at hclose
    obtain ⟨_, s₃, -, hclose⟩ := run_bind_eq_ok.mp hclose
    obtain ⟨_, s₄, -, hclose⟩ := run_bind_eq_ok.mp hclose
    obtain ⟨_, s₅, -, hclose⟩ := run_bind_eq_ok.mp hclose
    cases hclose

/-- The entries of a text that is a block mapping. -/
theorem composed_of_ofText {g : Graph}
    (hscan : scan text = ⟨.blockMappingStart :: (ts ++ [Token.blockEnd, .streamEnd]), none⟩)
    (hinner : ∀ t ∈ ts, t ≠ .documentEnd ∧ t ≠ .streamEnd) (h : Graph.ofText text = .ok g) :
    ∃ es nodes count, Composed ts es nodes count ∧
      g = ⟨(0, ⟨.mapping, .mapping es⟩) :: nodes, some 0⟩ := by
  rw [ofText_eq hscan] at h
  obtain ⟨⟨root, s⟩, hdocument, hg⟩ := map_eq_ok.mp h
  rw [document_of_mapping] at hdocument
  obtain ⟨id, s₁, hnode, hending⟩ := run_bind_eq_ok.mp hdocument
  have hroot := node_at_root ts (entriesFuel ts)
  rw [hnode] at hroot
  obtain ⟨⟨es, s₂⟩, hrun, hs₁⟩ := map_eq_ok.mp hroot.symm
  obtain ⟨rfl, rfl⟩ := Prod.mk.inj hs₁
  have hsuffix : s₂.tokens <:+ ts ++ [Token.blockEnd, .streamEnd] :=
    (allShrink (entriesFuel ts)).blockEntries hrun
  obtain ⟨htokens, rfl, rfl⟩ := eq_of_ending (s := { s₂ with
    nodes := (0, ⟨.mapping, .mapping es⟩) :: s₂.nodes }) hsuffix hinner hending
  exact ⟨es, s₂.nodes, s₂.count, ⟨s₂, hrun, htokens, rfl, rfl⟩, hg.symm⟩

end PubspecTidy.Yaml.Compose
