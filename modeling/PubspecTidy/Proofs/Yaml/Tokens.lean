import PubspecTidy.Proofs.Yaml.Frame

/-!
# The tokens of a part of a text

Main statement: what the scanner does with the next token of a part of a text is the same there as
in the part alone, as long as the token ends inside the part. Only a plain scalar and a block scalar
can reach the end of the part, since no other token holds a line end there.
-/
namespace PubspecTidy.Yaml

namespace Scanner

variable {n : Nat} {f : Frame} {s s' : Scanner} {ch : Char} {rest : List Char}

/-- A step that leads from one state to another in a part alone does so in the whole text, unless it
ends with the part. The last token of the new state closes no block. -/
structure Carries (n : Nat) (f : Frame) (take : Scanner → Except Fault Scanner)
    (s s' : Scanner) : Prop where
  rooted : s'.IsRooted n f.more
  precedes : s.cursor.next.Precedes s'.cursor
  within : s'.cursor.IsInside f.more → take (s.within f) = .ok (s'.within f)
  head : s'.tokens.head? ≠ some .blockEnd

/-! ## Indicators -/

theorem IsRooted.emitIndicator (h : s.IsRooted n f.more) (t : Token) :
    (s.emitIndicator t).IsRooted n f.more := (h.emit t).move (Cursor.precedes_next s.cursor)

theorem emitIndicator_within (h : s.IsRooted n f.more) (hin : s.cursor.next.IsInside f.more)
    (t : Token) : (s.within f).emitIndicator t = (s.emitIndicator t).within f := by
  have hnext : (s.cursor.extend f.more f.index f.line).next =
      s.cursor.next.extend f.more f.index f.line :=
    Cursor.next_extend h.fits.complete ((Cursor.precedes_next s.cursor).isInside hin)
  unfold Scanner.emitIndicator
  rw [← emit_within h.tokens]
  simp only [Scanner.within, emit, hnext]

theorem takeFlowStart_carries (h : s.IsRooted n f.more) (hne : s.cursor.rest ≠ []) {t : Token}
    (ht : t ≠ .blockEnd) (htake : s.takeFlowStart t = .ok s') :
    Carries n f (·.takeFlowStart t) s s' ∧ s'.cursor = s.cursor.next := by
  obtain ⟨s₁, hsave, htake⟩ := bind_eq_ok.mp htake
  obtain ⟨hwithin, hrooted, hcursor⟩ := saveKey_within h hne hsave
  cases htake
  refine ⟨⟨?_, ?_, fun hin => ?_, ?_⟩, congrArg Cursor.next hcursor⟩
  · refine (hrooted.emitIndicator t).withKeys fun k hk => ?_
    exact (List.mem_cons.mp hk).resolve_left (by simp)
  · rw [← hcursor]
    exact .refl _
  · simp only [takeFlowStart, hwithin, bind, Except.bind, emitIndicator_within hrooted hin]
    rfl
  · exact fun hhead => ht (Option.some.inj hhead)

theorem takeFlowEnd_carries (h : s.IsRooted n f.more) {t : Token} (ht : t ≠ .blockEnd)
    (htake : s.takeFlowEnd t = .ok s') :
    Carries n f (·.takeFlowEnd t) s s' ∧ s'.cursor = s.cursor.next := by
  obtain ⟨s₁, hdrop, htake⟩ := bind_eq_ok.mp htake
  obtain ⟨hwithin, hrooted, hcursor⟩ := dropKey_within h hdrop
  cases houter : s₁.outerKeys with
  | nil => simp [houter] at htake
  | cons key outerKeys =>
    rw [houter] at htake
    cases htake
    refine ⟨⟨?_, ?_, fun hin => ?_, ?_⟩, congrArg Cursor.next hcursor⟩
    · refine (hrooted.emitIndicator t).withKeys fun k hk => ?_
      refine List.mem_cons_of_mem _ ?_
      change _ ∈ s₁.outerKeys
      rwa [houter]
    · rw [← hcursor]
      exact .refl _
    · have houter' : (s₁.within f).outerKeys = key.map (PossibleKey.within f) ::
          outerKeys.map (Option.map (PossibleKey.within f)) := by
        simp only [Scanner.within, houter, List.map_cons]
      simp only [takeFlowEnd, hwithin, bind, Except.bind, houter',
        emitIndicator_within hrooted hin]
      rfl
    · exact fun hhead => ht (Option.some.inj hhead)

theorem takeFlowEntry_carries (h : s.IsRooted n f.more) (htake : s.takeFlowEntry = .ok s') :
    Carries n f takeFlowEntry s s' ∧ s'.cursor = s.cursor.next := by
  obtain ⟨s₁, hdrop, htake⟩ := bind_eq_ok.mp htake
  obtain ⟨hwithin, hrooted, hcursor⟩ := dropKey_within h hdrop
  cases htake
  refine ⟨⟨(hrooted.emitIndicator .flowEntry).withKeys fun k hk => hk, ?_, fun hin => ?_, ?_⟩,
    congrArg Cursor.next hcursor⟩
  · rw [← hcursor]
    exact .refl _
  · simp only [takeFlowEntry, hwithin, bind, Except.bind, emitIndicator_within hrooted hin]
    rfl
  · rintro ⟨⟩

theorem takeBlockEntry_carries (h : s.IsRooted n f.more) (htake : s.takeBlockEntry = .ok s') :
    Carries n f takeBlockEntry s s' ∧ s'.cursor = s.cursor.next := by
  obtain ⟨s₀, hopen, htake⟩ := bind_eq_ok.mp htake
  obtain ⟨s₁, hdrop, htake⟩ := bind_eq_ok.mp htake
  obtain ⟨hwithin₀, hrooted₀, hcursor₀⟩ := openBlockHere_within h hopen
  obtain ⟨hwithin, hrooted, hcursor⟩ := dropKey_within hrooted₀ hdrop
  cases htake
  refine ⟨⟨(hrooted.emitIndicator .blockEntry).withKeys fun k hk => hk, ?_, fun hin => ?_, ?_⟩,
    congrArg Cursor.next (hcursor.trans hcursor₀)⟩
  · rw [← hcursor₀, ← hcursor]
    exact .refl _
  · simp only [takeBlockEntry, hwithin₀, hwithin, bind, Except.bind,
      emitIndicator_within hrooted hin]
    rfl
  · rintro ⟨⟩

theorem takeKey_carries (h : s.IsRooted n f.more) (htake : s.takeKey = .ok s') :
    Carries n f takeKey s s' ∧ s'.cursor = s.cursor.next := by
  obtain ⟨s₀, hopen, htake⟩ := bind_eq_ok.mp htake
  obtain ⟨s₁, hdrop, htake⟩ := bind_eq_ok.mp htake
  obtain ⟨hwithin₀, hrooted₀, hcursor₀⟩ := openBlockHere_within h hopen
  obtain ⟨hwithin, hrooted, hcursor⟩ := dropKey_within hrooted₀ hdrop
  cases htake
  refine ⟨⟨(hrooted.emitIndicator .key).withKeys fun k hk => hk, ?_, fun hin => ?_, ?_⟩,
    congrArg Cursor.next (hcursor.trans hcursor₀)⟩
  · rw [← hcursor₀, ← hcursor]
    exact .refl _
  · simp only [takeKey, hwithin₀, hwithin, bind, Except.bind, emitIndicator_within hrooted hin,
      inFlow_within]
    rfl
  · rintro ⟨⟩

/-! ## A colon -/

/-- The state in which a colon after a possible key is taken: the key is woven in. -/
def withWoven (s : Scanner) (k : PossibleKey) : Scanner :=
  let s := { s with key := none, keyAllowed := false }
  let (opened, s) := if s.inFlow then (false, s) else s.openBlock k.column
  s.weave k.place (if opened then [.key, .blockMappingStart] else [.key])

theorem takeValue_of_key {k : PossibleKey} (hkey : s.key = some k) :
    s.takeValue = .ok ((s.withWoven k).emitIndicator .value) := by
  unfold takeValue
  rw [hkey]
  rfl

theorem withWoven_within (h : s.IsRooted n f.more) {k : PossibleKey} (hkey : s.key = some k) :
    (s.withWoven k).within f = (s.within f).withWoven (k.within f) ∧
      (s.withWoven k).IsRooted n f.more ∧ (s.withWoven k).cursor = s.cursor := by
  obtain ⟨hlow, hhigh⟩ := h.keys k (hkey ▸ List.mem_cons_self)
  have hrooted : ({ s with key := none, keyAllowed := false } : Scanner).IsRooted n f.more :=
    h.withKeys fun k' hk' => List.mem_cons_of_mem _ ((List.mem_cons.mp hk').resolve_left (by simp))
  have hflow : (s.within f).inFlow = s.inFlow := inFlow_within
  unfold withWoven
  by_cases hin : s.inFlow = true
  · have hin' : ({ s with key := none, keyAllowed := false } : Scanner).inFlow = true := hin
    have hin'' : ({ s.within f with key := none, keyAllowed := false } : Scanner).inFlow = true :=
      hflow.trans hin
    simp only [if_pos hin', if_pos hin'']
    exact ⟨weave_within (s := { s with key := none, keyAllowed := false }) hlow hhigh _,
      hrooted.weave _, rfl⟩
  · have hin' : ¬({ s with key := none, keyAllowed := false } : Scanner).inFlow = true := hin
    have hin'' : ¬({ s.within f with key := none, keyAllowed := false } : Scanner).inFlow = true :=
      hflow ▸ hin
    obtain ⟨hopen, hopened⟩ := openBlock_within hrooted k.column
    have hcursor : (Scanner.openBlock { s with key := none, keyAllowed := false }
        k.column).2.cursor = s.cursor := by
      unfold openBlock
      split <;> rfl
    have htokens : (Scanner.openBlock { s with key := none, keyAllowed := false }
        k.column).2.tokens = s.tokens := by
      unfold openBlock
      split <;> rfl
    simp only [if_neg hin', if_neg hin'']
    change _ = Scanner.weave ((Scanner.within f { s with key := none, keyAllowed := false }).openBlock
      k.column).2 _ (if ((Scanner.within f { s with key := none, keyAllowed := false }).openBlock
        k.column).1 then _ else _) ∧ _
    rw [hopen]
    rw [← htokens] at hhigh
    exact ⟨weave_within hlow hhigh _, hopened.weave _, hcursor⟩

theorem takeValue_carries (h : s.IsRooted n f.more) (htake : s.takeValue = .ok s') :
    Carries n f takeValue s s' ∧ s'.cursor = s.cursor.next := by
  cases hkey : s.key with
  | some k =>
    rw [takeValue_of_key hkey] at htake
    obtain ⟨hwithin, hrooted, hcursor⟩ := withWoven_within h hkey
    cases htake
    refine ⟨⟨hrooted.emitIndicator .value, ?_, fun hin => ?_, ?_⟩, congrArg Cursor.next hcursor⟩
    · rw [← hcursor]
      exact .refl _
    · have hkey' : (s.within f).key = some (k.within f) := by
        simp only [Scanner.within, hkey, Option.map_some]
      rw [takeValue_of_key hkey', ← hwithin, emitIndicator_within hrooted hin]
    · rintro ⟨⟩
  | none =>
    have hkey' : (s.within f).key = none := by simp only [Scanner.within, hkey, Option.map_none]
    unfold takeValue at htake
    rw [hkey] at htake
    obtain ⟨s₀, hopen, htake⟩ := bind_eq_ok.mp htake
    obtain ⟨hwithin₀, hrooted₀, hcursor₀⟩ := openBlockHere_within h hopen
    cases htake
    refine ⟨⟨(hrooted₀.emitIndicator .value).withKeys fun k hk => hk, ?_, fun hin => ?_, ?_⟩,
      congrArg Cursor.next hcursor₀⟩
    · rw [← hcursor₀]
      exact .refl _
    · simp only [takeValue, hkey', hwithin₀, bind, Except.bind, emitIndicator_within hrooted₀ hin,
        inFlow_within]
      rfl
    · rintro ⟨⟩

/-! ## Anchors, tags and scalars -/

/-- The state after a token that ends at a cursor. -/
theorem IsRooted.emitTo (h : s.IsRooted n f.more) (t : Token) {c : Cursor}
    (hc : s.cursor.Precedes c) (keyAllowed : Bool) :
    ({ s.emit t with cursor := c, keyAllowed := keyAllowed }).IsRooted n f.more :=
  ((h.emit t).move hc).withKeys fun _ hk => hk

theorem emitTo_within (h : s.IsRooted n f.more) (t : Token) (c : Cursor) (keyAllowed : Bool) :
    { (s.within f).emit t with
        cursor := c.extend f.more f.index f.line, keyAllowed := keyAllowed } =
      ({ s.emit t with cursor := c, keyAllowed := keyAllowed }).within f := by
  rw [← emit_within h.tokens]
  rfl

/-- Takes a token that may be a key, read by `read`. -/
def takeRead (read : Cursor → Except Fault (Token × Cursor)) (s : Scanner) :
    Except Fault Scanner := do
  let s ← s.saveKey
  let (t, c) ← read s.cursor
  return { s.emit t with cursor := c, keyAllowed := false }

theorem takeAlias_eq (s : Scanner) :
    s.takeAlias = s.takeRead fun c => (fun r => (.alias r.1, r.2)) <$> Name.takeAnchor c := by
  unfold takeAlias takeRead
  cases s.saveKey with
  | error e => rfl
  | ok s => cases h : Name.takeAnchor s.cursor <;> simp [h, bind, Except.bind]

theorem takeAnchor_eq (s : Scanner) :
    s.takeAnchor = s.takeRead fun c => (fun r => (.anchor r.1, r.2)) <$> Name.takeAnchor c := by
  unfold takeAnchor takeRead
  cases s.saveKey with
  | error e => rfl
  | ok s => cases h : Name.takeAnchor s.cursor <;> simp [h, bind, Except.bind]

theorem takeQuoted_eq (s : Scanner) (double : Bool) :
    s.takeQuoted double =
      s.takeRead fun c => (fun r => (.scalar r.1 false, r.2)) <$> Quoted.take double c := by
  unfold takeQuoted takeRead
  cases s.saveKey with
  | error e => rfl
  | ok s => cases h : Quoted.take double s.cursor <;> simp [h, bind, Except.bind]

/-- A reader that does not look behind a part of a text. -/
structure IsLocal (f : Frame) (read : Cursor → Except Fault (Token × Cursor)) (c : Cursor) :
    Prop where
  precedes : ∀ t c', read c = .ok (t, c') → c.next.Precedes c'
  isInside : ∀ t c', read c = .ok (t, c') → c'.IsInside f.more
  extend : ∀ t c', read c = .ok (t, c') →
    read (c.extend f.more f.index f.line) = .ok (t, c'.extend f.more f.index f.line)
  ne_blockEnd : ∀ t c', read c = .ok (t, c') → t ≠ .blockEnd

theorem takeRead_carries (h : s.IsRooted n f.more) (hne : s.cursor.rest ≠ [])
    {read : Cursor → Except Fault (Token × Cursor)} (hread : IsLocal f read s.cursor)
    (htake : s.takeRead read = .ok s') :
    Carries n f (·.takeRead read) s s' ∧ s'.cursor.IsInside f.more := by
  obtain ⟨s₁, hsave, htake⟩ := bind_eq_ok.mp htake
  obtain ⟨⟨t, c⟩, ht, htake⟩ := bind_eq_ok.mp htake
  obtain ⟨hwithin, hrooted, hcursor⟩ := saveKey_within h hne hsave
  rw [hcursor] at ht
  have hprecedes := hread.precedes t c ht
  cases htake
  refine ⟨⟨?_, hprecedes, fun _ => ?_, ?_⟩, hread.isInside t c ht⟩
  · refine hrooted.emitTo t ?_ false
    rw [hcursor]
    exact (Cursor.precedes_next _).trans hprecedes
  · have hmore := hread.extend t c ht
    rw [← hcursor] at hmore
    unfold takeRead
    rw [hwithin]
    change (read (s₁.cursor.extend f.more f.index f.line) >>= _) = _
    rw [hmore]
    exact congrArg Except.ok (emitTo_within hrooted t c false)
  · exact fun hhead => hread.ne_blockEnd t c ht (Option.some.inj hhead)

theorem isLocal_takeAnchor (h : s.IsRooted n f.more) (hrest : s.cursor.rest = ch :: rest)
    (hch : ch ≠ '\n') (make : String → Token) (hmake : ∀ name, make name ≠ .blockEnd) :
    IsLocal f (fun c => (fun r => (make r.1, r.2)) <$> Name.takeAnchor c) s.cursor := by
  have hinside : ∀ name c, Name.takeAnchor s.cursor = .ok (name, c) → c.IsInside f.more :=
    fun name c hname => Name.takeAnchor_isInside h.fits.complete.next
      (Cursor.next_isInside h.fits.complete hrest hch) hname
  refine ⟨fun t c ht => ?_, fun t c ht => ?_, fun t c ht => ?_, fun t c ht => ?_⟩ <;>
    obtain ⟨⟨name, c⟩, hname, ht⟩ := map_eq_ok.mp ht <;> cases ht
  · exact Name.precedes_takeAnchor hname
  · exact hinside name c hname
  · rw [Name.takeAnchor_extend h.fits.complete (hinside name c hname) hname]
    rfl
  · exact hmake name

theorem isLocal_takeTag (h : s.IsRooted n f.more) (hrest : s.cursor.rest = '!' :: rest) :
    IsLocal f Name.takeTag s.cursor := by
  have hinside : ∀ t c, Name.takeTag s.cursor = .ok (t, c) → c.IsInside f.more :=
    fun t c => Name.takeTag_isInside h.fits.complete hrest
  exact ⟨fun t c => Name.precedes_takeTag, hinside,
    fun t c ht => Name.takeTag_extend h.fits.complete (hinside t c ht) ht,
    fun t c => Name.takeTag_ne_blockEnd⟩

theorem isLocal_takeQuoted (h : s.IsRooted n f.more) (double : Bool) :
    IsLocal f (fun c => (fun r => (.scalar r.1 false, r.2)) <$> Quoted.take double c) s.cursor := by
  have hinside : ∀ text c, Quoted.take double s.cursor = .ok (text, c) → c.IsInside f.more :=
    fun text c => Quoted.take_isInside h.fits.complete
  refine ⟨fun t c ht => ?_, fun t c ht => ?_, fun t c ht => ?_, fun t c ht => ?_⟩ <;>
    obtain ⟨⟨text, c⟩, htext, ht⟩ := map_eq_ok.mp ht <;> cases ht
  · exact Quoted.precedes_take htext
  · exact hinside text c htext
  · rw [Quoted.take_extend h.fits.complete (hinside text c htext) htext]
    rfl
  · rintro ⟨⟩

/-! ## Scalars that may end with the part -/

theorem takeBlockScalar_carries (h : s.IsRooted n f.more) {folded : Bool}
    (htake : s.takeBlockScalar folded = .ok s') : Carries n f (·.takeBlockScalar folded) s s' := by
  obtain ⟨s₁, hdrop, htake⟩ := bind_eq_ok.mp htake
  obtain ⟨⟨text, c⟩, htext, htake⟩ := bind_eq_ok.mp htake
  obtain ⟨hwithin, hrooted, hcursor⟩ := dropKey_within h hdrop
  have hprecedes := Block.precedes_take htext
  cases htake
  refine ⟨hrooted.emitTo _ ((Cursor.precedes_next _).trans hprecedes) true, ?_, fun hin => ?_, ?_⟩
  · rwa [← hcursor]
  · have hmore : Block.take folded s₁.indent (s₁.cursor.extend f.more f.index f.line) =
        .ok (text, c.extend f.more f.index f.line) :=
      Block.take_extend hrooted.fits.complete hin htext
    unfold takeBlockScalar
    rw [hwithin]
    change (Block.take folded s₁.indent (s₁.cursor.extend f.more f.index f.line) >>= _) = _
    rw [hmore]
    exact congrArg Except.ok (emitTo_within hrooted _ c true)
  · rintro ⟨⟩

theorem wordLength_pos_of_startsPlain {inFlow : Bool}
    (h : startsPlain inFlow ch rest = true) :
    ch ≠ '#' ∧ 0 < Plain.wordLength inFlow (ch :: rest) := by
  have hstart : ch ≠ '#' ∧ isGap ch = false ∧
      (ch = ':' → Plain.colonEndsAt inFlow rest = false) ∧
      (inFlow = true → (Plain.isFlowIndicator ch || ch = '?') = false) := by
    simp only [startsPlain, Bool.or_eq_true, Bool.not_eq_true', Bool.and_eq_true,
      Bool.or_eq_false_iff, decide_eq_true_eq] at h
    rcases h with ⟨hgap, hindicator⟩ | ⟨hgap, rfl | ⟨hflow, rfl | rfl⟩⟩
    · refine ⟨?_, hgap, ?_, fun _ => ?_⟩
      · rintro rfl
        exact absurd hindicator (by decide)
      · rintro rfl
        exact absurd hindicator (by decide)
      · by_contra hno
        simp only [Plain.isFlowIndicator, Bool.not_eq_false, Bool.or_eq_true,
          decide_eq_true_eq] at hno
        rcases hno with ((((rfl | rfl) | rfl) | rfl) | rfl) | rfl <;>
          exact absurd hindicator (by decide)
    · exact ⟨by decide, by decide, fun hcolon => absurd hcolon (by decide), fun _ => by decide⟩
    · exact ⟨by decide, by decide, fun hcolon => absurd hcolon (by decide),
        fun hin => absurd hin (by simp [hflow])⟩
    · exact ⟨by decide, by decide, fun _ => by simp [Plain.colonEndsAt, hgap, hflow],
        fun hin => absurd hin (by simp [hflow])⟩
  obtain ⟨hhash, hgap, hcolon, hflow⟩ := hstart
  refine ⟨hhash, ?_⟩
  unfold Plain.wordLength
  rw [if_neg]
  · exact Nat.succ_pos _
  · simp only [Bool.or_eq_true, Bool.and_eq_true, decide_eq_true_eq, not_or, not_and]
    exact ⟨⟨by simp [hgap], fun hch => by simp [hcolon hch]⟩, fun hin => by simpa using hflow hin⟩

theorem inFlow_of_saveKey (h : s.saveKey = .ok s') : s'.inFlow = s.inFlow := by
  unfold saveKey at h
  split at h
  · cases h
    rfl
  · obtain ⟨s₁, hdrop, h⟩ := bind_eq_ok.mp h
    cases h
    unfold dropKey at hdrop
    split at hdrop
    · split at hdrop
      · simp at hdrop
      · cases hdrop
        rfl
    · cases hdrop
      rfl

/-- The state after a plain scalar. -/
def endPlain (s : Scanner) (r : Plain.Taken × Cursor) : Scanner :=
  { s.emit (.scalar (String.ofList r.1.text) true) with
    cursor := r.2, keyAllowed := r.1.brokenAfter }

theorem takePlain_eq (s : Scanner) :
    s.takePlain =
      (fun s => s.endPlain (Plain.take s.inFlow s.indent s.cursor)) <$> s.saveKey := by
  unfold takePlain
  cases s.saveKey <;> rfl

theorem takePlain_carries (h : s.IsRooted n f.more) (hrest : s.cursor.rest = ch :: rest)
    (hstarts : startsPlain s.inFlow ch rest = true) (htake : s.takePlain = .ok s') :
    Carries n f takePlain s s' := by
  rw [takePlain_eq] at htake
  obtain ⟨s₁, hsave, htake⟩ := map_eq_ok.mp htake
  obtain ⟨hwithin, hrooted, hcursor⟩ := saveKey_within h (by simp [hrest]) hsave
  have hflow : s₁.inFlow = s.inFlow := inFlow_of_saveKey hsave
  obtain ⟨hhash, hword⟩ := wordLength_pos_of_startsPlain hstarts
  have hprecedes : s₁.cursor.next.Precedes (Plain.take s₁.inFlow s₁.indent s₁.cursor).2 := by
    refine Plain.next_precedes_take _ ?_
    rw [Plain.wordAt, hcursor, hrest, hflow, if_neg (by simpa using hhash)]
    exact hword
  cases htake
  refine ⟨hrooted.emitTo _ ((Cursor.precedes_next _).trans hprecedes) _, ?_, fun hin => ?_, ?_⟩
  · rwa [← hcursor]
  · have hmore : Plain.take s₁.inFlow s₁.indent (s₁.cursor.extend f.more f.index f.line) =
        ((Plain.take s₁.inFlow s₁.indent s₁.cursor).1,
          (Plain.take s₁.inFlow s₁.indent s₁.cursor).2.extend f.more f.index f.line) :=
      Plain.take_extend hrooted.fits.complete hin
    rw [takePlain_eq, hwithin]
    change Except.ok ((s₁.within f).endPlain (Plain.take (s₁.within f).inFlow s₁.indent
      (s₁.cursor.extend f.more f.index f.line))) = _
    rw [inFlow_within, hmore]
    exact congrArg Except.ok (emitTo_within hrooted _ _ _)
  · rintro ⟨⟩

/-! ## The next token -/

/-- How the token is taken that starts with a character before some text, if it is no directive and
no mark of a document. -/
def takerAt (inFlow : Bool) (ch : Char) (rest : List Char) : Scanner → Except Fault Scanner :=
  if ch = '[' then (·.takeFlowStart .flowSequenceStart)
  else if ch = '\x7b' then (·.takeFlowStart .flowMappingStart)
  else if ch = ']' then (·.takeFlowEnd .flowSequenceEnd)
  else if ch = '\x7d' then (·.takeFlowEnd .flowMappingEnd)
  else if ch = ',' then takeFlowEntry
  else if ch = '-' ∧ gapAt rest then takeBlockEntry
  else if ch = '?' ∧ (inFlow ∨ gapAt rest) then takeKey
  else if ch = ':' ∧ (inFlow ∨ gapAt rest) then takeValue
  else if ch = '*' then takeAlias
  else if ch = '&' then takeAnchor
  else if ch = '!' then takeTag
  else if ch = '|' ∧ !inFlow then (·.takeBlockScalar false)
  else if ch = '>' ∧ !inFlow then (·.takeBlockScalar true)
  else if ch = '\'' then (·.takeQuoted false)
  else if ch = '"' then (·.takeQuoted true)
  else if startsPlain inFlow ch rest then takePlain
  else fun _ => .error .malformed

theorem takeAt_eq (hstays : s.cursor.column = 0 → ch ≠ '%' ∧ s.cursor.markerAt = false) :
    s.takeAt ch rest = takerAt s.inFlow ch rest s := by
  unfold takeAt takerAt
  rw [if_neg fun hfirst => (hstays hfirst.1).1 hfirst.2,
    if_neg fun hfirst => by simp [(hstays hfirst.1).2] at hfirst]
  simp only [apply_ite (fun take : Scanner → Except Fault Scanner => take s)]

theorem takerAt_congr {rest' : List Char} (h : gapAt rest' = gapAt rest) (inFlow : Bool)
    (ch : Char) : takerAt inFlow ch rest' = takerAt inFlow ch rest := by
  unfold takerAt startsPlain
  rw [h]

/-- A token either ends inside the part or is a scalar that may end with it. -/
theorem takerAt_carries (h : s.IsRooted n f.more) (hrest : s.cursor.rest = ch :: rest)
    (htake : takerAt s.inFlow ch rest s = .ok s') :
    Carries n f (takerAt s.inFlow ch rest) s s' ∧
      (s'.cursor.IsInside f.more ∨
        (startsPlain s.inFlow ch rest = true ∧ takerAt s.inFlow ch rest = takePlain) ∨
        ((ch = '|' ∨ ch = '>') ∧ s.inFlow = false ∧
          ∃ folded, takerAt s.inFlow ch rest = (·.takeBlockScalar folded))) := by
  have hne : s.cursor.rest ≠ [] := by simp [hrest]
  have hinside {c : Cursor} (hc : c = s.cursor.next) (hch : ch ≠ '\n') : c.IsInside f.more :=
    hc ▸ Cursor.next_isInside h.fits.complete hrest hch
  let Good (take : Scanner → Except Fault Scanner) : Prop :=
    take s = .ok s' → Carries n f take s s' ∧
      (s'.cursor.IsInside f.more ∨ (startsPlain s.inFlow ch rest = true ∧ take = takePlain) ∨
        ((ch = '|' ∨ ch = '>') ∧ s.inFlow = false ∧ ∃ folded, take = (·.takeBlockScalar folded)))
  suffices hgood : Good (takerAt s.inFlow ch rest) from hgood htake
  have hindicator {take : Scanner → Except Fault Scanner} (hch : ch ≠ '\n')
      (hcarries : take s = .ok s' → Carries n f take s s' ∧ s'.cursor = s.cursor.next) :
      Good take := fun htake => (hcarries htake).imp_right fun hend => .inl (hinside hend hch)
  have hread {read : Cursor → Except Fault (Token × Cursor)} (hlocal : IsLocal f read s.cursor) :
      Good (·.takeRead read) := fun htake => (takeRead_carries h hne hlocal htake).imp_right .inl
  unfold takerAt
  refine iteInduction (fun hch => ?_) fun _ => iteInduction (fun hch => ?_) fun _ =>
    iteInduction (fun hch => ?_) fun _ => iteInduction (fun hch => ?_) fun _ =>
    iteInduction (fun hch => ?_) fun _ => iteInduction (fun hch => ?_) fun _ =>
    iteInduction (fun hch => ?_) fun _ => iteInduction (fun hch => ?_) fun _ =>
    iteInduction (fun hch => ?_) fun _ => iteInduction (fun hch => ?_) fun _ =>
    iteInduction (fun hch => ?_) fun _ => iteInduction (fun hch => ?_) fun _ =>
    iteInduction (fun hch => ?_) fun _ => iteInduction (fun hch => ?_) fun _ =>
    iteInduction (fun hch => ?_) fun _ => iteInduction (fun hch => ?_) fun _ => ?_
  · exact hindicator (by simp [hch]) (fun htake : s.takeFlowStart .flowSequenceStart = .ok s' =>
      takeFlowStart_carries h hne (by decide) htake)
  · exact hindicator (by simp [hch]) (fun htake : s.takeFlowStart .flowMappingStart = .ok s' =>
      takeFlowStart_carries h hne (by decide) htake)
  · exact hindicator (by simp [hch]) (fun htake : s.takeFlowEnd .flowSequenceEnd = .ok s' =>
      takeFlowEnd_carries h (by decide) htake)
  · exact hindicator (by simp [hch]) (fun htake : s.takeFlowEnd .flowMappingEnd = .ok s' =>
      takeFlowEnd_carries h (by decide) htake)
  · exact hindicator (by simp [hch]) (takeFlowEntry_carries h)
  · exact hindicator (by simp [hch.1]) (takeBlockEntry_carries h)
  · exact hindicator (by simp [hch.1]) (takeKey_carries h)
  · exact hindicator (by simp [hch.1]) (takeValue_carries h)
  · rw [funext takeAlias_eq]
    exact hread (isLocal_takeAnchor h hrest (by simp [hch]) .alias fun _ => by rintro ⟨⟩)
  · rw [funext takeAnchor_eq]
    exact hread (isLocal_takeAnchor h hrest (by simp [hch]) .anchor fun _ => by rintro ⟨⟩)
  · rw [hch] at hrest
    exact hread (isLocal_takeTag h hrest)
  · exact fun htake => ⟨takeBlockScalar_carries h htake,
      .inr (.inr ⟨.inl hch.1, by simpa using hch.2, false, rfl⟩)⟩
  · exact fun htake => ⟨takeBlockScalar_carries h htake,
      .inr (.inr ⟨.inr hch.1, by simpa using hch.2, true, rfl⟩)⟩
  · simp only [takeQuoted_eq]
    exact hread (isLocal_takeQuoted h false)
  · simp only [takeQuoted_eq]
    exact hread (isLocal_takeQuoted h true)
  · exact fun htake => ⟨takePlain_carries h hrest hch htake, .inr (.inl ⟨hch, rfl⟩)⟩
  · rintro ⟨⟩

end Scanner
end PubspecTidy.Yaml
