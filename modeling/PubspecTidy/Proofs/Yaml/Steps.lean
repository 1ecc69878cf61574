import PubspecTidy.Proofs.Yaml.BlockEnd
import PubspecTidy.Proofs.Yaml.PlainEnd
import PubspecTidy.Proofs.Yaml.Tokens

/-!
# Scanning a part of a text to its end

Main statement: in its place in the text, a part of the text gives the tokens that it gives alone,
and leaves the scanner at the start of the line behind it.
-/
namespace PubspecTidy.Yaml.Scanner

variable {n : Nat} {f : Frame} {s s' : Scanner} {ch : Char} {rest : List Char}

/-! ## One step -/

/-- Whether a line ends before the next thing to be seen. -/
def endsLine (c : Cursor) : Bool := c.skipSpaces.skipComment.takeBreak?.isSome

/-- The state at the next thing to be seen. -/
def seen (s : Scanner) : Scanner :=
  { s with
    cursor := s.cursor.nextSeen
    keyAllowed := s.keyAllowed || (endsLine s.cursor && !s.inFlow) }

theorem skipGap_eq (fuel : Nat) (s : Scanner) (hfuel : s.cursor.rest.length < fuel) :
    skipGap fuel s = s.seen := by
  induction fuel generalizing s with
  | zero => omega
  | succ fuel ih =>
    unfold skipGap seen endsLine
    dsimp only
    cases hbreak : s.cursor.skipSpaces.skipComment.takeBreak? with
    | none =>
      rw [Cursor.nextSeen_of_no_break hbreak]
      simp
    | some t =>
      have hlt := Cursor.length_lt_of_lineEnd hbreak
      have hrec := ih { s with cursor := t.2, keyAllowed := s.keyAllowed || !s.inFlow }
        (by dsimp only; omega)
      rw [Cursor.nextSeen_of_break hbreak]
      dsimp only
      rw [hrec]
      have hflow : Scanner.inFlow
          { s with cursor := t.2, keyAllowed := s.keyAllowed || !s.inFlow } = s.inFlow := rfl
      unfold seen
      dsimp only
      rw [hflow]
      cases s.keyAllowed <;> cases s.inFlow <;> simp

/-- The token at the next thing to be seen. -/
def takeSeen (s : Scanner) : Except Fault Scanner :=
  let s := s.closeBlocks s.cursor.column
  match s.cursor.rest with
  | [] => s.takeEnd
  | ch :: rest => s.takeAt ch rest

theorem step_eq (s : Scanner) : s.step = s.seen.dropStaleKeys >>= takeSeen := by
  unfold step
  rw [skipGap_eq _ _ (Nat.lt_succ_self _)]
  rfl

theorem seen_within (h : s.IsRooted n f.more) (hin : s.cursor.nextSeen.IsInside f.more) :
    (s.within f).seen = s.seen.within f := by
  have hcomplete := h.fits.complete
  have hblanks : s.cursor.skipSpaces.skipComment.IsInside f.more := by
    refine Cursor.Precedes.isInside ?_ hin
    rw [Cursor.nextSeen_eq]
    split
    · rename_i hbreak
      exact (Cursor.precedes_next _).trans
        ((Cursor.precedes_takeBreak? hbreak).trans (Cursor.precedes_nextSeen _))
    · exact .refl _
  have hline : endsLine (s.cursor.extend f.more f.index f.line) = endsLine s.cursor := by
    unfold endsLine
    rw [Cursor.skipBlanks_extend hcomplete hblanks, Cursor.takeBreak?_extend
      ((Cursor.precedes_skipBlanks _).isComplete hcomplete) hblanks]
    cases s.cursor.skipSpaces.skipComment.takeBreak? <;> rfl
  unfold seen
  rw [inFlow_within]
  simp only [within, Cursor.nextSeen_extend hcomplete hin, hline]

theorem IsRooted.seen (h : s.IsRooted n f.more) : s.seen.IsRooted n f.more :=
  (h.move (Cursor.precedes_nextSeen s.cursor)).withKeys fun _ hk => hk

theorem closeBlocks_cursor (s : Scanner) (column : Int) :
    (s.closeBlocks column).cursor = s.cursor := by
  unfold closeBlocks
  split <;> rfl

/-- A step at something to be seen takes the same token in a part and in the whole text. -/
theorem step_within (h : s.IsRooted n f.more) (hrest : s.cursor.nextSeen.rest = ch :: rest)
    (hstep : s.step = .ok s') :
    ∃ s₁ : Scanner, s₁.IsRooted n f.more ∧ s₁.cursor = s.cursor.nextSeen ∧
      takerAt s₁.inFlow ch rest s₁ = .ok s' ∧
      (s.within f).step = takerAt s₁.inFlow ch rest (s₁.within f) := by
  rw [step_eq] at hstep
  obtain ⟨s₀, hdrop, hstep⟩ := bind_eq_ok.mp hstep
  have hin : s.cursor.nextSeen.IsInside f.more := .inr (by simp [hrest])
  obtain ⟨hwithin₀, hrooted₀, hcursor₀⟩ := dropStaleKeys_within h.seen hdrop
  have hcursor₀' : s₀.cursor = s.cursor.nextSeen := hcursor₀
  obtain ⟨hspace, -, hbreak⟩ := Cursor.head_nextSeen hrest
  have hhead : s.cursor.nextSeen.rest.head? = some ch := by rw [hrest]; rfl
  obtain ⟨hcolumn, hstays⟩ := h.seen.fits.stays 0 ch hhead hspace hbreak
  have hcolumn' : (n : Int) ≤ (s₀.cursor.column : Int) := by
    rw [hcursor₀']
    exact Int.ofNat_le.mpr hcolumn
  obtain ⟨hclose, hrooted⟩ := closeBlocks_within hrooted₀ hcolumn'
  have hcursor : (s₀.closeBlocks s₀.cursor.column).cursor = s.cursor.nextSeen :=
    (closeBlocks_cursor s₀ _).trans hcursor₀'
  simp only [takeSeen, hcursor, hrest] at hstep
  have hstays₁ : (s₀.closeBlocks s₀.cursor.column).cursor.column = 0 →
      ch ≠ '%' ∧ (s₀.closeBlocks s₀.cursor.column).cursor.markerAt = false := by
    rw [hcursor]
    exact hstays
  have hgap : gapAt (rest ++ f.more) = gapAt rest := by
    have htail := (h.seen.fits.complete).tail_ne_nil hrest fun heq => by simp [heq, isBreak] at hbreak
    rcases htail with hmore | hne
    · rw [hmore, List.append_nil]
    · exact gapAt_append hne _
  refine ⟨s₀.closeBlocks s₀.cursor.column, hrooted, hcursor, ?_, ?_⟩
  · rw [← takeAt_eq hstays₁]
    exact hstep
  · have hrest' : (Scanner.within f (s₀.closeBlocks s₀.cursor.column)).cursor.rest =
        ch :: (rest ++ f.more) := by
      change (s₀.closeBlocks s₀.cursor.column).cursor.rest ++ f.more = _
      rw [hcursor, hrest, List.cons_append]
    have hmarker : (Scanner.within f (s₀.closeBlocks s₀.cursor.column)).cursor.markerAt =
        (s₀.closeBlocks s₀.cursor.column).cursor.markerAt :=
      Cursor.markerAt_extend hrooted.fits.complete (by rwa [hcursor])
    rw [step_eq, seen_within h hin, hwithin₀]
    change takeSeen (s₀.within f) = _
    have hcolumn₀ : (s₀.within f).cursor.column = s₀.cursor.column := rfl
    simp only [takeSeen, hcolumn₀, ← hclose, hrest']
    rw [takeAt_eq (by rw [hmarker]; exact hstays₁), inFlow_within, takerAt_congr hgap]

/-! ## Closing blocks -/

theorem closeFrom_deeper {column indent i : Int} {outers rest inner : List Int}
    (hdeep : ∀ j ∈ inner, column < j) (hstack : indent :: outers = inner ++ i :: rest)
    (tokens : List Token) :
    closeFrom column indent outers tokens =
      closeFrom column i rest (List.replicate inner.length Token.blockEnd ++ tokens) := by
  induction inner generalizing indent outers tokens with
  | nil =>
    obtain ⟨rfl, rfl⟩ := List.cons.inj hstack
    rfl
  | cons j inner ih =>
    rw [List.cons_append] at hstack
    obtain ⟨rfl, rfl⟩ := List.cons.inj hstack
    obtain ⟨o, os, hos⟩ : ∃ o os, inner ++ i :: rest = o :: os := by
      cases inner with
      | nil => exact ⟨_, _, rfl⟩
      | cons o inner => exact ⟨_, _, rfl⟩
    rw [hos, closeFrom, if_pos (hdeep indent List.mem_cons_self),
      ih (fun k hk => hdeep k (List.mem_cons_of_mem _ hk)) hos.symm, List.length_cons,
      List.replicate_succ', List.append_assoc]
    rfl

theorem closeFrom_cons (column indent outer : Int) (outers : List Int) (tokens : List Token) :
    closeFrom column indent (outer :: outers) tokens =
      if column < indent then closeFrom column outer outers (.blockEnd :: tokens)
      else ((indent, outer :: outers), tokens) := rfl

/-- Closing blocks in two steps. -/
theorem closeFrom_closeFrom {column column' : Int} (hle : column' ≤ column) (indent : Int)
    (outers : List Int) (tokens : List Token) :
    closeFrom column' (closeFrom column indent outers tokens).1.1
        (closeFrom column indent outers tokens).1.2 (closeFrom column indent outers tokens).2 =
      closeFrom column' indent outers tokens := by
  induction outers generalizing indent tokens with
  | nil => rfl
  | cons outer outers ih =>
    by_cases hlt : column < indent
    · rw [closeFrom_cons column, closeFrom_cons column', if_pos hlt, if_pos (by omega)]
      exact ih outer (.blockEnd :: tokens)
    · rw [closeFrom_cons column, if_neg hlt]

/-! ## The end of a part -/

/-- The state at the start of a line of a block. -/
def atLine (c : Cursor) (tokens : List Token) (indent : Int) (outer : List Int) : Scanner where
  cursor := c
  tokens := tokens
  indent := indent
  outerIndents := outer
  keyAllowed := true
  key := none
  outerKeys := []
  done := false

theorem run_of_done (hdone : s.done = true) (fuel : Nat) :
    run (fuel + 1) s = ⟨s.tokens.reverse, none⟩ := by
  unfold run
  rw [if_pos hdone]

theorem run_of_step (hdone : s.done = false) (hstep : (s.step >>= dropStaleKeys) = .ok s')
    (fuel : Nat) : run (fuel + 1) s = run fuel s' := by
  conv =>
    lhs
    unfold run
  rw [if_neg (by simp [hdone]), hstep]

/-- A run without a fault starts with a step without a fault. -/
theorem exists_step_of_run (hdone : s.done = false) {fuel : Nat} {tokens : List Token}
    (hrun : run fuel s = ⟨tokens, none⟩) :
    ∃ fuel' s', fuel = fuel' + 1 ∧ (s.step >>= dropStaleKeys) = .ok s' ∧
      run fuel' s' = ⟨tokens, none⟩ := by
  cases fuel with
  | zero => cases hrun
  | succ fuel =>
    cases hstep : s.step >>= dropStaleKeys with
    | ok s' => exact ⟨fuel, s', rfl, rfl, (run_of_step hdone hstep fuel).symm.trans hrun⟩
    | error e =>
      unfold run at hrun
      rw [if_neg (by simp [hdone]), hstep] at hrun
      cases hrun

theorem dropStaleKeys_of_no_keys (hkey : s.key = none) (houter : s.outerKeys = []) :
    s.dropStaleKeys = .ok s := by
  unfold dropStaleKeys
  rw [houter, hkey]
  change Except.ok { s with key := none, outerKeys := [] } = _
  rw [← houter, ← hkey]

theorem closeBlocks_of_block (houter : s.outerKeys = []) (column : Int) :
    s.closeBlocks column =
      { s with
        indent := (closeFrom column s.indent s.outerIndents s.tokens).1.1
        outerIndents := (closeFrom column s.indent s.outerIndents s.tokens).1.2
        tokens := (closeFrom column s.indent s.outerIndents s.tokens).2 } := by
  unfold closeBlocks
  rw [if_neg (by simp [inFlow, houter])]

/-- A key that does not have to be one is no fault at the end. -/
theorem dropKey_of_free (hfree : ∀ k, s.key = some k → k.required = false) :
    s.dropKey = .ok { s with key := none } := by
  unfold dropKey
  cases hkey : s.key with
  | none =>
    dsimp only
    rw [← hkey]
  | some k =>
    dsimp only
    rw [if_neg (by simp [hfree k hkey])]

theorem takeEnd_of_free (houter : s.outerKeys = [])
    (hfree : ∀ k, s.key = some k → k.required = false) :
    s.takeEnd = .ok { s with
      indent := (closeFrom (-1) s.indent s.outerIndents s.tokens).1.1
      outerIndents := (closeFrom (-1) s.indent s.outerIndents s.tokens).1.2
      tokens := .streamEnd :: (closeFrom (-1) s.indent s.outerIndents s.tokens).2
      key := none
      done := true } := by
  unfold takeEnd
  rw [closeBlocks_of_block houter]
  generalize closeFrom (-1) s.indent s.outerIndents s.tokens = closed
  have hdrop := dropKey_of_free (s := { s with
    indent := closed.1.1, outerIndents := closed.1.2, tokens := closed.2 }) hfree
  rw [hdrop]
  rfl

theorem eq_of_dropStaleKeys (h : s.dropStaleKeys = .ok s') :
    s' = { s with key := s'.key, outerKeys := s'.outerKeys } := by
  obtain ⟨keys, -, h⟩ := bind_eq_ok.mp h
  obtain ⟨key, -, h⟩ := bind_eq_ok.mp h
  cases h
  rfl

/-- At the end of the text, all blocks are closed. -/
theorem run_at_end (hdone : s.done = false) (hend : s.cursor.nextSeen.rest = []) {s₀ : Scanner}
    (hdrop : s.seen.dropStaleKeys = .ok s₀) (houter : s₀.outerKeys = [])
    (hfree : ∀ k, s₀.key = some k → k.required = false) (fuel : Nat) :
    run (fuel + 2) s =
      ⟨(.streamEnd :: (closeFrom (-1) s.indent s.outerIndents s.tokens).2).reverse, none⟩ := by
  have hs₀ := eq_of_dropStaleKeys hdrop
  have hcursor : s₀.cursor = s.cursor.nextSeen := by rw [hs₀]; rfl
  have hclosed := closeBlocks_of_block houter s₀.cursor.column
  have htake : takeSeen s₀ = (s₀.closeBlocks s₀.cursor.column).takeEnd := by
    have hrest : (s₀.closeBlocks s₀.cursor.column).cursor.rest = [] := by
      rw [closeBlocks_cursor, hcursor, hend]
    simp only [takeSeen, hrest]
  have htakeEnd := takeEnd_of_free (s := s₀.closeBlocks s₀.cursor.column)
    (by rw [hclosed]; exact houter) (by rw [hclosed]; exact hfree)
  obtain ⟨s₁, hstep, hkey₁, houter₁, hdone₁, htokens₁⟩ : ∃ s₁, s.step = .ok s₁ ∧ s₁.key = none ∧
      s₁.outerKeys = [] ∧ s₁.done = true ∧
      s₁.tokens = .streamEnd :: (closeFrom (-1) s.indent s.outerIndents s.tokens).2 := by
    have hstep : s.step = (s₀.closeBlocks s₀.cursor.column).takeEnd := by
      rw [step_eq, hdrop]
      exact htake
    rw [htakeEnd] at hstep
    refine ⟨_, hstep, rfl, ?_, rfl, ?_⟩
    · rw [hclosed]
      exact houter
    · have hcolumn : (-1 : Int) ≤ (s₀.cursor.column : Int) := by omega
      have hindent : s₀.indent = s.indent := by rw [hs₀]; rfl
      have hindents : s₀.outerIndents = s.outerIndents := by rw [hs₀]; rfl
      have htokens : s₀.tokens = s.tokens := by rw [hs₀]; rfl
      rw [hclosed]
      dsimp only
      rw [closeFrom_closeFrom hcolumn, hindent, hindents, htokens]
  have hrun := run_of_step (s := s) hdone (by
    rw [hstep]
    exact dropStaleKeys_of_no_keys hkey₁ houter₁) (fuel + 1)
  rw [hrun, run_of_done hdone₁, htokens₁]

theorem dropKey_eq_ok (h : s.dropKey = .ok s') :
    s' = { s with key := none } ∧ ∀ k, s.key = some k → k.required = false := by
  unfold dropKey at h
  cases hkey : s.key with
  | none =>
    rw [hkey] at h
    cases h
    exact ⟨by rw [← hkey], fun k hk => by simp at hk⟩
  | some k =>
    simp only [hkey] at h
    split at h
    · simp at h
    · rename_i hfree
      cases h
      exact ⟨rfl, fun k' hk' => by simpa [← Option.some.inj hk'] using hfree⟩

/-- What a run that ends at once says about its last state, if a block was open there. -/
theorem tokens_of_run_at_end (hdone : s.done = false) (hend : s.cursor.nextSeen.rest = [])
    (hhead : s.tokens.head? ≠ some .blockEnd) {fuel : Nat} {tokens ts : List Token}
    (hrun : run fuel s = ⟨tokens, none⟩)
    (htokens : tokens.reverse = .streamEnd :: .blockEnd :: ts) :
    ∃ s₀, s.seen.dropStaleKeys = .ok s₀ ∧ s₀.outerKeys = [] ∧
      (∀ k, s₀.key = some k → k.required = false) ∧
      (closeFrom (-1) s.indent s.outerIndents s.tokens).2 = .blockEnd :: ts := by
  obtain ⟨fuel, s₂, rfl, hsteps, hrun⟩ := exists_step_of_run hdone hrun
  obtain ⟨s', hstep, hdrop₂⟩ := bind_eq_ok.mp hsteps
  rw [step_eq] at hstep
  obtain ⟨s₀, hdrop, htake⟩ := bind_eq_ok.mp hstep
  have hs₀ := eq_of_dropStaleKeys hdrop
  have hcursor : s₀.cursor = s.cursor.nextSeen := by rw [hs₀]; rfl
  have hrest : (s₀.closeBlocks s₀.cursor.column).cursor.rest = [] := by
    rw [closeBlocks_cursor, hcursor, hend]
  simp only [takeSeen, hrest] at htake
  obtain ⟨sk, hkey, htake⟩ := bind_eq_ok.mp htake
  obtain ⟨hsk, hfree⟩ := dropKey_eq_ok hkey
  cases htake
  have hs₂ := eq_of_dropStaleKeys hdrop₂
  have hend₂ : tokens.reverse = .streamEnd :: sk.tokens := by
    have hdone₂ : s₂.done = true := by rw [hs₂]
    cases fuel with
    | zero => cases hrun
    | succ fuel =>
      rw [run_of_done hdone₂] at hrun
      have htokens₂ : s₂.tokens.reverse = tokens := congrArg Scanned.tokens hrun
      rw [← htokens₂, List.reverse_reverse, hs₂]
      rfl
  have hsk' : sk.tokens = .blockEnd :: ts := by
    rw [htokens] at hend₂
    exact (List.cons.inj hend₂).2.symm
  rw [hsk] at hsk'
  have htokens₀ : s₀.tokens = s.tokens := by rw [hs₀]; rfl
  by_cases hflow : s₀.inFlow = true
  · refine absurd ?_ hhead
    have hstay (column : Int) : s₀.closeBlocks column = s₀ := by
      unfold closeBlocks
      rw [if_pos hflow]
    rw [hstay, hstay] at hsk'
    rw [← htokens₀]
    exact congrArg List.head? hsk'
  · have houter : s₀.outerKeys = [] := by simpa [inFlow] using hflow
    have hclosed := closeBlocks_of_block houter s₀.cursor.column
    have hclosed' := closeBlocks_of_block (s := s₀.closeBlocks s₀.cursor.column)
      (by rw [hclosed]; exact houter) (-1)
    have hcolumn : (-1 : Int) ≤ (s₀.cursor.column : Int) := by omega
    have hindent : s₀.indent = s.indent := by rw [hs₀]; rfl
    have hindents : s₀.outerIndents = s.outerIndents := by rw [hs₀]; rfl
    rw [hclosed', hclosed] at hsk'
    dsimp only at hsk'
    rw [closeFrom_closeFrom hcolumn, hindent, hindents, htokens₀] at hsk'
    refine ⟨s₀, hdrop, houter, fun k hk => hfree k ?_, hsk'⟩
    rw [hclosed', hclosed]
    exact hk

theorem nil_of_mapM_dropStale {c : Cursor} {keys : List (Option PossibleKey)}
    (h : keys.mapM (dropStale c) = .ok []) : keys = [] := by
  cases keys with
  | nil => rfl
  | cons key keys =>
    rw [List.mapM_cons] at h
    obtain ⟨key', -, h⟩ := bind_eq_ok.mp h
    obtain ⟨keys', -, h⟩ := bind_eq_ok.mp h
    cases h

theorem nextSeen_eq_last {c : Cursor} (h : c.nextSeen.rest = []) : c.nextSeen = c.last := by
  rw [← (Cursor.precedes_nextSeen c).last_eq, Cursor.last_of_nil h]

/-- A key that a line end follows is given up behind the part. -/
theorem dropStale_behind {c e : Cursor} {k : PossibleKey} {key : Option PossibleKey}
    (hc : k.line < c.line) (he : (k.within f).line < e.line)
    (hdrop : dropStale c (some k) = .ok key) :
    key = none ∧ dropStale e (some (k.within f)) = .ok none := by
  unfold dropStale at hdrop ⊢
  dsimp only at hdrop ⊢
  rw [if_pos (.inl (Nat.ne_of_lt hc))] at hdrop
  rw [if_pos (.inl (Nat.ne_of_lt he))]
  split at hdrop
  · cases hdrop
  · rename_i hfree
    cases hdrop
    exact ⟨rfl, if_neg hfree⟩

theorem takeSeen_congr {t : Scanner}
    (h : s.closeBlocks s.cursor.column = t.closeBlocks t.cursor.column) :
    s.takeSeen = t.takeSeen := by
  simp only [takeSeen, h]

theorem run_congr {t : Scanner} (hs : s.done = false) (ht : t.done = false)
    (hstep : s.step = t.step) {fuel : Nat} {tokens : List Token}
    (hrun : run fuel t = ⟨tokens, none⟩) : run fuel s = ⟨tokens, none⟩ := by
  obtain ⟨fuel, t', rfl, hsteps, hrun⟩ := exists_step_of_run ht hrun
  rw [run_of_step hs (by rw [hstep, hsteps]), hrun]

/-- The place behind a part of a text. -/
def behind (f : Frame) (s : Scanner) : Cursor := s.cursor.last.extend f.more f.index f.line

theorem behind_eq_of_last {t : Scanner} (h : t.cursor.last = s.cursor.last) :
    behind f t = behind f s := by
  unfold behind
  rw [h]

theorem stack_within (h : s.IsRooted n f.more) :
    ∃ inner : List Int, s.indent :: s.outerIndents = inner ++ (n : Int) :: [-1] ∧
      (s.within f).indent :: (s.within f).outerIndents = inner ++ (n : Int) :: f.outer ∧
      ∀ i ∈ inner, (n : Int) < i := by
  obtain ⟨inner, hstack, hdeep⟩ := h.indents
  refine ⟨inner, hstack, ?_, hdeep⟩
  have hne := outerIndents_ne_nil h
  have hdrop : s.indent :: s.outerIndents.dropLast = inner ++ [(n : Int)] := by
    rw [← List.dropLast_cons_of_ne_nil hne, hstack]
    have hsplit : inner ++ [(n : Int), -1] = (inner ++ [(n : Int)]) ++ [-1] := by simp
    rw [hsplit, List.dropLast_concat]
  change s.indent :: (s.outerIndents.dropLast ++ f.outer) = _
  rw [← List.cons_append, hdrop, List.append_assoc]
  rfl

/-- At its end, a part of a text leaves no key behind. -/
theorem dropStaleKeys_behind (h : s.IsRooted n f.more) (hend : s.cursor.nextSeen.rest = [])
    {s₀ t : Scanner} (hdrop : s.seen.dropStaleKeys = .ok s₀) (houter : s₀.outerKeys = [])
    (hfree : ∀ k, s₀.key = some k → k.required = false) {a : Bool}
    (ht : t.seen = { s.within f with cursor := (behind f s).nextSeen, keyAllowed := a }) :
    ∃ key, t.seen.dropStaleKeys = .ok { t.seen with key := key, outerKeys := [] } ∧
      (∀ k, key = some k → k.required = false) ∧ (f.more ≠ [] → key = none) := by
  obtain ⟨keys, hkeys, hdrop⟩ := bind_eq_ok.mp hdrop
  obtain ⟨key, hkey, hdrop⟩ := bind_eq_ok.mp hdrop
  cases hdrop
  obtain rfl : keys = [] := houter
  have houter' : s.outerKeys = [] := nil_of_mapM_dropStale hkeys
  have hkeys' : t.seen.outerKeys = [] := by
    rw [ht]
    change s.outerKeys.map _ = []
    rw [houter', List.map_nil]
  have hkey' : t.seen.key = s.key.map (PossibleKey.within f) := by rw [ht]; rfl
  have hcursor : t.seen.cursor = (behind f s).nextSeen := by rw [ht]
  have hlast : s.seen.cursor = s.cursor.last := nextSeen_eq_last hend
  suffices hdropped : ∃ key', dropStale t.seen.cursor t.seen.key = .ok key' ∧
      (∀ k, key' = some k → k.required = false) ∧ (f.more ≠ [] → key' = none) by
    obtain ⟨key', hdropped, hfree', hnone⟩ := hdropped
    refine ⟨key', ?_, hfree', hnone⟩
    unfold dropStaleKeys
    rw [hkeys', hdropped]
    rfl
  rw [hcursor, hkey']
  by_cases hmore : f.more = []
  · have hbehind : (behind f s).nextSeen = s.cursor.last.extend f.more f.index f.line := by
      have hrest : (behind f s).rest = [] := by
        change s.cursor.last.rest ++ f.more = []
        rw [Cursor.rest_last, hmore]
        rfl
      have hnil : (behind f s).nextSeen.rest = [] := by
        have hle := (Cursor.precedes_nextSeen (behind f s)).length_le
        rw [hrest] at hle
        exact List.eq_nil_of_length_eq_zero (Nat.le_zero.mp hle)
      rw [nextSeen_eq_last hnil, Cursor.last_of_nil hrest]
      rfl
    refine ⟨key.map (PossibleKey.within f), ?_, fun k hk => ?_, fun hno => absurd hmore hno⟩
    · rw [hbehind, dropStale_within, ← hlast]
      change (dropStale s.seen.cursor s.seen.key).map _ = _
      rw [hkey]
      rfl
    · obtain ⟨k₀, hk₀, rfl⟩ := Option.map_eq_some_iff.mp hk
      exact hfree k₀ hk₀
  · refine ⟨none, ?_, fun k hk => by simp at hk, fun _ => rfl⟩
    cases hk : s.key with
    | none => rfl
    | some k =>
      have hline := (h.lines k (hk ▸ List.mem_cons_self)).resolve_left hmore
      have hdropped : dropStale s.seen.cursor (some k) = .ok key := by
        rw [← hk]
        exact hkey
      refine (dropStale_behind ?_ ?_ hdropped).2
      · rwa [hlast]
      · have hmono : (behind f s).line ≤ (behind f s).nextSeen.line := by
          obtain ⟨j, hj⟩ := Cursor.precedes_nextSeen (behind f s)
          rw [hj]
          exact Cursor.line_le_skip j _
        refine Nat.lt_of_lt_of_le ?_ hmono
        change k.line + f.line < s.cursor.last.line + f.line
        omega

/-- The state at the line behind a part that has given some tokens. -/
def lineBehind (n : Nat) (f : Frame) (ts : List Token) (s : Scanner) : Scanner :=
  atLine (behind f s) (ts ++ f.tokens) n f.outer

theorem seen_atLine (c : Cursor) (tokens : List Token) (indent : Int) (outer : List Int) :
    (atLine c tokens indent outer).seen = atLine c.nextSeen tokens indent outer := rfl

theorem dropStaleKeys_atLine (c : Cursor) (tokens : List Token) (indent : Int)
    (outer : List Int) :
    (atLine c tokens indent outer).dropStaleKeys = .ok (atLine c tokens indent outer) :=
  dropStaleKeys_of_no_keys rfl rfl

/-- The tokens that close the blocks inside a part come at its end. -/
theorem closed_within (h : s.IsRooted n f.more) {ts : List Token} {first : Token}
    (hclose : (closeFrom (-1) s.indent s.outerIndents s.tokens).2 =
      .blockEnd :: (ts ++ [first])) {column : Int} (hcolumn : column ≤ n) :
    closeFrom column (s.within f).indent (s.within f).outerIndents (s.within f).tokens =
      closeFrom column n f.outer (ts ++ f.tokens) := by
  obtain ⟨inner, hstack, hstack', hdeep⟩ := stack_within h
  have hdeep' : ∀ j ∈ inner, (-1 : Int) < j := fun j hj => by
    have := hdeep j hj
    omega
  have halone := closeFrom_deeper hdeep' hstack s.tokens
  rw [halone, closeFrom_cons, if_pos (by omega)] at hclose
  have htokens : List.replicate inner.length Token.blockEnd ++ s.tokens = ts ++ [first] :=
    (List.cons.inj hclose).2
  have hts : List.replicate inner.length Token.blockEnd ++ s.tokens.dropLast = ts := by
    rw [← List.dropLast_append_of_ne_nil h.tokens, htokens, List.dropLast_concat]
  have hwhole := closeFrom_deeper (fun j hj => Int.lt_of_le_of_lt hcolumn (hdeep j hj)) hstack'
    (s.within f).tokens
  rw [hwhole]
  change closeFrom column n f.outer (_ ++ (s.tokens.dropLast ++ f.tokens)) = _
  rw [← List.append_assoc, hts]

/-- At the end of a part, the run goes on as from the start of the line behind it. -/
theorem run_behind (h : s.IsRooted n f.more) (hend : s.cursor.nextSeen.rest = [])
    (hhead : s.tokens.head? ≠ some .blockEnd) {fuel : Nat} {tokens ts : List Token} {first : Token}
    (hrun : run fuel s = ⟨tokens, none⟩)
    (htokens : tokens.reverse = .streamEnd :: .blockEnd :: (ts ++ [first]))
    {t : Scanner} {a : Bool} (ha : f.more ≠ [] → a = true)
    (ht : t.seen = { s.within f with cursor := (behind f s).nextSeen, keyAllowed := a })
    (hrunning : t.done = false)
    (hnext : (behind f s).nextSeen.rest = [] ∨ (behind f s).nextSeen.column ≤ n)
    {fuel' : Nat} {all : List Token} (hbehind : run (fuel' + 2) (lineBehind n f ts s) = ⟨all, none⟩) :
    run (fuel' + 2) t = ⟨all, none⟩ := by
  obtain ⟨s₀, hdrop, houter, hfree, hclose⟩ :=
    tokens_of_run_at_end h.running hend hhead hrun htokens
  obtain ⟨key, hdrop', hfree', hnone⟩ := dropStaleKeys_behind h hend hdrop houter hfree ht
  have hcursor : t.cursor.nextSeen = (behind f s).nextSeen := by
    change t.seen.cursor = _
    rw [ht]
  have hindent : t.indent = (s.within f).indent := by
    change t.seen.indent = _
    rw [ht]
  have hindents : t.outerIndents = (s.within f).outerIndents := by
    change t.seen.outerIndents = _
    rw [ht]
  have htokens' : t.tokens = (s.within f).tokens := by
    change t.seen.tokens = _
    rw [ht]
  by_cases hrest : (behind f s).nextSeen.rest = []
  · have hline := run_at_end (s := lineBehind n f ts s) rfl hrest
      (dropStaleKeys_atLine _ _ _ _) rfl (fun k hk => by cases hk) fuel'
    rw [run_at_end hrunning (by rw [hcursor, hrest]) hdrop' rfl hfree' fuel', hindent, hindents,
      htokens', closed_within h hclose (by omega), ← hbehind, hline]
    rfl
  · have hmore : f.more ≠ [] := by
      rintro hmore
      refine hrest ?_
      have hnil : (behind f s).rest = [] := by
        change s.cursor.last.rest ++ f.more = []
        rw [Cursor.rest_last, hmore]
        rfl
      have hle := (Cursor.precedes_nextSeen (behind f s)).length_le
      rw [hnil] at hle
      exact List.eq_nil_of_length_eq_zero (Nat.le_zero.mp hle)
    have hcolumn := hnext.resolve_left hrest
    refine run_congr hrunning rfl ?_ hbehind
    rw [step_eq, step_eq, hdrop', hnone hmore]
    change takeSeen { t.seen with key := none, outerKeys := [] } =
      takeSeen (atLine (behind f s).nextSeen (ts ++ f.tokens) n f.outer)
    refine takeSeen_congr ?_
    rw [closeBlocks_of_block rfl, closeBlocks_of_block rfl]
    have hclosed := closed_within h hclose
      (Int.ofNat_le.mpr hcolumn : ((behind f s).nextSeen.column : Int) ≤ n)
    have hdone : (s.within f).done = false := h.running
    simp only [ht, hclosed, ha hmore, hdone, atLine]

/-! ## A whole part -/

/-- A run from the first state comes to the second one, with as much fuel left as the text there
needs. -/
def Reaches (s t : Scanner) : Prop :=
  ∃ k, k + t.cursor.rest.length ≤ s.cursor.rest.length ∧
    ∀ fuel tokens, run (fuel + 2) t = ⟨tokens, none⟩ → run (fuel + 2 + k) s = ⟨tokens, none⟩

theorem Reaches.trans {t u : Scanner} (h : Reaches s t) (h' : Reaches t u) : Reaches s u := by
  obtain ⟨k, hk, hrun⟩ := h
  obtain ⟨j, hj, hrun'⟩ := h'
  refine ⟨j + k, by omega, fun fuel tokens hu => ?_⟩
  have ht := hrun' fuel tokens hu
  rw [Nat.add_right_comm] at ht
  have hs := hrun (fuel + j) tokens ht
  rwa [show fuel + j + 2 + k = fuel + 2 + (j + k) by omega] at hs

theorem Reaches.of_step {t : Scanner} (hs : s.done = false)
    (hstep : (s.step >>= dropStaleKeys) = .ok t)
    (hlt : t.cursor.rest.length < s.cursor.rest.length) : Reaches s t := by
  refine ⟨1, by omega, fun fuel tokens ht => ?_⟩
  rw [run_of_step hs hstep, ht]

/-- Nothing from here on is a block scalar. -/
def NoBlock (c : Cursor) : Prop :=
  ∀ k, (c.skip k).rest.head? = some '|' ∨ (c.skip k).rest.head? = some '>' →
    ∀ folded indent r, Block.take folded indent (c.skip k) ≠ .ok r

theorem noBlock_of_not_mem {P : List Char} (hliteral : '|' ∉ P) (hfolded : '>' ∉ P) :
    NoBlock (Cursor.ofText P) := by
  intro k hk
  have hmem : ∀ ch, ((Cursor.ofText P).skip k).rest.head? = some ch → ch ∈ P := by
    intro ch hch
    rw [Cursor.rest_skip] at hch
    exact List.mem_of_mem_drop (List.mem_of_mem_head? hch)
  rcases hk with hk | hk
  · exact absurd (hmem _ hk) hliteral
  · exact absurd (hmem _ hk) hfolded

theorem NoBlock.move {c c' : Cursor} (h : NoBlock c) (hc : c.Precedes c') : NoBlock c' := by
  obtain ⟨j, rfl⟩ := hc
  intro k hk
  rw [← Cursor.skip_add] at hk ⊢
  exact h (j + k) hk

theorem nextSeen_behind (h : s.IsRooted n f.more) (hend : s.cursor.nextSeen.rest = []) :
    (s.cursor.extend f.more f.index f.line).nextSeen = (behind f s).nextSeen := by
  by_cases hmore : f.more = []
  · rw [Cursor.nextSeen_extend h.fits.complete (.inl hmore), nextSeen_eq_last hend]
    have hrest : (behind f s).rest = [] := by
      change s.cursor.last.rest ++ f.more = []
      rw [Cursor.rest_last, hmore]
      rfl
    have hnil : (behind f s).nextSeen.rest = [] := by
      have hle := (Cursor.precedes_nextSeen (behind f s)).length_le
      rw [hrest] at hle
      exact List.eq_nil_of_length_eq_zero (Nat.le_zero.mp hle)
    rw [nextSeen_eq_last hnil, Cursor.last_of_nil hrest]
    rfl
  · exact Cursor.nextSeen_extend_last h.fits.complete hmore hend

/-- A gap up to the end of a part has a line end. -/
theorem endsLine_of_end (h : s.IsRooted n f.more) (hmore : f.more ≠ [])
    (hne : s.cursor.rest ≠ []) (hend : s.cursor.nextSeen.rest = []) :
    endsLine (s.cursor.extend f.more f.index f.line) = true := by
  have hblanks := Cursor.skipBlanks_isInside h.fits.complete (.inr hne)
  have hcomplete := (Cursor.precedes_skipBlanks s.cursor).isComplete h.fits.complete
  unfold endsLine
  rw [Cursor.skipBlanks_extend h.fits.complete hblanks, Cursor.takeBreak?_extend hcomplete hblanks]
  cases hbreak : s.cursor.skipSpaces.skipComment.takeBreak? with
  | some t => rfl
  | none =>
    rw [Cursor.nextSeen_of_no_break hbreak] at hend
    exact absurd hend (hblanks.resolve_left hmore)

/-- A scalar that goes up to the end of a part and stops in the gap behind it leaves no key. -/
theorem dropStaleKeys_past (h : s.IsRooted n f.more) (hmore : f.more ≠ [])
    (hrest : s.cursor.rest = []) (hdrop : s.dropStaleKeys = .ok s') (houter : s'.outerKeys = [])
    {d : Cursor} (hd : (behind f s).Precedes d) :
    dropStaleKeys { s.within f with cursor := d } = .ok { s'.within f with cursor := d } := by
  obtain ⟨keys, hkeys, hdrop⟩ := bind_eq_ok.mp hdrop
  obtain ⟨key, hkey, hdrop⟩ := bind_eq_ok.mp hdrop
  cases hdrop
  obtain rfl : keys = [] := houter
  have houter' : s.outerKeys = [] := nil_of_mapM_dropStale hkeys
  have hkeys' : (s.within f).outerKeys = [] := by
    change s.outerKeys.map _ = []
    rw [houter', List.map_nil]
  have hdropped : dropStale d (s.key.map (PossibleKey.within f)) = .ok none ∧ key = none := by
    cases hk : s.key with
    | none =>
      rw [hk] at hkey
      exact ⟨rfl, (Except.ok.inj hkey).symm⟩
    | some k =>
      have hline := (h.lines k (hk ▸ List.mem_cons_self)).resolve_left hmore
      rw [hk] at hkey
      refine (dropStale_behind ?_ ?_ hkey).symm
      · rwa [Cursor.last_of_nil hrest] at hline
      · obtain ⟨j, rfl⟩ := hd
        refine Nat.lt_of_lt_of_le ?_ (Cursor.line_le_skip j _)
        change k.line + f.line < s.cursor.last.line + f.line
        omega
  obtain ⟨hdropped, rfl⟩ := hdropped
  unfold dropStaleKeys
  have hkey' : (s.within f).key = s.key.map (PossibleKey.within f) := rfl
  simp only [hkeys', hkey', hdropped]
  rfl

theorem outerKeys_of_dropStaleKeys (h : s.dropStaleKeys = .ok s') (houter : s'.outerKeys = []) :
    s.outerKeys = [] := by
  obtain ⟨keys, hkeys, h⟩ := bind_eq_ok.mp h
  obtain ⟨key, -, h⟩ := bind_eq_ok.mp h
  cases h
  obtain rfl : keys = [] := houter
  exact nil_of_mapM_dropStale hkeys

/-- A plain scalar up to the end of a part stops in the gap behind it. -/
theorem takePlain_behind (h : s.IsRooted n f.more) (hne : s.cursor.rest ≠ []) (hmore : f.more ≠ [])
    (hflow : s.inFlow = false) (htake : s.takePlain = .ok s') (hend : s'.cursor.rest = [])
    (hnext : (behind f s).nextSeen.rest = [] ∨ (behind f s).nextSeen.column ≤ n) :
    s'.keyAllowed = true ∧ ∃ d, Cursor.Blank (behind f s) d ∧
      (s.within f).takePlain = .ok { s'.within f with cursor := d } := by
  rw [takePlain_eq] at htake
  obtain ⟨s₁, hsave, htake⟩ := map_eq_ok.mp htake
  obtain ⟨hwithin, hrooted, hcursor⟩ := saveKey_within h hne hsave
  have hflow₁ : s₁.inFlow = false := (inFlow_of_saveKey hsave).trans hflow
  cases htake
  rw [hflow₁] at hend
  have hindent := le_indent hrooted
  have hbehind : s₁.cursor.last.extend f.more f.index f.line = behind f s := by
    unfold behind
    rw [hcursor]
  obtain ⟨hbroken, d, hblank, hwhole⟩ := @Plain.take_extend_last f.more f.index f.line _ _
    hrooted.fits.complete hmore (by rwa [hcursor]) hend (by
      rw [hbehind]
      exact hnext.imp_right fun hcolumn => Int.le_trans (Int.ofNat_le.mpr hcolumn) hindent)
  rw [hbehind] at hblank
  refine ⟨?_, d, hblank, ?_⟩
  · change (Plain.take s₁.inFlow s₁.indent s₁.cursor).1.brokenAfter = true
    rwa [hflow₁]
  · rw [takePlain_eq, hwithin]
    change Except.ok ((s₁.within f).endPlain (Plain.take (s₁.within f).inFlow s₁.indent
      (s₁.cursor.extend f.more f.index f.line))) = _
    rw [inFlow_within, hflow₁, hwhole]
    simp only [endPlain, within, emit, List.dropLast_cons_of_ne_nil hrooted.tokens,
      List.cons_append]

/-- A block scalar up to the end of a part stops there, if something is to be seen at once. -/
theorem takeBlockScalar_behind (h : s.IsRooted n f.more) (hseen : Block.IsSeen f.more)
    (hin : s.cursor.next.IsInside f.more) (hlast : s.cursor.rest.getLast? = some '\n')
    {folded : Bool} (htake : s.takeBlockScalar folded = .ok s') :
    s'.keyAllowed = true ∧ (s.within f).takeBlockScalar folded = .ok (s'.within f) := by
  obtain ⟨s₁, hdrop, htake⟩ := bind_eq_ok.mp htake
  obtain ⟨⟨text, c⟩, htext, htake⟩ := bind_eq_ok.mp htake
  obtain ⟨hwithin, hrooted, hcursor⟩ := dropKey_within h hdrop
  cases htake
  refine ⟨rfl, ?_⟩
  have hmore : Block.take folded s₁.indent (s₁.cursor.extend f.more f.index f.line) =
      .ok (text, c.extend f.more f.index f.line) :=
    Block.take_extend_seen hseen hrooted.fits.complete (by rwa [hcursor]) (by rwa [hcursor]) htext
  unfold takeBlockScalar
  rw [hwithin]
  change (Block.take folded s₁.indent (s₁.cursor.extend f.more f.index f.line) >>= _) = _
  rw [hmore]
  exact congrArg Except.ok (emitTo_within hrooted _ c true)

theorem not_takeBlockScalar (h : s.IsRooted n f.more) (hno : NoBlock s.cursor)
    (hch : s.cursor.rest.head? = some '|' ∨ s.cursor.rest.head? = some '>') (folded : Bool) :
    s.takeBlockScalar folded ≠ .ok s' := by
  intro htake
  obtain ⟨s₁, hdrop, htake⟩ := bind_eq_ok.mp htake
  obtain ⟨⟨text, c⟩, htext, -⟩ := bind_eq_ok.mp htake
  obtain ⟨-, -, hcursor⟩ := dropKey_within h hdrop
  rw [hcursor] at htext
  exact hno 0 hch _ _ _ htext

theorem inFlow_of_outerKeys (h : s.outerKeys = []) : s.inFlow = false := by
  unfold inFlow
  rw [h]
  rfl

theorem inFlow_of_takePlain (h : s.takePlain = .ok s') : s'.inFlow = s.inFlow := by
  rw [takePlain_eq] at h
  obtain ⟨s₁, hsave, h⟩ := map_eq_ok.mp h
  rw [← inFlow_of_saveKey hsave]
  cases h
  rfl

/-- A token up to the end of a part is a scalar that stops in the gap behind it. -/
theorem takerAt_behind (h : s.IsRooted n f.more) (hmore : f.more ≠ [])
    (hrest : s.cursor.rest = ch :: rest) (hbreak : isBreak ch = false)
    (htake : takerAt s.inFlow ch rest s = .ok s') (hend : s'.cursor.rest = [])
    (houter : s'.outerKeys = []) (hbehind : behind f s' = behind f s)
    (hnext : (behind f s).nextSeen.rest = [] ∨ (behind f s).nextSeen.column ≤ n)
    (hblock : Block.IsSeen f.more ∨ NoBlock s.cursor) :
    s'.keyAllowed = true ∧ ∃ d, Cursor.Blank (behind f s) d ∧
      takerAt s.inFlow ch rest (s.within f) = .ok { s'.within f with cursor := d } := by
  have hne : s.cursor.rest ≠ [] := by simp [hrest]
  have hout : ¬ s'.cursor.IsInside f.more := fun hin => hin.elim hmore fun hne' => hne' hend
  rcases (takerAt_carries h hrest htake).2.resolve_left hout with
    ⟨-, hplain⟩ | ⟨hch, -, folded, hscalar⟩
  · rw [hplain] at htake ⊢
    have hflow := (inFlow_of_takePlain htake).symm.trans (inFlow_of_outerKeys houter)
    exact takePlain_behind h hne hmore hflow htake hend hnext
  · rw [hscalar] at htake ⊢
    rcases hblock with hseen | hno
    · have hin : s.cursor.next.IsInside f.more :=
        Cursor.next_isInside h.fits.complete hrest fun heq => by simp [heq, isBreak] at hbreak
      have hlast : s.cursor.rest.getLast? = some '\n' :=
        (h.fits.complete.resolve_left hmore).resolve_left hne
      obtain ⟨hallowed, hwhole⟩ := takeBlockScalar_behind h hseen hin hlast htake
      have hcursor : (s'.within f).cursor = behind f s := by
        rw [← hbehind, behind, Cursor.last_of_nil hend]
        rfl
      refine ⟨hallowed, behind f s, .refl _, hwhole.trans ?_⟩
      rw [← hcursor]
    · refine absurd htake (not_takeBlockScalar h hno ?_ folded)
      rw [hrest]
      exact hch.imp (congrArg some) (congrArg some)

/-- Where only a gap is left of a part, the run goes on at the line behind it. -/
theorem reaches_behind_of_gap (h : s.IsRooted n f.more) (hin : s.cursor.IsInside f.more)
    (hend : s.cursor.nextSeen.rest = []) (hhead : s.tokens.head? ≠ some .blockEnd) {fuel : Nat}
    {tokens ts : List Token} {first : Token} (hrun : run fuel s = ⟨tokens, none⟩)
    (htokens : tokens.reverse = .streamEnd :: .blockEnd :: (ts ++ [first]))
    (hnext : (behind f s).nextSeen.rest = [] ∨ (behind f s).nextSeen.column ≤ n) :
    Reaches (s.within f) (lineBehind n f ts s) := by
  obtain ⟨s₀, hdrop, houter, -, -⟩ := tokens_of_run_at_end h.running hend hhead hrun htokens
  have hflow : s.inFlow = false :=
    inFlow_of_outerKeys (outerKeys_of_dropStaleKeys (s := s.seen) hdrop houter)
  have hseen : (s.within f).seen = { s.within f with
      cursor := (behind f s).nextSeen
      keyAllowed := s.keyAllowed ||
        (endsLine (s.cursor.extend f.more f.index f.line) && !s.inFlow) } := by
    have hcursor : (s.within f).cursor.nextSeen = (behind f s).nextSeen := nextSeen_behind h hend
    unfold seen
    rw [inFlow_within, hcursor]
    rfl
  refine ⟨0, ?_, fun fuel' all hbehind => ?_⟩
  · change 0 + (s.cursor.last.rest ++ f.more).length ≤ (s.cursor.rest ++ f.more).length
    rw [Cursor.rest_last]
    simp only [List.length_append, List.nil_append]
    omega
  · refine run_behind h hend hhead hrun htokens (fun hmore => ?_) hseen h.running hnext hbehind
    rw [endsLine_of_end h hmore (hin.resolve_left hmore) hend, hflow]
    simp

/-- Where a scalar goes up to the end of a part, the run goes on at the line behind it. -/
theorem reaches_behind_of_scalar (h : s.IsRooted n f.more) (hin : s.cursor.IsInside f.more)
    (hmore : f.more ≠ []) (hrooted : s'.IsRooted n f.more)
    {s₂ : Scanner} (hdrop : s'.dropStaleKeys = .ok s₂) (hnil : s₂.cursor.rest = [])
    (hhead : s₂.tokens.head? ≠ some .blockEnd) {fuel : Nat} {tokens ts : List Token}
    {first : Token} (hrun : run fuel s₂ = ⟨tokens, none⟩)
    (htokens : tokens.reverse = .streamEnd :: .blockEnd :: (ts ++ [first]))
    (hbehind : behind f s₂ = behind f s)
    (hnext : (behind f s).nextSeen.rest = [] ∨ (behind f s).nextSeen.column ≤ n)
    (hstep : s'.outerKeys = [] → s'.keyAllowed = true ∧ ∃ d, Cursor.Blank (behind f s) d ∧
      (s.within f).step = .ok { s'.within f with cursor := d }) :
    Reaches (s.within f) (lineBehind n f ts s) := by
  obtain ⟨hdrop', hrooted₂, hcursor₂⟩ := dropStaleKeys_within hrooted hdrop
  have hend₂ : s₂.cursor.nextSeen.rest = [] := by
    have hle := (Cursor.precedes_nextSeen s₂.cursor).length_le
    rw [hnil] at hle
    exact List.eq_nil_of_length_eq_zero (Nat.le_zero.mp hle)
  obtain ⟨s₀, hdrop₀, houter₀, -, -⟩ :=
    tokens_of_run_at_end hrooted₂.running hend₂ hhead hrun htokens
  have houter₂ : s₂.outerKeys = [] := outerKeys_of_dropStaleKeys (s := s₂.seen) hdrop₀ houter₀
  obtain ⟨hallowed, d, hblank, hstep⟩ := hstep (outerKeys_of_dropStaleKeys hdrop houter₂)
  have hbehind' : behind f s' = behind f s := by
    rw [← hbehind, behind_eq_of_last (congrArg Cursor.last hcursor₂)]
  have hpast := dropStaleKeys_past hrooted hmore (by rwa [← hcursor₂]) hdrop houter₂
    (by rw [hbehind']; exact hblank.precedes)
  have hwhole : ((s.within f).step >>= dropStaleKeys) =
      .ok { s₂.within f with cursor := d } := by
    rw [hstep]
    exact hpast
  have hallowed₂ : s₂.keyAllowed = true := by
    rw [eq_of_dropStaleKeys hdrop]
    exact hallowed
  have hseen : Scanner.seen { s₂.within f with cursor := d } =
      { s₂.within f with cursor := (behind f s₂).nextSeen, keyAllowed := true } := by
    have hallowed' : (s₂.within f).keyAllowed = true := hallowed₂
    unfold Scanner.seen
    dsimp only
    rw [hbehind, ← hblank.nextSeen_eq, hallowed', Bool.true_or]
  refine ⟨1, ?_, fun fuel' all hall => ?_⟩
  · change 1 + (s.cursor.last.rest ++ f.more).length ≤ (s.cursor.rest ++ f.more).length
    have hpos : 0 < s.cursor.rest.length :=
      List.length_pos_iff.mpr (hin.resolve_left hmore)
    rw [Cursor.rest_last]
    simp only [List.length_append, List.nil_append]
    omega
  · rw [run_of_step (s := s.within f) h.running hwhole]
    have hline : lineBehind n f ts s₂ = lineBehind n f ts s := by
      unfold lineBehind
      rw [hbehind]
    rw [← hline] at hall
    exact run_behind hrooted₂ hend₂ hhead hrun htokens (fun _ => rfl) hseen hrooted₂.running
      (by rwa [hbehind]) hall

/-- A part of a text that is a block mapping of its own gives the same tokens in the whole text, and
the run goes on at the line behind it. -/
theorem reaches_behind (h : s.IsRooted n f.more) (hin : s.cursor.IsInside f.more)
    (hhead : s.tokens.head? ≠ some .blockEnd) {fuel : Nat} {tokens ts : List Token} {first : Token}
    (hrun : run fuel s = ⟨tokens, none⟩)
    (htokens : tokens.reverse = .streamEnd :: .blockEnd :: (ts ++ [first]))
    (hnext : (behind f s).nextSeen.rest = [] ∨ (behind f s).nextSeen.column ≤ n)
    (hblock : f.more ≠ [] → Block.IsSeen f.more ∨ NoBlock s.cursor) :
    Reaches (s.within f) (lineBehind n f ts s) := by
  induction fuel generalizing s with
  | zero => cases hrun
  | succ fuel ih =>
    obtain ⟨fuel₀, s₂, hfuel, hsteps, hrun'⟩ := exists_step_of_run h.running hrun
    obtain rfl : fuel = fuel₀ := Nat.succ.inj hfuel
    by_cases hend : s.cursor.nextSeen.rest = []
    · exact reaches_behind_of_gap h hin hend hhead hrun htokens hnext
    · obtain ⟨ch, rest, hrest⟩ : ∃ ch rest, s.cursor.nextSeen.rest = ch :: rest := by
        cases hc : s.cursor.nextSeen.rest with
        | nil => exact absurd hc hend
        | cons ch rest => exact ⟨ch, rest, rfl⟩
      obtain ⟨s', hstep, hdrop⟩ := bind_eq_ok.mp hsteps
      obtain ⟨s₁, hrooted₁, hcursor₁, htake, hstep'⟩ := step_within h hrest hstep
      have hrest₁ : s₁.cursor.rest = ch :: rest := by rw [hcursor₁, hrest]
      have hcarries := (takerAt_carries hrooted₁ hrest₁ htake).1
      obtain ⟨hdrop', hrooted₂, hcursor₂⟩ := dropStaleKeys_within hcarries.rooted hdrop
      have hprecedes : s.cursor.Precedes s₂.cursor := by
        rw [hcursor₂]
        refine (Cursor.precedes_nextSeen s.cursor).trans ?_
        rw [← hcursor₁]
        exact (Cursor.precedes_next _).trans hcarries.precedes
      have hlt : s₂.cursor.rest.length < s.cursor.rest.length := by
        have hle := hcarries.precedes.length_le
        have hle' := (Cursor.precedes_nextSeen s.cursor).length_le
        rw [Cursor.length_next, hrest₁] at hle
        rw [hrest] at hle'
        rw [hcursor₂]
        simp only [List.length_cons] at hle hle'
        omega
      have hhead₂ : s₂.tokens.head? ≠ some .blockEnd := by
        rw [eq_of_dropStaleKeys hdrop]
        exact hcarries.head
      have hbehind : behind f s₂ = behind f s := behind_eq_of_last hprecedes.last_eq
      by_cases hin₂ : s₂.cursor.IsInside f.more
      · have hwhole : ((s.within f).step >>= dropStaleKeys) = .ok (s₂.within f) := by
          rw [hstep', hcarries.within (by rwa [hcursor₂] at hin₂)]
          exact hdrop'
        have hfirst : Reaches (s.within f) (s₂.within f) := by
          refine .of_step h.running hwhole ?_
          change (s₂.cursor.rest ++ f.more).length < (s.cursor.rest ++ f.more).length
          simp only [List.length_append]
          omega
        have hrec := ih hrooted₂ hin₂ hhead₂ hrun' (by rwa [hbehind])
          fun hm => (hblock hm).imp_right fun hno => hno.move hprecedes
        unfold lineBehind at hrec ⊢
        rw [hbehind] at hrec
        exact hfirst.trans hrec
      · have hmore : f.more ≠ [] := fun hnil => hin₂ (.inl hnil)
        have hnil : s₂.cursor.rest = [] := by
          by_contra hne
          exact hin₂ (.inr hne)
        have hseen : s.cursor.Precedes s₁.cursor := by
          rw [hcursor₁]
          exact Cursor.precedes_nextSeen s.cursor
        have hbehind₁ : behind f s₁ = behind f s := behind_eq_of_last hseen.last_eq
        have hbehind' : behind f s' = behind f s₁ := by
          rw [hbehind₁, ← hbehind, behind_eq_of_last (congrArg Cursor.last hcursor₂)]
        refine reaches_behind_of_scalar h hin hmore hcarries.rooted hdrop hnil hhead₂ hrun'
          htokens hbehind hnext fun houter => ?_
        rw [hstep', ← hbehind₁]
        rw [← hbehind₁] at hnext
        exact takerAt_behind hrooted₁ hmore hrest₁ (Cursor.head_nextSeen hrest).2.2 htake
          (by rwa [← hcursor₂]) houter hbehind' hnext ((hblock hmore).imp_right (·.move hseen))

end PubspecTidy.Yaml.Scanner
