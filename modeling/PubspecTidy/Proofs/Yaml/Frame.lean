import PubspecTidy.Proofs.Yaml.Block
import PubspecTidy.Proofs.Yaml.Name
import PubspecTidy.Proofs.Yaml.Plain
import PubspecTidy.Proofs.Yaml.Quoted
import PubspecTidy.Yaml.Token.Scan

/-!
# Scanning a part of a text

The part of a text that holds one entry of a block mapping can be scanned on its own: then it opens
the mapping itself. In its place in the text, other tokens come before it, and the mapping stands
in other blocks. Main statement: apart from that, a step of the scanner inside the part does the
same in both.
-/
namespace PubspecTidy.Yaml

/-- What stands around a part of a text. -/
structure Frame where
  /-- The text behind the part. -/
  more : List Char
  /-- How many characters there are before the part. -/
  index : Nat
  line : Nat
  /-- The tokens before the first key of the part, the last one first. -/
  tokens : List Token
  /-- The indentations around the mapping. -/
  outer : List Int

def PossibleKey.within (f : Frame) (k : PossibleKey) : PossibleKey where
  place := k.place - 1 + f.tokens.length
  required := k.required
  index := k.index + f.index
  line := k.line + f.line
  column := k.column

/-- What is to be seen here stands at column `n` or right of it, and starts neither a directive nor
a document. -/
def Cursor.Stays (n : Nat) (c : Cursor) : Prop :=
  ∀ ch, c.rest.head? = some ch → ch ≠ ' ' → isBreak ch = false →
    n ≤ c.column ∧ (c.column = 0 → ch ≠ '%' ∧ c.markerAt = false)

/-- Decided from the character that is to be seen, not from all characters. -/
instance (n : Nat) (c : Cursor) : Decidable (c.Stays n) :=
  decidable_of_iff ((c.rest.head?.all fun ch => decide (ch ≠ ' ' → isBreak ch = false →
      n ≤ c.column ∧ (c.column = 0 → ch ≠ '%' ∧ c.markerAt = false))) = true)
    (by simp only [Option.all_eq_true, decide_eq_true_eq, Cursor.Stays])

/-- Everything from here on stays at column `n`, and the last line is complete. -/
structure Cursor.Fits (n : Nat) (more : List Char) (c : Cursor) : Prop where
  complete : c.IsComplete more
  stays : ∀ k, (c.skip k).Stays n

theorem Cursor.Fits.move {n : Nat} {more : List Char} {c c' : Cursor} (h : c.Fits n more)
    (hc : c.Precedes c') : c'.Fits n more := by
  obtain ⟨j, rfl⟩ := hc
  refine ⟨h.complete.skip j, fun k => ?_⟩
  rw [← Cursor.skip_add]
  exact h.stays (j + k)

namespace Scanner

/-- The state in the whole text, for a state in the part alone. There the first token is the one
that opens the mapping. -/
def within (f : Frame) (s : Scanner) : Scanner where
  cursor := s.cursor.extend f.more f.index f.line
  tokens := s.tokens.dropLast ++ f.tokens
  indent := s.indent
  outerIndents := s.outerIndents.dropLast ++ f.outer
  keyAllowed := s.keyAllowed
  key := s.key.map (PossibleKey.within f)
  outerKeys := s.outerKeys.map (Option.map (PossibleKey.within f))
  done := s.done

/-- The state of a scanner that is in a mapping at column `n` of a part alone. -/
structure IsRooted (n : Nat) (more : List Char) (s : Scanner) : Prop where
  tokens : s.tokens ≠ []
  indents : ∃ inner, s.indent :: s.outerIndents = inner ++ [(n : Int), -1] ∧
    ∀ i ∈ inner, (n : Int) < i
  keys : ∀ k, some k ∈ s.key :: s.outerKeys → 1 ≤ k.place ∧ k.place ≤ s.tokens.length
  /-- A line end comes behind every possible key. -/
  lines : ∀ k, some k ∈ s.key :: s.outerKeys → more = [] ∨ k.line < s.cursor.last.line
  fits : s.cursor.Fits n more
  running : s.done = false

variable {n : Nat} {f : Frame} {s s' : Scanner}

/-! ## Tokens -/

theorem emit_within (h : s.tokens ≠ []) (t : Token) : (s.emit t).within f = (s.within f).emit t := by
  simp only [within, emit, List.dropLast_cons_of_ne_nil h, List.cons_append]

theorem IsRooted.emit (h : s.IsRooted n f.more) (t : Token) : (s.emit t).IsRooted n f.more where
  tokens := List.cons_ne_nil t s.tokens
  indents := h.indents
  keys k hk := by
    obtain ⟨hlow, hhigh⟩ := h.keys k hk
    exact ⟨hlow, hhigh.trans (Nat.le_succ _)⟩
  lines := h.lines
  fits := h.fits
  running := h.running

theorem IsRooted.move (h : s.IsRooted n f.more) {c : Cursor} (hc : s.cursor.Precedes c) :
    ({ s with cursor := c }).IsRooted n f.more where
  tokens := h.tokens
  indents := h.indents
  keys := h.keys
  lines k hk := by
    obtain ⟨j, rfl⟩ := hc
    have hlast : (s.cursor.skip j).last = s.cursor.last := Cursor.last_skip j _
    exact hlast ▸ h.lines k hk
  fits := h.fits.move hc
  running := h.running

theorem weave_within {place : Nat} (hlow : 1 ≤ place) (hhigh : place ≤ s.tokens.length)
    (new : List Token) :
    (s.weave place new).within f = (s.within f).weave (place - 1 + f.tokens.length) new := by
  have hne : s.tokens ≠ [] := by
    rintro hnil
    simp [hnil] at hhigh
    omega
  obtain ⟨ts, t, hts⟩ : ∃ ts t, s.tokens = ts ++ [t] :=
    ⟨_, _, (List.dropLast_concat_getLast hne).symm⟩
  have hlen : s.tokens.length = ts.length + 1 := by simp [hts]
  have hdrop : s.tokens.dropLast = ts := by simp [hts]
  have hlater : (ts ++ f.tokens).length - (place - 1 + f.tokens.length) =
      s.tokens.length - place := by
    rw [List.length_append]
    omega
  have hle : s.tokens.length - place ≤ ts.length := by omega
  have htokens : (s.tokens.take (s.tokens.length - place) ++ new ++
      s.tokens.drop (s.tokens.length - place)).dropLast =
        ts.take (s.tokens.length - place) ++ new ++ ts.drop (s.tokens.length - place) := by
    generalize s.tokens.length - place = later at hle
    rw [hts, List.take_append_of_le_length hle, List.drop_append_of_le_length hle,
      ← List.append_assoc, List.dropLast_concat]
  simp only [weave, within]
  rw [htokens, hdrop, hlater, List.take_append_of_le_length hle,
    List.drop_append_of_le_length hle, List.append_assoc _ _ f.tokens]

theorem IsRooted.weave (h : s.IsRooted n f.more) (place : Nat) {new : List Token} :
    (s.weave place new).IsRooted n f.more := by
  have hlen : s.tokens.length ≤ (s.weave place new).tokens.length := by
    simp only [Scanner.weave, List.length_append, List.length_take, List.length_drop]
    omega
  refine ⟨fun hnil => h.tokens ?_, h.indents, fun k hk => ?_, h.lines, h.fits, h.running⟩
  · rw [hnil, List.length_nil] at hlen
    exact List.length_eq_zero_iff.mp (by omega)
  · obtain ⟨hlow, hhigh⟩ := h.keys k hk
    exact ⟨hlow, hhigh.trans hlen⟩

/-! ## Blocks -/

/-- Closing blocks down to column `n` or deeper leaves what is around the mapping alone. -/
theorem closeFrom_within {inner : List Int} {indent : Int} {outers : List Int} {column : Int}
    (hcolumn : (n : Int) ≤ column) {tokens : List Token} (htokens : tokens ≠ [])
    (hstack : indent :: outers = inner ++ [(n : Int), -1]) (hdeep : ∀ i ∈ inner, (n : Int) < i) :
    ∃ indent' outers' tokens', closeFrom column indent outers tokens =
        ((indent', outers'), tokens') ∧
      closeFrom column indent (outers.dropLast ++ f.outer) (tokens.dropLast ++ f.tokens) =
        ((indent', outers'.dropLast ++ f.outer), tokens'.dropLast ++ f.tokens) ∧
      (∃ inner', indent' :: outers' = inner' ++ [(n : Int), -1] ∧ ∀ i ∈ inner', (n : Int) < i) ∧
      tokens' ≠ [] ∧ tokens.length ≤ tokens'.length := by
  induction inner generalizing indent outers tokens with
  | nil =>
    obtain ⟨rfl, rfl⟩ := List.cons.inj hstack
    refine ⟨n, [-1], tokens, ?_, ?_, ⟨[], rfl, hdeep⟩, htokens, Nat.le_refl _⟩
    · rw [closeFrom, if_neg (by omega)]
    · cases hf : f.outer with
      | nil => rfl
      | cons o os =>
        change closeFrom column n (o :: os) _ = _
        rw [closeFrom, if_neg (by omega)]
        rfl
  | cons i inner ih =>
    rw [List.cons_append] at hstack
    obtain ⟨rfl, rfl⟩ := List.cons.inj hstack
    obtain ⟨o, os, hos⟩ : ∃ o os, inner ++ [(n : Int), -1] = o :: os := by
      cases inner with
      | nil => exact ⟨_, _, rfl⟩
      | cons o inner => exact ⟨_, _, rfl⟩
    have hne : os ≠ [] := by
      rintro rfl
      have := congrArg List.length hos
      simp at this
    rw [hos, List.dropLast_cons_of_ne_nil hne, List.cons_append, closeFrom, closeFrom]
    by_cases hlt : column < indent
    · rw [if_pos hlt, if_pos hlt]
      obtain ⟨indent', outers', tokens', hclose, hwithin, hinner, hne', hlen⟩ :=
        ih (List.cons_ne_nil Token.blockEnd tokens) hos.symm
          fun i hi => hdeep i (List.mem_cons_of_mem _ hi)
      rw [List.dropLast_cons_of_ne_nil htokens, List.cons_append] at hwithin
      exact ⟨indent', outers', tokens', hclose, hwithin, hinner, hne', (Nat.le_succ _).trans hlen⟩
    · rw [if_neg hlt, if_neg hlt]
      refine ⟨indent, o :: os, tokens, rfl, ?_, ⟨indent :: inner, ?_, hdeep⟩, htokens,
        Nat.le_refl _⟩
      · rw [List.dropLast_cons_of_ne_nil hne]
        rfl
      · rw [← hos]
        rfl

theorem inFlow_within : (s.within f).inFlow = s.inFlow := by
  simp only [within, inFlow]
  cases s.outerKeys <;> rfl

theorem closeBlocks_within (h : s.IsRooted n f.more) {column : Int} (hcolumn : (n : Int) ≤ column) :
    (s.closeBlocks column).within f = (s.within f).closeBlocks column ∧
      (s.closeBlocks column).IsRooted n f.more := by
  unfold closeBlocks
  rw [inFlow_within]
  by_cases hflow : s.inFlow = true
  · rw [if_pos hflow, if_pos hflow]
    exact ⟨rfl, h⟩
  · obtain ⟨inner, hstack, hdeep⟩ := h.indents
    obtain ⟨indent', outers', tokens', hclose, hwithin, hinner, hne, hlen⟩ :=
      closeFrom_within (f := f) hcolumn h.tokens hstack hdeep
    rw [if_neg hflow, if_neg hflow]
    simp only [within] at hwithin ⊢
    rw [hclose, hwithin]
    refine ⟨rfl, ⟨hne, hinner, fun k hk => ?_, h.lines, h.fits, h.running⟩⟩
    obtain ⟨hlow, hhigh⟩ := h.keys k hk
    exact ⟨hlow, hhigh.trans hlen⟩

theorem outerIndents_ne_nil (h : s.IsRooted n f.more) : s.outerIndents ≠ [] := by
  obtain ⟨inner, hstack, -⟩ := h.indents
  intro hnil
  have := congrArg List.length hstack
  rw [hnil, List.length_append] at this
  simp at this

theorem le_indent (h : s.IsRooted n f.more) : (n : Int) ≤ s.indent := by
  obtain ⟨inner, hstack, hdeep⟩ := h.indents
  cases inner with
  | nil => exact Int.le_of_eq (List.cons.inj hstack).1.symm
  | cons i inner =>
    rw [(List.cons.inj hstack).1]
    exact Int.le_of_lt (hdeep i List.mem_cons_self)

theorem openBlock_within (h : s.IsRooted n f.more) (column : Nat) :
    (s.within f).openBlock column = ((s.openBlock column).1, (s.openBlock column).2.within f) ∧
      (s.openBlock column).2.IsRooted n f.more := by
  unfold openBlock
  change (if s.indent < (column : Int) then _ else _) = _ ∧ _
  by_cases hlt : s.indent < (column : Int)
  · rw [if_pos hlt, if_pos hlt]
    refine ⟨?_, ⟨h.tokens, ?_, h.keys, h.lines, h.fits, h.running⟩⟩
    · simp only [within, List.dropLast_cons_of_ne_nil (outerIndents_ne_nil h), List.cons_append]
    · obtain ⟨inner, hstack, hdeep⟩ := h.indents
      refine ⟨column :: inner, by rw [List.cons_append, ← hstack], fun i hi => ?_⟩
      rcases List.mem_cons.mp hi with rfl | hi
      · exact Int.lt_of_le_of_lt (le_indent h) hlt
      · exact hdeep i hi
  · rw [if_neg hlt, if_neg hlt]
    exact ⟨rfl, h⟩

/-! ## Keys -/

theorem dropStale_within (c : Cursor) (key : Option PossibleKey) :
    dropStale (c.extend f.more f.index f.line) (key.map (PossibleKey.within f)) =
      (dropStale c key).map (Option.map (PossibleKey.within f)) := by
  cases key with
  | none => rfl
  | some k =>
    have hline : k.line + f.line ≠ c.line + f.line ↔ k.line ≠ c.line := by omega
    have hindex : c.index + f.index - (k.index + f.index) = c.index - k.index := by omega
    simp only [dropStale, Option.map_some, PossibleKey.within, Cursor.line_extend,
      Cursor.index_extend, hline, hindex]
    split
    · split <;> rfl
    · rfl

theorem mapM_dropStale_within (c : Cursor) (keys : List (Option PossibleKey)) :
    (keys.map (Option.map (PossibleKey.within f))).mapM
        (dropStale (c.extend f.more f.index f.line)) =
      (keys.mapM (dropStale c)).map (List.map (Option.map (PossibleKey.within f))) := by
  induction keys with
  | nil => rfl
  | cons key keys ih =>
    rw [List.map_cons, List.mapM_cons, List.mapM_cons, ih, dropStale_within]
    cases dropStale c key with
    | error e => rfl
    | ok key' => cases keys.mapM (dropStale c) <;> rfl

theorem eq_of_dropStale {c : Cursor} {key : Option PossibleKey} {k : PossibleKey}
    (h : dropStale c key = .ok (some k)) : key = some k := by
  cases key with
  | none => simp [dropStale] at h
  | some k' =>
    simp only [dropStale] at h
    split at h
    · split at h <;> simp at h
    · simpa using h

theorem mem_of_mapM_dropStale {c : Cursor} {keys keys' : List (Option PossibleKey)}
    (h : keys.mapM (dropStale c) = .ok keys') {k : PossibleKey} (hk : some k ∈ keys') :
    some k ∈ keys := by
  induction keys generalizing keys' with
  | nil =>
    cases h
    simp at hk
  | cons key keys ih =>
    rw [List.mapM_cons] at h
    obtain ⟨key', hkey, h⟩ := bind_eq_ok.mp h
    obtain ⟨keys'', hkeys, h⟩ := bind_eq_ok.mp h
    cases h
    rcases List.mem_cons.mp hk with rfl | hk
    · rw [eq_of_dropStale hkey]
      exact List.mem_cons_self
    · exact List.mem_cons_of_mem _ (ih hkeys hk)

theorem IsRooted.withKeys (h : s.IsRooted n f.more) {key : Option PossibleKey}
    {outerKeys : List (Option PossibleKey)} {keyAllowed : Bool}
    (hkeys : ∀ k, some k ∈ key :: outerKeys → some k ∈ s.key :: s.outerKeys) :
    ({ s with key := key, outerKeys := outerKeys, keyAllowed := keyAllowed }).IsRooted n f.more where
  tokens := h.tokens
  indents := h.indents
  keys k hk := h.keys k (hkeys k hk)
  lines k hk := h.lines k (hkeys k hk)
  fits := h.fits
  running := h.running

theorem dropStaleKeys_within (h : s.IsRooted n f.more) (hdrop : s.dropStaleKeys = .ok s') :
    (s.within f).dropStaleKeys = .ok (s'.within f) ∧ s'.IsRooted n f.more ∧
      s'.cursor = s.cursor := by
  obtain ⟨outerKeys, houter, hdrop⟩ := bind_eq_ok.mp hdrop
  obtain ⟨key, hkey, hdrop⟩ := bind_eq_ok.mp hdrop
  cases hdrop
  refine ⟨?_, h.withKeys fun k hk => ?_, rfl⟩
  · unfold dropStaleKeys
    simp only [within, mapM_dropStale_within, dropStale_within, houter, hkey]
    rfl
  · rcases List.mem_cons.mp hk with rfl | hk
    · rw [eq_of_dropStale hkey]
      exact List.mem_cons_self
    · exact List.mem_cons_of_mem _ (mem_of_mapM_dropStale houter hk)

theorem dropKey_within (h : s.IsRooted n f.more) (hdrop : s.dropKey = .ok s') :
    (s.within f).dropKey = .ok (s'.within f) ∧ s'.IsRooted n f.more ∧ s'.cursor = s.cursor := by
  unfold dropKey at hdrop ⊢
  cases hkey : s.key with
  | none =>
    rw [hkey] at hdrop
    cases hdrop
    refine ⟨?_, h, rfl⟩
    simp [within, hkey]
  | some k =>
    simp only [hkey] at hdrop
    split at hdrop
    · simp at hdrop
    · rename_i hrequired
      cases hdrop
      refine ⟨?_, h.withKeys fun k' hk' => ?_, rfl⟩
      · simp [within, hkey, PossibleKey.within, hrequired]
      · rcases List.mem_cons.mp hk' with hk' | hk'
        · simp at hk'
        · exact List.mem_cons_of_mem _ hk'

theorem saveKey_within (h : s.IsRooted n f.more) (hne : s.cursor.rest ≠ [])
    (hsave : s.saveKey = .ok s') :
    (s.within f).saveKey = .ok (s'.within f) ∧ s'.IsRooted n f.more ∧ s'.cursor = s.cursor := by
  unfold saveKey at hsave ⊢
  have hallowed : (s.within f).keyAllowed = s.keyAllowed := rfl
  rw [hallowed]
  split at hsave
  · rename_i hno
    cases hsave
    rw [if_pos hno]
    exact ⟨rfl, h, rfl⟩
  · rename_i hno
    rw [if_neg hno]
    obtain ⟨s₁, hdrop, hsave⟩ := bind_eq_ok.mp hsave
    obtain ⟨hwithin, hrooted, hcursor⟩ := dropKey_within h hdrop
    cases hsave
    refine ⟨?_, ⟨hrooted.tokens, hrooted.indents, fun k hk => ?_, fun k hk => ?_,
      hrooted.fits, hrooted.running⟩, hcursor⟩
    · rw [hwithin]
      have hpos : 0 < s₁.tokens.length := List.length_pos_iff.mpr hrooted.tokens
      have hplace : (s₁.within f).tokens.length = s₁.tokens.length - 1 + f.tokens.length := by
        simp only [within, List.length_append, List.length_dropLast]
      simp only [bind, Except.bind, hplace, inFlow_within]
      rfl
    · rcases List.mem_cons.mp hk with hk | hk
      · cases hk
        exact ⟨List.length_pos_iff.mpr hrooted.tokens, Nat.le_refl _⟩
      · exact hrooted.keys k (List.mem_cons_of_mem _ hk)
    · rcases List.mem_cons.mp hk with hk | hk
      · cases hk
        rw [← hcursor] at hne
        exact hrooted.fits.complete.imp_right fun hlast =>
          Cursor.line_lt_last (hlast.resolve_left hne)
      · exact hrooted.lines k (List.mem_cons_of_mem _ hk)

theorem openBlockHere_within (h : s.IsRooted n f.more) {t : Token}
    (hopen : s.openBlockHere t = .ok s') :
    (s.within f).openBlockHere t = .ok (s'.within f) ∧ s'.IsRooted n f.more ∧
      s'.cursor = s.cursor := by
  unfold openBlockHere at hopen ⊢
  rw [inFlow_within]
  by_cases hflow : s.inFlow = true
  · rw [if_pos hflow] at hopen ⊢
    cases hopen
    exact ⟨rfl, h, rfl⟩
  · rw [if_neg hflow] at hopen ⊢
    have hallowed : (s.within f).keyAllowed = s.keyAllowed := rfl
    rw [hallowed]
    split at hopen
    · simp at hopen
    · rename_i hkey
      rw [if_neg hkey]
      obtain ⟨hwithin, hrooted⟩ := openBlock_within h s.cursor.column
      have hcursor : (s.openBlock s.cursor.column).2.cursor = s.cursor := by
        unfold openBlock
        split <;> rfl
      rw [show (s.within f).cursor.column = s.cursor.column from rfl, hwithin]
      rcases hblock : s.openBlock s.cursor.column with ⟨opened, s₁⟩
      rw [hblock] at hopen hrooted hcursor
      cases opened with
      | false =>
        cases hopen
        exact ⟨rfl, hrooted, hcursor⟩
      | true =>
        cases hopen
        exact ⟨congrArg Except.ok (emit_within hrooted.tokens t).symm, hrooted.emit t, hcursor⟩

end Scanner
end PubspecTidy.Yaml
