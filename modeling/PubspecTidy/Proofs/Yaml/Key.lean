import PubspecTidy.Proofs.Yaml.Steps

/-!
# A plain key at the start of a line

Main statement: the first word of an entry, with the colon after it, opens the entry in the block
mapping at its column, and opens that mapping first where the block around is not as deep.
-/
namespace PubspecTidy.Yaml

/-- A word that can stand as a plain key. -/
structure IsWord (name : List Char) : Prop where
  ne_nil : name ≠ []
  plain : ∀ ch ∈ name, isGap ch = false ∧ ch ≠ ':' ∧ ch ≠ byteOrderMark
  start : ∀ ch ∈ name.head?, Scanner.isIndicator ch = false
  short : name.length ≤ Scanner.maxKeyLength

/-- Decided from the characters of the word, not from all characters. -/
instance (name : List Char) : Decidable (IsWord name) :=
  decidable_of_iff
    (name ≠ [] ∧
      (name.all fun ch => decide (isGap ch = false ∧ ch ≠ ':' ∧ ch ≠ byteOrderMark)) = true ∧
      (name.head?.all fun ch => !Scanner.isIndicator ch) = true ∧
      name.length ≤ Scanner.maxKeyLength)
    ⟨fun ⟨hne, hplain, hstart, hshort⟩ =>
      ⟨hne, by simpa using hplain, by simpa [Option.all_eq_true] using hstart, hshort⟩,
     fun h => ⟨h.ne_nil, by simpa using h.plain,
      by simpa [Option.all_eq_true] using h.start, h.short⟩⟩

namespace Cursor

theorem next_of_plain {c : Cursor} {ch : Char} {rest : List Char} (hrest : c.rest = ch :: rest)
    (hbreak : isBreak ch = false) (hmark : ch ≠ byteOrderMark) :
    c.next = ⟨rest, c.index + 1, c.line, c.column + 1⟩ := by
  unfold next
  rw [hrest]
  dsimp only
  rw [hbreak, Bool.false_and, if_neg (by simp), if_neg hmark]

theorem skip_of_plain {c : Cursor} {word rest : List Char} (hrest : c.rest = word ++ rest)
    (hword : ∀ ch ∈ word, isBreak ch = false ∧ ch ≠ byteOrderMark) :
    c.skip word.length = ⟨rest, c.index + word.length, c.line, c.column + word.length⟩ := by
  induction word generalizing c with
  | nil =>
    subst hrest
    rfl
  | cons ch word ih =>
    obtain ⟨hbreak, hmark⟩ := hword ch List.mem_cons_self
    have hnext := next_of_plain hrest hbreak hmark
    rw [List.length_cons, skip, ih (by rw [hnext]; rfl)
      (fun ch hch => hword ch (List.mem_cons_of_mem _ hch)), hnext]
    simp only [Cursor.mk.injEq, true_and]
    omega

end Cursor

theorem isBreak_of_isGap {ch : Char} (h : isGap ch = false) : isBreak ch = false := by
  simp only [isGap, Bool.or_eq_false_iff] at h
  exact h.2

/-- A word is passed on its line. -/
theorem IsWord.skip_eq {name rest : List Char} {c : Cursor} (h : IsWord name)
    (hrest : c.rest = name ++ rest) :
    c.skip name.length = ⟨rest, c.index + name.length, c.line, c.column + name.length⟩ :=
  Cursor.skip_of_plain hrest fun ch hch =>
    ⟨isBreak_of_isGap (h.plain ch hch).1, (h.plain ch hch).2.2⟩

namespace Plain

theorem wordLength_of_word {name rest : List Char} (h : ∀ ch ∈ name, isGap ch = false ∧ ch ≠ ':')
    (hgap : gapAt rest = true) : wordLength false (name ++ ':' :: rest) = name.length := by
  induction name with
  | nil =>
    rw [List.nil_append]
    unfold wordLength
    rw [if_pos (by simp [colonEndsAt, hgap])]
    rfl
  | cons ch name ih =>
    obtain ⟨hch, hcolon⟩ := h ch List.mem_cons_self
    rw [List.cons_append]
    unfold wordLength
    rw [if_neg (by simp [hch, hcolon]), ih fun ch hch => h ch (List.mem_cons_of_mem _ hch),
      List.length_cons]

/-- A word before a colon is a scalar. -/
theorem take_of_word {name rest : List Char} (h : IsWord name) (hgap : gapAt rest = true)
    {c : Cursor} (hrest : c.rest = name ++ ':' :: rest) (indent : Int) :
    take false indent c = (⟨name, false⟩, c.skip name.length) := by
  have hword : wordAt false c = name.length := by
    unfold wordAt
    rw [hrest, if_neg]
    · exact wordLength_of_word (fun ch hch => ⟨(h.plain ch hch).1, (h.plain ch hch).2.1⟩) hgap
    · cases hname : name with
      | nil => exact absurd hname h.ne_nil
      | cons ch tail =>
        have hstart := h.start ch (by simp [hname])
        rw [List.cons_append, List.head?_cons]
        intro hhash
        obtain rfl : ch = '#' := by simpa using hhash
        exact absurd hstart (by decide)
  have hafter : takeGap (c.skip name.length) = (⟨none, false⟩, c.skip name.length) := by
    rw [h.skip_eq hrest]
    rfl
  unfold take
  rw [takeWords_succ, hword, if_neg (by simp [h.ne_nil]), hafter, hrest, List.take_left]
  rfl

end Plain

namespace Scanner

variable {name rest : List Char} {c : Cursor} {tokens : List Token} {indent : Int}
  {outer : List Int}

/-- The blocks that are open where an entry starts at a column. -/
structure Opens (column : Nat) (tokens : List Token) (indent : Int) (outer : List Int)
    (tokens' : List Token) (indent' : Int) (outer' : List Int) : Prop where
  close : closeFrom column indent outer tokens = ((indent', outer'), tokens')
  le : indent' ≤ column

/-- The state after the key of an entry. -/
def afterKey (c : Cursor) (name : List Char) (tokens : List Token) (indent : Int)
    (outer : List Int) : Scanner where
  cursor := c.skip name.length
  tokens := .scalar (String.ofList name) true :: tokens
  indent := indent
  outerIndents := outer
  keyAllowed := false
  key := some ⟨tokens.length, decide (indent = c.column), c.index, c.line, c.column⟩
  outerKeys := []
  done := false

/-- The tokens before an entry at a column, with the one that opens its mapping. -/
def opening (column : Nat) (indent : Int) (tokens : List Token) : List Token :=
  if indent < column then .blockMappingStart :: tokens else tokens

/-- The indentations around the mapping of an entry at a column. -/
def around (column : Nat) (indent : Int) (outer : List Int) : List Int :=
  if indent < column then indent :: outer else outer

/-- The state after the key of an entry and its colon. -/
def afterColon (c : Cursor) (name : List Char) (tokens : List Token) (indent : Int)
    (outer : List Int) : Scanner where
  cursor := (c.skip name.length).next
  tokens := .value :: .scalar (String.ofList name) true :: .key :: opening c.column indent tokens
  indent := c.column
  outerIndents := around c.column indent outer
  keyAllowed := false
  key := none
  outerKeys := []
  done := false

theorem startsPlain_of_word (h : IsWord name) {ch : Char} {tail : List Char}
    (hname : name = ch :: tail) (rest : List Char) : startsPlain false ch rest = true := by
  have hgap := (h.plain ch (by simp [hname])).1
  have hstart := h.start ch (by simp [hname])
  simp [startsPlain, hgap, hstart]

theorem takerAt_of_word (h : IsWord name) {ch : Char} {tail : List Char} (hname : name = ch :: tail)
    (rest : List Char) : takerAt false ch rest = takePlain := by
  have hstart := h.start ch (by simp [hname])
  have hne (x : Char) (hx : isIndicator x = true) : ch ≠ x := by
    rintro rfl
    exact Bool.false_ne_true (hstart.symm.trans hx)
  unfold takerAt
  rw [if_neg (hne '[' (by decide)), if_neg (hne '\x7b' (by decide)), if_neg (hne ']' (by decide)),
    if_neg (hne '\x7d' (by decide)), if_neg (hne ',' (by decide)),
    if_neg fun hch => hne '-' (by decide) hch.1, if_neg fun hch => hne '?' (by decide) hch.1,
    if_neg fun hch => hne ':' (by decide) hch.1, if_neg (hne '*' (by decide)),
    if_neg (hne '&' (by decide)), if_neg (hne '!' (by decide)),
    if_neg fun hch => hne '|' (by decide) hch.1, if_neg fun hch => hne '>' (by decide) hch.1,
    if_neg (hne '\'' (by decide)), if_neg (hne '"' (by decide)),
    if_pos (startsPlain_of_word h hname rest)]

theorem markerAt_of_word (h : IsWord name) (hrest : c.rest = name ++ ':' :: rest) :
    c.markerAt = false := by
  have hgap : ∀ ch ∈ name, isGap ch = false := fun ch hch => (h.plain ch hch).1
  have hstart : name.head? ≠ some '-' := fun hdash =>
    absurd (h.start '-' (by simp [hdash])) (by decide)
  have hcolon : isGap ':' = false := by decide
  unfold Cursor.markerAt
  rw [hrest]
  rcases name with _ | ⟨a, _ | ⟨b, _ | ⟨d, _ | ⟨e, tail⟩⟩⟩⟩
  · rfl
  all_goals
    simp only [List.cons_append, List.nil_append]
    split
    · rename_i heq
      simp only [List.cons.injEq] at heq
      simp_all
    · rename_i heq
      simp only [List.cons.injEq] at heq
      obtain ⟨hfirst, hsecond, hthird, rfl⟩ := heq
      simp_all [gapAt]
    · rfl

theorem closeFrom_of_le {column : Int} (hle : indent ≤ column) :
    closeFrom column indent outer tokens = ((indent, outer), tokens) := by
  cases outer with
  | nil => rfl
  | cons o os => rw [closeFrom_cons, if_neg (by omega)]

theorem dropStaleKeys_afterKey (h : IsWord name) (hrest : c.rest = name ++ ':' :: rest) :
    (afterKey c name tokens indent outer).dropStaleKeys =
      .ok (afterKey c name tokens indent outer) := by
  have hshort := h.short
  have hkept : dropStale (c.skip name.length)
      (some ⟨tokens.length, decide (indent = c.column), c.index, c.line, c.column⟩) =
      .ok (some ⟨tokens.length, decide (indent = c.column), c.index, c.line, c.column⟩) := by
    unfold dropStale
    rw [h.skip_eq hrest]
    dsimp only
    rw [if_neg]
    rintro (hline | hlong)
    · exact hline rfl
    · omega
  unfold dropStaleKeys afterKey
  dsimp only
  rw [hkept]
  rfl

theorem step_key (h : IsWord name) (hgap : gapAt rest = true) {column : Nat}
    (hrest : c.nextSeen.rest = name ++ ':' :: rest) (hcolumn : c.nextSeen.column = column)
    {tokens' : List Token} {indent' : Int} {outer' : List Int}
    (hopens : Opens column tokens indent outer tokens' indent' outer') :
    ((atLine c tokens indent outer).step >>= dropStaleKeys) =
      .ok (afterKey c.nextSeen name tokens' indent' outer') := by
  obtain ⟨ch, tail, hname⟩ := List.exists_cons_of_ne_nil h.ne_nil
  have hclose : (atLine c.nextSeen tokens indent outer).closeBlocks
      (atLine c.nextSeen tokens indent outer).cursor.column =
      atLine c.nextSeen tokens' indent' outer' := by
    rw [closeBlocks_of_block rfl]
    change { atLine c.nextSeen tokens indent outer with
      indent := (closeFrom c.nextSeen.column indent outer tokens).1.1
      outerIndents := (closeFrom c.nextSeen.column indent outer tokens).1.2
      tokens := (closeFrom c.nextSeen.column indent outer tokens).2 } = _
    rw [hcolumn, hopens.close]
    rfl
  have hstays : (atLine c.nextSeen tokens' indent' outer').cursor.column = 0 →
      ch ≠ '%' ∧ (atLine c.nextSeen tokens' indent' outer').cursor.markerAt = false :=
    fun _ => ⟨by
      rintro rfl
      exact absurd (h.start '%' (by simp [hname])) (by decide), markerAt_of_word h hrest⟩
  have htake : takeSeen (atLine c.nextSeen tokens indent outer) =
      .ok (afterKey c.nextSeen name tokens' indent' outer') := by
    have hrest' : (atLine c.nextSeen tokens' indent' outer').cursor.rest =
        ch :: (tail ++ ':' :: rest) := by
      change c.nextSeen.rest = _
      rw [hrest, hname, List.cons_append]
    simp only [takeSeen, hclose, hrest']
    rw [takeAt_eq hstays]
    change takerAt false ch _ _ = _
    rw [takerAt_of_word h hname, takePlain_eq]
    change Except.ok (endPlain { atLine c.nextSeen tokens' indent' outer' with key := _ }
      (Plain.take false indent' c.nextSeen)) = _
    rw [Plain.take_of_word h hgap hrest]
    rfl
  rw [step_eq, seen_atLine, dropStaleKeys_atLine]
  change takeSeen (atLine c.nextSeen tokens indent outer) >>= dropStaleKeys = _
  rw [htake]
  exact dropStaleKeys_afterKey h hrest

theorem seen_afterKey (h : IsWord name) (hrest : c.rest = name ++ ':' :: rest) :
    (afterKey c name tokens indent outer).seen = afterKey c name tokens indent outer := by
  have hrest' : (c.skip name.length).rest = ':' :: rest := by rw [h.skip_eq hrest]
  have hnext : (c.skip name.length).nextSeen = c.skip name.length :=
    Cursor.nextSeen_of_seen hrest' (by decide) (by decide) (by decide)
  have hline : endsLine (c.skip name.length) = false := by
    rw [h.skip_eq hrest]
    rfl
  unfold seen afterKey
  dsimp only
  rw [hnext, hline]
  rfl

theorem closeBlocks_afterKey (h : IsWord name) (hrest : c.rest = name ++ ':' :: rest)
    (hle : indent ≤ c.column) :
    (afterKey c name tokens indent outer).closeBlocks (c.skip name.length).column =
      afterKey c name tokens indent outer := by
  have hcolumn : indent ≤ ((c.skip name.length).column : Int) := by
    rw [h.skip_eq hrest]
    dsimp only
    omega
  have hclosed : closeFrom (c.skip name.length).column indent outer
      (.scalar (String.ofList name) true :: tokens) =
      ((indent, outer), .scalar (String.ofList name) true :: tokens) := closeFrom_of_le hcolumn
  rw [closeBlocks_of_block rfl]
  unfold afterKey
  dsimp only
  rw [hclosed]

/-- The colon makes the word before it a key, in the mapping at the column of the word. -/
theorem takeValue_afterKey (hle : indent ≤ c.column) :
    takeValue (afterKey c name tokens indent outer) =
      .ok (afterColon c name tokens indent outer) := by
  rw [takeValue_of_key rfl]
  refine congrArg Except.ok ?_
  have hflow : inFlow (⟨c.skip name.length, .scalar (String.ofList name) true :: tokens, indent,
      outer, false, none, [], false⟩ : Scanner) = false := rfl
  unfold withWoven afterKey
  simp only [hflow]
  unfold openBlock afterColon opening around
  by_cases hlt : indent < (c.column : Int)
  · simp [hlt, weave, emitIndicator, emit]
  · have heq : indent = c.column := by omega
    simp [heq, weave, emitIndicator, emit]

theorem step_colon (h : IsWord name) (hgap : gapAt rest = true)
    (hrest : c.rest = name ++ ':' :: rest) (hle : indent ≤ c.column) :
    ((afterKey c name tokens indent outer).step >>= dropStaleKeys) =
      .ok (afterColon c name tokens indent outer) := by
  have htake : takeSeen (afterKey c name tokens indent outer) =
      .ok (afterColon c name tokens indent outer) := by
    have hclose : (afterKey c name tokens indent outer).closeBlocks
        (afterKey c name tokens indent outer).cursor.column = _ :=
      closeBlocks_afterKey h hrest hle
    have hrest' : (afterKey c name tokens indent outer).cursor.rest = ':' :: rest := by
      change (c.skip name.length).rest = _
      rw [h.skip_eq hrest]
    have hcolumn : (afterKey c name tokens indent outer).cursor.column ≠ 0 := by
      have hpos : 0 < name.length := List.length_pos_iff.mpr h.ne_nil
      change (c.skip name.length).column ≠ 0
      rw [h.skip_eq hrest]
      dsimp only
      omega
    have htaker : takerAt false ':' rest = takeValue := by simp [takerAt, hgap]
    simp only [takeSeen, hclose, hrest']
    rw [takeAt_eq fun hzero => absurd hzero hcolumn]
    change takerAt false ':' rest _ = _
    rw [htaker, takeValue_afterKey hle]
  rw [step_eq, seen_afterKey h hrest, dropStaleKeys_afterKey h hrest]
  change takeSeen (afterKey c name tokens indent outer) >>= dropStaleKeys = _
  rw [htake]
  have hnone : (afterColon c name tokens indent outer).key = none := rfl
  exact dropStaleKeys_of_no_keys hnone rfl

end Scanner
end PubspecTidy.Yaml
