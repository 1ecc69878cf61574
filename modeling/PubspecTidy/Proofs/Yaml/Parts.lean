import PubspecTidy.Proofs.Yaml.Key

/-!
# Texts put together from entries of a block mapping

A text that is one entry of a block mapping on its own gives the same tokens wherever it stands
between other entries at its column. Main statements: the tokens of entries one behind the other are
those of the entries, lines in which nothing is to be seen add none, and a mapping below a header is
the value of that key.
-/
namespace PubspecTidy.Yaml

/-! ## Texts one behind the other -/

/-- Whole lines in which nothing is to be seen. -/
structure IsFiller (cs : List Char) : Prop where
  complete : cs = [] ∨ cs.getLast? = some '\n'
  unseen : (Cursor.ofText cs).nextSeen.rest = []

theorem IsFiller.getLast?_append {P F : List Char} (h : IsFiller F) (hP : P.getLast? = some '\n') :
    (P ++ F).getLast? = some '\n' := by
  rcases h.complete with rfl | hF
  · rwa [List.append_nil]
  · rw [List.getLast?_append, hF, Option.some_or]

namespace Cursor

variable {P Q more : List Char} {index line : Nat}

theorem nextSeen_of_nil {c : Cursor} (h : c.rest = []) : c.nextSeen = c := by
  have hle := (precedes_nextSeen c).length_le
  rw [h] at hle
  have hnil := List.eq_nil_of_length_eq_zero (Nat.le_zero.mp hle)
  rw [Scanner.nextSeen_eq_last hnil, last_of_nil h]

theorem isComplete_ofText (h : P = [] ∨ P.getLast? = some '\n') : (ofText P).IsComplete more :=
  .inr h

theorem column_last_ofText (h : P = [] ∨ P.getLast? = some '\n') : (ofText P).last.column = 0 := by
  rcases h with rfl | h
  · rfl
  · exact column_last h

/-- Behind complete lines, the next ones start at the first column. -/
theorem last_extend_append (h : P = [] ∨ P.getLast? = some '\n') :
    (ofText P).last.extend (Q ++ more) index line =
      (ofText Q).extend more ((ofText P).last.index + index) ((ofText P).last.line + line) := by
  have hcolumn := column_last_ofText h
  have hrest := rest_last (ofText P)
  generalize (ofText P).last = c at hcolumn hrest
  unfold extend ofText
  simp [hcolumn, hrest]

theorem last_append (h : P = [] ∨ P.getLast? = some '\n') :
    (ofText (P ++ Q)).last.extend more index line =
      (ofText Q).last.extend more ((ofText P).last.index + index)
        ((ofText P).last.line + line) := by
  have hwhole : ofText (P ++ Q) = (ofText P).extend Q 0 0 := rfl
  have hskip : ((ofText P).extend Q 0 0).skip P.length = (ofText P).last.extend Q 0 0 :=
    skip_extend (isComplete_ofText h) (.inr (Nat.le_refl _))
  have hnext : (ofText P).last.extend Q 0 0 = (ofText Q).extend [] (ofText P).last.index
      (ofText P).last.line := by
    have hsplit := @last_extend_append P Q [] 0 0 h
    rwa [List.append_nil, Nat.add_zero, Nat.add_zero] at hsplit
  have hlast : (ofText (P ++ Q)).last = (ofText Q).last.extend [] (ofText P).last.index
      (ofText P).last.line := by
    have hlength : (ofText (P ++ Q)).rest.length = P.length + Q.length := List.length_append
    unfold last
    rw [hlength, skip_add, hwhole, hskip, hnext, skip_extend (.inl rfl) (.inl rfl)]
    rfl
  rw [hlast]
  unfold extend
  simp only [List.append_nil, Nat.add_assoc]

/-- A gap goes on behind lines in which nothing is to be seen. -/
theorem nextSeen_filler (h : IsFiller P) :
    ((ofText P).extend more index line).nextSeen =
      ((ofText P).last.extend more index line).nextSeen := by
  by_cases hmore : more = []
  · subst hmore
    have hrest : ((ofText P).last.extend [] index line).rest = [] := by
      change (ofText P).last.rest ++ [] = []
      rw [rest_last, List.append_nil]
    rw [nextSeen_extend (.inl rfl) (.inl rfl), nextSeen_of_nil hrest,
      Scanner.nextSeen_eq_last h.unseen]
  · exact nextSeen_extend_last (isComplete_ofText h.complete) hmore h.unseen

end Cursor

theorem IsFiller.append {P Q : List Char} (h : IsFiller P) (h' : IsFiller Q) :
    IsFiller (P ++ Q) := by
  refine ⟨?_, ?_⟩
  · rcases h'.complete with rfl | hQ
    · rw [List.append_nil]
      exact h.complete
    · right
      rw [List.getLast?_append, hQ, Option.some_or]
  · have hwhole : Cursor.ofText (P ++ Q) = (Cursor.ofText P).extend Q 0 0 := rfl
    have hbetween := @Cursor.last_extend_append P Q [] 0 0 h.complete
    rw [List.append_nil] at hbetween
    rw [hwhole, Cursor.nextSeen_filler h, hbetween, Cursor.nextSeen_extend (.inl rfl) (.inl rfl),
      Cursor.rest_extend, h'.unseen, List.append_nil]

namespace Scanner

variable {n : Nat} {P Q F : List Char} {b b' : Bool} {ts us : List Token}
  {name : List Char} {c : Cursor} {more : List Char} {index line : Nat} {tokens : List Token}
  {indent : Int} {outer : List Int}

/-! ## Entries in their places -/

/-- A text stands behind what is to be seen next, and before another text. If the text may end in a
block scalar, something has to be seen at once behind it. -/
structure Stands (n : Nat) (P : List Char) (b : Bool) (c : Cursor) (more : List Char)
    (index line : Nat) : Prop where
  start : c.nextSeen = ((Cursor.ofText P).extend more index line).nextSeen
  complete : (Cursor.ofText P).IsComplete more
  apart : b = true → more ≠ [] → Block.IsSeen more
  next : ((Cursor.ofText P).last.extend more index line).nextSeen.rest = [] ∨
    ((Cursor.ofText P).last.extend more index line).nextSeen.column ≤ n

/-- A text holds entries of a block mapping at a column: it gives their tokens wherever it
stands. -/
structure ScansAs (n : Nat) (P : List Char) (b : Bool) (ts : List Token) : Prop where
  seen : (Cursor.ofText P).nextSeen.rest ≠ []
  column : (Cursor.ofText P).nextSeen.column = n
  reaches : ∀ {c : Cursor} {more : List Char} {index line : Nat} {tokens : List Token}
    {indent : Int} {outer : List Int} {tokens' : List Token} {indent' : Int} {outer' : List Int},
    Stands n P b c more index line → Opens n tokens indent outer tokens' indent' outer' →
    Reaches (atLine c tokens indent outer)
      (atLine ((Cursor.ofText P).last.extend more index line) (ts.reverse ++ opening n indent' tokens') n
        (around n indent' outer'))

/-- A text that is one entry of a block mapping at a column on its own, with a word as its key and
some tokens behind it. -/
structure IsEntry (n : Nat) (P name : List Char) (ts : List Token) : Prop where
  word : IsWord name
  key : ∃ rest, (Cursor.ofText P).nextSeen.rest = name ++ ':' :: rest ∧ gapAt rest = true
  column : (Cursor.ofText P).nextSeen.column = n
  stays : ∀ k, ((Cursor.ofText P).skip k).Stays n
  scan : run (P.length + 2) (atLine (Cursor.ofText P) [] (-1) []) =
    ⟨.blockMappingStart :: .key :: .scalar (String.ofList name) true :: .value ::
      (ts ++ [.blockEnd, .streamEnd]), none⟩

theorem opens_first (n : Nat) : Opens n [] (-1) [] [] (-1) [] := ⟨rfl, by omega⟩

theorem opens_of_le (h : indent ≤ n) (tokens : List Token) (outer : List Int) :
    Opens n tokens indent outer tokens indent outer := ⟨closeFrom_of_le h, h⟩

/-- From the start of an entry, the scanner comes to what stands behind its colon. -/
theorem reaches_afterColon (h : IsWord name) {rest : List Char} (hgap : gapAt rest = true)
    (hrest : c.nextSeen.rest = name ++ ':' :: rest) (hcolumn : c.nextSeen.column = n)
    {tokens' : List Token} {indent' : Int} {outer' : List Int}
    (hopens : Opens n tokens indent outer tokens' indent' outer') :
    Reaches (atLine c tokens indent outer) (afterColon c.nextSeen name tokens' indent' outer') := by
  have hpos : 0 < name.length := List.length_pos_iff.mpr h.ne_nil
  have hlength := congrArg List.length hrest
  have hle := (Cursor.precedes_nextSeen c).length_le
  rw [List.length_append, List.length_cons] at hlength
  refine (Reaches.of_step rfl (step_key h hgap hrest hcolumn hopens) ?_).trans
    (Reaches.of_step rfl (step_colon h hgap hrest ?_) ?_)
  · change (c.nextSeen.skip name.length).rest.length < c.rest.length
    rw [Cursor.length_skip]
    omega
  · rw [hcolumn]
    exact hopens.le
  · change (c.nextSeen.skip name.length).next.rest.length < (c.nextSeen.skip name.length).rest.length
    rw [Cursor.length_next, Cursor.length_skip]
    omega

theorem opening_of_lt (h : indent < n) (tokens : List Token) :
    opening n indent tokens = .blockMappingStart :: tokens := if_pos h

theorem around_of_lt (h : indent < n) (outer : List Int) :
    around n indent outer = indent :: outer := if_pos h

theorem around_neg_one (n : Nat) : around n (-1) [] = [-1] := around_of_lt (by omega) []

theorem opening_neg_one (n : Nat) : opening n (-1) [] = [.blockMappingStart] :=
  opening_of_lt (by omega) []

theorem opening_self (n : Nat) (tokens : List Token) : opening n n tokens = tokens :=
  if_neg (by omega)

theorem around_self (n : Nat) (outer : List Int) : around n n outer = outer := if_neg (by omega)

/-- The first steps of a run that ends without a fault. -/
theorem run_of_two_steps {s s₁ s₂ : Scanner} (hs : s.done = false) (hs₁ : s₁.done = false)
    (hstep : (s.step >>= dropStaleKeys) = .ok s₁) (hstep₁ : (s₁.step >>= dropStaleKeys) = .ok s₂)
    (fuel : Nat) : run (fuel + 2) s = run fuel s₂ := by
  rw [run_of_step hs hstep, run_of_step hs₁ hstep₁]

/-- What is read behind the key of an entry, when it stands alone. -/
theorem IsEntry.scan_value (h : IsEntry n P name ts) :
    run P.length (afterColon (Cursor.ofText P).nextSeen name [] (-1) []) =
      ⟨.blockMappingStart :: .key :: .scalar (String.ofList name) true :: .value ::
        (ts ++ [Token.blockEnd, .streamEnd]), none⟩ := by
  obtain ⟨rest, hrest, hgap⟩ := h.key
  have hle : (-1 : Int) ≤ ((Cursor.ofText P).nextSeen.column : Int) := by omega
  rw [← h.scan]
  exact (run_of_two_steps rfl rfl (step_key h.word hgap hrest h.column (opens_first n))
    (step_colon h.word hgap hrest hle) P.length).symm

theorem isRooted_afterColon (hstays : ∀ k, ((Cursor.ofText P).skip k).Stays n)
    (hcomplete : (Cursor.ofText P).IsComplete more)
    (hcolumn : (Cursor.ofText P).nextSeen.column = n) (name : List Char) :
    (afterColon (Cursor.ofText P).nextSeen name [] (-1) []).IsRooted n more where
  tokens := List.cons_ne_nil _ _
  indents := by
    refine ⟨[], ?_, fun i hi => by simp at hi⟩
    change ((Cursor.ofText P).nextSeen.column : Int) ::
      around (Cursor.ofText P).nextSeen.column (-1) [] = _
    rw [hcolumn, around_neg_one]
    rfl
  keys k hk := by simp [afterColon] at hk
  lines k hk := by simp [afterColon] at hk
  fits := by
    have hfits : (Cursor.ofText P).Fits n more := ⟨hcomplete, hstays⟩
    refine hfits.move ?_
    exact (Cursor.precedes_nextSeen _).trans
      ((Cursor.precedes_skip name.length _).trans (Cursor.precedes_next _))
  running := rfl

namespace IsEntry

/-- What is to be seen where an entry stands is what is to be seen in it, with more behind it. -/
theorem nextSeen_eq (h : IsEntry n P name ts) (hstands : Stands n P b c more index line) :
    c.nextSeen = (Cursor.ofText P).nextSeen.extend more index line := by
  obtain ⟨rest, hrest, -⟩ := h.key
  rw [hstands.start, Cursor.nextSeen_extend hstands.complete (.inr (by simp [hrest]))]

theorem column_eq (h : IsEntry n P name ts) (hstands : Stands n P b c more index line) :
    c.nextSeen.column = n := by
  rw [h.nextSeen_eq hstands]
  exact h.column

/-- The text of an entry goes on behind its colon, so the places up to there are inside of it. -/
theorem isInside (h : IsEntry n P name ts) (hcomplete : (Cursor.ofText P).IsComplete more) :
    ((Cursor.ofText P).nextSeen.skip name.length).IsComplete more ∧
      ((Cursor.ofText P).nextSeen.skip name.length).next.IsInside more := by
  obtain ⟨rest, hrest, -⟩ := h.key
  have hcolon : ((Cursor.ofText P).nextSeen.skip name.length).rest = ':' :: rest := by
    rw [h.word.skip_eq hrest]
  have hskip : ((Cursor.ofText P).nextSeen.skip name.length).IsComplete more :=
    ((Cursor.precedes_nextSeen _).trans (Cursor.precedes_skip _ _)).isComplete hcomplete
  exact ⟨hskip, Cursor.next_isInside hskip hcolon (by decide)⟩

/-- In its place an entry has the key that it has on its own. -/
theorem key_eq (h : IsEntry n P name ts) (hstands : Stands n P b c more index line) :
    ∃ rest, c.nextSeen.rest = name ++ ':' :: rest ∧ gapAt rest = true := by
  obtain ⟨rest, hrest, hgap⟩ := h.key
  have hcolon : ((Cursor.ofText P).nextSeen.skip name.length).rest = ':' :: rest := by
    rw [h.word.skip_eq hrest]
  refine ⟨rest ++ more, ?_, ?_⟩
  · rw [h.nextSeen_eq hstands, Cursor.rest_extend, hrest, List.append_assoc, List.cons_append]
  · rcases (h.isInside hstands.complete).1.tail_ne_nil hcolon (by decide) with rfl | hne
    · rwa [List.append_nil]
    · rwa [gapAt_append hne]

/-- Behind its colon, an entry in its place has what it has on its own, in a frame. -/
theorem afterColon_eq (h : IsEntry n P name ts) (hstands : Stands n P b c more index line)
    (tokens : List Token) (indent : Int) (outer : List Int) :
    afterColon c.nextSeen name tokens indent outer =
      (afterColon (Cursor.ofText P).nextSeen name [] (-1) []).within
        ⟨more, index, line, opening n indent tokens, around n indent outer⟩ := by
  obtain ⟨hcomplete, hin⟩ := h.isInside hstands.complete
  have hin' := (Cursor.precedes_next _).isInside hin
  have hcursor : (c.nextSeen.skip name.length).next =
      ((Cursor.ofText P).nextSeen.skip name.length).next.extend more index line := by
    rw [h.nextSeen_eq hstands, Cursor.skip_extend_of_inside
      ((Cursor.precedes_nextSeen _).isComplete hstands.complete) hin',
      Cursor.next_extend hcomplete hin']
  unfold afterColon within
  rw [hcursor, h.column_eq hstands, h.column, opening_neg_one, around_neg_one]
  rfl

/-- An entry gives its tokens in its place. -/
theorem scansAs (h : IsEntry n P name ts) (hblock : b = false → NoBlock (Cursor.ofText P)) :
    ScansAs n P b (.key :: .scalar (String.ofList name) true :: .value :: ts) := by
  obtain ⟨_, hseen, -⟩ := h.key
  refine ⟨by simp [hseen], h.column, fun {c more index line tokens indent outer tokens' indent'
    outer'} hstands hopens => ?_⟩
  obtain ⟨rest, hrest, hgap⟩ := h.key_eq hstands
  have hfirst := reaches_afterColon h.word hgap hrest (h.column_eq hstands) hopens
  let f : Frame := ⟨more, index, line, opening n indent' tokens', around n indent' outer'⟩
  let s := afterColon (Cursor.ofText P).nextSeen name [] (-1) []
  have htokens : (.blockMappingStart :: .key :: .scalar (String.ofList name) true :: .value ::
      (ts ++ [Token.blockEnd, .streamEnd])).reverse = .streamEnd :: .blockEnd ::
        ((ts.reverse ++ [.value, .scalar (String.ofList name) true, .key]) ++
          [.blockMappingStart]) := by simp
  have hafter : (Cursor.ofText P).Precedes s.cursor := (Cursor.precedes_nextSeen _).trans
    ((Cursor.precedes_skip name.length _).trans (Cursor.precedes_next _))
  have hapart : f.more ≠ [] → Block.IsSeen f.more ∨ NoBlock s.cursor := fun hmore => by
    cases b with
    | true => exact .inl (hstands.apart rfl hmore)
    | false => exact .inr ((hblock rfl).move hafter)
  have hbehind : behind f s = (Cursor.ofText P).last.extend more index line := by
    unfold behind
    rw [hafter.last_eq]
  have hrooted : s.IsRooted n f.more :=
    isRooted_afterColon h.stays hstands.complete h.column name
  have hrun := reaches_behind hrooted (h.isInside hstands.complete).2 (by rintro ⟨⟩) h.scan_value
    htokens (by rw [hbehind]; exact hstands.next) hapart
  rw [h.afterColon_eq hstands] at hfirst
  refine hfirst.trans ?_
  unfold lineBehind at hrun
  rw [hbehind] at hrun
  simpa using hrun

end IsEntry

/-! ## Putting texts together -/

/-- The run goes on in the same way from two places with the same thing to be seen next. -/
theorem reaches_of_nextSeen_eq {c' : Cursor} (h : c.nextSeen = c'.nextSeen)
    (hle : c'.rest.length ≤ c.rest.length) :
    Reaches (atLine c tokens indent outer) (atLine c' tokens indent outer) := by
  refine ⟨0, ?_, fun fuel all hrun => run_congr rfl rfl ?_ hrun⟩
  · change 0 + c'.rest.length ≤ c.rest.length
    omega
  rw [step_eq, step_eq, seen_atLine, seen_atLine, h]

theorem getLast?_append_of_ne_nil (P : List Char) (hQ : Q ≠ []) :
    (P ++ Q).getLast? = Q.getLast? := by
  rw [List.getLast?_append, List.getLast?_eq_some_getLast hQ, Option.some_or]

theorem isComplete_of_append (hQ : Q ≠ []) (h : (Cursor.ofText (P ++ Q)).IsComplete more) :
    (Cursor.ofText Q).IsComplete more := by
  refine h.imp_right fun hlast => hlast.imp (fun hnil => (List.append_eq_nil_iff.mp hnil).2) ?_
  exact fun hlast => (getLast?_append_of_ne_nil P hQ).symm.trans hlast

theorem ScansAs.ne_nil (h : ScansAs n P b ts) : P ≠ [] := by
  rintro rfl
  exact h.seen rfl

theorem ScansAs.nextSeen_extend (h : ScansAs n P b ts) (hP : (Cursor.ofText P).IsComplete more) :
    ((Cursor.ofText P).extend more index line).nextSeen =
      (Cursor.ofText P).nextSeen.extend more index line :=
  Cursor.nextSeen_extend hP (.inr h.seen)

theorem ScansAs.append (h : ScansAs n P b ts) (h' : ScansAs n Q b' us)
    (hP : P.getLast? = some '\n') (happart : b = true → Block.IsSeen Q) :
    ScansAs n (P ++ Q) b' (ts ++ us) := by
  have hP' : P = [] ∨ P.getLast? = some '\n' := .inr hP
  have hwhole : (Cursor.ofText (P ++ Q)).nextSeen = (Cursor.ofText P).nextSeen.extend Q 0 0 := by
    rw [← h.nextSeen_extend (Cursor.isComplete_ofText hP')]
    rfl
  refine ⟨?_, ?_, fun {c more index line tokens indent outer tokens' indent' outer'} hstands
    hopens => ?_⟩
  · rw [hwhole]
    exact fun hnil => h.seen (List.append_eq_nil_iff.mp hnil).1
  · rw [hwhole]
    exact h.column
  have hQ := isComplete_of_append h'.ne_nil hstands.complete
  have hbetween := @Cursor.last_extend_append P Q more index line hP'
  have hend := @Cursor.last_append P Q more index line hP'
  have hfirst : Stands n P b c (Q ++ more) index line := by
    refine ⟨?_, Cursor.isComplete_ofText hP', fun hb _ => ?_, .inr ?_⟩
    · rw [hstands.start]
      unfold Cursor.extend Cursor.ofText
      rw [List.append_assoc]
    · obtain ⟨ch, rest, rfl, hch⟩ := happart hb
      exact ⟨ch, rest ++ more, rfl, hch⟩
    · rw [hbetween, h'.nextSeen_extend hQ]
      exact Nat.le_of_eq h'.column
  have hsecond : Stands n Q b' ((Cursor.ofText P).last.extend (Q ++ more) index line) more
      ((Cursor.ofText P).last.index + index) ((Cursor.ofText P).last.line + line) :=
    ⟨by rw [hbetween], hQ, hstands.apart, by rw [← hend]; exact hstands.next⟩
  have hthen := h'.reaches hsecond
    (opens_of_le (Int.le_refl _) (ts.reverse ++ opening n indent' tokens') (around n indent' outer'))
  rw [opening_self, around_self, ← hend] at hthen
  have hall := (h.reaches hfirst hopens).trans hthen
  rwa [List.reverse_append, List.append_assoc]

/-- Nothing is added by lines in front in which nothing is to be seen. -/
theorem ScansAs.lead (h : ScansAs n P b ts) (hF : IsFiller F) : ScansAs n (F ++ P) b ts := by
  have hfiller (more : List Char) (index line : Nat) :
      ((Cursor.ofText (F ++ P)).extend more index line).nextSeen =
        ((Cursor.ofText P).extend more ((Cursor.ofText F).last.index + index)
          ((Cursor.ofText F).last.line + line)).nextSeen := by
    have hsplit : (Cursor.ofText (F ++ P)).extend more index line =
        (Cursor.ofText F).extend (P ++ more) index line := by
      unfold Cursor.extend Cursor.ofText
      rw [List.append_assoc]
    rw [hsplit, Cursor.nextSeen_filler hF, Cursor.last_extend_append hF.complete]
  have hnone : (Cursor.ofText (F ++ P)).nextSeen = (Cursor.ofText P).nextSeen.extend []
      ((Cursor.ofText F).last.index + 0) ((Cursor.ofText F).last.line + 0) := by
    have hempty := hfiller [] 0 0
    rw [h.nextSeen_extend (.inl rfl)] at hempty
    rw [← hempty]
    unfold Cursor.extend Cursor.ofText
    simp
  refine ⟨?_, ?_, fun {c more index line tokens indent outer tokens' indent' outer'} hstands
    hopens => ?_⟩
  · rw [hnone]
    exact fun hnil => h.seen (List.append_eq_nil_iff.mp hnil).1
  · rw [hnone]
    exact h.column
  have hend := @Cursor.last_append F P more index line hF.complete
  have hP := isComplete_of_append h.ne_nil hstands.complete
  have hstands' : Stands n P b c more ((Cursor.ofText F).last.index + index)
      ((Cursor.ofText F).last.line + line) :=
    ⟨hstands.start.trans (hfiller more index line), hP, hstands.apart, by
      rw [← hend]
      exact hstands.next⟩
  rw [hend]
  exact h.reaches hstands' hopens

/-- Nothing is added by lines behind in which nothing is to be seen. -/
theorem ScansAs.trail (h : ScansAs n P false ts) (hP : P.getLast? = some '\n')
    (hF : IsFiller F) : ScansAs n (P ++ F) false ts := by
  have hP' : P = [] ∨ P.getLast? = some '\n' := .inr hP
  have hwhole : (Cursor.ofText (P ++ F)).nextSeen = (Cursor.ofText P).nextSeen.extend F 0 0 := by
    rw [← h.nextSeen_extend (Cursor.isComplete_ofText hP')]
    rfl
  refine ⟨?_, ?_, fun {c more index line tokens indent outer tokens' indent' outer'} hstands
    hopens => ?_⟩
  · rw [hwhole]
    exact fun hnil => h.seen (List.append_eq_nil_iff.mp hnil).1
  · rw [hwhole]
    exact h.column
  have hbetween := @Cursor.last_extend_append P F more index line hP'
  have hend := @Cursor.last_append P F more index line hP'
  have hnext : ((Cursor.ofText P).last.extend (F ++ more) index line).nextSeen =
      ((Cursor.ofText (P ++ F)).last.extend more index line).nextSeen := by
    rw [hbetween, Cursor.nextSeen_filler hF, hend]
  have hstands' : Stands n P false c (F ++ more) index line := by
    refine ⟨?_, Cursor.isComplete_ofText hP', fun hb => by simp at hb, ?_⟩
    · rw [hstands.start]
      unfold Cursor.extend Cursor.ofText
      rw [List.append_assoc]
    · rw [hnext]
      exact hstands.next
  refine (h.reaches hstands' hopens).trans (reaches_of_nextSeen_eq hnext ?_)
  change ((Cursor.ofText (P ++ F)).last.rest ++ more).length ≤
    ((Cursor.ofText P).last.rest ++ (F ++ more)).length
  rw [Cursor.rest_last, Cursor.rest_last]
  simp

/-! ## Headers -/

/-- A line that is a word at the first column with a colon and blanks behind it. -/
structure IsHeaderText (H name : List Char) : Prop where
  word : IsWord name
  eq : ∃ gap, H = name ++ ':' :: gap ∧ (∀ ch ∈ gap, ch = ' ' ∨ isBreak ch = true) ∧
    gap.getLast? = some '\n'

/-- Blanks and line ends are gone over before something is seen. -/
theorem nextSeen_blanks {gap rest : List Char} (hgap : ∀ ch ∈ gap, ch = ' ' ∨ isBreak ch = true)
    {c : Cursor} (hrest : c.rest = gap ++ rest) : c.nextSeen = (c.skip gap.length).nextSeen := by
  induction gap generalizing c with
  | nil => rfl
  | cons ch gap ih =>
    have hhead : c.rest.head? = some ch := by rw [hrest]; rfl
    rw [Cursor.nextSeen_next hhead (hgap ch List.mem_cons_self),
      ih (fun ch hch => hgap ch (List.mem_cons_of_mem _ hch))
        (by rw [Cursor.rest_next, hrest]; rfl)]
    rfl

/-- Blanks with a line end among them end the line. -/
theorem endsLine_blanks {gap rest : List Char} (hgap : ∀ ch ∈ gap, ch = ' ' ∨ isBreak ch = true)
    (hlast : gap.getLast? = some '\n') {c : Cursor} (hrest : c.rest = gap ++ rest) :
    endsLine c = true := by
  induction gap generalizing c with
  | nil => simp at hlast
  | cons ch gap ih =>
    have hhead : c.rest.head? = some ch := by rw [hrest]; rfl
    rcases hgap ch List.mem_cons_self with rfl | hbreak
    · have hne : gap ≠ [] := by
        rintro rfl
        simp at hlast
      have hnext := ih (fun ch hch => hgap ch (List.mem_cons_of_mem _ hch))
        (by rwa [List.getLast?_cons_of_ne_nil hne] at hlast)
        (by rw [Cursor.rest_next, hrest]; rfl : c.next.rest = gap ++ rest)
      unfold endsLine at hnext ⊢
      rwa [Cursor.skipSpaces_next hhead]
    · unfold endsLine
      rw [Cursor.skipBlanks_of_break hhead hbreak]
      have hsome := Cursor.takeBreak?_isSome (hrest : c.rest = ch :: (gap ++ rest))
      rwa [hsome]

theorem nextSeen_of_word (h : IsWord name) {rest : List Char} (hrest : c.rest = name ++ rest) :
    c.nextSeen = c := by
  obtain ⟨ch, tail, hname⟩ := List.exists_cons_of_ne_nil h.ne_nil
  have hplain := (h.plain ch (by simp [hname])).1
  have hstart := h.start ch (by simp [hname])
  have hrest' : c.rest = ch :: (tail ++ rest) := by rw [hrest, hname, List.cons_append]
  refine Cursor.nextSeen_of_seen hrest' ?_ ?_ (isBreak_of_isGap hplain)
  · rintro rfl
    exact absurd hplain (by decide)
  · rintro rfl
    exact absurd hstart (by decide)

theorem IsHeaderText.getLast?_eq {H : List Char} (h : IsHeaderText H name) :
    H.getLast? = some '\n' := by
  obtain ⟨gap, rfl, -, hlast⟩ := h.eq
  rw [getLast?_append_of_ne_nil _ (by simp), List.getLast?_cons_of_ne_nil, hlast]
  rintro rfl
  simp at hlast

theorem IsHeaderText.isSeen {H : List Char} (h : IsHeaderText H name) (more : List Char) :
    Block.IsSeen (H ++ more) := by
  obtain ⟨gap, rfl, -, -⟩ := h.eq
  obtain ⟨ch, tail, hname⟩ := List.exists_cons_of_ne_nil h.word.ne_nil
  have hplain := (h.word.plain ch (by simp [hname])).1
  refine ⟨ch, tail ++ ':' :: gap ++ more, by rw [hname]; rfl, ?_, isBreak_of_isGap hplain⟩
  rintro rfl
  exact absurd hplain (by decide)

theorem IsHeaderText.nextSeen_eq {H : List Char} (h : IsHeaderText H name) (more : List Char)
    (index line : Nat) : ((Cursor.ofText H).extend more index line).nextSeen =
      (Cursor.ofText H).extend more index line := by
  obtain ⟨gap, rfl, -, -⟩ := h.eq
  refine nextSeen_of_word h.word (?_ : _ = name ++ (':' :: (gap ++ more)))
  simp [Cursor.ofText]

/-- From a header, the scanner comes to the line behind it. -/
theorem IsHeaderText.reaches {H : List Char} (h : IsHeaderText H name)
    (hstart : c.nextSeen = ((Cursor.ofText H).extend more index line).nextSeen)
    {tokens' : List Token} {indent' : Int} {outer' : List Int}
    (hopens : Opens 0 tokens indent outer tokens' indent' outer') :
    Reaches (atLine c tokens indent outer)
      (atLine ((Cursor.ofText H).last.extend more index line)
        (.value :: .scalar (String.ofList name) true :: .key :: opening 0 indent' tokens') 0
        (around 0 indent' outer')) := by
  have hcomplete : (Cursor.ofText H).IsComplete more := .inr (.inr h.getLast?_eq)
  rw [h.nextSeen_eq] at hstart
  obtain ⟨gap, rfl, hgap, hlast⟩ := h.eq
  have hrest : ((Cursor.ofText (name ++ ':' :: gap)).extend more index line).rest =
      name ++ ':' :: (gap ++ more) := by simp [Cursor.ofText]
  have hgapAt : gapAt (gap ++ more) = true := by
    cases hg : gap with
    | nil => simp [hg] at hlast
    | cons ch gap' =>
      rcases hgap ch (by simp [hg]) with rfl | hbreak
      · rfl
      · simp [gapAt, isGap, hbreak]
  have hcolon := reaches_afterColon h.word hgapAt (by rw [hstart, hrest]) (by rw [hstart]; rfl)
    hopens
  refine hcolon.trans ?_
  have hafter : (c.nextSeen.skip name.length).next.rest = gap ++ more := by
    rw [Cursor.rest_next, Cursor.rest_skip, hstart, hrest, List.drop_left]
    rfl
  have hskip : (c.nextSeen.skip name.length).next.skip gap.length =
      (Cursor.ofText (name ++ ':' :: gap)).last.extend more index line := by
    have hlength : name.length + (1 + gap.length) = (name ++ ':' :: gap).length := by
      rw [List.length_append, List.length_cons]
      omega
    have hlastCursor : (Cursor.ofText (name ++ ':' :: gap)).last =
        (Cursor.ofText (name ++ ':' :: gap)).skip (name ++ ':' :: gap).length := rfl
    rw [← Cursor.skip_one, ← Cursor.skip_add, ← Cursor.skip_add, hstart, hlength, hlastCursor]
    exact Cursor.skip_extend hcomplete (.inr (Nat.le_refl _))
  have hline := endsLine_blanks hgap hlast hafter
  have hnext := nextSeen_blanks hgap hafter
  rw [hskip] at hnext
  refine ⟨0, ?_, fun fuel all hrun => run_congr rfl rfl ?_ hrun⟩
  · change 0 + ((Cursor.ofText (name ++ ':' :: gap)).last.rest ++ more).length ≤
      (c.nextSeen.skip name.length).next.rest.length
    rw [Cursor.rest_last, hafter]
    simp
  · rw [step_eq, step_eq, seen_atLine, ← hnext]
    unfold seen afterColon
    dsimp only
    rw [hline, hstart]
    rfl

/-- A header with nothing below it is an entry. -/
theorem IsHeaderText.scansAs {H : List Char} (h : IsHeaderText H name) :
    ScansAs 0 H false [.key, .scalar (String.ofList name) true, .value] := by
  have hself := h.nextSeen_eq [] 0 0
  have hnone : (Cursor.ofText H).extend [] 0 0 = Cursor.ofText H := by
    unfold Cursor.extend Cursor.ofText
    simp
  rw [hnone] at hself
  have hne : H ≠ [] := by
    obtain ⟨gap, rfl, -, -⟩ := h.eq
    simp
  exact ⟨by rwa [hself], by rw [hself]; rfl, fun hstands hopens => h.reaches hstands.start hopens⟩

/-- At the end of the text, a run closes all blocks. -/
theorem run_atLine_at_end (hrest : c.nextSeen.rest = []) (fuel : Nat) :
    run (fuel + 2) (atLine c tokens indent outer) =
      ⟨(.streamEnd :: (closeFrom (-1) indent outer tokens).2).reverse, none⟩ := by
  have hend := run_at_end (s := atLine c tokens indent outer) rfl hrest
    (dropStaleKeys_atLine _ _ _ _) rfl (fun k hk => by cases hk) fuel
  rw [hend]
  rfl

/-- A block behind which something stands further left, or nothing, is closed there. -/
theorem reaches_closed (hn : 0 < n)
    (hnext : c.nextSeen.rest = [] ∨ c.nextSeen.column = 0) :
    Reaches (atLine c tokens n (indent :: outer)) (atLine c (.blockEnd :: tokens) indent outer) := by
  refine ⟨0, by simp [atLine], fun fuel all hrun => ?_⟩
  by_cases hrest : c.nextSeen.rest = []
  · rw [run_atLine_at_end hrest] at hrun
    rw [Nat.add_zero, run_atLine_at_end hrest, closeFrom_cons, if_pos (by omega), hrun]
  · have hcolumn := hnext.resolve_left hrest
    refine run_congr rfl rfl ?_ hrun
    rw [step_eq, step_eq, seen_atLine, seen_atLine, dropStaleKeys_atLine, dropStaleKeys_atLine]
    change takeSeen _ = takeSeen _
    refine takeSeen_congr ?_
    rw [closeBlocks_of_block rfl, closeBlocks_of_block rfl]
    have hclose : closeFrom (c.nextSeen.column : Int) n (indent :: outer) tokens =
        closeFrom (c.nextSeen.column : Int) indent outer (.blockEnd :: tokens) := by
      rw [closeFrom_cons, if_pos (by omega)]
    change { atLine c.nextSeen tokens n (indent :: outer) with
      indent := (closeFrom (c.nextSeen.column : Int) n (indent :: outer) tokens).1.1
      outerIndents := (closeFrom (c.nextSeen.column : Int) n (indent :: outer) tokens).1.2
      tokens := (closeFrom (c.nextSeen.column : Int) n (indent :: outer) tokens).2 } = _
    rw [hclose]
    rfl

/-- A mapping below a header is the value of its key. -/
theorem ScansAs.below {H : List Char} (hH : IsHeaderText H name) (h : ScansAs n Q false us)
    (hn : 0 < n) : ScansAs 0 (H ++ Q) false (.key :: .scalar (String.ofList name) true :: .value ::
      .blockMappingStart :: (us ++ [Token.blockEnd])) := by
  have hheader := hH.scansAs
  have hH' : H = [] ∨ H.getLast? = some '\n' := .inr hH.getLast?_eq
  have hwhole : (Cursor.ofText (H ++ Q)).nextSeen = (Cursor.ofText H).nextSeen.extend Q 0 0 := by
    rw [← hheader.nextSeen_extend (Cursor.isComplete_ofText hH')]
    rfl
  refine ⟨?_, ?_, fun {c more index line tokens indent outer tokens' indent' outer'} hstands
    hopens => ?_⟩
  · rw [hwhole]
    exact fun hnil => hheader.seen (List.append_eq_nil_iff.mp hnil).1
  · rw [hwhole]
    exact hheader.column
  have hbetween := @Cursor.last_extend_append H Q more index line hH'
  have hend := @Cursor.last_append H Q more index line hH'
  have hstart : c.nextSeen = ((Cursor.ofText H).extend (Q ++ more) index line).nextSeen := by
    rw [hstands.start]
    unfold Cursor.extend Cursor.ofText
    rw [List.append_assoc]
  have hnext := hstands.next
  rw [hend] at hnext ⊢
  have hstands' : Stands n Q false ((Cursor.ofText H).last.extend (Q ++ more) index line) more
      ((Cursor.ofText H).last.index + index) ((Cursor.ofText H).last.line + line) :=
    ⟨by rw [hbetween], isComplete_of_append h.ne_nil hstands.complete, fun hb => by simp at hb,
      hnext.imp_right fun hcolumn => Nat.le_trans hcolumn (Nat.zero_le n)⟩
  have hbelow := h.reaches hstands' (opens_of_le (Int.natCast_nonneg n : (0 : Int) ≤ n)
    (.value :: .scalar (String.ofList name) true :: .key :: opening 0 indent' tokens')
    (around 0 indent' outer'))
  rw [opening_of_lt (Int.natCast_pos.mpr hn), around_of_lt (Int.natCast_pos.mpr hn)] at hbelow
  have hall := ((hH.reaches hstart hopens).trans hbelow).trans
    (reaches_closed hn (hnext.imp_right Nat.le_zero.mp))
  simpa using hall

/-! ## A whole text -/

theorem ofText_eq_atLine (h : P.head? ≠ some byteOrderMark) :
    ofText P = atLine (Cursor.ofText P) [] (-1) [] := by
  unfold ofText atLine
  rw [if_neg (by simpa using h)]

/-- The tokens of a text of entries. -/
theorem ScansAs.scan_eq (h : ScansAs n P b ts) (hmark : P.head? ≠ some byteOrderMark)
    (hpermitted : P.all isPermitted = true) :
    scan (String.ofList P) =
      ⟨.blockMappingStart :: (ts ++ [Token.blockEnd, .streamEnd]), none⟩ := by
  have hextend : (Cursor.ofText P).last.extend [] 0 0 = (Cursor.ofText P).last := by
    generalize (Cursor.ofText P).last = c
    unfold Cursor.extend
    rw [List.append_nil]
    rfl
  have hlast : (Cursor.ofText P).last.nextSeen.rest = [] := by
    rw [Cursor.nextSeen_of_nil (Cursor.rest_last _), Cursor.rest_last]
  have hstands : Stands n P b (Cursor.ofText P) [] 0 0 := by
    refine ⟨?_, .inl rfl, fun _ hne => absurd rfl hne, .inl ?_⟩
    · unfold Cursor.extend Cursor.ofText
      simp
    · rw [hextend, hlast]
  obtain ⟨k, hk, hrun⟩ := h.reaches hstands (opens_first n)
  rw [hextend, around_neg_one, opening_neg_one] at hrun hk
  have hlength : k ≤ P.length := by
    have hlen : k + _ ≤ P.length := hk
    omega
  obtain ⟨fuel, hfuel⟩ : ∃ fuel, P.length = fuel + k := ⟨P.length - k, by omega⟩
  have hend : run (fuel + 2) (atLine (Cursor.ofText P).last (ts.reverse ++ [.blockMappingStart]) n
      [-1]) = _ := run_atLine_at_end hlast fuel
  have hall := hrun fuel _ hend
  unfold scan
  rw [String.toList_ofList, if_pos hpermitted, ofText_eq_atLine hmark, hfuel,
    Nat.add_right_comm, hall, closeFrom_cons, if_pos (by omega)]
  simp [closeFrom]

end Scanner
end PubspecTidy.Yaml
