import PubspecTidy.Proofs.Outcome
import PubspecTidy.Proofs.Yaml.Cursor
import PubspecTidy.Yaml.Token.Quoted

/-!
# Quoted scalars in a longer text

Main statement: a quoted scalar of a text is the same in every longer text.
-/
namespace PubspecTidy.Yaml.Quoted

open Cursor

variable {more : List Char} {index line : Nat} {c c' : Cursor}

/-! ## Code points -/

theorem takeCode_eq_ok {count : Nat} {ch : Char} (h : takeCode count c = .ok (ch, c')) :
    (c.rest.take count).length = count ∧ c' = c.skip count := by
  unfold takeCode at h
  dsimp only at h
  split at h
  · rename_i hdigits
    obtain ⟨e, -, h⟩ := bind_eq_ok.mp h
    cases h
    exact ⟨hdigits.1, rfl⟩
  · simp at h

theorem takeCode_extend {count : Nat} {ch : Char} (h : c.IsComplete more)
    (htake : takeCode count c = .ok (ch, c')) :
    takeCode count (c.extend more index line) = .ok (ch, c'.extend more index line) := by
  obtain ⟨hcount, rfl⟩ := takeCode_eq_ok htake
  have hle : count ≤ c.rest.length := by
    rw [List.length_take] at hcount
    omega
  unfold takeCode at htake ⊢
  rw [rest_extend, List.take_append_of_le_length hle, skip_extend h (.inr hle)]
  dsimp only at htake ⊢
  split at htake
  · rename_i hdigits
    obtain ⟨e, he, htake⟩ := bind_eq_ok.mp htake
    rw [if_pos hdigits, he]
    cases htake
    rfl
  · simp at htake

/-! ## Blanks -/

theorem precedes_takeBreaks {fuel : Nat} {bs : List Char} (h : takeBreaks fuel c = .ok (bs, c')) :
    c.Precedes c' := by
  induction fuel generalizing c bs with
  | zero =>
    obtain ⟨-, rfl⟩ := Prod.mk.inj (Except.ok.inj h)
    exact .refl c
  | succ fuel ih =>
    unfold takeBreaks at h
    split at h
    · simp at h
    · have hblanks := precedes_skipWhile isSpaceOrTab c
      dsimp only at h
      split at h
      · rename_i b c₁ hbreak
        obtain ⟨⟨bs', c₂⟩, hrec, h⟩ := bind_eq_ok.mp h
        cases h
        exact hblanks.trans ((precedes_next _).trans ((precedes_takeBreak? hbreak).trans (ih hrec)))
      · cases h
        exact hblanks

theorem skipWhile_precedes_takeBreaks {fuel : Nat} {bs : List Char}
    (h : takeBreaks (fuel + 1) c = .ok (bs, c')) : (c.skipWhile isSpaceOrTab).Precedes c' := by
  unfold takeBreaks at h
  split at h
  · simp at h
  · dsimp only at h
    split at h
    · rename_i b c₁ hbreak
      obtain ⟨⟨bs', c₂⟩, hrec, h⟩ := bind_eq_ok.mp h
      cases h
      exact (precedes_next _).trans ((precedes_takeBreak? hbreak).trans (precedes_takeBreaks hrec))
    · cases h
      exact .refl _

theorem takeBreaks_extend {fuel fuel' : Nat} {bs : List Char} (hfuel : c.rest.length < fuel)
    (hle : fuel ≤ fuel') (h : c.IsComplete more) (hin : c'.IsInside more)
    (htake : takeBreaks fuel c = .ok (bs, c')) :
    takeBreaks fuel' (c.extend more index line) = .ok (bs, c'.extend more index line) := by
  induction fuel generalizing c fuel' bs with
  | zero => omega
  | succ fuel ih =>
    obtain ⟨fuel', rfl⟩ : ∃ n, fuel' = n + 1 := ⟨fuel' - 1, by omega⟩
    have hblanks := precedes_skipWhile isSpaceOrTab c
    have hin' := (skipWhile_precedes_takeBreaks htake).isInside hin
    unfold takeBreaks at htake ⊢
    rw [markerAt_extend h (hblanks.isInside hin'), skipWhile_extend h hin']
    split at htake
    · simp at htake
    · rename_i hmark
      rw [if_neg hmark]
      dsimp only at htake ⊢
      rw [takeBreak?_extend (hblanks.isComplete h) hin']
      split at htake
      · rename_i b c₁ hbreak
        obtain ⟨⟨bs', c₂⟩, hrec, htake⟩ := bind_eq_ok.mp htake
        cases htake
        have hlt := length_lt_of_takeBreak? hbreak
        have := hblanks.length_le
        have hc₁ := (precedes_takeBreak? hbreak).isComplete (hblanks.isComplete h).next
        rw [hbreak]
        simp only [Option.map_some, ih (by omega) (by omega : fuel ≤ fuel') hc₁ hrec]
        rfl
      · rename_i hbreak
        cases htake
        rw [hbreak]
        rfl

theorem takeWhile_precedes_takeBlanks {part : List Char} (h : takeBlanks c = .ok (part, c')) :
    (c.takeWhile isSpaceOrTab).2.Precedes c' := by
  unfold takeBlanks at h
  dsimp only at h
  split at h
  · simp at h
  · cases h
    exact .refl _
  · rename_i b c₁ hbreak _
    obtain ⟨⟨bs, c₂⟩, hbreaks, h⟩ := bind_eq_ok.mp h
    have hc₂ := (precedes_next _).trans
      ((precedes_takeBreak? hbreak).trans (precedes_takeBreaks hbreaks))
    dsimp only at h
    split at h
    · cases h
      exact hc₂
    · split at h
      · cases h
        exact hc₂
      · cases h
        exact hc₂

theorem takeBlanks_extend {part : List Char} (h : c.IsComplete more) (hin : c'.IsInside more)
    (htake : takeBlanks c = .ok (part, c')) :
    takeBlanks (c.extend more index line) = .ok (part, c'.extend more index line) := by
  have hblanks := precedes_takeWhile isSpaceOrTab c
  have hin' := (takeWhile_precedes_takeBlanks htake).isInside hin
  unfold takeBlanks at htake ⊢
  rw [takeWhile_extend h hin']
  dsimp only at htake ⊢
  rw [takeBreak?_extend (hblanks.isComplete h) hin', rest_extend]
  cases hrest : (c.takeWhile isSpaceOrTab).2.rest with
  | nil => simp [hrest] at htake
  | cons ch rest =>
    rw [List.cons_append]
    cases hbreak : (c.takeWhile isSpaceOrTab).2.takeBreak? with
    | none =>
      simp only [hrest, hbreak] at htake
      cases htake
      rfl
    | some t =>
      obtain ⟨b, c₁⟩ := t
      simp only [hrest, hbreak] at htake
      obtain ⟨⟨bs, c₂⟩, hbreaks, htake⟩ := bind_eq_ok.mp htake
      have hc₁ := (precedes_takeBreak? hbreak).isComplete (hblanks.isComplete h).next
      have hc₂ : c₂ = c' := by
        dsimp only at htake
        split at htake
        · cases htake
          rfl
        · split at htake
          · cases htake
            rfl
          · cases htake
            rfl
      subst hc₂
      have hrec : takeBreaks ((c₁.extend more index line).rest.length + 1)
          (c₁.extend more index line) = .ok (bs, c₂.extend more index line) :=
        takeBreaks_extend (Nat.lt_succ_self _) (by simp) hc₁ hin hbreaks
      simp only [Option.map_some]
      rw [hrec]
      dsimp only [bind, Except.bind] at htake ⊢
      split at htake
      · rename_i hb
        cases htake
        rw [if_pos hb]
        rfl
      · rename_i hb
        rw [if_neg hb]
        split at htake
        · rename_i hempty
          cases htake
          rw [if_pos hempty]
          rfl
        · rename_i hempty
          cases htake
          rw [if_neg hempty]
          rfl

/-! ## Escapes and the scalar -/

theorem precedes_takeEscape {part : List Char} (h : takeEscape c = .ok (part, c')) :
    c.Precedes c' := by
  unfold takeEscape at h
  split at h
  · simp at h
  · split at h
    · cases h
      exact precedes_next c
    · obtain ⟨⟨e, c₁⟩, hcode, h⟩ := bind_eq_ok.mp h
      cases h
      obtain ⟨-, rfl⟩ := takeCode_eq_ok hcode
      exact (precedes_next c).trans (precedes_skip _ _)
    · split at h
      · rename_i hbreak
        exact (precedes_next c).trans ((precedes_takeBreak? hbreak).trans (precedes_takeBreaks h))
      · simp at h

theorem takeEscape_extend {part : List Char} (h : c.IsComplete more) (hin : c'.IsInside more)
    (htake : takeEscape c = .ok (part, c')) :
    takeEscape (c.extend more index line) = .ok (part, c'.extend more index line) := by
  have hin' := (precedes_takeEscape htake).isInside hin
  unfold takeEscape at htake ⊢
  rw [rest_extend, next_extend h hin', takeBreak?_extend h hin']
  cases hrest : c.rest with
  | nil => simp [hrest] at htake
  | cons ch rest =>
    rw [hrest] at htake
    rw [List.cons_append]
    dsimp only at htake ⊢
    split at htake
    · cases htake
      rfl
    · obtain ⟨⟨e, c₁⟩, hcode, htake⟩ := bind_eq_ok.mp htake
      rw [takeCode_extend h.next hcode]
      cases htake
      rfl
    · split at htake
      · rename_i c₁ hbreak
        have hc₁ := (precedes_takeBreak? hbreak).isComplete h.next
        rw [hbreak]
        exact takeBreaks_extend (Nat.lt_succ_self _) (by simp) hc₁ hin htake
      · simp at htake

/-- What one character between the quotes is read as, and where the next one stands; nothing at the
closing quote. -/
def takePart (double : Bool) (c : Cursor) : Except Fault (Option (List Char) × Cursor) :=
  match c.rest with
  | [] => .error .malformed
  | ch :: rest =>
    if ch = '\'' ∧ !double then
      if rest.head? == some '\'' then .ok (some ['\''], c.skip 2) else .ok (none, c.next)
    else if ch = '"' ∧ double then .ok (none, c.next)
    else if ch = '\\' ∧ double then
      (takeEscape c.next).map fun t => (some t.1, t.2)
    else if isGap ch then (takeBlanks c).map fun t => (some t.1, t.2)
    else .ok (some [ch], c.next)

theorem takeInner_eq (double : Bool) (fuel : Nat) (c : Cursor) :
    takeInner double (fuel + 1) c = do
      match ← takePart double c with
      | (none, c) => .ok ([], c)
      | (some part, c) =>
        let (rest, c) ← takeInner double fuel c
        return (part ++ rest, c) := by
  conv =>
    lhs
    unfold takeInner
  unfold takePart
  cases c.rest with
  | nil => rfl
  | cons ch rest =>
    dsimp only
    split
    · split <;> rfl
    · split
      · rfl
      · split
        · cases takeEscape c.next <;> rfl
        · split
          · cases takeBlanks c <;> rfl
          · rfl

theorem precedes_takePart {double : Bool} {part : Option (List Char)}
    (h : takePart double c = .ok (part, c')) : c.Precedes c' := by
  unfold takePart at h
  split at h
  · simp at h
  · split at h
    · split at h
      · cases h
        exact precedes_skip 2 c
      · cases h
        exact precedes_next c
    · split at h
      · cases h
        exact precedes_next c
      · split at h
        · obtain ⟨⟨text, c₁⟩, htake, h⟩ := map_eq_ok.mp h
          cases h
          exact (precedes_next c).trans (precedes_takeEscape htake)
        · split at h
          · obtain ⟨⟨text, c₁⟩, htake, h⟩ := map_eq_ok.mp h
            cases h
            exact (precedes_takeWhile _ c).trans (takeWhile_precedes_takeBlanks htake)
          · cases h
            exact precedes_next c

theorem takePart_extend {double : Bool} {part : Option (List Char)} (h : c.IsComplete more)
    (hin : c'.IsInside more) (htake : takePart double c = .ok (part, c')) :
    takePart double (c.extend more index line) = .ok (part, c'.extend more index line) := by
  have hin' := (precedes_takePart htake).isInside hin
  unfold takePart at htake ⊢
  cases hrest : c.rest with
  | nil => simp [hrest] at htake
  | cons ch rest =>
    rw [rest_extend, hrest, List.cons_append, next_extend h hin']
    rw [hrest] at htake
    dsimp only at htake ⊢
    split at htake
    · rename_i hquote
      rw [if_pos hquote]
      have hhead : (rest ++ more).head? = rest.head? := by
        rcases h.tail_ne_nil hrest (by rw [hquote.1]; decide) with rfl | hne
        · rw [List.append_nil]
        · cases rest with
          | nil => exact absurd rfl hne
          | cons r rest => rfl
      rw [hhead]
      split at htake
      · rename_i hdouble
        have hle : 2 ≤ c.rest.length := by
          cases rest with
          | nil => simp at hdouble
          | cons r rest => simp [hrest]
        cases htake
        rw [if_pos hdouble, skip_extend h (.inr hle)]
      · rename_i hsingle
        cases htake
        rw [if_neg hsingle]
    · rename_i hquote
      rw [if_neg hquote]
      split at htake
      · rename_i hclose
        cases htake
        rw [if_pos hclose]
      · rename_i hclose
        rw [if_neg hclose]
        split at htake
        · rename_i hback
          obtain ⟨⟨text, c₁⟩, hescape, htake⟩ := map_eq_ok.mp htake
          cases htake
          rw [if_pos hback, takeEscape_extend h.next hin hescape]
          rfl
        · rename_i hback
          rw [if_neg hback]
          split at htake
          · rename_i hgap
            obtain ⟨⟨text, c₁⟩, hblanks, htake⟩ := map_eq_ok.mp htake
            cases htake
            rw [if_pos hgap, takeBlanks_extend h hin hblanks]
            rfl
          · rename_i hgap
            cases htake
            rw [if_neg hgap]

theorem precedes_takeInner {double : Bool} {fuel : Nat} {text : List Char}
    (h : takeInner double fuel c = .ok (text, c')) : c.Precedes c' := by
  induction fuel generalizing c text with
  | zero => simp [takeInner] at h
  | succ fuel ih =>
    rw [takeInner_eq] at h
    obtain ⟨⟨part, c₁⟩, hpart, h⟩ := bind_eq_ok.mp h
    cases part with
    | none =>
      cases h
      exact precedes_takePart hpart
    | some part =>
      obtain ⟨⟨rest, c₂⟩, hrec, h⟩ := bind_eq_ok.mp h
      cases h
      exact (precedes_takePart hpart).trans (ih hrec)

theorem takeInner_extend {double : Bool} {fuel fuel' : Nat} {text : List Char} (hle : fuel ≤ fuel')
    (h : c.IsComplete more) (hin : c'.IsInside more)
    (htake : takeInner double fuel c = .ok (text, c')) :
    takeInner double fuel' (c.extend more index line) = .ok (text, c'.extend more index line) := by
  induction fuel generalizing c fuel' text with
  | zero => simp [takeInner] at htake
  | succ fuel ih =>
    obtain ⟨fuel', rfl⟩ : ∃ n, fuel' = n + 1 := ⟨fuel' - 1, by omega⟩
    rw [takeInner_eq] at htake ⊢
    obtain ⟨⟨part, c₁⟩, hpart, htake⟩ := bind_eq_ok.mp htake
    cases part with
    | none =>
      cases htake
      rw [takePart_extend h hin hpart]
      rfl
    | some part =>
      obtain ⟨⟨rest, c₂⟩, hrec, htake⟩ := bind_eq_ok.mp htake
      cases htake
      rw [takePart_extend h ((precedes_takeInner hrec).isInside hin) hpart]
      have hrest := ih (by omega : fuel ≤ fuel') ((precedes_takePart hpart).isComplete h) hrec
      simp only [bind, Except.bind, hrest]
      rfl

theorem precedes_take {double : Bool} {text : String} (h : take double c = .ok (text, c')) :
    c.next.Precedes c' := by
  obtain ⟨⟨cs, c₁⟩, htake, h⟩ := bind_eq_ok.mp h
  cases h
  exact precedes_takeInner htake

/-- The closing quote is no line feed. -/
theorem takePart_isInside {double : Bool} (h : c.IsComplete more)
    (htake : takePart double c = .ok (none, c')) : c'.IsInside more := by
  unfold takePart at htake
  split at htake
  · simp at htake
  · rename_i ch rest hrest
    split at htake
    · rename_i hquote
      split at htake
      · cases htake
      · cases htake
        exact next_isInside h hrest (by simp [hquote.1])
    · split at htake
      · rename_i hquote
        cases htake
        exact next_isInside h hrest (by simp [hquote.1])
      · split at htake
        · obtain ⟨_, -, htake⟩ := map_eq_ok.mp htake
          cases htake
        · split at htake
          · obtain ⟨_, -, htake⟩ := map_eq_ok.mp htake
            cases htake
          · cases htake

theorem takeInner_isInside {double : Bool} {fuel : Nat} {text : List Char} (h : c.IsComplete more)
    (htake : takeInner double fuel c = .ok (text, c')) : c'.IsInside more := by
  induction fuel generalizing c text with
  | zero => simp [takeInner] at htake
  | succ fuel ih =>
    rw [takeInner_eq] at htake
    obtain ⟨⟨part, c₁⟩, hpart, htake⟩ := bind_eq_ok.mp htake
    cases part with
    | none =>
      cases htake
      exact takePart_isInside h hpart
    | some part =>
      obtain ⟨⟨rest, c₂⟩, hrec, htake⟩ := bind_eq_ok.mp htake
      cases htake
      exact ih ((precedes_takePart hpart).isComplete h) hrec

theorem take_isInside {double : Bool} {text : String} (h : c.IsComplete more)
    (htake : take double c = .ok (text, c')) : c'.IsInside more := by
  obtain ⟨⟨cs, c₁⟩, htake, h'⟩ := bind_eq_ok.mp htake
  cases h'
  exact takeInner_isInside h.next htake

/-- A quoted scalar is the same in a longer text. -/
theorem take_extend {double : Bool} {text : String} (h : c.IsComplete more)
    (hin : c'.IsInside more) (htake : take double c = .ok (text, c')) :
    take double (c.extend more index line) = .ok (text, c'.extend more index line) := by
  have hin' := (precedes_next c).isInside ((precedes_take htake).isInside hin)
  obtain ⟨⟨cs, c₁⟩, htake, h'⟩ := bind_eq_ok.mp htake
  cases h'
  have hrec : takeInner double ((c.extend more index line).rest.length + 1)
      (c.next.extend more index line) = .ok (cs, c'.extend more index line) :=
    takeInner_extend (by simp) h.next hin htake
  unfold take
  rw [next_extend h hin', hrec]
  rfl

end PubspecTidy.Yaml.Quoted
