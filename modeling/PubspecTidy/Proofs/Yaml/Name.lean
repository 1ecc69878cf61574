import PubspecTidy.Proofs.Outcome
import PubspecTidy.Proofs.Yaml.Cursor
import PubspecTidy.Yaml.Token.Name

/-!
# Anchors and tags in a longer text

Main statement: an anchor or a tag of a text is the same in every longer text.
-/
namespace PubspecTidy.Yaml.Name

open Cursor

variable {more : List Char} {index line : Nat} {c c' : Cursor}

/-! ## Anchors -/

theorem endsName_append {cs : List Char} (h : cs ≠ []) (more : List Char) :
    endsName (cs ++ more) = endsName cs := by
  cases cs with
  | nil => exact absurd rfl h
  | cons c rest => rfl

theorem takeAnchor_eq_ok {name : String} (h : takeAnchor c = .ok (name, c')) :
    c' = (c.next.takeWhile isWordChar).2 ∧ name = String.ofList (c.next.takeWhile isWordChar).1 ∧
      ((c.next.takeWhile isWordChar).1.isEmpty || !endsName c'.rest) = false := by
  unfold takeAnchor at h
  dsimp only at h
  split at h
  · simp at h
  · rename_i hname
    cases h
    exact ⟨rfl, rfl, by simpa using hname⟩

theorem precedes_takeAnchor {name : String} (h : takeAnchor c = .ok (name, c')) :
    c.next.Precedes c' := by
  rw [(takeAnchor_eq_ok h).1]
  exact precedes_takeWhile _ _

theorem takeAnchor_extend {name : String} (h : c.IsComplete more) (hin : c'.IsInside more)
    (htake : takeAnchor c = .ok (name, c')) :
    takeAnchor (c.extend more index line) = .ok (name, c'.extend more index line) := by
  have hin' := (precedes_takeAnchor htake).isInside hin
  obtain ⟨rfl, rfl, hname⟩ := takeAnchor_eq_ok htake
  have hends : endsName ((c.next.takeWhile isWordChar).2.rest ++ more) =
      endsName (c.next.takeWhile isWordChar).2.rest := by
    rcases hin with rfl | hrest
    · rw [List.append_nil]
    · exact endsName_append hrest more
  unfold takeAnchor
  rw [next_extend h ((precedes_next c).isInside hin'), takeWhile_extend h.next hin]
  dsimp only
  rw [rest_extend, hends, hname]
  rfl

theorem takeAnchor_isInside {name : String} (h : c.next.IsComplete more)
    (hin : c.next.IsInside more) (htake : takeAnchor c = .ok (name, c')) : c'.IsInside more := by
  obtain ⟨rfl, -, -⟩ := takeAnchor_eq_ok htake
  exact takeWhile_isInside h hin (by decide)

/-! ## The remainder of a tag -/

theorem takeEscapedBytes_of_ne {ch : Char} (h : ch ≠ '%') (cs : List Char) :
    takeEscapedBytes (ch :: cs) = ([], ch :: cs) := by
  unfold takeEscapedBytes
  split
  · rename_i heq
    exact absurd (List.cons.inj heq).1 h
  · rfl

theorem hexValue?_newline : Text.hexValue? '\n' = none := by decide

theorem takeEscapedBytes_append (more : List Char) (cs : List Char)
    (h : cs.getLast? = some '\n') :
    takeEscapedBytes (cs ++ more) =
        ((takeEscapedBytes cs).1, (takeEscapedBytes cs).2 ++ more) ∧
      (takeEscapedBytes cs).2.getLast? = some '\n' := by
  fun_induction takeEscapedBytes cs with
  | case1 a b rest x y hy hx bytes rest' hrec ih =>
    have hrest : rest.getLast? = some '\n' := by
      cases rest with
      | nil =>
        obtain rfl : b = '\n' := by simpa using h
        simp [hexValue?_newline] at hy
      | cons r rest => simpa using h
    obtain ⟨hmore, hlast⟩ := ih hrest
    rw [hrec] at hmore hlast
    refine ⟨?_, hlast⟩
    simp only [List.cons_append, takeEscapedBytes, hx, hy, hmore]
  | case2 a b rest hno =>
    refine ⟨?_, h⟩
    simp only [List.cons_append, takeEscapedBytes]
  | case3 cs hno =>
    refine ⟨?_, h⟩
    rcases cs with _ | ⟨a, cs⟩
    · simp at h
    · by_cases ha : a = '%'
      · subst ha
        rcases cs with _ | ⟨b, _ | ⟨d, cs⟩⟩
        · simp at h
        · obtain rfl : b = '\n' := by simpa using h
          cases more with
          | nil => simp [takeEscapedBytes]
          | cons m more => simp [takeEscapedBytes, hexValue?_newline]
        · exact absurd rfl (hno b d cs)
      · exact takeEscapedBytes_of_ne ha _

theorem head?_append_of_ne_nil {cs : List Char} (h : cs ≠ []) (more : List Char) :
    (cs ++ more).head? = cs.head? := by
  cases cs with
  | nil => exact absurd rfl h
  | cons c rest => rfl

theorem ne_nil_of_getLast? {cs : List Char} {ch : Char} (h : cs.getLast? = some ch) : cs ≠ [] := by
  rintro rfl
  simp at h

theorem takeEscaped_append (more : List Char) {cs rest part : List Char}
    (h : cs.getLast? = some '\n') (htake : takeEscaped cs = .ok (part, rest)) :
    takeEscaped (cs ++ more) = .ok (part, rest ++ more) ∧ rest.getLast? = some '\n' := by
  obtain ⟨hbytes, hlast⟩ := takeEscapedBytes_append more cs h
  unfold takeEscaped at htake ⊢
  rw [hbytes]
  dsimp only at htake ⊢
  rw [head?_append_of_ne_nil (ne_nil_of_getLast? hlast)]
  split at htake
  · simp at htake
  · rename_i hpercent
    rw [if_neg hpercent]
    split at htake
    · cases htake
      exact ⟨rfl, hlast⟩
    · simp at htake

theorem length_takeEscapedBytes (cs : List Char) :
    (takeEscapedBytes cs).2 = cs ∨ (takeEscapedBytes cs).2.length < cs.length := by
  fun_induction takeEscapedBytes cs with
  | case1 a b rest x y hy hx bytes rest' hrec ih =>
    refine .inr ?_
    rw [hrec] at ih
    dsimp only at ih ⊢
    rcases ih with rfl | hlt
    · simp only [List.length_cons]
      omega
    · simp only [List.length_cons]
      omega
  | case2 a b rest hno => exact .inl rfl
  | case3 cs hno => exact .inl rfl

theorem length_lt_of_takeEscaped {cs rest part : List Char}
    (h : takeEscaped ('%' :: cs) = .ok (part, rest)) : rest.length < cs.length + 1 := by
  have hlength := length_takeEscapedBytes ('%' :: cs)
  unfold takeEscaped at h
  dsimp only at h
  split at h
  · simp at h
  · rename_i hpercent
    split at h
    · cases h
      rcases hlength with heq | hlt
      · simp [heq] at hpercent
      · simpa using hlt
    · simp at h

theorem takeUriChars_append (more : List Char) {fuel fuel' : Nat} (hle : fuel ≤ fuel')
    {cs rest part : List Char} (hlen : cs.length < fuel) (h : cs.getLast? = some '\n')
    (htake : takeUriChars fuel cs = .ok (part, rest)) :
    takeUriChars fuel' (cs ++ more) = .ok (part, rest ++ more) ∧ rest.getLast? = some '\n' := by
  induction fuel generalizing cs fuel' part with
  | zero => omega
  | succ fuel ih =>
    obtain ⟨fuel', rfl⟩ : ∃ n, fuel' = n + 1 := ⟨fuel' - 1, by omega⟩
    cases cs with
    | nil => simp at h
    | cons ch cs =>
      rw [List.length_cons] at hlen
      by_cases hpercent : ch = '%'
      · subst hpercent
        simp only [takeUriChars, List.cons_append] at htake ⊢
        obtain ⟨⟨part₁, rest₁⟩, hescaped, htake⟩ := bind_eq_ok.mp htake
        obtain ⟨⟨part₂, rest₂⟩, hrec, htake⟩ := bind_eq_ok.mp htake
        cases htake
        obtain ⟨hmore, hlast⟩ := takeEscaped_append more h hescaped
        have hlt := length_lt_of_takeEscaped hescaped
        obtain ⟨hrest, hend⟩ := ih (by omega : fuel ≤ fuel') (by omega) hlast hrec
        rw [← List.cons_append, hmore]
        simp only [bind, Except.bind, hrest]
        exact ⟨rfl, hend⟩
      · simp only [takeUriChars, List.cons_append] at htake ⊢
        split at htake
        · rename_i huri
          rw [if_pos huri]
          obtain ⟨⟨part₂, rest₂⟩, hrec, htake⟩ := bind_eq_ok.mp htake
          cases htake
          have hlast : cs.getLast? = some '\n' := by
            cases cs with
            | nil =>
              obtain rfl : ch = '\n' := by simpa using h
              exact absurd huri (by decide)
            | cons r rest => simpa using h
          obtain ⟨hrest, hend⟩ := ih (by omega : fuel ≤ fuel') (by omega) hlast hrec
          simp only [bind, Except.bind, hrest]
          exact ⟨rfl, hend⟩
        · rename_i huri
          cases htake
          rw [if_neg huri]
          exact ⟨rfl, h⟩

theorem length_takeUriChars {fuel : Nat} {cs rest part : List Char}
    (h : takeUriChars fuel cs = .ok (part, rest)) : rest.length ≤ cs.length := by
  induction fuel generalizing cs part with
  | zero =>
    cases h
    exact Nat.le_refl _
  | succ fuel ih =>
    cases cs with
    | nil =>
      cases h
      exact Nat.le_refl _
    | cons ch cs =>
      by_cases hpercent : ch = '%'
      · subst hpercent
        simp only [takeUriChars] at h
        obtain ⟨⟨part₁, rest₁⟩, hescaped, h⟩ := bind_eq_ok.mp h
        obtain ⟨⟨part₂, rest₂⟩, hrec, h⟩ := bind_eq_ok.mp h
        cases h
        have hlt : rest₁.length < cs.length + 1 := length_lt_of_takeEscaped hescaped
        have hle : rest₂.length ≤ rest₁.length := ih hrec
        rw [List.length_cons]
        exact hle.trans (by omega)
      · simp only [takeUriChars] at h
        split at h
        · obtain ⟨⟨part₂, rest₂⟩, hrec, h⟩ := bind_eq_ok.mp h
          cases h
          exact (ih hrec).trans (by simp)
        · cases h
          exact Nat.le_refl _

theorem takeUri_eq_ok {uri : String} (h : takeUri c = .ok (uri, c')) :
    ∃ cs rest, takeUriChars (c.rest.length + 1) c.rest = .ok (cs, rest) ∧
      uri = String.ofList cs ∧ c' = c.skip (c.rest.length - rest.length) ∧
      c.rest.length - rest.length ≠ 0 := by
  obtain ⟨⟨cs, rest⟩, hchars, h⟩ := bind_eq_ok.mp h
  dsimp only at h
  split at h
  · simp at h
  · rename_i htaken
    cases h
    exact ⟨cs, rest, hchars, rfl, rfl, htaken⟩

theorem precedes_takeUri {uri : String} (h : takeUri c = .ok (uri, c')) : c.Precedes c' := by
  obtain ⟨cs, rest, -, -, rfl, -⟩ := takeUri_eq_ok h
  exact precedes_skip _ c

theorem takeUri_extend {uri : String} (h : c.IsComplete more) (hin : c.IsInside more)
    (htake : takeUri c = .ok (uri, c')) :
    takeUri (c.extend more index line) = .ok (uri, c'.extend more index line) := by
  obtain ⟨cs, rest, hchars, rfl, rfl, htaken⟩ := takeUri_eq_ok htake
  have hle := length_takeUriChars hchars
  have hmore : takeUriChars ((c.rest ++ more).length + 1) (c.rest ++ more) =
      .ok (cs, rest ++ more) := by
    rcases h with rfl | h | h
    · simpa using hchars
    · obtain rfl := hin.resolve_right (by simp [h])
      simpa using hchars
    · exact (takeUriChars_append more (by simp) (Nat.lt_succ_self _) h hchars).1
  have hlength : (c.rest ++ more).length - (rest ++ more).length = c.rest.length - rest.length := by
    simp only [List.length_append]
    omega
  unfold takeUri
  rw [rest_extend, hmore]
  simp only [bind, Except.bind, hlength, if_neg htaken, skip_extend h (.inr (Nat.sub_le _ _))]
  rfl

/-- No line feed belongs to the remainder of a tag. -/
theorem takeUri_isInside {uri : String} (h : c.IsComplete more)
    (htake : takeUri c = .ok (uri, c')) : c'.IsInside more := by
  obtain ⟨cs, rest, hchars, rfl, rfl, htaken⟩ := takeUri_eq_ok htake
  rcases h with rfl | hnil | hlast
  · exact .inl rfl
  · simp [hnil] at htaken
  · obtain ⟨-, hend⟩ := takeUriChars_append more (Nat.le_refl _) (Nat.lt_succ_self _) hlast hchars
    refine .inr fun hnil => ne_nil_of_getLast? hend (List.eq_nil_of_length_eq_zero ?_)
    have hlength := congrArg List.length hnil
    have hle := length_takeUriChars hchars
    rw [rest_skip, List.length_drop, List.length_nil] at hlength
    omega

/-! ## Tags -/

theorem takeHandle_eq {rest : List Char} (hrest : c.rest = '!' :: rest) :
    takeHandle c =
      if rest.head? == some ' ' then .ok ("!", c.next)
      else if (rest.dropWhile isWordChar).head? == some '!' then
        .ok (String.ofList ('!' :: rest.takeWhile isWordChar ++ ['!']),
          c.skip ((rest.takeWhile isWordChar).length + 2))
      else .error .malformed := by
  unfold takeHandle
  rw [hrest]
  simp only
  split
  · rfl
  · split
    · rename_i hafter
      simp [hafter]
    · rename_i hno
      split
      · rename_i hhead
        cases hafter : rest.dropWhile isWordChar with
        | nil => simp [hafter] at hhead
        | cons ch after =>
          obtain rfl : ch = '!' := by simpa [hafter] using hhead
          exact absurd hafter (hno after)
      · rfl

theorem exists_of_takeHandle {handle : String} (h : takeHandle c = .ok (handle, c')) :
    ∃ rest, c.rest = '!' :: rest := by
  unfold takeHandle at h
  split at h
  · rename_i rest hrest
    exact ⟨rest, hrest⟩
  · simp at h

theorem precedes_takeHandle {handle : String} (h : takeHandle c = .ok (handle, c')) :
    c.next.Precedes c' := by
  obtain ⟨rest, hrest⟩ := exists_of_takeHandle h
  rw [takeHandle_eq hrest] at h
  split at h
  · cases h
    exact .refl _
  · split at h
    · cases h
      exact ⟨_, rfl⟩
    · simp at h

theorem takeHandle_extend {handle : String} (h : c.IsComplete more) (hin : c'.IsInside more)
    (htake : takeHandle c = .ok (handle, c')) :
    takeHandle (c.extend more index line) = .ok (handle, c'.extend more index line) := by
  have hin' := (precedes_next c).isInside ((precedes_takeHandle htake).isInside hin)
  obtain ⟨rest, hrest⟩ := exists_of_takeHandle htake
  have hrest' : (c.extend more index line).rest = '!' :: (rest ++ more) := by
    rw [rest_extend, hrest, List.cons_append]
  have hhead : (rest ++ more).head? = rest.head? := by
    rcases h.tail_ne_nil hrest (by decide) with rfl | hne
    · rw [List.append_nil]
    · exact head?_append_of_ne_nil hne more
  rw [takeHandle_eq hrest] at htake
  rw [takeHandle_eq hrest', hhead, next_extend h hin']
  split at htake
  · rename_i hspace
    cases htake
    rw [if_pos hspace]
  · rename_i hspace
    rw [if_neg hspace]
    split at htake
    · rename_i hafter
      have hsplit : rest.takeWhile isWordChar ++ rest.dropWhile isWordChar = rest :=
        List.takeWhile_append_dropWhile
      have hne : rest.dropWhile isWordChar ≠ [] := by
        intro hnil
        simp [hnil] at hafter
      have hlen := congrArg List.length hsplit
      rw [List.length_append] at hlen
      have hpos := List.length_pos_iff.mpr hne
      have hlt : (rest.takeWhile isWordChar).length < rest.length := by omega
      have hdrop : (rest ++ more).dropWhile isWordChar = rest.dropWhile isWordChar ++ more := by
        have hall : rest.takeWhile isWordChar ++ (rest ++ more).dropWhile isWordChar =
            rest.takeWhile isWordChar ++ (rest.dropWhile isWordChar ++ more) := by
          rw [← List.append_assoc, hsplit, ← takeWhile_append_of_length_lt hlt more]
          exact List.takeWhile_append_dropWhile
        exact List.append_cancel_left hall
      have hskip : (rest.takeWhile isWordChar).length + 2 ≤ c.rest.length := by
        rw [hrest, List.length_cons]
        omega
      cases htake
      rw [hdrop, head?_append_of_ne_nil hne, if_pos hafter, takeWhile_append_of_length_lt hlt,
        skip_extend h (.inr hskip)]
    · simp at htake

theorem hasHandle_append {cs : List Char} (h : cs.getLast? = some '\n') (more : List Char) :
    hasHandle (cs ++ more) = hasHandle cs := by
  induction cs with
  | nil => simp at h
  | cons ch cs ih =>
    cases cs with
    | nil =>
      obtain rfl : ch = '\n' := by simpa using h
      rfl
    | cons r rest =>
      have hrest : hasHandle (r :: rest ++ more) = hasHandle (r :: rest) := ih (by simpa using h)
      rw [List.cons_append]
      unfold hasHandle
      rw [hrest]

theorem takeTagName_eq (c : Cursor) :
    takeTagName c =
      if c.next.rest.head? == some '<' then do
        let (uri, c) ← takeUri (c.skip 2)
        if c.rest.head? == some '>' then return (.tag none uri, c.next) else .error .malformed
      else if gapAt c.next.rest then return (.tag none "!", c.next)
      else if hasHandle c.next.rest then do
        let (handle, c) ← takeHandle c
        let (suffix, c) ← takeUri c
        return (.tag (some handle) suffix, c)
      else do
        let (suffix, c) ← takeUri c.next
        return (.tag (some "!") suffix, c) := by
  unfold takeTagName
  split
  · rename_i hrest
    simp [hrest]
  · rename_i hno
    have hhead : ¬ (c.next.rest.head? == some '<') = true := by
      intro hhead
      cases hrest : c.next.rest with
      | nil => simp [hrest] at hhead
      | cons ch rest =>
        obtain rfl : ch = '<' := by simpa [hrest] using hhead
        exact hno rest hrest
    rw [if_neg hhead]

theorem precedes_takeTagName {t : Token} (h : takeTagName c = .ok (t, c')) : c.next.Precedes c' := by
  rw [takeTagName_eq] at h
  split at h
  · obtain ⟨⟨uri, c₁⟩, huri, h⟩ := bind_eq_ok.mp h
    dsimp only at h
    split at h
    · cases h
      exact (precedes_next c.next).trans ((precedes_takeUri huri).trans (precedes_next c₁))
    · simp at h
  · split at h
    · cases h
      exact .refl _
    · split at h
      · obtain ⟨⟨handle, c₁⟩, hhandle, h⟩ := bind_eq_ok.mp h
        obtain ⟨⟨suffix, c₂⟩, huri, h⟩ := bind_eq_ok.mp h
        cases h
        exact (precedes_takeHandle hhandle).trans (precedes_takeUri huri)
      · obtain ⟨⟨suffix, c₁⟩, huri, h⟩ := bind_eq_ok.mp h
        cases h
        exact precedes_takeUri huri

theorem takeTagName_extend {t : Token} (h : c.IsComplete more) (hin : c'.IsInside more)
    (htake : takeTagName c = .ok (t, c')) :
    takeTagName (c.extend more index line) = .ok (t, c'.extend more index line) := by
  have hnext := (precedes_takeTagName htake).isInside hin
  have hin' := (precedes_next c).isInside hnext
  have hgap : gapAt (c.next.rest ++ more) = gapAt c.next.rest := by
    rcases hnext with rfl | hrest
    · rw [List.append_nil]
    · exact gapAt_append hrest more
  have hhandle : hasHandle (c.next.rest ++ more) = hasHandle c.next.rest := by
    rcases h.next with rfl | hnil | hlast
    · rw [List.append_nil]
    · obtain rfl := hnext.resolve_right (by simp [hnil])
      rw [List.append_nil]
    · exact hasHandle_append hlast more
  rw [takeTagName_eq] at htake ⊢
  rw [next_extend h hin', rest_extend, head?_append_of_inside hnext, hgap, hhandle]
  split at htake
  · rename_i hangle
    obtain ⟨⟨uri, c₁⟩, huri, htake⟩ := bind_eq_ok.mp htake
    have hlt := length_next_lt_of_head? hangle
    have hskip : (c.extend more index line).skip 2 = (c.skip 2).extend more index line := by
      have hlen := length_next c
      exact skip_extend h (.inr (by omega))
    dsimp only at htake
    split at htake
    · rename_i hclose
      have hc₁ : c₁.IsInside more := by
        refine .inr fun hnil => ?_
        simp [hnil] at hclose
      cases htake
      rw [if_pos hangle, hskip,
        takeUri_extend (h.skip 2) ((precedes_takeUri huri).isInside hc₁) huri]
      simp only [bind, Except.bind, rest_extend, head?_append_of_inside hc₁, hclose, if_true]
      rw [next_extend ((precedes_takeUri huri).isComplete (h.skip 2)) hc₁]
      rfl
    · simp at htake
  · rename_i hangle
    rw [if_neg hangle]
    split at htake
    · rename_i hend
      cases htake
      rw [if_pos hend]
      rfl
    · rename_i hend
      rw [if_neg hend]
      split at htake
      · rename_i hmark
        obtain ⟨⟨handle, c₁⟩, hname, htake⟩ := bind_eq_ok.mp htake
        obtain ⟨⟨suffix, c₂⟩, huri, htake⟩ := bind_eq_ok.mp htake
        cases htake
        have hc₁ := (precedes_takeUri huri).isInside hin
        have hcomplete := (precedes_takeHandle hname).isComplete h.next
        rw [if_pos hmark, takeHandle_extend h hc₁ hname]
        simp only [bind, Except.bind]
        rw [takeUri_extend hcomplete hc₁ huri]
        rfl
      · rename_i hmark
        obtain ⟨⟨suffix, c₁⟩, huri, htake⟩ := bind_eq_ok.mp htake
        cases htake
        rw [if_neg hmark, takeUri_extend h.next hnext huri]
        rfl

theorem takeTag_eq_ok {t : Token} (h : takeTag c = .ok (t, c')) :
    takeTagName c = .ok (t, c') ∧ spaceOrLineEndAt c'.rest = true := by
  obtain ⟨⟨t₁, c₁⟩, hname, h⟩ := bind_eq_ok.mp h
  dsimp only at h
  split at h
  · rename_i hend
    cases h
    exact ⟨hname, hend⟩
  · simp at h

theorem precedes_takeTag {t : Token} (h : takeTag c = .ok (t, c')) : c.next.Precedes c' :=
  precedes_takeTagName (takeTag_eq_ok h).1

theorem takeTag_extend {t : Token} (h : c.IsComplete more) (hin : c'.IsInside more)
    (htake : takeTag c = .ok (t, c')) :
    takeTag (c.extend more index line) = .ok (t, c'.extend more index line) := by
  obtain ⟨hname, hend⟩ := takeTag_eq_ok htake
  have hend' : spaceOrLineEndAt (c'.rest ++ more) = true := by
    rcases hin with rfl | hrest
    · rwa [List.append_nil]
    · rwa [spaceOrLineEndAt_append hrest]
  unfold takeTag
  rw [takeTagName_extend h hin hname]
  simp only [bind, Except.bind, rest_extend, hend', if_true]
  rfl

theorem takeTag_isInside {t : Token} {rest : List Char} (h : c.IsComplete more)
    (hrest : c.rest = '!' :: rest) (htake : takeTag c = .ok (t, c')) : c'.IsInside more := by
  obtain ⟨hname, -⟩ := takeTag_eq_ok htake
  have hnext : c.next.IsInside more := next_isInside h hrest (by decide)
  rw [takeTagName_eq] at hname
  split at hname
  · obtain ⟨⟨uri, c₁⟩, huri, hname⟩ := bind_eq_ok.mp hname
    dsimp only at hname
    split at hname
    · rename_i hclose
      cases hname
      obtain ⟨rest₁, hrest₁⟩ : ∃ rest₁, c₁.rest = '>' :: rest₁ := by
        cases hc : c₁.rest with
        | nil => simp [hc] at hclose
        | cons ch rest₁ => exact ⟨rest₁, by simpa [hc] using hclose⟩
      refine next_isInside ?_ hrest₁ (by decide)
      exact (precedes_takeUri huri).isComplete (h.skip 2)
    · simp at hname
  · split at hname
    · cases hname
      exact hnext
    · split at hname
      · obtain ⟨⟨handle, c₁⟩, hhandle, hname⟩ := bind_eq_ok.mp hname
        obtain ⟨⟨suffix, c₂⟩, huri, hname⟩ := bind_eq_ok.mp hname
        cases hname
        exact takeUri_isInside ((precedes_takeHandle hhandle).isComplete h.next) huri
      · obtain ⟨⟨suffix, c₁⟩, huri, hname⟩ := bind_eq_ok.mp hname
        cases hname
        exact takeUri_isInside h.next huri

theorem takeTag_ne_blockEnd {t : Token} (h : takeTag c = .ok (t, c')) : t ≠ .blockEnd := by
  obtain ⟨hname, -⟩ := takeTag_eq_ok h
  rw [takeTagName_eq] at hname
  rintro rfl
  split at hname
  · obtain ⟨⟨uri, c₁⟩, -, hname⟩ := bind_eq_ok.mp hname
    dsimp only at hname
    split at hname <;> cases hname
  · split at hname
    · cases hname
    · split at hname
      · obtain ⟨⟨handle, c₁⟩, -, hname⟩ := bind_eq_ok.mp hname
        obtain ⟨⟨suffix, c₂⟩, -, hname⟩ := bind_eq_ok.mp hname
        cases hname
      · obtain ⟨⟨suffix, c₁⟩, -, hname⟩ := bind_eq_ok.mp hname
        cases hname

end PubspecTidy.Yaml.Name
