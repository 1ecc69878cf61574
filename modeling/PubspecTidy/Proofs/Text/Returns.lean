import PubspecTidy.Proofs.Text.Lines
import PubspecTidy.Text.Affix
import PubspecTidy.Text.Blank

/-!
# Carriage returns in front of line feeds

Main statements: a text with a carriage return in front of every line feed has one at the end of
every line but the last, and a carriage return at the end of a line is blank.
-/
namespace PubspecTidy.Text

/-- A carriage return in front of every line feed. -/
def putReturns (cs : List Char) : List Char :=
  cs.flatMap fun c => if c = '\n' then ['\r', '\n'] else [c]

/-- A text whose line feeds all come after a carriage return. -/
def withReturns (text : String) : String := String.ofList (putReturns text.toList)

/-- A carriage return at the end of every line but the last. -/
def returnedLines : List String → List String
  | [] => []
  | [line] => [line]
  | line :: next :: rest => (line ++ "\r") :: returnedLines (next :: rest)

theorem putReturns_append (cs more : List Char) :
    putReturns (cs ++ more) = putReturns cs ++ putReturns more := List.flatMap_append

theorem putReturns_of_not_mem {cs : List Char} (h : '\n' ∉ cs) : putReturns cs = cs := by
  induction cs with
  | nil => rfl
  | cons c cs ih =>
    rw [List.mem_cons, not_or] at h
    have hc : ¬ c = '\n' := fun heq => h.1 heq.symm
    rw [putReturns, List.flatMap_cons, if_neg hc, List.singleton_append]
    exact congrArg _ (ih h.2)

theorem joinLines_cons_cons (line next : String) (rest : List String) :
    joinLines (line :: next :: rest) = line ++ "\n" ++ joinLines (next :: rest) := by
  rw [← String.toList_inj]
  simp [joinLines, joinOn]

theorem joinLines_singleton (line : String) : joinLines [line] = line := by
  rw [← String.toList_inj]
  simp [joinLines, joinOn]

theorem withReturns_append (text more : String) :
    withReturns (text ++ more) = withReturns text ++ withReturns more := by
  rw [← String.toList_inj]
  simp [withReturns, putReturns_append]

theorem withReturns_of_isOneLine {line : String} (h : IsOneLine line) : withReturns line = line := by
  rw [withReturns, putReturns_of_not_mem h, String.ofList_toList]

theorem withReturns_joinLines {lines : List String} (h : ∀ line ∈ lines, IsOneLine line) :
    withReturns (joinLines lines) = joinLines (returnedLines lines) := by
  induction lines with
  | nil => rfl
  | cons line rest ih =>
    rw [List.forall_mem_cons] at h
    cases rest with
    | nil => rw [returnedLines, joinLines_singleton, withReturns_of_isOneLine h.1]
    | cons next rest =>
      have hrest := ih h.2
      have hfeed : withReturns "\n" = "\r\n" := by decide
      obtain ⟨first, more, hmore⟩ : ∃ first more, returnedLines (next :: rest) = first :: more := by
        cases rest <;> exact ⟨_, _, rfl⟩
      rw [joinLines_cons_cons, withReturns_append, withReturns_append,
        withReturns_of_isOneLine h.1, hrest, returnedLines, hmore, joinLines_cons_cons, hfeed]
      rw [← String.toList_inj]
      simp

theorem returnedLines_ne_nil {lines : List String} (h : lines ≠ []) : returnedLines lines ≠ [] := by
  cases lines with
  | nil => exact absurd rfl h
  | cons line rest => cases rest <;> simp [returnedLines]

theorem isOneLine_of_mem_returnedLines {lines : List String} (h : ∀ line ∈ lines, IsOneLine line) :
    ∀ line ∈ returnedLines lines, IsOneLine line := by
  induction lines with
  | nil => simp [returnedLines]
  | cons line rest ih =>
    rw [List.forall_mem_cons] at h
    cases rest with
    | nil => simpa [returnedLines] using h.1
    | cons next rest =>
      rw [returnedLines, List.forall_mem_cons]
      exact ⟨h.1.append (by decide), ih h.2⟩

theorem splitLines_withReturns (text : String) :
    splitLines (withReturns text) = returnedLines (splitLines text) := by
  have hone : ∀ line ∈ splitLines text, IsOneLine line := fun line => isOneLine_of_mem_splitLines
  have htext := congrArg withReturns (joinLines_splitLines text)
  rw [← htext, withReturns_joinLines hone]
  exact splitLines_joinLines (returnedLines_ne_nil (splitLines_ne_nil text))
    (isOneLine_of_mem_returnedLines hone)

theorem joinLines_inj {lines lines' : List String} (hne : lines ≠ []) (hne' : lines' ≠ [])
    (h : ∀ line ∈ lines, IsOneLine line) (h' : ∀ line ∈ lines', IsOneLine line) :
    joinLines lines = joinLines lines' ↔ lines = lines' := by
  refine ⟨fun heq => ?_, fun heq => by rw [heq]⟩
  rw [← splitLines_joinLines hne h, heq, splitLines_joinLines hne' h']

/-- Lines with a carriage return at the end of each. -/
def allReturned (lines : List String) : List String := lines.map (· ++ "\r")

theorem returnedLines_append (lines : List String) {more : List String} (h : more ≠ []) :
    returnedLines (lines ++ more) = allReturned lines ++ returnedLines more := by
  induction lines with
  | nil => rfl
  | cons line rest ih =>
    obtain ⟨next, later, hlater⟩ :=
      List.exists_cons_of_ne_nil (List.append_ne_nil_of_right_ne_nil rest h)
    rw [List.cons_append, hlater, returnedLines, ← hlater, ih]
    rfl

theorem returnedLines_concat (lines : List String) (line : String) :
    returnedLines (lines ++ [line]) = lines.map (· ++ "\r") ++ [line] :=
  returnedLines_append lines (List.cons_ne_nil line [])

/-- The lines before a place and those from there on, which are not none. -/
theorem returnedLines_parts {lines : List String} {n : Nat} (h : n < lines.length) :
    returnedLines lines = allReturned (lines.take n) ++ returnedLines (lines.drop n) ∧
      (allReturned (lines.take n)).length = n := by
  have hne : lines.drop n ≠ [] := by
    rw [ne_eq, List.drop_eq_nil_iff, Nat.not_le]
    exact h
  have hparts := returnedLines_append (lines.take n) hne
  rw [List.take_append_drop] at hparts
  refine ⟨hparts, ?_⟩
  rw [allReturned, List.length_map, List.length_take_of_le (Nat.le_of_lt h)]

theorem take_returnedLines {lines : List String} {n : Nat} (h : n < lines.length) :
    (returnedLines lines).take n = allReturned (lines.take n) := by
  obtain ⟨hparts, hlength⟩ := returnedLines_parts h
  rw [hparts, List.take_left' hlength]

theorem drop_returnedLines {lines : List String} {n : Nat} (h : n < lines.length) :
    (returnedLines lines).drop n = returnedLines (lines.drop n) := by
  obtain ⟨hparts, hlength⟩ := returnedLines_parts h
  rw [hparts, List.drop_left' hlength]

theorem getElem?_returnedLines {lines : List String} {n : Nat} (h : n + 1 < lines.length) :
    (returnedLines lines)[n]? = lines[n]?.map (· ++ "\r") := by
  have htake := congrArg (·[n]?) (take_returnedLines h)
  simp only [allReturned, List.getElem?_map] at htake
  rwa [List.getElem?_take_of_lt n.lt_succ_self, List.getElem?_take_of_lt n.lt_succ_self] at htake

theorem joinOn_concat_nil (sep : Char) {pieces : List (List Char)} (h : pieces ≠ []) :
    joinOn sep (pieces ++ [[]]) = joinOn sep pieces ++ [sep] := by
  induction pieces with
  | nil => exact absurd rfl h
  | cons piece rest ih =>
    cases rest with
    | nil => rfl
    | cons next rest =>
      have hrest := ih (List.cons_ne_nil _ _)
      have hfirst (pieces : List (List Char)) :
          joinOn sep (piece :: next :: pieces) = piece ++ sep :: joinOn sep (next :: pieces) := rfl
      rw [List.cons_append] at hrest
      rw [List.cons_append, List.cons_append, hfirst, hfirst, hrest, List.append_assoc,
        List.cons_append]

/-- The last line of a text that ends in a line feed is empty. -/
theorem getLast?_splitLines {text : String} (h : endsWith text "\n" = true) :
    (splitLines text).getLast? = some "" := by
  obtain ⟨cs, hcs⟩ := List.isSuffixOf_iff_suffix.mp h
  have hsep : ∀ piece ∈ splitOn '\n' cs ++ [[]], '\n' ∉ piece := by
    intro piece hpiece
    rcases List.mem_append.mp hpiece with hpiece | hpiece
    · exact not_mem_of_mem_splitOn hpiece
    · rw [List.mem_singleton.mp hpiece]
      exact List.not_mem_nil
  have htext : text.toList = joinOn '\n' (splitOn '\n' cs ++ [[]]) := by
    rw [joinOn_concat_nil '\n' (splitOn_ne_nil '\n' cs), joinOn_splitOn]
    exact hcs.symm
  rw [splitLines, htext, splitOn_joinOn (List.concat_ne_nil _ _) hsep, List.map_append,
    List.map_singleton, List.getLast?_concat]

theorem mem_joinOn {sep c : Char} {piece : List Char} {pieces : List (List Char)}
    (hc : c ∈ piece) (hpiece : piece ∈ pieces) : c ∈ joinOn sep pieces := by
  induction pieces with
  | nil => exact absurd hpiece List.not_mem_nil
  | cons first rest ih =>
    cases rest with
    | nil =>
      rw [List.mem_singleton.mp hpiece] at hc
      exact hc
    | cons next rest =>
      rw [joinOn, List.mem_append]
      · rcases List.mem_cons.mp hpiece with rfl | hpiece
        · exact .inl hc
        · exact .inr (List.mem_cons_of_mem _ (ih hpiece))
      · exact List.cons_ne_nil _ _

/-- Every character of a line is one of the text. -/
theorem mem_of_mem_splitLines {text line : String} {c : Char} (hline : line ∈ splitLines text)
    (hc : c ∈ line.toList) : c ∈ text.toList := by
  obtain ⟨piece, hpiece, rfl⟩ := List.mem_map.mp hline
  rw [String.toList_ofList] at hc
  have hjoined : c ∈ joinOn '\n' (splitOn '\n' text.toList) := mem_joinOn hc hpiece
  rwa [joinOn_splitOn] at hjoined

/-! ## A carriage return at the end of a line -/

theorem trim_append_return (cs : List Char) : trim (cs ++ ['\r']) = trim cs := by
  have hreturn : isBlank '\r' = true := by decide
  have hend (cs : List Char) : trimEnd (cs ++ ['\r']) = trimEnd cs := by
    rw [trimEnd, trimEnd, List.reverse_append, List.reverse_singleton, List.singleton_append,
      List.dropWhile_cons_of_pos hreturn]
  rw [trim, trim, trimStart, trimStart, List.dropWhile_append]
  split
  · rename_i hnil
    rw [List.isEmpty_iff.mp hnil, List.dropWhile_cons_of_pos hreturn]
    rfl
  · exact hend _

end PubspecTidy.Text
