import PubspecTidy.Text.Lines

/-!
# Lines that are found again

Main statement: lines without a line feed that are joined in one text are the lines of that text.
-/
namespace PubspecTidy.Text

variable {sep : Char} {piece cs : List Char} {pieces : List (List Char)}

theorem splitOn_append_sep (h : sep ∉ piece) (cs : List Char) :
    splitOn sep (piece ++ sep :: cs) = piece :: splitOn sep cs := by
  induction piece with
  | nil => rw [List.nil_append, splitOn, if_pos rfl]
  | cons c rest ih =>
    rw [List.mem_cons, not_or] at h
    rw [List.cons_append, splitOn, if_neg fun heq => h.1 heq.symm, ih h.2]

theorem splitOn_of_not_mem (h : sep ∉ piece) : splitOn sep piece = [piece] := by
  induction piece with
  | nil => rfl
  | cons c rest ih =>
    rw [List.mem_cons, not_or] at h
    rw [splitOn, if_neg fun heq => h.1 heq.symm, ih h.2]

theorem splitOn_joinOn (hne : pieces ≠ []) (h : ∀ piece ∈ pieces, sep ∉ piece) :
    splitOn sep (joinOn sep pieces) = pieces := by
  induction pieces with
  | nil => exact absurd rfl hne
  | cons piece rest ih =>
    have hpiece := h piece List.mem_cons_self
    cases rest with
    | nil => exact splitOn_of_not_mem hpiece
    | cons next rest =>
      have hrest := ih (List.cons_ne_nil _ _) fun p hp => h p (List.mem_cons_of_mem _ hp)
      rw [joinOn, splitOn_append_sep hpiece, hrest]
      exact List.cons_ne_nil _ _

theorem not_mem_of_mem_splitOn (h : piece ∈ splitOn sep cs) : sep ∉ piece := by
  induction cs generalizing piece with
  | nil =>
    rw [splitOn, List.mem_singleton] at h
    rw [h]
    exact List.not_mem_nil
  | cons c cs ih =>
    rw [splitOn] at h
    split at h
    · rcases List.mem_cons.mp h with rfl | h
      · exact List.not_mem_nil
      · exact ih h
    · rename_i hc
      split at h
      · rename_i hnil
        exact absurd hnil (splitOn_ne_nil sep cs)
      · rename_i first others hsplit
        rcases List.mem_cons.mp h with rfl | h
        · have hfirst : sep ∉ first := ih (by rw [hsplit]; exact List.mem_cons_self)
          rw [List.mem_cons, not_or]
          exact ⟨fun heq => hc heq.symm, hfirst⟩
        · exact ih (by rw [hsplit]; exact List.mem_cons_of_mem _ h)

/-! ## Lines -/

/-- A text that is one line. -/
def IsOneLine (s : String) : Prop := '\n' ∉ s.toList

instance (s : String) : Decidable (IsOneLine s) := inferInstanceAs (Decidable (¬ _))

theorem IsOneLine.append {s t : String} (hs : IsOneLine s) (ht : IsOneLine t) :
    IsOneLine (s ++ t) := by
  unfold IsOneLine at *
  rw [String.toList_append, List.mem_append, not_or]
  exact ⟨hs, ht⟩

theorem splitLines_ne_nil (text : String) : splitLines text ≠ [] := by
  unfold splitLines
  rw [ne_eq, List.map_eq_nil_iff]
  exact splitOn_ne_nil '\n' text.toList

theorem isOneLine_of_mem_splitLines {text line : String} (h : line ∈ splitLines text) :
    IsOneLine line := by
  obtain ⟨piece, hpiece, rfl⟩ := List.mem_map.mp h
  unfold IsOneLine
  rw [String.toList_ofList]
  exact not_mem_of_mem_splitOn hpiece

theorem splitLines_joinLines {lines : List String} (hne : lines ≠ [])
    (h : ∀ line ∈ lines, IsOneLine line) : splitLines (joinLines lines) = lines := by
  unfold splitLines joinLines
  rw [String.toList_ofList, splitOn_joinOn]
  · rw [List.map_map]
    exact List.map_id'' (fun line => String.ofList_toList) lines
  · rw [ne_eq, List.map_eq_nil_iff]
    exact hne
  · intro piece hpiece
    obtain ⟨line, hline, rfl⟩ := List.mem_map.mp hpiece
    exact h line hline

end PubspecTidy.Text
