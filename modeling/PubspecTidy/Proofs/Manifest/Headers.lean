import PubspecTidy.Manifest.Change
import PubspecTidy.Manifest.Line

/-!
# Lines that are no headers

Only a header ends a section, so a change that neither brings a header in nor takes one out keeps
the sections apart. Main statements: blank lines, indented lines and declarations are no headers,
and the header of a tracked section is one.
-/
namespace PubspecTidy

namespace Text

theorem trimEnd_cons_of_not_blank {c : Char} (h : isBlank c = false) (cs : List Char) :
    trimEnd (c :: cs) = c :: trimEnd cs := by
  have hc : [c].dropWhile isBlank = [c] := by simp [h]
  unfold trimEnd
  rw [List.reverse_cons, List.dropWhile_append, hc]
  split
  · rename_i hnil
    simp [List.isEmpty_iff.mp hnil]
  · simp

/-- A text that starts with no blank keeps its first character. -/
theorem trim_cons_of_not_blank {c : Char} (h : isBlank c = false) (cs : List Char) :
    trim (c :: cs) = c :: trimEnd cs := by
  unfold trim trimStart
  rw [List.dropWhile_cons_of_neg (by simp [h])]
  exact trimEnd_cons_of_not_blank h cs

end Text

namespace Manifest

theorem isHeader_of_isBlankLine {line : String} (h : isBlankLine line = true) :
    isHeader line = false := by
  have hnil : Text.trim line.toList = [] := by simpa [isBlankLine] using h
  unfold isHeader
  split
  · rfl
  · simp [hnil]

theorem isHeader_of_startsBlank {line : String} (h : startsBlank line = true) :
    isHeader line = false := by
  unfold startsBlank at h
  unfold isHeader
  split at h <;> simp_all

theorem startsBlank_of_indentation_pos {line : String} (h : 0 < indentation line) :
    startsBlank line = true := by
  unfold indentation indentWidth at h
  unfold startsBlank
  split at h <;> simp_all

theorem startsBlank_of_isDependencyLine {line : String} (h : isDependencyLine line = true) :
    startsBlank line = true := by
  have hi : isIndented line = true := by
    simp only [isDependencyLine, Bool.and_eq_true] at h
    exact h.2
  unfold isIndented at hi
  unfold startsBlank
  split at hi <;> simp_all

/-- The header of a tracked section ends whatever section is open before it. -/
theorem isHeader_of_isHeaderOf {kind : SectionKind} {line : String}
    (h : isHeaderOf kind.name line = true) : isHeader line = true := by
  simp only [isHeaderOf, Bool.and_eq_true, beq_iff_eq, Bool.not_eq_true'] at h
  obtain ⟨htrim, hstart⟩ := h
  unfold isHeader
  split
  · rename_i hnil
    rw [hnil] at htrim
    cases kind <;> exact absurd htrim (by decide)
  · rename_i c cs hcs
    have hlast : (Text.trim line.toList).getLast? = some ':' := by simp [htrim]
    have hspace : c ≠ ' ' := by
      rintro rfl
      simp [startsBlank, hcs] at hstart
    have htab : c ≠ '\t' := by
      rintro rfl
      simp [startsBlank, hcs] at hstart
    have hmark : c ≠ '#' := by
      rintro rfl
      rw [hcs, Text.trim_cons_of_not_blank (by decide)] at htrim
      cases kind <;> exact absurd (List.cons.inj htrim).1 (by decide)
    simp [hspace, htab, hmark, hlast]

/-- No line is the header of both tracked sections. -/
theorem kind_eq_of_isHeaderOf {kind kind' : SectionKind} {line : String}
    (h : isHeaderOf kind.name line = true) (h' : isHeaderOf kind'.name line = true) :
    kind = kind' := by
  simp only [isHeaderOf, Bool.and_eq_true, beq_iff_eq] at h h'
  have hname : kind.name.toList ++ [':'] = kind'.name.toList ++ [':'] := h.1.symm.trans h'.1
  cases kind <;> cases kind'
  · rfl
  · exact absurd hname (by decide)
  · exact absurd hname (by decide)
  · rfl

end Manifest
end PubspecTidy
