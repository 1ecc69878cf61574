import PubspecTidy.Usage.Import
import Mathlib.Data.List.TakeWhile
import Mathlib.Data.List.Infix

/-!
# The imports that are found

The scan reads a text from left to right, and an import that it has found takes its whole name, which
may run over line ends. Main statement: every name that is found is imported somewhere in the text,
and every import is found, unless its own word `import` ends a name that was found before it.
-/
namespace PubspecTidy.Usage

variable {cs before rest more word blanks : List Char}

/-! ## Directives -/

/-- An import, without what follows its name. -/
structure Directive where
  blanks : List Char
  quote : Char
  name : List Char
  blanks_ne_nil : blanks ≠ []
  isBlank_blanks : ∀ c ∈ blanks, Text.isBlank c = true
  isQuote_quote : isQuote quote = true
  name_ne_nil : name ≠ []
  isNameChar_name : ∀ c ∈ name, isNameChar c = true

namespace Directive

/-- All that stands before the name. -/
def stem (d : Directive) : List Char :=
  "import".toList ++ d.blanks ++ d.quote :: "package:".toList

def text (d : Directive) : List Char := d.stem ++ d.name

/-- The word and the blanks of a directive, which could go on a name, and what comes behind them. -/
theorem text_append (d : Directive) (rest : List Char) :
    d.text ++ rest = ("import".toList ++ d.blanks) ++
      d.quote :: ("package:".toList ++ (d.name ++ rest)) := by
  change ("import".toList ++ d.blanks ++ d.quote :: "package:".toList) ++ d.name ++ rest = _
  simp only [List.append_assoc, List.cons_append]

end Directive

/-- A name ends here: at a slash, at a quote or with the text. -/
def EndsName (rest : List Char) : Prop := ∀ c ∈ rest.head?, isNameChar c = false

/-- The directive stands in a text, behind `before` and in front of `rest`. -/
structure Occurs (cs before : List Char) (d : Directive) (rest : List Char) : Prop where
  eq : cs = before ++ d.text ++ rest
  ends : EndsName rest

/-- Somewhere in the text there is an import of the package. -/
def Imported (content name : String) : Prop :=
  ∃ before d rest, Occurs content.toList before d rest ∧ String.ofList d.name = name

/-- The word and the blanks of a directive `d` end the name of another one, so that it stands behind
the first part of that name. -/
def Directive.RunsInto (d' : Directive) (before' : List Char) (d : Directive)
    (before : List Char) : Prop :=
  ∃ part, d'.name = part ++ ("import".toList ++ d.blanks) ∧ before = before' ++ d'.stem ++ part

/-! ## Characters -/

theorem isNameChar_of_isBlank {c : Char} (h : Text.isBlank c = true) : isNameChar c = true := by
  simp only [isNameChar, isQuote, Bool.and_eq_true, bne_iff_ne, Bool.not_eq_true',
    Bool.or_eq_false_iff, decide_eq_false_iff_not]
  refine ⟨?_, ?_, ?_⟩
  all_goals
    rintro rfl
    exact absurd h (by decide)

theorem not_isBlank_of_isQuote {c : Char} (h : isQuote c = true) : Text.isBlank c = false := by
  simp only [isQuote, Bool.or_eq_true, decide_eq_true_eq] at h
  rcases h with rfl | rfl <;> decide

/-- The first letter of an import stands nowhere else before its name. -/
theorem Directive.not_mem_tail_stem (d : Directive) : 'i' ∉ d.stem.tail := by
  have hblank : 'i' ∉ d.blanks := fun h => absurd (d.isBlank_blanks 'i' h) (by decide)
  have hquote : 'i' ≠ d.quote := fun h => absurd (h ▸ d.isQuote_quote) (by decide)
  have htail : d.stem.tail = "mport".toList ++ d.blanks ++ d.quote :: "package:".toList := rfl
  simp [htail, hblank, hquote]

theorem takeWhile_isNameChar {name : List Char} (hname : ∀ c ∈ name, isNameChar c = true)
    (hends : EndsName rest) : (name ++ rest).takeWhile isNameChar = name := by
  rw [List.takeWhile_append_of_pos hname]
  cases rest with
  | nil => simp
  | cons c rest => simp [hends c rfl]

theorem dropWhile_isNameChar {name : List Char} (hname : ∀ c ∈ name, isNameChar c = true)
    (hends : EndsName rest) : (name ++ rest).dropWhile isNameChar = rest := by
  rw [List.dropWhile_append_of_pos hname]
  cases rest with
  | nil => rfl
  | cons c rest => simp [hends c rfl]

theorem endsName_dropWhile (cs : List Char) : EndsName (cs.dropWhile isNameChar) := by
  intro c hc
  have hne : cs.dropWhile isNameChar ≠ [] := by
    rintro hnil
    rw [hnil] at hc
    cases hc
  have hhead := List.head_dropWhile_not isNameChar hne
  rw [List.head?_eq_some_head hne] at hc
  rwa [Option.some.inj hc] at hhead

/-! ## An import at the start of a text -/

theorem afterWord?_eq_some_iff : afterWord? word cs = some rest ↔ cs = word ++ rest := by
  unfold afterWord?
  rw [Option.ite_none_right_eq_some, Option.some.injEq, List.isPrefixOf_iff_prefix]
  constructor
  · rintro ⟨⟨more, rfl⟩, rfl⟩
    rw [List.drop_left]
  · rintro rfl
    exact ⟨List.prefix_append _ _, List.drop_left⟩

theorem importAt?_append (d : Directive) (hends : EndsName rest) :
    importAt? (d.text ++ rest) = some (d.name, rest) := by
  have hword : afterWord? "import".toList (d.text ++ rest) =
      some (d.blanks ++ d.quote :: ("package:".toList ++ (d.name ++ rest))) := by
    rw [afterWord?_eq_some_iff, d.text_append, List.append_assoc]
  have hstop : ¬ Text.isBlank d.quote = true := by simp [not_isBlank_of_isQuote d.isQuote_quote]
  have hblanks : (d.blanks ++ d.quote :: ("package:".toList ++ (d.name ++ rest))).takeWhile
      Text.isBlank = d.blanks := by
    rw [List.takeWhile_append_of_pos d.isBlank_blanks, List.takeWhile_cons_of_neg hstop,
      List.append_nil]
  have hquote : (d.blanks ++ d.quote :: ("package:".toList ++ (d.name ++ rest))).dropWhile
      Text.isBlank = d.quote :: ("package:".toList ++ (d.name ++ rest)) := by
    rw [List.dropWhile_append_of_pos d.isBlank_blanks, List.dropWhile_cons_of_neg hstop]
  have hpath : afterWord? "package:".toList ("package:".toList ++ (d.name ++ rest)) =
      some (d.name ++ rest) := afterWord?_eq_some_iff.mpr rfl
  obtain ⟨b, bs, hb⟩ := List.exists_cons_of_ne_nil d.blanks_ne_nil
  obtain ⟨c, name, hc⟩ := List.exists_cons_of_ne_nil d.name_ne_nil
  have htake := takeWhile_isNameChar d.isNameChar_name hends
  have hdrop := dropWhile_isNameChar d.isNameChar_name hends
  rw [importAt?, hword]
  dsimp only
  rw [hblanks, hquote, hb]
  dsimp only
  rw [d.isQuote_quote, hpath]
  dsimp only
  rw [htake, hdrop, hc]

theorem exists_of_importAt? {name : List Char} (h : importAt? cs = some (name, rest)) :
    ∃ d : Directive, d.name = name ∧ cs = d.text ++ rest ∧ EndsName rest := by
  unfold importAt? at h
  split at h
  · cases h
  rename_i afterImport hword
  split at h
  · rename_i b bs quote afterQuote htake hdrop
    split at h
    · rename_i path hquote hpath
      split at h
      · cases h
      · rename_i name' hne
        cases h
        have hblanks : ∀ c ∈ b :: bs, Text.isBlank c = true := by
          rw [← htake]
          exact fun c hc => List.mem_takeWhile_imp hc
        refine ⟨⟨b :: bs, quote, path.takeWhile isNameChar, List.cons_ne_nil _ _, hblanks, hquote,
          hne, fun c hc => List.mem_takeWhile_imp hc⟩, rfl, ?_, endsName_dropWhile path⟩
        have hsplit : afterImport = (b :: bs) ++ quote :: afterQuote := by
          rw [← htake, ← hdrop, List.takeWhile_append_dropWhile]
        rw [afterWord?_eq_some_iff.mp hword, hsplit, afterWord?_eq_some_iff.mp hpath,
          Directive.text_append, List.takeWhile_append_dropWhile, List.append_assoc]
    · cases h
  · cases h

/-! ## Directives inside of others -/

theorem Directive.text_eq_cons (d : Directive) : ∃ letters, d.text = 'i' :: letters :=
  ⟨d.stem.tail ++ d.name, rfl⟩

/-- Two directives at the same place have the same name. -/
theorem name_unique {d d' : Directive} (hends : EndsName rest) (hends' : EndsName more)
    (h : d.text ++ rest = d'.text ++ more) : d.name = d'.name := by
  have hat := importAt?_append d hends
  rw [h, importAt?_append d' hends', Option.some.injEq, Prod.mk.injEq] at hat
  exact hat.1.symm

theorem Directive.isNameChar_start (d : Directive) :
    ∀ c ∈ "import".toList ++ d.blanks, isNameChar c = true := by
  intro c hc
  rcases List.mem_append.mp hc with hc | hc
  · have hletters : ∀ c ∈ "import".toList, isNameChar c = true :=
      List.all_eq_true.mp (by decide)
    exact hletters c hc
  · exact isNameChar_of_isBlank (d.isBlank_blanks c hc)

theorem Directive.endsName_quote (d : Directive) (rest : List Char) :
    EndsName (d.quote :: rest) := by
  rintro c ⟨⟩
  simp [isNameChar, d.isQuote_quote]

/-- No directive starts before the name of another one but behind its first letter. -/
theorem exists_part_of_overlap {d d' : Directive} (hne : before ≠ [])
    (h : d'.text ++ more = before ++ (d.text ++ rest)) :
    ∃ part, before = d'.stem ++ part ∧ d'.name ++ more = part ++ (d.text ++ rest) := by
  rw [Directive.text, List.append_assoc, List.append_eq_append_iff] at h
  rcases h with h | ⟨inner, hstem, htext⟩
  · exact h
  · obtain ⟨c, head, rfl⟩ := List.exists_cons_of_ne_nil hne
    obtain ⟨letters, hletters⟩ := d.text_eq_cons
    cases inner with
    | nil => exact ⟨[], by simpa using hstem.symm, by simpa using htext.symm⟩
    | cons first inner =>
      rw [hletters, List.cons_append, List.cons_append] at htext
      have htail : d'.stem.tail = head ++ first :: inner := by
        rw [hstem, List.cons_append, List.tail_cons]
      have hmem : 'i' ∈ d'.stem.tail := by
        rw [htail, (List.cons.inj htext).1]
        exact List.mem_append_right head List.mem_cons_self
      exact absurd hmem d'.not_mem_tail_stem

/-- Where a directive starts inside of another one, its word and its blanks end the name of that
one. -/
theorem runsInto_of_overlap {d d' : Directive} (hne : before ≠ [])
    (hshort : before.length < d'.text.length) (hends : EndsName more)
    (h : d'.text ++ more = before ++ (d.text ++ rest)) : d'.RunsInto [] d before := by
  obtain ⟨part, rfl, hname⟩ := exists_part_of_overlap hne h
  rcases List.append_eq_append_iff.mp hname with ⟨behind, hpart, -⟩ | ⟨last, hsplit, htext⟩
  · simp only [Directive.text, hpart, List.length_append] at hshort
    omega
  · have hlast : ∀ c ∈ last, isNameChar c = true := fun c hc =>
      d'.isNameChar_name c (hsplit ▸ List.mem_append_right part hc)
    have htake := congrArg (List.takeWhile isNameChar) htext
    rw [takeWhile_isNameChar hlast hends, d.text_append,
      takeWhile_isNameChar d.isNameChar_start (d.endsName_quote _)] at htake
    exact ⟨part, by rw [hsplit, htake], rfl⟩

theorem Directive.RunsInto.shift {d d' : Directive} {before' : List Char}
    (h : d'.RunsInto before' d before) (front : List Char) :
    d'.RunsInto (front ++ before') d (front ++ before) := by
  obtain ⟨part, hname, rfl⟩ := h
  exact ⟨part, hname, by simp only [List.append_assoc]⟩

/-! ## The scan -/

/-- The names that are found in a text, from left to right. -/
inductive Scan : List Char → List (List Char) → Prop
  | done : Scan [] []
  /-- An import is taken with the whole of its name. -/
  | take (d : Directive) {more : List Char} {names : List (List Char)} : EndsName more →
      Scan more names → Scan (d.text ++ more) (d.name :: names)
  /-- Where no import starts, one character is passed over. -/
  | skip {c : Char} {more : List Char} {names : List (List Char)} :
      (∀ (d : Directive) rest, EndsName rest → c :: more ≠ d.text ++ rest) →
      Scan more names → Scan (c :: more) names

theorem scan_importNames (cs : List Char) : Scan cs (importNames cs) := by
  induction cs using importNames.induct with
  | case1 =>
    rw [importNames]
    exact .done
  | case2 c rest name more hat _ ih =>
    obtain ⟨d, rfl, heq, hends⟩ := exists_of_importAt? hat
    have hnames : importNames (c :: rest) = d.name :: importNames more := by
      rw [importNames]
      split
      · rename_i hfound
        cases hat.symm.trans hfound
        rfl
      · rename_i hnone
        cases hat.symm.trans hnone
    rw [hnames, heq]
    exact .take d hends ih
  | case3 c rest hat ih =>
    have hnames : importNames (c :: rest) = importNames rest := by
      rw [importNames]
      split
      · rename_i hfound
        cases hat.symm.trans hfound
      · rfl
    rw [hnames]
    refine .skip (fun d more hends heq => ?_) ih
    rw [heq, importAt?_append d hends] at hat
    cases hat

/-- No import is invented. -/
theorem Scan.exists_occurs {names : List (List Char)} (h : Scan cs names) {name : List Char}
    (hname : name ∈ names) : ∃ before d rest, Occurs cs before d rest ∧ d.name = name := by
  induction h with
  | done => cases hname
  | take d hends _ ih =>
    rcases List.mem_cons.mp hname with rfl | hname
    · exact ⟨[], d, _, ⟨rfl, hends⟩, rfl⟩
    · obtain ⟨before, d', rest, ⟨rfl, hends'⟩, hd'⟩ := ih hname
      exact ⟨d.text ++ before, d', rest, ⟨by simp only [List.append_assoc], hends'⟩, hd'⟩
  | @skip c more names _ _ ih =>
    obtain ⟨before, d, rest, ⟨rfl, hends⟩, hd⟩ := ih hname
    exact ⟨c :: before, d, rest, ⟨rfl, hends⟩, hd⟩

/-- An import is found, or the name of one that is found runs into it. -/
theorem Scan.mem_or_runsInto {names : List (List Char)} (h : Scan cs names) {d : Directive}
    (hoccurs : Occurs cs before d rest) :
    d.name ∈ names ∨
      ∃ (d' : Directive) (before' : List Char), d'.name ∈ names ∧ d'.RunsInto before' d before := by
  induction h generalizing before with
  | done =>
    obtain ⟨letters, hletters⟩ := d.text_eq_cons
    have hnil := hoccurs.eq
    rw [hletters] at hnil
    simp at hnil
  | @take d₁ more names hends _ ih =>
    have heq := hoccurs.eq
    rw [List.append_assoc] at heq
    rcases Nat.lt_or_ge before.length d₁.text.length with hshort | hlong
    · cases before with
      | nil =>
        rw [name_unique hoccurs.ends hends heq.symm]
        exact .inl List.mem_cons_self
      | cons first front =>
        have hruns := runsInto_of_overlap (List.cons_ne_nil first front) hshort hends heq
        exact .inr ⟨d₁, [], List.mem_cons_self, hruns⟩
    · obtain ⟨behind, rfl⟩ : d₁.text <+: before :=
        List.prefix_of_prefix_length_le ⟨more, heq⟩ (List.prefix_append before _) hlong
      rw [List.append_assoc, List.append_cancel_left_eq, ← List.append_assoc] at heq
      rcases ih ⟨heq, hoccurs.ends⟩ with hmem | ⟨d', before', hmem, hruns⟩
      · exact .inl (List.mem_cons_of_mem _ hmem)
      · exact .inr ⟨d', d₁.text ++ before', List.mem_cons_of_mem _ hmem, hruns.shift d₁.text⟩
  | @skip c more names hnone _ ih =>
    cases before with
    | nil => exact absurd hoccurs.eq (hnone d rest hoccurs.ends)
    | cons first front =>
      obtain ⟨rfl, hmore⟩ := List.cons.inj hoccurs.eq
      rcases ih ⟨hmore, hoccurs.ends⟩ with hmem | ⟨d', before', hmem, hruns⟩
      · exact .inl hmem
      · exact .inr ⟨d', c :: before', hmem, hruns.shift [c]⟩

/-! ## Imports of a text -/

/-- The text could be the name of an import that runs into the one behind it. -/
def EndsInImport (name : String) : Prop :=
  ∃ part blanks : List Char, name.toList = part ++ ("import".toList ++ blanks) ∧ blanks ≠ [] ∧
    ∀ c ∈ blanks, Text.isBlank c = true

theorem mem_imports {content : String} {name : List Char} :
    String.ofList name ∈ imports content ↔ name ∈ importNames content.toList := by
  rw [imports, List.mem_eraseDups, List.mem_map]
  constructor
  · rintro ⟨found, hfound, heq⟩
    rwa [← String.ofList_injective heq]
  · exact fun h => ⟨name, h, rfl⟩

/-- Every name that is found is imported, and every import is found, unless its word and its blanks
end a name that is found. So if no name that is found ends like that, the names that are found are
just those that are imported. -/
theorem imports_found (content : String) :
    (∀ name ∈ imports content, Imported content name) ∧
    (∀ before d rest, Occurs content.toList before d rest →
      String.ofList d.name ∈ imports content ∨
        ∃ (d' : Directive) (before' : List Char),
          String.ofList d'.name ∈ imports content ∧ d'.RunsInto before' d before) ∧
    ((∀ name ∈ imports content, ¬ EndsInImport name) →
      ∀ name, name ∈ imports content ↔ Imported content name) := by
  have hscan := scan_importNames content.toList
  have hsound : ∀ name ∈ imports content, Imported content name := by
    intro name hname
    have hfound : name.toList ∈ importNames content.toList := by
      rw [← mem_imports, String.ofList_toList]
      exact hname
    obtain ⟨before, d, rest, hoccurs, hd⟩ := hscan.exists_occurs hfound
    exact ⟨before, d, rest, hoccurs, by rw [hd, String.ofList_toList]⟩
  have hcomplete : ∀ before d rest, Occurs content.toList before d rest →
      String.ofList d.name ∈ imports content ∨
        ∃ (d' : Directive) (before' : List Char),
          String.ofList d'.name ∈ imports content ∧ d'.RunsInto before' d before := by
    intro before d rest hoccurs
    simp only [mem_imports]
    exact hscan.mem_or_runsInto hoccurs
  refine ⟨hsound, hcomplete, fun hfree name => ⟨hsound name, ?_⟩⟩
  rintro ⟨before, d, rest, hoccurs, rfl⟩
  rcases hcomplete before d rest hoccurs with hmem | ⟨d', before', hmem, part, hname, -⟩
  · exact hmem
  · refine absurd ?_ (hfree _ hmem)
    exact ⟨part, d.blanks, by rw [String.toList_ofList, hname], d.blanks_ne_nil, d.isBlank_blanks⟩

/-! ### Texts with two imports -/

/-- Two imports, of which the second one has the other quote. -/
def twoImports : String := "import 'package:http/http.dart';\nimport \"package:dio/dio.dart\";\n"

theorem imports_found_two :
    (∀ name ∈ imports twoImports, ¬ EndsInImport name) ∧
    ∀ name, name ∈ imports twoImports ↔ Imported twoImports name := by
  have hfound : imports twoImports = ["http", "dio"] := by decide +kernel
  have hfree : ∀ name ∈ imports twoImports, ¬ EndsInImport name := by
    intro name hname
    have hshort : name.toList.length ≤ 4 := by
      rw [hfound] at hname
      revert name
      decide
    rintro ⟨part, blanks, heq, -, -⟩
    rw [heq, List.length_append, List.length_append] at hshort
    have hword : "import".toList.length = 6 := rfl
    omega
  exact ⟨hfree, (imports_found twoImports).2.2 hfree⟩

/-- In the comment a quote is missing, so that its name goes on up to the next import. -/
def brokenComment : String := "// import 'package:old\nimport 'package:dio/dio.dart';\n"

/-- The import that stands on the second line. -/
def dioDirective : Directive where
  blanks := [' ']
  quote := '\''
  name := "dio".toList
  blanks_ne_nil := by decide
  isBlank_blanks := List.forall_mem_singleton.mpr (by decide)
  isQuote_quote := by decide
  name_ne_nil := by decide
  isNameChar_name := List.all_eq_true.mp (by decide)

/-- A name that runs on into the next import hides it. -/
theorem not_all_imports_found :
    ¬ ∀ content name, name ∈ imports content ↔ Imported content name := by
  intro h
  have hfound : imports brokenComment = ["old\nimport "] := by decide +kernel
  have himports : Imported brokenComment "dio" := by
    refine ⟨"// import 'package:old\n".toList, dioDirective, "/dio.dart';\n".toList, ⟨?_, ?_⟩, ?_⟩
    · decide
    · rintro c ⟨⟩
      decide
    · decide
  have hmem := (h brokenComment "dio").mpr himports
  rw [hfound] at hmem
  exact absurd hmem (by decide)

end PubspecTidy.Usage
