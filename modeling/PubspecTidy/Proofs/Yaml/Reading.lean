import PubspecTidy.Proofs.Yaml.Parts
import PubspecTidy.Proofs.Yaml.Values

/-!
# Reading entries one behind the other

A text of entries of a block mapping can be read on its own. Main statements: entries one behind
the other are read as they are on their own, up to the numbers of the nodes; lines in which nothing
is to be seen change nothing; and entries below a header are the value of its key.
-/
namespace PubspecTidy.Yaml

open Scanner (ScansAs IsEntry IsHeaderText NoBlock)

/-- Whether the mapping at the root takes nothing from other mappings. -/
def Graph.mergesNothing (g : Graph) : Bool :=
  match g.root.bind (Table.get? g.nodes) with
  | some ⟨_, .mapping es⟩ =>
    es.all fun e => (Table.get? g.nodes e.1).any fun node => decide (node.tag ≠ .merge)
  | _ => true

/-- What a text of entries of a block mapping comes to on its own: its tokens, the numbers that its
nodes use, and the entries with the collections under them. -/
structure Reading where
  tokens : List Token
  count : Nat
  top : List (Value × Value)
  cells : Table Nat Cell

namespace Reading

variable {r r' : Reading} {n : Nat} {P Q F : List Char} {b b' : Bool} {name : List Char}

/-- The numbers of the nodes, each greater by `shift`. -/
def span (r : Reading) (shift : Nat) : Span := ⟨1, r.count, shift⟩

/-- The document of the text. -/
def document (r : Reading) : Document := ⟨(0, .mapping r.top) :: r.cells, .ref 0⟩

/-- A text of entries at a column comes to this, wherever it stands; it may end in a block scalar
only if `b`. -/
structure Of (r : Reading) (n : Nat) (P : List Char) (b : Bool) : Prop where
  scans : ScansAs n P b r.tokens
  first : r.tokens.head? = some .key
  values : ∃ es nodes, Compose.Composed r.tokens es nodes r.count ∧
    Form.Formed es nodes r.top r.cells

/-- No anchor of one text is one of the other. -/
def AnchorsDiffer (r r' : Reading) : Prop :=
  ∀ x, Token.anchor x ∈ r.tokens → Token.anchor x ∉ r'.tokens

/-- The entries of a text stand at the top of another one, with the collections under them; their
numbers are greater by `d` there. -/
structure IsIn (r : Reading) (d : Nat) (s : Reading) : Prop where
  cells : Form.Renamed (r.span d) r.cells s.cells
  top : ∀ e ∈ r.top, (e.1.map (· + d), e.2.map (· + d)) ∈ s.top

/-- A text of entries comes to its document. -/
theorem Of.read (h : r.Of n P b) (hmark : P.head? ≠ some byteOrderMark)
    (hpermitted : P.all isPermitted = true) : Document.read (String.ofList P) = .ok r.document := by
  obtain ⟨es, nodes, hcomposed, hformed⟩ := h.values
  have hgraph := hcomposed.ofText (h.scans.scan_eq hmark hpermitted)
  unfold Document.read
  rw [hgraph]
  exact (Form.ofGraph_eq_ok hcomposed.facts.entries hformed.unmerged).mpr ⟨_, _, hformed, rfl⟩

theorem unmerged_of_mergesNothing {es : List (Nat × Nat)} {nodes : Table Nat Node}
    (hpositive : Compose.PositiveEntries es)
    (h : (⟨(0, ⟨.mapping, .mapping es⟩) :: nodes, some 0⟩ : Graph).mergesNothing = true) :
    Form.Unmerged nodes es := fun e he => by
  have hall : (Table.get? ((0, ⟨.mapping, .mapping es⟩) :: nodes) e.1).any
      (fun node => decide (node.tag ≠ .merge)) = true := List.all_eq_true.mp h e he
  have hpos := (hpositive e he).1
  rw [Table.get?_cons, if_neg (by omega)] at hall
  cases hnode : Table.get? nodes e.1 with
  | none =>
    rw [hnode] at hall
    cases hall
  | some node =>
    rw [hnode] at hall
    exact ⟨node, rfl, of_decide_eq_true hall⟩

/-- An entry that can be read on its own comes to its document. -/
theorem exists_of_entry {ts : List Token} (h : IsEntry n P name ts)
    (hblock : b = false → NoBlock (Cursor.ofText P))
    (hinner : ∀ t ∈ ts, t ≠ .documentEnd ∧ t ≠ .streamEnd) (hmark : P.head? ≠ some byteOrderMark)
    (hpermitted : P.all isPermitted = true) {g : Graph} {doc : Document}
    (hgraph : Graph.ofText (String.ofList P) = .ok g) (hmerges : g.mergesNothing = true)
    (hdoc : Document.ofGraph g = .ok doc) :
    ∃ r : Reading, r.Of n P b ∧
      r.tokens = .key :: .scalar (String.ofList name) true :: .value :: ts ∧ r.document = doc := by
  have hscans := h.scansAs hblock
  have hinner' : ∀ t ∈ .key :: .scalar (String.ofList name) true :: .value :: ts,
      t ≠ .documentEnd ∧ t ≠ .streamEnd := by
    intro t ht
    simp only [List.mem_cons] at ht
    rcases ht with rfl | rfl | rfl | ht
    · exact ⟨Token.noConfusion, Token.noConfusion⟩
    · exact ⟨Token.noConfusion, Token.noConfusion⟩
    · exact ⟨Token.noConfusion, Token.noConfusion⟩
    · exact hinner t ht
  obtain ⟨es, nodes, count, hcomposed, rfl⟩ :=
    Compose.composed_of_ofText (hscans.scan_eq hmark hpermitted) hinner' hgraph
  have hpositive := hcomposed.facts.entries
  obtain ⟨top, cells, hformed, rfl⟩ :=
    (Form.ofGraph_eq_ok hpositive (unmerged_of_mergesNothing hpositive hmerges)).mp hdoc
  exact ⟨⟨_, count, top, cells⟩, ⟨hscans, rfl, es, nodes, hcomposed, hformed⟩, rfl, rfl⟩

/-- An entry without a block scalar can be read on its own if all of this can be computed. -/
theorem exists_of_computed {rest : List Char} {ts : List Token} {doc : Document}
    (hword : IsWord name) (hkey : (Cursor.ofText P).nextSeen.rest = name ++ ':' :: rest)
    (hgap : gapAt rest = true) (hcolumn : (Cursor.ofText P).nextSeen.column = n)
    (hstays : ∀ k < P.length, ((Cursor.ofText P).skip k).Stays n)
    (htokens : (Scanner.run (P.length + 2) (Scanner.atLine (Cursor.ofText P) [] (-1) [])).tokens =
      .blockMappingStart :: .key :: .scalar (String.ofList name) true :: .value ::
        (ts ++ [Token.blockEnd, .streamEnd]))
    (hfault : (Scanner.run (P.length + 2) (Scanner.atLine (Cursor.ofText P) [] (-1) [])).fault =
      none)
    (hinner : ∀ t ∈ ts, t ≠ .documentEnd ∧ t ≠ .streamEnd) (hliteral : '|' ∉ P) (hfolded : '>' ∉ P)
    (hmark : P.head? ≠ some byteOrderMark) (hpermitted : P.all isPermitted = true)
    (hmerges : (Graph.ofText (String.ofList P)).toOption.any Graph.mergesNothing = true)
    (hdoc : Document.read (String.ofList P) = .ok doc) :
    ∃ r : Reading, r.Of n P false ∧
      r.tokens = .key :: .scalar (String.ofList name) true :: .value :: ts ∧ r.document = doc := by
  have hstaysAll : ∀ k, ((Cursor.ofText P).skip k).Stays n := by
    intro k
    by_cases hk : k < P.length
    · exact hstays k hk
    · intro ch hch
      rw [Cursor.rest_skip, Cursor.ofText, List.drop_of_length_le (Nat.le_of_not_lt hk)] at hch
      cases hch
  have hentry : IsEntry n P name ts := by
    refine ⟨hword, ⟨rest, hkey, hgap⟩, hcolumn, hstaysAll, ?_⟩
    generalize Scanner.run (P.length + 2) _ = scanned at htokens hfault ⊢
    rw [← htokens, ← hfault]
  obtain ⟨g, hg, hdoc⟩ := bind_eq_ok.mp hdoc
  rw [hg] at hmerges
  exact exists_of_entry hentry (fun _ => Scanner.noBlock_of_not_mem hliteral hfolded) hinner hmark
    hpermitted hg hmerges hdoc

/-- Entries one behind the other are read as they are on their own. -/
theorem Of.append (h : r.Of n P b) (h' : r'.Of n Q b') (hP : P.getLast? = some '\n')
    (hseen : b = true → Block.IsSeen Q) (hkeys : KeysDiffer r.top r'.top)
    (hanchors : r.AnchorsDiffer r') :
    ∃ s : Reading, s.Of n (P ++ Q) b' ∧ s.tokens = r.tokens ++ r'.tokens ∧
      s.count = r'.count + (r.count - 1) ∧ s.top = r.top ++ mapPairs (· + (r.count - 1)) r'.top ∧
      Form.Renamed (r.span 0) r.cells s.cells ∧
      Form.Renamed (r'.span (r.count - 1)) r'.cells s.cells := by
  obtain ⟨es, nodes, hcomposed, hformed⟩ := h.values
  obtain ⟨es', nodes', hcomposed', hformed'⟩ := h'.values
  obtain ⟨all, hall, hleft, hright⟩ :=
    hformed.append hformed' hcomposed.facts hcomposed'.facts hkeys
  refine ⟨⟨r.tokens ++ r'.tokens, _, _, all⟩, ⟨h.scans.append h'.scans hP hseen, ?_, _, _,
    hcomposed.append hcomposed' h'.first hanchors, hall⟩, rfl, rfl, rfl, hleft, hright⟩
  rw [List.head?_append, h.first]
  rfl

/-- Nothing is added by lines in front in which nothing is to be seen. -/
theorem Of.lead (h : r.Of n P b) (hF : IsFiller F) : r.Of n (F ++ P) b :=
  ⟨h.scans.lead hF, h.first, h.values⟩

/-- Nothing is added by lines behind in which nothing is to be seen. -/
theorem Of.trail (h : r.Of n P false) (hP : P.getLast? = some '\n') (hF : IsFiller F) :
    r.Of n (P ++ F) false :=
  ⟨h.scans.trail hP hF, h.first, h.values⟩

/-- Entries below a header are the value of its key. -/
theorem Of.below {H : List Char} (hH : IsHeaderText H name) (h : r.Of n Q false) (hn : 0 < n)
    (hname : Tag.ofPlain (String.ofList name) = .text) :
    ∃ s : Reading, s.Of 0 (H ++ Q) false ∧
      s.tokens = .key :: .scalar (String.ofList name) true :: .value :: .blockMappingStart ::
        (r.tokens ++ [Token.blockEnd]) ∧
      s.count = r.count + 2 ∧ s.top = [(.string (String.ofList name), .ref 2)] ∧
      Table.get? s.cells 2 = some (.mapping (mapPairs (· + 2) r.top)) ∧
      Form.Renamed (r.span 2) r.cells s.cells := by
  obtain ⟨es, nodes, hcomposed, hformed⟩ := h.values
  obtain ⟨all, hall, hcell, hrenamed⟩ := hformed.below hcomposed.facts hname
  exact ⟨⟨_, _, _, all⟩, ⟨h.scans.below hH hn, rfl, _, _, hcomposed.below _, hall⟩, rfl, rfl, rfl,
    hcell, hrenamed⟩

/-- A header with nothing below it. -/
theorem of_bare {H : List Char} (hH : IsHeaderText H name)
    (hname : Tag.ofPlain (String.ofList name) = .text) :
    (⟨[.key, .scalar (String.ofList name) true, .value], 3, [(.string (String.ofList name), .null)],
      []⟩ : Reading).Of 0 H false :=
  ⟨hH.scansAs, rfl, _, _, Compose.composed_bare _, Form.formed_bare hname⟩

theorem Of.count_pos (h : r.Of n P b) : 1 ≤ r.count := by
  obtain ⟨es, nodes, hcomposed, -⟩ := h.values
  exact hcomposed.facts.count

/-- The values refer to collections of the text alone. -/
theorem Of.inside (h : r.Of n P b) :
    Form.InsidePairs (r.span 0) r.top ∧ Form.Renamed (r.span 0) r.cells r.cells := by
  obtain ⟨es, nodes, hcomposed, hformed⟩ := h.values
  exact hformed.inside hcomposed.facts

end Reading
end PubspecTidy.Yaml
