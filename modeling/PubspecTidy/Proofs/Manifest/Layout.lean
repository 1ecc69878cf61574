import Mathlib.Tactic.Choose
import PubspecTidy.Proofs.Manifest.Performing
import PubspecTidy.Proofs.Yaml.Pieces
import PubspecTidy.Proofs.Yaml.Printing

/-!
# What a manifest in pieces declares

A manifest may be put together from pieces, each of which can be read on its own: the entries of its
sections, and what stands outside of them. Main statement: it declares what its pieces declare on
their own, one after the other.
-/
namespace PubspecTidy.Manifest

open Yaml (Copies Document Fault Piece Reading Span Token Value Within)

/-! ## What is shown of a declaration -/

/-- The name of a package and its version, as far as there is a text for it. -/
def Declaration.shown (d : Declaration) : String × Option String := (d.name, d.spec.version?)

/-- What is shown of the declaration that an entry of a section is. -/
def shownPair (doc : Document) (e : Value × Value) : Except Fault (String × Option String) := do
  let name ← shownText doc e.1
  return (name, ← Spec.version? <$> specOf doc (fun _ => []) name e.2)

/-- What is shown of the declarations under the key of a section. -/
def shownUnder (doc : Document) (v : Value) : Except Fault (List (String × Option String)) :=
  match doc.entries? v with
  | none => .ok []
  | some entries => entries.mapM (shownPair doc)

/-- What is shown of the declarations of one section. -/
def pairsIn (doc : Document) (top : List (Value × Value)) (kind : SectionKind) :
    Except Fault (List (String × Option String)) :=
  match Document.field? top kind.name with
  | none => .ok []
  | some v => shownUnder doc v

theorem version?_specOf (doc : Document) (block block' : String → List String) (name : String)
    (v : Value) :
    Spec.version? <$> specOf doc block name v = Spec.version? <$> specOf doc block' name v := by
  unfold specOf
  cases doc.entries? v with
  | some entries => rfl
  | none => rfl

/-- The lines of a manifest do not matter for what is shown of its declarations. -/
theorem shown_declaredIn (doc : Document) (top : List (Value × Value)) (lines : List String)
    (kind : SectionKind) :
    List.map Declaration.shown <$> declaredIn doc top lines kind = pairsIn doc top kind := by
  unfold declaredIn pairsIn shownUnder
  dsimp only
  cases Document.field? top kind.name with
  | none => rfl
  | some v =>
    dsimp only [Option.bind_some]
    cases doc.entries? v with
    | none => rfl
    | some entries =>
      dsimp only
      rw [map_mapM]
      refine mapM_congr fun e _ => ?_
      unfold shownPair
      cases shownText doc e.1 with
      | error fault => rfl
      | ok name =>
        change Declaration.shown <$> (specOf doc _ name e.2 >>= fun spec =>
          pure ⟨name, spec, kind⟩) = ((Spec.version? <$> specOf doc (fun _ => []) name e.2) >>=
            fun version => pure (name, version))
        rw [version?_specOf doc _ (blockLines lines (findSection? lines kind.name))]
        cases specOf doc (blockLines lines (findSection? lines kind.name)) name e.2 <;> rfl

/-! ## Declarations in another document -/

section Copies

variable {f : Nat → Nat} {inside : Nat → Prop} {d d' : Document}

theorem entries?_map (h : Copies f inside d d') {v : Value} (hv : Within inside v) :
    d'.entries? (v.map f) = (d.entries? v).map (Yaml.mapPairs f) := by
  cases v with
  | ref id =>
    have hid : inside id := hv id List.mem_cons_self
    unfold Document.entries?
    dsimp only [Value.map]
    rw [h.cells id hid]
    cases Table.get? d.cells id with
    | none => rfl
    | some cell => cases cell <;> rfl
  | _ => rfl

/-- A declaration is shown in the same way in another document. -/
theorem shownPair_map (h : Copies f inside d d') {e : Value × Value}
    (he : Within inside e.1 ∧ Within inside e.2) :
    shownPair d' (e.1.map f, e.2.map f) = shownPair d e := by
  have hname : shownText d' (e.1.map f) = shownText d e.1 := by
    unfold shownText
    rw [h.text? he.1]
  have hspec (name : String) : specOf d' (fun _ => []) name (e.2.map f) =
      specOf d (fun _ => []) name e.2 := by
    unfold specOf shownText
    rw [entries?_map h he.2, h.flowText? he.2, h.text? he.2]
    cases d.entries? e.2 with
    | some entries => rfl
    | none =>
      rw [Option.map_none]
      dsimp only
      by_cases hnull : e.2 = .null
      · rw [if_pos hnull, if_pos (Yaml.map_eq_null.mpr hnull)]
      · rw [if_neg hnull, if_neg fun h => hnull (Yaml.map_eq_null.mp h)]
  unfold shownPair
  dsimp only
  rw [hname]
  simp only [hspec]

end Copies

/-- The collections of a part of a document are those of the part on its own. -/
theorem copies_of_renamed {p : Span} {cells cells' : Table Nat Yaml.Cell} {c c' : Yaml.Cell}
    {v v' : Value} (h : Yaml.Form.Renamed p cells cells') (hlow : 1 ≤ p.low) :
    Copies (· + p.shift) (fun id => p.low ≤ id ∧ id < p.high) ⟨(0, c) :: cells, v⟩
      ⟨(0, c') :: cells', v'⟩ := by
  have hget (id : Nat) (hid : 1 ≤ id) (c : Yaml.Cell) (cells : Table Nat Yaml.Cell) :
      Table.get? ((0, c) :: cells) id = Table.get? cells id := by
    rw [Table.get?_cons, if_neg (by omega)]
  have hinside (id : Nat) (cell : Yaml.Cell) (hid : 1 ≤ id)
      (hcell : Table.get? ((0, c) :: cells) id = some cell) : Yaml.Form.InsideCell p cell := by
    rw [hget id hid] at hcell
    exact h.inside _ (Table.mem_of_get? hcell)
  refine ⟨Yaml.Form.add_injective p.shift, fun id hid => ?_, fun id cell hid hcell => ?_,
    fun id members hid hcell => ?_⟩
  · rw [hget id (by omega), hget (id + p.shift) (by omega), h.moved id hid.1 hid.2]
  · exact (hinside id cell (by omega) hcell).1
  · exact (hinside id _ (by omega) hcell).2

/-! ## Pieces -/

/-- An entry at the top that is no section. -/
def IsOutside (e : Value × Value) : Prop := ∀ kind : SectionKind, e.1 ≠ .string kind.name

/-- Outside of its sections, a document has just the entries of these texts. -/
structure HoldsOutside (rs : List Reading) (s : Reading) : Prop where
  holds : ∀ r ∈ rs, ∃ d, r.IsIn d s
  only : ∀ e ∈ s.top, IsOutside e →
    ∃ r ∈ rs, ∃ d, r.IsIn d s ∧ e ∈ Yaml.mapPairs (· + d) r.top

/-- What is shown of the declarations that the entries of a text are. -/
def shownIn (r : Reading) : Except Fault (List (String × Option String)) :=
  r.top.mapM (shownPair r.document)

variable {n : Nat} {ps : List Piece} {s t : Reading} {placed : List (Piece × Nat)}

theorem shownPair_renamed {r : Reading} {b : Bool} {P : List Char} (hr : r.Of n P b) {d : Nat}
    (h : Yaml.Form.Renamed (r.span d) r.cells s.cells) {e : Value × Value} (he : e ∈ r.top) :
    shownPair s.document (e.1.map (· + d), e.2.map (· + d)) = shownPair r.document e := by
  have hcopies : Copies (· + d) _ r.document s.document := copies_of_renamed h (Nat.le_refl 1)
  exact shownPair_map hcopies (hr.inside.1 e he)

/-- The entries of a text are shown in the same way where the text is a part of another one. -/
theorem shownIn_renamed {r : Reading} {b : Bool} {P : List Char} (hr : r.Of n P b) {d : Nat}
    (h : Yaml.Form.Renamed (r.span d) r.cells s.cells) :
    (Yaml.mapPairs (· + d) r.top).mapM (shownPair s.document) = shownIn r := by
  rw [Yaml.mapPairs, List.mapM_map]
  exact mapM_congr fun e he => shownPair_renamed hr h he

/-- Under a value, a document has just the entries of these texts one after the other, up to the
numbers of their collections. If there are no texts the value is null. -/
inductive HoldsUnder (s : Reading) : List Reading → Value → Prop
  | nothing : HoldsUnder s [] .null
  | entries {v : Value} {found : List (Reading × Nat)} :
      s.document.entries? v = some (found.flatMap fun x => Yaml.mapPairs (· + x.2) x.1.top) →
      (∀ x ∈ found, Yaml.Form.Renamed (x.1.span x.2) x.1.cells s.cells) →
      HoldsUnder s (found.map Prod.fst) v

/-- The entries of texts one behind the other are shown as those of the texts are. -/
theorem HoldsUnder.shownUnder_eq {rs : List Reading} {v : Value} (h : HoldsUnder s rs v)
    (hof : ∀ r ∈ rs, ∃ n P b, r.Of n P b) :
    shownUnder s.document v = List.flatten <$> rs.mapM shownIn := by
  cases h with
  | nothing => rfl
  | @entries _ found hentries hcells =>
    rw [shownUnder, hentries]
    dsimp only
    rw [mapM_flatMap, List.mapM_map]
    refine congrArg _ (mapM_congr fun x hx => ?_)
    obtain ⟨n, P, b, hr⟩ := hof x.1 (List.mem_map_of_mem hx)
    exact shownIn_renamed hr (hcells x hx)

/-- Pieces one behind the other are held where their text is. -/
theorem holdsUnder_whole (h : Piece.Whole n ps s placed) {d : Nat} {v : Value}
    (hentries : t.document.entries? v = some (Yaml.mapPairs (· + d) s.top))
    (hcells : Yaml.Form.Renamed (s.span d) s.cells t.cells) :
    HoldsUnder t (ps.map Piece.reading) v := by
  have hplaced : ps.map Piece.reading =
      (placed.map fun x => (x.1.reading, x.2 + d)).map Prod.fst := by
    rw [← h.pieces, List.map_map, List.map_map]
    rfl
  rw [hplaced]
  refine .entries ?_ fun y hy => ?_
  · rw [hentries, h.top, Piece.mapPairs_tops, List.flatMap_map]
    simp only [Nat.add_assoc]
  · obtain ⟨x, hx, rfl⟩ := List.mem_map.mp hy
    exact (h.cells x hx).trans hcells (Nat.le_add_right _ _) (h.count x hx)

/-- Pieces that make up the mapping below a key are held under the value of that key, wherever the
text with the key stands. -/
theorem holdsUnder_below {r : Reading} (h : Piece.Whole n ps s placed) (hcount : 2 < r.count)
    (hcell : Table.get? r.cells 2 = some (.mapping (Yaml.mapPairs (· + 2) s.top)))
    (hinner : Yaml.Form.Renamed (s.span 2) s.cells r.cells) (hspan : s.count + 2 ≤ r.count)
    {d : Nat} (hcells : Yaml.Form.Renamed (r.span d) r.cells t.cells) :
    HoldsUnder t (ps.map Piece.reading) (.ref (2 + d)) := by
  have hmoved : Table.get? t.cells (2 + d) = (Table.get? r.cells 2).map (Yaml.Cell.map (· + d)) :=
    hcells.moved 2 (Nat.le_succ 1) hcount
  have hmapping : Table.get? t.cells (2 + d) =
      some (.mapping (Yaml.mapPairs (· + (2 + d)) s.top)) := by
    rw [hmoved, hcell, Option.map_some, Yaml.Cell.map, Yaml.mapPairs_map]
    exact congrArg (fun f => some (Yaml.Cell.mapping (Yaml.mapPairs f s.top)))
      (funext fun j => Nat.add_assoc j 2 d)
  have hentries : t.document.entries? (.ref (2 + d)) =
      some (Yaml.mapPairs (· + (2 + d)) s.top) := by
    unfold Document.entries? Reading.document
    dsimp only
    rw [Table.get?_cons, if_neg (by omega), hmapping]
  have hrenamed : Yaml.Form.Renamed (s.span (2 + d)) s.cells t.cells :=
    hinner.trans hcells (Nat.le_add_right _ _) hspan
  exact holdsUnder_whole h hentries hrenamed

/-! ## Sections -/

/-- A piece is a section with these entries. -/
structure IsSection (kind : SectionKind) (entries : List Piece) (p : Piece) : Prop where
  alone : p.Alone 0
  scalar : p.scalar = false
  anchors : ∀ x, Token.anchor x ∈ p.reading.tokens →
    Token.anchor x ∈ entries.flatMap fun e => e.reading.tokens
  value : ∃ v, p.reading.top = [(.string kind.name, v)] ∧ ∀ (s : Reading) (d : Nat),
    Yaml.Form.Renamed (p.reading.span d) p.reading.cells s.cells →
      HoldsUnder s (entries.map Piece.reading) (v.map (· + d))

theorem ofPlain_name (kind : SectionKind) : Yaml.Tag.ofPlain kind.name = .text := by
  cases kind <;> decide

/-- A section whose entries can be read on their own is a piece. Nothing is to be seen in the lines
between the header and the first entry. -/
theorem exists_section {kind : SectionKind} {header lead : List Char} {entries : List Piece}
    (hheader : Yaml.Scanner.IsHeaderText header kind.name.toList) (hlead : Yaml.IsFiller lead)
    (hn : 0 < n) (hrow : Piece.Row n entries) (hscalar : ∀ e ∈ entries, e.scalar = false) :
    ∃ p : Piece, p.text = header ++ (lead ++ Piece.texts entries) ∧ IsSection kind entries p := by
  have hname : Yaml.Tag.ofPlain (String.ofList kind.name.toList) = .text := by
    rw [String.ofList_toList]
    exact ofPlain_name kind
  by_cases hne : entries = []
  · subst hne
    have hbare := (Reading.of_bare hheader hname).trail hheader.getLast?_eq hlead
    rw [String.ofList_toList] at hbare
    refine ⟨⟨header ++ lead, _, false⟩, by simp [Piece.texts], ⟨hbare, ?_⟩, rfl,
      fun x hx => ?_, .null, rfl, fun s d _ => .nothing⟩
    · exact hlead.getLast?_append hheader.getLast?_eq
    · simp at hx
  · obtain ⟨s, placed, hwhole⟩ := hrow.exists_whole hne
    obtain ⟨b, hof, hb⟩ := hwhole.of
    obtain rfl := hb hscalar
    obtain ⟨r, hr, htokens, hcount, htop, hcell, hrenamed⟩ :=
      (hof.lead hlead).below hheader hn hname
    rw [String.ofList_toList] at htokens htop
    refine ⟨⟨header ++ (lead ++ Piece.texts entries), r, false⟩, rfl, ⟨hr, ?_⟩, rfl,
      fun x hx => ?_, .ref 2, htop, fun t d ht => ?_⟩
    · have hends := hwhole.ends
      have htexts : Piece.texts entries ≠ [] := by
        rintro hnil
        simp [hnil] at hends
      change (header ++ (lead ++ Piece.texts entries)).getLast? = _
      rwa [← List.append_assoc, Yaml.Scanner.getLast?_append_of_ne_nil _ htexts]
    · have htokens' : r.tokens = _ := htokens
      have hmem : Token.anchor x ∈ s.tokens := by simpa [htokens'] using hx
      rw [hwhole.tokens] at hmem
      rw [← hwhole.pieces, List.flatMap_map]
      exact hmem
    · have hpos := hof.count_pos
      exact holdsUnder_below hwhole (by omega) hcell hrenamed (by omega) ht

/-! ## Manifests -/

/-- A part of a manifest. -/
inductive Item where
  /-- Entries at the top that are no section. -/
  | other (p : Piece)
  /-- A section, with the text of its header and what stands in front of its entries. -/
  | listed (kind : SectionKind) (header lead : List Char) (entries : List Piece)

namespace Item

def text : Item → List Char
  | other p => p.text
  | listed _ header lead entries => header ++ (lead ++ Piece.texts entries)

def tokens : Item → List Token
  | other p => p.reading.tokens
  | listed _ _ _ entries => entries.flatMap fun e => e.reading.tokens

def keys : Item → List Value
  | other p => p.reading.top.map (·.1)
  | listed kind .. => [.string kind.name]

/-- What entries come to that are no section. -/
def other? : Item → Option Reading
  | other p => some p.reading
  | listed .. => none

def scalar : Item → Bool
  | other p => p.scalar
  | listed .. => false

/-- An item of whole lines that can be read on its own. The entries of a section stand at one
column, none of them ends in a block scalar, and there is no section among other entries. -/
def Alone : Item → Prop
  | other p => p.Alone 0 ∧ ∀ key ∈ (other p).keys, ∀ kind : SectionKind,
      key.Differs (.string kind.name)
  | listed kind header lead entries => Yaml.Scanner.IsHeaderText header kind.name.toList ∧
      Yaml.IsFiller lead ∧ (∃ n, 0 < n ∧ Piece.Row n entries) ∧ ∀ e ∈ entries, e.scalar = false

/-- Two items without a common key or anchor. -/
structure Apart (i j : Item) : Prop where
  keys : ∀ a ∈ i.keys, ∀ b ∈ j.keys, a.Differs b
  anchors : ∀ x, Token.anchor x ∈ i.tokens → Token.anchor x ∉ j.tokens

def texts (items : List Item) : List Char := items.flatMap text

/-- The entries of a section, if there is one. -/
def entriesOf? (items : List Item) (kind : SectionKind) : Option (List Piece) :=
  items.findSome? fun
    | other _ => none
    | listed k _ _ entries => if k = kind then some entries else none

/-- What is shown of the declarations of a section. -/
def declared (items : List Item) (kind : SectionKind) :
    Except Fault (List (String × Option String)) :=
  match entriesOf? items kind with
  | none => .ok []
  | some entries => List.flatten <$> entries.mapM fun e => shownIn e.reading

/-- A manifest in items that can be read on their own. -/
structure Laid (items : List Item) : Prop where
  alone : ∀ i ∈ items, i.Alone
  apart : items.Pairwise Apart
  seen : items.IsChain fun i j => i.scalar = true → Yaml.Block.IsSeen j.text

/-- A piece is an item. -/
structure IsPiece (i : Item) (p : Piece) : Prop where
  alone : p.Alone 0
  text : p.text = i.text
  scalar : p.scalar = i.scalar
  keys : p.reading.top.map (·.1) = i.keys
  anchors : ∀ x, Token.anchor x ∈ p.reading.tokens → Token.anchor x ∈ i.tokens
  content : match i with
    | other q => p = q
    | listed kind _ _ entries => IsSection kind entries p

theorem Alone.exists_piece {i : Item} (h : i.Alone) : ∃ p, i.IsPiece p := by
  cases i with
  | other p => exact ⟨p, h.1, rfl, rfl, rfl, fun _ hx => hx, rfl⟩
  | listed kind header lead entries =>
    obtain ⟨hheader, hlead, ⟨n, hn, hrow⟩, hscalar⟩ := h
    obtain ⟨p, htext, hsection⟩ := exists_section hheader hlead hn hrow hscalar
    obtain ⟨v, htop, -⟩ := hsection.value
    exact ⟨p, hsection.alone, htext, hsection.scalar, by rw [htop]; rfl, hsection.anchors, hsection⟩

variable {items : List Item} {p : Piece}

/-- The items are pieces one behind the other. -/
theorem Laid.exists_row (h : Laid items) : ∃ f : Item → Piece, (∀ i ∈ items, i.IsPiece (f i)) ∧
    Piece.Row 0 (items.map f) ∧ Piece.texts (items.map f) = texts items := by
  have hexists : ∀ i : Item, ∃ p, i ∈ items → i.IsPiece p := fun i => by
    by_cases hi : i ∈ items
    · obtain ⟨p, hp⟩ := (h.alone i hi).exists_piece
      exact ⟨p, fun _ => hp⟩
    · exact ⟨⟨[], ⟨[], 0, [], []⟩, false⟩, fun hi' => absurd hi' hi⟩
  choose f hf using hexists
  refine ⟨f, hf, ⟨fun p hp => ?_, ?_, ?_⟩, ?_⟩
  · obtain ⟨i, hi, rfl⟩ := List.mem_map.mp hp
    exact (hf i hi).alone
  · refine List.pairwise_map.mpr (h.apart.imp_of_mem fun {i j} hi hj hapart => ?_)
    refine ⟨fun e he e' he' => hapart.keys e.1 ?_ e'.1 ?_, fun x hx hx' => ?_⟩
    · rw [← (hf i hi).keys]
      exact List.mem_map_of_mem he
    · rw [← (hf j hj).keys]
      exact List.mem_map_of_mem he'
    · exact hapart.anchors x ((hf i hi).anchors x hx) ((hf j hj).anchors x hx')
  · refine (List.isChain_map f).mpr (h.seen.imp_of_mem_imp fun i j hi hj hseen hscalar => ?_)
    rw [(hf j hj).text]
    exact hseen ((hf i hi).scalar.symm.trans hscalar)
  · rw [Piece.texts, List.flatMap_map, texts]
    exact List.flatMap_congr fun i hi => (hf i hi).text

theorem name_injective {kind k : SectionKind} (h : k.name = kind.name) : k = kind := by
  cases k <;> cases kind <;> first | rfl | exact absurd h (by decide)

/-- The value that an item has for the name of a section. -/
theorem IsPiece.find? {i : Item} (h : i.IsPiece p) (hi : i.Alone) (d : Nat) (kind : SectionKind) :
    (∃ v, (Yaml.mapPairs (· + d) p.reading.top).find? (fun e => e.1 = .string kind.name) =
        some (.string kind.name, v) ∧ ∃ entries, entriesOf? [i] kind = some entries ∧
          ∀ s : Reading, Yaml.Form.Renamed (p.reading.span d) p.reading.cells s.cells →
            HoldsUnder s (entries.map Piece.reading) v) ∨
      ((Yaml.mapPairs (· + d) p.reading.top).find? (fun e => e.1 = .string kind.name) = none ∧
        entriesOf? [i] kind = none) := by
  have hnone (hdiffers : ∀ key ∈ i.keys, key ≠ .string kind.name) :
      (Yaml.mapPairs (· + d) p.reading.top).find? (fun e => e.1 = .string kind.name) = none := by
    refine List.find?_eq_none.mpr fun e he hkey => ?_
    obtain ⟨e', he', rfl⟩ := List.mem_map.mp he
    refine hdiffers e'.1 ?_ (Yaml.map_eq_string.mp (of_decide_eq_true hkey))
    rw [← h.keys]
    exact List.mem_map_of_mem he'
  cases i with
  | other q =>
    refine .inr ⟨hnone fun key hkey heq => ?_, rfl⟩
    have hdiffers := hi.2 key hkey kind id id
    rw [heq] at hdiffers
    exact absurd (Yaml.Value.sameKey_iff.mpr rfl) (Bool.eq_false_iff.mp hdiffers)
  | listed k header lead entries =>
    by_cases hk : k = kind
    · subst hk
      obtain ⟨v, htop, hvalue⟩ := (h.content : IsSection k entries p).value
      refine .inl ⟨v.map (· + d), ?_, entries, ?_, fun s hs => hvalue s d hs⟩
      · rw [htop]
        exact List.find?_cons_of_pos (decide_eq_true rfl)
      · simp [entriesOf?]
    · refine .inr ⟨hnone fun key hkey heq => hk (name_injective ?_), ?_⟩
      · obtain rfl := List.mem_singleton.mp hkey
        exact Value.string.inj heq
      · simp [entriesOf?, hk]

theorem entriesOf?_cons (i : Item) (items : List Item) (kind : SectionKind) :
    entriesOf? (i :: items) kind = (entriesOf? [i] kind).or (entriesOf? items kind) := by
  unfold entriesOf?
  rw [List.findSome?_cons, List.findSome?_cons]
  split
  · simp [*]
  · simp [*]

/-- The texts of the entries of a section, if there is one. -/
def readingsOf? (items : List Item) (kind : SectionKind) : Option (List Reading) :=
  (entriesOf? items kind).map (·.map Piece.reading)

/-- The entries of a section are found where its item stands. -/
theorem holds_placed {f : Item → Piece} {s : Reading} {placed : List (Piece × Nat)}
    (halone : ∀ i ∈ items, i.Alone) (hf : ∀ i ∈ items, i.IsPiece (f i))
    (hpieces : placed.map Prod.fst = items.map f)
    (hcells : ∀ x ∈ placed, Yaml.Form.Renamed (x.1.reading.span x.2) x.1.reading.cells s.cells)
    (kind : SectionKind) :
    Option.Rel (HoldsUnder s) (readingsOf? items kind) (Document.field?
      (placed.flatMap fun x => Yaml.mapPairs (· + x.2) x.1.reading.top) kind.name) := by
  induction items generalizing placed with
  | nil =>
    obtain rfl := List.map_eq_nil_iff.mp hpieces
    exact .none
  | cons i items ih =>
    obtain ⟨x, placed, rfl, hx, hrest⟩ := List.map_eq_cons_iff.mp hpieces
    obtain ⟨p, d⟩ := x
    dsimp only at hx
    subst hx
    have ih := ih (fun j hj => halone j (List.mem_cons_of_mem _ hj))
      (fun j hj => hf j (List.mem_cons_of_mem _ hj)) hrest
      (fun x hx => hcells x (List.mem_cons_of_mem _ hx))
    have hrenamed := hcells (f i, d) List.mem_cons_self
    unfold Document.field? readingsOf? at ih ⊢
    rw [List.flatMap_cons, List.find?_append, entriesOf?_cons]
    rcases (hf i List.mem_cons_self).find? (halone i List.mem_cons_self) d kind with
      ⟨v, hfound, entries, hentries, hholds⟩ | ⟨hfound, hentries⟩
    · rw [hfound, hentries]
      exact .some (hholds s hrenamed)
    · rw [hfound, hentries]
      exact ih

theorem Laid.of_mem_entries (h : Laid items) {kind : SectionKind} {entries : List Piece}
    (hentries : entriesOf? items kind = some entries) :
    ∀ r ∈ entries.map Piece.reading, ∃ n P b, r.Of n P b := by
  obtain ⟨i, hi, hfound⟩ := List.exists_of_findSome?_eq_some hentries
  cases i with
  | other => cases hfound
  | listed k header lead found =>
    have hsame : found = entries := by
      dsimp only at hfound
      split at hfound
      · exact Option.some.inj hfound
      · cases hfound
    obtain ⟨-, -, ⟨n, -, hrow⟩, -⟩ := h.alone _ hi
    intro r hr
    obtain ⟨p, hp, rfl⟩ := List.mem_map.mp hr
    exact ⟨n, _, _, (hrow.alone p (hsame ▸ hp)).of⟩

/-- What the sections of a document declare is what the entries that it holds there do. -/
theorem Laid.pairsIn_eq (h : Laid items) {s : Reading} {kind : SectionKind}
    (hholds : Option.Rel (HoldsUnder s) (readingsOf? items kind)
      (Document.field? s.top kind.name)) :
    pairsIn s.document s.top kind = declared items kind := by
  unfold pairsIn declared
  unfold readingsOf? at hholds
  cases hentries : entriesOf? items kind with
  | none =>
    rw [hentries] at hholds
    generalize Document.field? s.top kind.name = found at hholds ⊢
    cases hholds
    rfl
  | some entries =>
    rw [hentries] at hholds
    generalize Document.field? s.top kind.name = found at hholds ⊢
    cases hholds with
    | some hheld =>
      dsimp only
      rw [hheld.shownUnder_eq (h.of_mem_entries hentries), List.mapM_map]
      rfl

/-- A manifest in items that can be read on their own can be read. Its sections hold their entries,
and outside of the sections it has the entries of its other pieces. -/
theorem Laid.exists_reading (h : Laid items) (hne : items ≠ [])
    (hmark : (texts items).head? ≠ some Yaml.byteOrderMark)
    (hpermitted : (texts items).all Yaml.isPermitted = true) :
    ∃ s : Reading, load (String.ofList (texts items)) = .ok (s.document, s.top) ∧
      (∀ kind, Option.Rel (HoldsUnder s) (readingsOf? items kind)
        (Document.field? s.top kind.name)) ∧
      HoldsOutside (items.filterMap other?) s := by
  obtain ⟨f, hf, hrow, htexts⟩ := h.exists_row
  obtain ⟨s, placed, hwhole⟩ := hrow.exists_whole (by simpa using hne)
  obtain ⟨b, hof, -⟩ := hwhole.of
  rw [htexts] at hof
  have hin : ∀ x ∈ placed, x.1.reading.IsIn x.2 s := fun x hx => by
    refine ⟨hwhole.cells x hx, fun e he => ?_⟩
    rw [hwhole.top]
    exact List.mem_flatMap.mpr ⟨x, hx, List.mem_map_of_mem he⟩
  refine ⟨s, ?_, fun kind => ?_, fun r hr => ?_, fun e he houtside => ?_⟩
  · unfold load
    rw [hof.read hmark hpermitted]
    rfl
  · rw [hwhole.top]
    exact holds_placed h.alone hf hwhole.pieces hwhole.cells kind
  · obtain ⟨i, hi, hother⟩ := List.mem_filterMap.mp hr
    cases i with
    | listed => cases hother
    | other q =>
      obtain rfl := Option.some.inj hother
      have hpiece : f (other q) = q := (hf _ hi).content
      have hmem : q ∈ placed.map Prod.fst := by
        rw [hwhole.pieces]
        exact List.mem_map.mpr ⟨_, hi, hpiece⟩
      obtain ⟨x, hx, rfl⟩ := List.mem_map.mp hmem
      exact ⟨x.2, hin x hx⟩
  · rw [hwhole.top] at he
    obtain ⟨x, hx, hmem⟩ := List.mem_flatMap.mp he
    have hp : x.1 ∈ items.map f := by
      rw [← hwhole.pieces]
      exact List.mem_map_of_mem hx
    obtain ⟨i, hi, hpiece⟩ := List.mem_map.mp hp
    cases i with
    | other q =>
      have hq : f (other q) = q := (hf _ hi).content
      have hxq : x.1 = q := hpiece.symm.trans hq
      refine ⟨q.reading, List.mem_filterMap.mpr ⟨_, hi, rfl⟩, x.2, ?_⟩
      rw [← hxq]
      exact ⟨hin x hx, hmem⟩
    | listed kind header lead entries =>
      obtain ⟨y, hy, rfl⟩ := List.mem_map.mp hmem
      have hkey : y.1 ∈ x.1.reading.top.map (·.1) := List.mem_map_of_mem hy
      rw [← hpiece, (hf _ hi).keys] at hkey
      refine absurd ?_ (houtside kind)
      dsimp only
      rw [List.mem_singleton.mp hkey]
      rfl

/-- What is declared by a manifest in items that can be read on their own. -/
theorem Laid.readDeclarations (h : Laid items) (hne : items ≠ [])
    (hmark : (texts items).head? ≠ some Yaml.byteOrderMark)
    (hpermitted : (texts items).all Yaml.isPermitted = true) {pairs : Declared}
    (hpairs : ∀ kind, declared items kind = .ok (pairs kind)) :
    ∃ ds, readDeclarations (String.ofList (texts items)) = .ok ds ∧ ds.declared = pairs := by
  obtain ⟨s, hload, hholds, -⟩ := h.exists_reading hne hmark hpermitted
  have hshown (lines : List String) (kind : SectionKind) :
      List.map Declaration.shown <$> declaredIn s.document s.top lines kind =
        .ok (pairs kind) := by
    rw [shown_declaredIn, h.pairsIn_eq (hholds kind), hpairs]
  generalize hlines : Text.splitLines (String.ofList (texts items)) = lines
  obtain ⟨deps, hdeps, hpairsDeps⟩ := map_eq_ok.mp (hshown lines .dependencies)
  obtain ⟨dev, hdev, hpairsDev⟩ := map_eq_ok.mp (hshown lines .devDependencies)
  refine ⟨⟨deps, dev⟩, ?_, funext fun kind => ?_⟩
  · unfold Manifest.readDeclarations
    refine bind_eq_ok.mpr ⟨_, hload, ?_⟩
    dsimp only
    rw [hlines]
    exact bind_eq_ok.mpr ⟨deps, hdeps, bind_eq_ok.mpr ⟨dev, hdev, rfl⟩⟩
  · cases kind
    · exact hpairsDeps
    · exact hpairsDev

end Item
end PubspecTidy.Manifest
