import Mathlib.Data.List.Chain
import PubspecTidy.Proofs.Yaml.Reading

/-!
# Texts in pieces

A text may be put together from pieces, each of which holds entries of a block mapping and can be
read on its own. Main statement: it is read as its pieces are, one behind the other, up to the
numbers of the nodes.
-/
namespace PubspecTidy.Yaml

/-- A text of entries of a block mapping, with what it comes to on its own. -/
structure Piece where
  text : List Char
  reading : Reading
  /-- Whether the text may end in a block scalar. -/
  scalar : Bool

namespace Piece

/-- A piece of whole lines at a column. -/
structure Alone (n : Nat) (p : Piece) : Prop where
  of : p.reading.Of n p.text p.scalar
  ends : p.text.getLast? = some '\n'

/-- Two pieces without a common key or anchor. -/
structure Apart (p q : Piece) : Prop where
  keys : KeysDiffer p.reading.top q.reading.top
  anchors : p.reading.AnchorsDiffer q.reading

def texts (ps : List Piece) : List Char := ps.flatMap text

/-- Pieces that can stand one behind the other. Right behind a block scalar, something is to be seen
at the start of the line. -/
structure Row (n : Nat) (ps : List Piece) : Prop where
  alone : ∀ p ∈ ps, p.Alone n
  apart : ps.Pairwise Apart
  seen : ps.IsChain fun p q => p.scalar = true → Block.IsSeen q.text

/-- Where pieces are found in what their text comes to: every piece comes with the number by which
the numbers of its nodes are greater. -/
structure Placed (s : Reading) (placed : List (Piece × Nat)) : Prop where
  tokens : s.tokens = placed.flatMap fun x => x.1.reading.tokens
  top : s.top = placed.flatMap fun x => mapPairs (· + x.2) x.1.reading.top
  cells : ∀ x ∈ placed, Form.Renamed (x.1.reading.span x.2) x.1.reading.cells s.cells
  count : ∀ x ∈ placed, x.1.reading.count + x.2 ≤ s.count

variable {n : Nat} {p q : Piece} {ps : List Piece} {s t : Reading} {placed : List (Piece × Nat)}

theorem placed_singleton (h : p.Alone n) : Placed p.reading [(p, 0)] where
  tokens := by simp
  top := by
    rw [List.flatMap_singleton]
    exact (mapPairs_id _).symm
  cells x hx := by
    obtain rfl := List.mem_singleton.mp hx
    exact h.of.inside.2
  count x hx := by
    obtain rfl := List.mem_singleton.mp hx
    exact Nat.le_refl _

theorem differs_map {a b : Value} (h : a.Differs b) (f : Nat → Nat) : a.Differs (b.map f) :=
  fun g g' => by
    rw [map_map]
    exact h g _

/-- The keys and anchors of a row are those of its pieces. -/
theorem Placed.apart (h : Placed s placed) (hp : ∀ x ∈ placed, p.Apart x.1) :
    KeysDiffer p.reading.top s.top ∧ p.reading.AnchorsDiffer s := by
  refine ⟨fun e he e' he' => ?_, fun x hx hx' => ?_⟩
  · rw [h.top] at he'
    obtain ⟨y, hy, he'⟩ := List.mem_flatMap.mp he'
    obtain ⟨e'', he'', rfl⟩ := List.mem_map.mp he'
    exact differs_map ((hp y hy).keys e he e'' he'') _
  · rw [h.tokens] at hx'
    obtain ⟨y, hy, hx'⟩ := List.mem_flatMap.mp hx'
    exact (hp y hy).anchors x hx hx'

theorem mapPairs_tops (f : Nat → Nat) (xs : List (Piece × Nat)) :
    mapPairs f (xs.flatMap fun x => mapPairs (· + x.2) x.1.reading.top) =
      xs.flatMap fun x => mapPairs (fun j => f (j + x.2)) x.1.reading.top := by
  rw [mapPairs, List.map_flatMap]
  exact List.flatMap_congr fun x _ => mapPairs_map _ _ _

/-- What pieces come to in what they come to together with another one in front. -/
theorem Placed.cons (h : Placed s placed) (hp : p.Alone n)
    (htokens : t.tokens = p.reading.tokens ++ s.tokens)
    (hcount : t.count = s.count + (p.reading.count - 1)) (hcount' : 1 ≤ s.count)
    (htop : t.top = p.reading.top ++ mapPairs (· + (p.reading.count - 1)) s.top)
    (hleft : Form.Renamed (p.reading.span 0) p.reading.cells t.cells)
    (hright : Form.Renamed (s.span (p.reading.count - 1)) s.cells t.cells) :
    Placed t ((p, 0) :: placed.map fun x => (x.1, x.2 + (p.reading.count - 1))) where
  tokens := by
    rw [htokens, h.tokens, List.flatMap_cons, List.flatMap_map]
  top := by
    rw [htop, h.top, List.flatMap_cons, List.flatMap_map, mapPairs_tops, Form.mapPairs_add_zero]
    simp only [Nat.add_assoc]
  cells x hx := by
    rcases List.mem_cons.mp hx with rfl | hx
    · exact hleft
    · obtain ⟨y, hy, rfl⟩ := List.mem_map.mp hx
      have hle := h.count y hy
      exact (h.cells y hy).trans hright (Nat.le_add_right _ _) hle
  count x hx := by
    have hpos := hp.of.count_pos
    rcases List.mem_cons.mp hx with rfl | hx
    · dsimp only
      omega
    · obtain ⟨y, hy, rfl⟩ := List.mem_map.mp hx
      have hle := h.count y hy
      dsimp only
      omega

/-- What a row of pieces comes to. -/
structure Whole (n : Nat) (ps : List Piece) (s : Reading) (placed : List (Piece × Nat)) :
    Prop extends Placed s placed where
  of : ∃ b, s.Of n (texts ps) b ∧ ((∀ p ∈ ps, p.scalar = false) → b = false)
  ends : (texts ps).getLast? = some '\n'
  pieces : placed.map Prod.fst = ps

/-- A row of pieces is read as the pieces are on their own. -/
theorem Row.exists_whole (h : Row n ps) (hne : ps ≠ []) : ∃ s placed, Whole n ps s placed := by
  induction ps with
  | nil => exact absurd rfl hne
  | cons p ps ih =>
    have hp := h.alone p List.mem_cons_self
    cases ps with
    | nil =>
      have htext : texts [p] = p.text := List.flatMap_singleton _ _
      refine ⟨p.reading, [(p, 0)], placed_singleton hp, ⟨p.scalar, ?_, fun hscalar => ?_⟩, ?_, rfl⟩
      · rw [htext]
        exact hp.of
      · exact hscalar p List.mem_cons_self
      · rw [htext]
        exact hp.ends
    | cons q ps =>
      obtain ⟨hseen, hchain⟩ := List.isChain_cons_cons.mp h.seen
      obtain ⟨hapart, hpairwise⟩ := List.pairwise_cons.mp h.apart
      have hrest : Row n (q :: ps) :=
        ⟨fun x hx => h.alone x (List.mem_cons_of_mem _ hx), hpairwise, hchain⟩
      obtain ⟨s, placed, hwhole⟩ := ih hrest (List.cons_ne_nil _ _)
      obtain ⟨b, hof, hb⟩ := hwhole.of
      have hplaced : ∀ x ∈ placed, p.Apart x.1 := fun x hx => by
        refine hapart x.1 ?_
        rw [← hwhole.pieces]
        exact List.mem_map_of_mem hx
      obtain ⟨hkeys, hanchors⟩ := hwhole.toPlaced.apart hplaced
      have htexts : texts (q :: ps) = q.text ++ texts ps := List.flatMap_cons
      have hseen' : p.scalar = true → Block.IsSeen (texts (q :: ps)) := fun hscalar => by
        obtain ⟨ch, rest, hq, hch⟩ := hseen hscalar
        exact ⟨ch, rest ++ texts ps, by rw [htexts, hq, List.cons_append], hch⟩
      obtain ⟨t, ht, htokens, hcount, htop, hleft, hright⟩ :=
        hp.of.append hof hp.ends hseen' hkeys hanchors
      refine ⟨t, _, hwhole.toPlaced.cons hp htokens hcount hof.count_pos htop hleft hright,
        ⟨b, ht, fun hscalar => ?_⟩, ?_, ?_⟩
      · exact hb fun x hx => hscalar x (List.mem_cons_of_mem _ hx)
      · have hends := hwhole.ends
        change (p.text ++ texts (q :: ps)).getLast? = _
        rwa [Scanner.getLast?_append_of_ne_nil _ (by rintro hnil; simp [hnil] at hends)]
      · rw [List.map_cons, List.map_map]
        exact congrArg (p :: ·) hwhole.pieces

end Piece
end PubspecTidy.Yaml
