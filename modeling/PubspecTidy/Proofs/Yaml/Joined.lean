import PubspecTidy.Proofs.Yaml.Entering

/-!
# Two parts of a document

Main statement: when the collections of two parts on their own have all been entered, those of the
whole are as well, and they are the collections of the parts under their numbers in the whole.
-/
namespace PubspecTidy.Yaml

/-- A number that a node of the part has in the whole. -/
def Span.has (p : Span) (j : Nat) : Bool :=
  decide (p.low + p.shift ≤ j) && decide (j < p.high + p.shift)

theorem Span.has_iff {p : Span} {j : Nat} :
    p.has j = true ↔ p.low + p.shift ≤ j ∧ j < p.high + p.shift := by
  simp [Span.has]

theorem Span.has_eq_false {p : Span} {j : Nat} : p.has j = false ↔ p.Misses j := by
  rw [← Bool.not_eq_true, has_iff, Span.Misses]
  omega

/-- No node belongs to both parts. -/
def Span.Apart (p q : Span) : Prop := ∀ j, p.has j = true → q.has j = false

theorem Span.Apart.symm {p q : Span} (h : p.Apart q) : q.Apart p := fun j hj => by
  cases hp : p.has j with
  | false => rfl
  | true => rw [h j hp] at hj; cases hj

namespace Form

variable {p q : Span} {a b w w' : Formation}

/-- The whole holds two parts, whose collections wait in it in any order. -/
structure Joined (p q : Span) (a b w : Formation) : Prop where
  left : Holds p a w
  right : Holds q b w
  waitsLeft : a.waiting.map (· + p.shift) = w.waiting.filter p.has
  waitsRight : b.waiting.map (· + q.shift) = w.waiting.filter q.has
  covered : ∀ j ∈ w.waiting, p.has j = true ∨ q.has j = true
  extents : extent a.nodes + extent b.nodes ≤ extent w.nodes + 1
  lengths : a.nodes.length + b.nodes.length ≤ w.nodes.length + 1
  present : 1 ≤ a.nodes.length ∧ 1 ≤ b.nodes.length

theorem Joined.symm (h : Joined p q a b w) : Joined q p b a w where
  left := h.right
  right := h.left
  waitsLeft := h.waitsRight
  waitsRight := h.waitsLeft
  covered j hj := (h.covered j hj).symm
  extents := by rw [Nat.add_comm]; exact h.extents
  lengths := by rw [Nat.add_comm]; exact h.lengths
  present := h.present.symm

theorem length_le_extent (nodes : Table Nat Node) : nodes.length ≤ extent nodes := by
  rw [extent_eq]
  omega

theorem Joined.beside (h : Joined p q a b w) : Beside p a w a w where
  toHolds := h.left
  nodesApart _ _ := rfl
  valuesApart _ _ := rfl
  waiting := ⟨[], by simp⟩
  extent := rfl
  length := ⟨rfl, rfl⟩
  room := by
    have hextents := h.extents
    have hlengths := h.lengths
    have hb := length_le_extent b.nodes
    have hpresent := h.present
    omega

theorem Holds.frame (h : Holds q b w)
    (hnodes : ∀ j, q.has j = true → Table.get? w'.nodes j = Table.get? w.nodes j)
    (hvalues : ∀ j, q.has j = true → Table.get? w'.values j = Table.get? w.values j) :
    Holds q b w' := by
  refine { h with nodes := fun id hid hid' => ?_, values := fun id hid hid' => ?_ }
  · rw [hnodes _ ((Span.has_iff).mpr (by omega)), h.nodes id hid hid']
  · rw [hvalues _ ((Span.has_iff).mpr (by omega)), h.values id hid hid']

theorem filter_has_map {new : List Nat} (hnew : ∀ id ∈ new, p.low ≤ id ∧ id < p.high) :
    (new.map (· + p.shift)).filter p.has = new.map (· + p.shift) := by
  refine List.filter_eq_self.mpr fun j hj => ?_
  obtain ⟨id, hid, rfl⟩ := List.mem_map.mp hj
  have hin := hnew id hid
  exact (Span.has_iff).mpr (by omega)

theorem filter_apart_map (hapart : p.Apart q) {new : List Nat}
    (hnew : ∀ id ∈ new, p.low ≤ id ∧ id < p.high) :
    (new.map (· + p.shift)).filter q.has = [] := by
  refine List.filter_eq_nil_iff.mpr fun j hj => ?_
  obtain ⟨id, hid, rfl⟩ := List.mem_map.mp hj
  have hin := hnew id hid
  rw [hapart _ ((Span.has_iff).mpr (by omega))]
  exact Bool.false_ne_true

/-- A step that succeeds on one part succeeds on the whole. -/
theorem Joined.run (h : Joined p q a b w) (hapart : p.Apart q) {α β : Type} {inv : α → Prop}
    {φ : α → β} {m : Form α} {m' : Form β} (htracks : Tracks p inv φ m m') {r : α} {a' : Formation}
    (hm : m a = .ok (r, a')) :
    ∃ w', m' w = .ok (φ r, w') ∧ Joined p q a' b w' ∧ inv r := by
  obtain ⟨w', hw', hbeside, hinv⟩ := htracks h.beside hm
  have hmisses (j : Nat) (hj : q.has j = true) : p.Misses j :=
    (Span.has_eq_false).mp (hapart.symm j hj)
  obtain ⟨new, ha, hw, hnew⟩ := hbeside.waiting
  refine ⟨w', hw', ?_, hinv⟩
  refine ⟨hbeside.toHolds, h.right.frame (fun j hj => hbeside.nodesApart j (hmisses j hj))
    fun j hj => hbeside.valuesApart j (hmisses j hj), ?_, ?_, fun j hj => ?_, ?_, ?_, ?_⟩
  · rw [ha, hw, List.map_append, List.filter_append, h.waitsLeft, filter_has_map hnew]
  · rw [hw, List.filter_append, filter_apart_map hapart hnew, List.append_nil, h.waitsRight]
  · rw [hw] at hj
    rcases List.mem_append.mp hj with hj | hj
    · exact h.covered j hj
    · obtain ⟨id, hid, rfl⟩ := List.mem_map.mp hj
      have hin := hnew id hid
      exact .inl ((Span.has_iff).mpr (by omega))
  · have hextent := hbeside.extent
    have hextents := h.extents
    omega
  · have hlength := hbeside.length
    have hlengths := h.lengths
    omega
  · have hlength := hbeside.length
    have hpresent := h.present
    omega

/-- The first collection that waits in the whole is the first one of its part. -/
theorem Joined.take (h : Joined p q a b w) (hapart : p.Apart q) {j : Nat} {rest : List Nat}
    (hw : w.waiting = j :: rest) (hj : p.has j = true) :
    ∃ id rest', a.waiting = id :: rest' ∧ id + p.shift = j ∧
      Joined p q { a with waiting := rest' } b { w with waiting := rest } := by
  have hleft := h.waitsLeft
  rw [hw, List.filter_cons_of_pos hj] at hleft
  cases ha : a.waiting with
  | nil =>
    rw [ha] at hleft
    cases hleft
  | cons id rest' =>
    rw [ha, List.map_cons] at hleft
    obtain ⟨hid, hrest⟩ := List.cons.inj hleft
    have hright := h.waitsRight
    rw [hw, List.filter_cons_of_neg (by rw [hapart j hj]; exact Bool.false_ne_true)] at hright
    refine ⟨id, rest', rfl, hid, ⟨h.left.nodes, h.left.values, h.left.below, h.left.formed,
      h.left.inner, h.left.held⟩, h.right.frame (fun _ _ => rfl) fun _ _ => rfl, hrest, hright,
      fun x hx => ?_, h.extents, h.lengths, h.present⟩
    refine h.covered x ?_
    rw [hw]
    exact List.mem_cons_of_mem _ hx

/-- The collections of a part are those of the whole under other numbers. -/
structure Renamed (p : Span) (cells cells' : Table Nat Cell) : Prop where
  moved : ∀ id, p.low ≤ id → id < p.high →
    Table.get? cells' (id + p.shift) = (Table.get? cells id).map (Cell.map (· + p.shift))
  inside : ∀ e ∈ cells, InsideCell p e.2

theorem Renamed.nil : Renamed p [] [] :=
  ⟨fun _ _ _ => rfl, fun e he => by cases he⟩

theorem Renamed.cons {cells cells' : Table Nat Cell} (h : Renamed p cells cells') {cell : Cell}
    (hcell : InsideCell p cell) (id : Nat) :
    Renamed p ((id, cell) :: cells) ((id + p.shift, cell.map (· + p.shift)) :: cells') := by
  refine ⟨fun j hj hj' => ?_, fun e he => ?_⟩
  · rw [Table.get?_cons, Table.get?_cons]
    by_cases heq : id = j
    · rw [if_pos heq, if_pos (by omega)]
      rfl
    · rw [if_neg heq, if_neg (by omega)]
      exact h.moved j hj hj'
  · rcases List.mem_cons.mp he with rfl | he
    · exact hcell
    · exact h.inside e he

theorem Renamed.cons_apart {cells cells' : Table Nat Cell} (h : Renamed q cells cells') {j : Nat}
    (hj : q.has j = false) (cell : Cell) : Renamed q cells ((j, cell) :: cells') := by
  refine ⟨fun id hid hid' => ?_, h.inside⟩
  change (if j = id + q.shift then _ else Table.get? cells' (id + q.shift)) = _
  rw [if_neg]
  · exact h.moved id hid hid'
  · rintro rfl
    rw [(Span.has_iff).mpr (by omega)] at hj
    cases hj

/-- What a part enters first is entered first in the whole. -/
theorem Joined.enter (h : Joined p q a b w) (hapart : p.Apart q) {j : Nat} {rest : List Nat}
    (hw : w.waiting = j :: rest) (hj : p.has j = true) {cells : Table Nat Cell}
    (ha : Enters a cells) :
    ∃ id cell cells' a' w', id + p.shift = j ∧ cells = (id, cell) :: cells' ∧ Enters a' cells' ∧
      enter j { w with waiting := rest } = .ok (cell.map (· + p.shift), w') ∧
      Joined p q a' b w' ∧ InsideCell p cell := by
  obtain ⟨id, rest', hwaiting, rfl, hjoined⟩ := h.take hapart hw hj
  cases ha with
  | done hnone =>
    rw [hwaiting] at hnone
    cases hnone
  | next hwaiting' hcell hrest =>
    obtain ⟨rfl, rfl⟩ := List.cons.inj (hwaiting.symm.trans hwaiting')
    have hid := ((Span.has_iff).mp hj).1
    obtain ⟨w', hw', hjoined', hinside⟩ :=
      hjoined.run hapart (tracks_enter (by omega)) hcell
    exact ⟨_, _, _, _, w', rfl, rfl, hrest, hw', hjoined', hinside⟩

theorem eq_nil_of_enters {cells : Table Nat Cell} (h : Enters a cells) (ha : a.waiting = []) :
    cells = [] := by
  cases h with
  | done _ => rfl
  | next hwaiting _ _ =>
    rw [ha] at hwaiting
    cases hwaiting

theorem Joined.enters (h : Joined p q a b w) (hapart : p.Apart q) {cells cells' : Table Nat Cell}
    (ha : Enters a cells) (hb : Enters b cells') :
    ∃ all, Enters w all ∧ all.length = cells.length + cells'.length ∧ Renamed p cells all ∧
      Renamed q cells' all := by
  generalize hn : cells.length + cells'.length = n
  induction n using Nat.strongRecOn generalizing a b w cells cells' with
  | ind n ih =>
    cases hw : w.waiting with
    | nil =>
      have hleft := h.waitsLeft
      have hright := h.waitsRight
      rw [hw] at hleft hright
      obtain rfl := eq_nil_of_enters ha (List.map_eq_nil_iff.mp hleft)
      obtain rfl := eq_nil_of_enters hb (List.map_eq_nil_iff.mp hright)
      exact ⟨[], .done hw, hn, .nil, .nil⟩
    | cons j rest =>
      rcases h.covered j (by rw [hw]; exact List.mem_cons_self) with hj | hj
      · obtain ⟨id, cell, cells₁, a', w', rfl, rfl, ha', hcell, hjoined, hinside⟩ :=
          h.enter hapart hw hj ha
        rw [List.length_cons] at hn
        obtain ⟨all, hall, hlength, hleft, hright⟩ :=
          ih (cells₁.length + cells'.length) (by omega) hjoined ha' hb rfl
        refine ⟨_, .next hw hcell hall, ?_, hleft.cons hinside id,
          hright.cons_apart (hapart _ hj) _⟩
        rw [List.length_cons, hlength]
        omega
      · obtain ⟨id, cell, cells₁, b', w', rfl, rfl, hb', hcell, hjoined, hinside⟩ :=
          h.symm.enter hapart.symm hw hj hb
        rw [List.length_cons] at hn
        obtain ⟨all, hall, hlength, hleft, hright⟩ :=
          ih (cells.length + cells₁.length) (by omega) hjoined.symm ha hb' rfl
        refine ⟨_, .next hw hcell hall, ?_, hleft.cons_apart (hapart.symm _ hj) _,
          hright.cons hinside id⟩
        rw [List.length_cons, hlength]
        omega

end Form
end PubspecTidy.Yaml
