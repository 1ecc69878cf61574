import Mathlib.Algebra.GroupWithZero.Nat
import PubspecTidy.Proofs.Yaml.Entries
import PubspecTidy.Proofs.Yaml.Renumber
import PubspecTidy.Proofs.Yaml.Waiting

/-!
# Forming a part of a document

The nodes of some entries are formed on their own, or among the nodes of other entries, where they
have greater numbers. Main statement: a step of forming that succeeds on them alone succeeds among
the others with the same outcome, and changes nothing of the others.
-/
namespace PubspecTidy.Yaml

/-- The nodes from `low` up to `high`, which have numbers greater by `shift` among all nodes. -/
structure Span where
  low : Nat
  high : Nat
  shift : Nat

/-- A number that no node of the part has. -/
def Span.Misses (p : Span) (j : Nat) : Prop := j < p.low + p.shift ∨ p.high + p.shift ≤ j

namespace Form

/-- The number of the entries or items of a node. -/
def width : Node → Nat
  | ⟨_, .scalar _⟩ => 0
  | ⟨_, .sequence items⟩ => items.length
  | ⟨_, .mapping entries⟩ => entries.length

theorem foldl_width (nodes : Table Nat Node) (n : Nat) :
    nodes.foldl (fun n e =>
      match e.2.content with
      | .scalar _ => n
      | .sequence items => n + items.length
      | .mapping entries => n + entries.length) n = n + (nodes.map fun e => width e.2).sum := by
  induction nodes generalizing n with
  | nil => rfl
  | cons e nodes ih =>
    obtain ⟨id, tag, content⟩ := e
    rw [List.foldl_cons, ih, List.map_cons, List.sum_cons]
    cases content with
    | scalar text => simp [width]
    | sequence items => simp [width, Nat.add_assoc]
    | mapping entries => simp [width, Nat.add_assoc]

theorem extent_eq (nodes : Table Nat Node) :
    extent nodes = nodes.length + (nodes.map fun e => width e.2).sum :=
  foldl_width nodes nodes.length

theorem width_map (f : Nat → Nat) (node : Node) : width (node.map f) = width node := by
  obtain ⟨tag, content⟩ := node
  cases content <;> simp [width, Node.map, Content.map, renumber]

theorem extent_put {nodes : Table Nat Node} {id : Nat} {old : Node}
    (h : Table.get? nodes id = some old) (new : Node) :
    extent (Table.put nodes id new) + width old = extent nodes + width new := by
  rw [extent_eq, extent_eq]
  induction nodes with
  | nil => cases h
  | cons e nodes ih =>
    obtain ⟨k, node⟩ := e
    rw [Table.get?_cons] at h
    rw [Table.put_cons]
    split at h
    · rename_i hk
      cases h
      rw [if_pos hk]
      simp only [List.length_cons, List.map_cons, List.sum_cons]
      omega
    · rename_i hk
      have hrec := ih h
      rw [if_neg hk]
      simp only [List.length_cons, List.map_cons, List.sum_cons]
      omega

theorem length_put {nodes : Table Nat Node} {id : Nat} {old : Node}
    (h : Table.get? nodes id = some old) (new : Node) :
    (Table.put nodes id new).length = nodes.length := by
  induction nodes with
  | nil => cases h
  | cons e nodes ih =>
    obtain ⟨k, node⟩ := e
    rw [Table.get?_cons] at h
    rw [Table.put_cons]
    split at h
    · rename_i hk
      rw [if_pos hk]
      rfl
    · rename_i hk
      rw [if_neg hk, List.length_cons, List.length_cons, ih h]

/-- In the whole the part has come to the same as on its own. -/
structure Holds (p : Span) (a w : Formation) : Prop where
  nodes : ∀ id, p.low ≤ id → id < p.high →
    Table.get? w.nodes (id + p.shift) = (Table.get? a.nodes id).map (Node.map (· + p.shift))
  values : ∀ id, p.low ≤ id → id < p.high →
    Table.get? w.values (id + p.shift) = (Table.get? a.values id).map (Value.map (· + p.shift))
  below : ∀ id node, Table.get? a.nodes id = some node → id < p.high
  formed : ∀ id v, Table.get? a.values id = some v → id < p.high
  inner : ∀ id node, p.low ≤ id → Table.get? a.nodes id = some node →
    ∀ j ∈ node.content.refs, p.low ≤ j
  held : ∀ id v, p.low ≤ id → Table.get? a.values id = some v →
    ∀ j ∈ v.refs, p.low ≤ j ∧ j < p.high

/-- Since `a₀` and `w₀` the part and the whole have come to the same, and the others are as they
were. -/
structure Beside (p : Span) (a₀ w₀ a w : Formation) : Prop extends Holds p a w where
  nodesApart : ∀ j, p.Misses j → Table.get? w.nodes j = Table.get? w₀.nodes j
  valuesApart : ∀ j, p.Misses j → Table.get? w.values j = Table.get? w₀.values j
  waiting : ∃ new, a.waiting = a₀.waiting ++ new ∧
    w.waiting = w₀.waiting ++ new.map (· + p.shift) ∧ ∀ id ∈ new, p.low ≤ id ∧ id < p.high
  extent : extent w.nodes + extent a₀.nodes = extent w₀.nodes + extent a.nodes
  length : a.nodes.length = a₀.nodes.length ∧ w.nodes.length = w₀.nodes.length
  room : Form.extent a₀.nodes ≤ Form.extent w₀.nodes ∧ a₀.nodes.length ≤ w₀.nodes.length

/-- What succeeds on the part alone succeeds in the whole, up to the numbers. -/
def Tracks {α β : Type} (p : Span) (inv : α → Prop) (φ : α → β) (m : Form α) (m' : Form β) : Prop :=
  ∀ ⦃a₀ w₀ a w r a'⦄, Beside p a₀ w₀ a w → m a = .ok (r, a') →
    ∃ w', m' w = .ok (φ r, w') ∧ Beside p a₀ w₀ a' w' ∧ inv r

variable {p : Span}

section Rules

variable {α β γ δ : Type} {inv : α → Prop} {φ : α → β} {inv' : γ → Prop} {ψ : γ → δ}
  {m : Form α} {m' : Form β} {f : α → Form γ} {g : β → Form δ}

theorem Tracks.pure {r : α} (h : inv r) : Tracks p inv φ (pure r) (pure (φ r)) := by
  intro a₀ w₀ a w r' a' hbeside hm
  cases hm
  exact ⟨w, rfl, hbeside, h⟩

theorem Tracks.bind (h : Tracks p inv φ m m')
    (hf : ∀ r, inv r → Tracks p inv' ψ (f r) (g (φ r))) : Tracks p inv' ψ (m >>= f) (m' >>= g) := by
  intro a₀ w₀ a w r a' hbeside hm
  obtain ⟨r₁, a₁, hm₁, hm₂⟩ := run_bind_eq_ok.mp hm
  obtain ⟨w₁, hw₁, hbeside₁, hinv⟩ := h hbeside hm₁
  obtain ⟨w₂, hw₂, hbeside₂, hinv'⟩ := hf r₁ hinv hbeside₁ hm₂
  exact ⟨w₂, run_bind_eq_ok.mpr ⟨_, _, hw₁, hw₂⟩, hbeside₂, hinv'⟩

theorem Tracks.map (h : Tracks p inv φ m m') {c : α → γ} {c' : β → δ}
    (hc : ∀ r, c' (φ r) = ψ (c r)) (hinv : ∀ r, inv r → inv' (c r)) :
    Tracks p inv' ψ (c <$> m) (c' <$> m') := by
  rw [map_eq_pure_bind, map_eq_pure_bind]
  refine h.bind fun r hr => ?_
  rw [hc]
  exact .pure (hinv r hr)

theorem Tracks.refuse : Tracks p inv φ (refuse : Form α) m' := by
  intro a₀ w₀ a w r a' _ hm
  cases hm

theorem Tracks.throw (fault : Fault) : Tracks p inv φ (throw fault : Form α) m' := by
  intro a₀ w₀ a w r a' _ hm
  cases hm

/-- An outcome that does not depend on the state. -/
theorem Tracks.lift {x : Except Fault α} {x' : Except Fault β} (h : x' = φ <$> x)
    (hinv : ∀ r, x = .ok r → inv r) : Tracks p inv φ (liftM x) (liftM x') := by
  subst h
  cases x with
  | error e =>
    intro a₀ w₀ a w r a' _ hm
    cases hm
  | ok r => exact Tracks.pure (hinv r rfl)

end Rules

/-! ## Nodes -/

def Low (p : Span) (entries : List (Nat × Nat)) : Prop := ∀ e ∈ entries, p.low ≤ e.1 ∧ p.low ≤ e.2

theorem Low.nil : Low p [] := fun e he => by cases he

theorem Low.cons {e : Nat × Nat} {entries : List (Nat × Nat)} (h : p.low ≤ e.1 ∧ p.low ≤ e.2)
    (hs : Low p entries) : Low p (e :: entries) := by
  intro x hx
  rcases List.mem_cons.mp hx with rfl | hx
  · exact h
  · exact hs x hx

theorem Low.append {entries entries' : List (Nat × Nat)} (h : Low p entries)
    (h' : Low p entries') : Low p (entries ++ entries') := by
  intro e he
  rcases List.mem_append.mp he with he | he
  · exact h e he
  · exact h' e he

theorem low_iff {entries : List (Nat × Nat)} :
    Low p entries ↔ ∀ j ∈ (Content.mapping entries).refs, p.low ≤ j := by
  refine ⟨fun h j hj => ?_, fun h e he => ?_⟩
  · obtain ⟨e, he, hj⟩ := List.mem_flatMap.mp hj
    obtain ⟨hkey, hvalue⟩ := h e he
    rcases List.mem_cons.mp hj with rfl | hj
    · exact hkey
    · obtain rfl := List.mem_singleton.mp hj
      exact hvalue
  · have hmem (j : Nat) (hj : j ∈ [e.1, e.2]) := h j (List.mem_flatMap.mpr ⟨e, he, hj⟩)
    exact ⟨hmem e.1 (by simp), hmem e.2 (by simp)⟩

theorem tracks_nodeOf {id : Nat} (hid : p.low ≤ id) :
    Tracks p (fun node => id < p.high ∧ ∀ j ∈ node.content.refs, p.low ≤ j)
      (Node.map (· + p.shift)) (nodeOf id) (nodeOf (id + p.shift)) := by
  intro a₀ w₀ a w node a' hbeside hm
  obtain ⟨hnode, rfl⟩ := nodeOf_eq_ok.mp hm
  have hhigh := hbeside.below id node hnode
  refine ⟨w, nodeOf_eq_ok.mpr ⟨?_, rfl⟩, hbeside, hhigh, hbeside.inner id node hid hnode⟩
  rw [hbeside.nodes id hid hhigh, hnode]
  rfl

theorem Beside.setNode {a₀ w₀ a w : Formation} (h : Beside p a₀ w₀ a w) {id : Nat}
    (hid : p.low ≤ id) {old : Node} (hold : Table.get? a.nodes id = some old) {node : Node}
    (hrefs : ∀ j ∈ node.content.refs, p.low ≤ j) :
    Beside p a₀ w₀ { a with nodes := Table.put a.nodes id node }
      { w with nodes := Table.put w.nodes (id + p.shift) (node.map (· + p.shift)) } := by
  have hhigh := h.below id old hold
  have hold' : Table.get? w.nodes (id + p.shift) = some (old.map (· + p.shift)) := by
    rw [h.nodes id hid hhigh, hold]
    rfl
  refine ⟨⟨fun j hj hj' => ?_, h.values, fun j node' hnode' => ?_, h.formed,
    fun j node' hj hnode' => ?_, h.held⟩, fun j hj => ?_, h.valuesApart, h.waiting, ?_, ?_, h.room⟩
  · change Table.get? (Table.put w.nodes _ _) _ = (Table.get? (Table.put a.nodes _ _) _).map _
    rw [Table.get?_put, Table.get?_put]
    by_cases heq : id = j
    · rw [if_pos heq, if_pos (by omega)]
      rfl
    · rw [if_neg heq, if_neg (by omega)]
      exact h.nodes j hj hj'
  · change Table.get? (Table.put a.nodes _ _) _ = _ at hnode'
    rw [Table.get?_put] at hnode'
    split at hnode'
    · omega
    · exact h.below j node' hnode'
  · change Table.get? (Table.put a.nodes _ _) _ = _ at hnode'
    rw [Table.get?_put] at hnode'
    split at hnode'
    · cases hnode'
      exact hrefs
    · exact h.inner j node' hj hnode'
  · change Table.get? (Table.put w.nodes _ _) _ = _
    rw [Table.get?_put, if_neg]
    · exact h.nodesApart j hj
    · rintro rfl
      rcases hj with hj | hj <;> omega
  · have ha := extent_put hold node
    have hw := extent_put hold' (node.map (· + p.shift))
    have heq := h.extent
    rw [width_map, width_map] at hw
    change Form.extent (Table.put w.nodes (id + p.shift) _) + _ =
      _ + Form.extent (Table.put a.nodes id node)
    omega
  · change (Table.put a.nodes id node).length = _ ∧
      (Table.put w.nodes (id + p.shift) _).length = _
    rw [length_put hold, length_put hold']
    exact h.length

/-- A node is replaced by another one. -/
theorem tracks_update {id : Nat} (hid : p.low ≤ id) {f g : Node → Node}
    (hg : ∀ node, g (node.map (· + p.shift)) = (f node).map (· + p.shift))
    (hrefs : ∀ node, (∀ j ∈ node.content.refs, p.low ≤ j) → ∀ j ∈ (f node).content.refs, p.low ≤ j) :
    Tracks p (fun _ => True) (fun u => u) (nodeOf id >>= fun node => setNode id (f node))
      (nodeOf (id + p.shift) >>= fun node => setNode (id + p.shift) (g node)) := by
  intro a₀ w₀ a w u a' hbeside hm
  obtain ⟨node, a₁, hm₁, hm₂⟩ := run_bind_eq_ok.mp hm
  obtain ⟨w₁, hw₁, hbeside₁, hhigh, hinner⟩ := tracks_nodeOf hid hbeside hm₁
  obtain ⟨hnode, rfl⟩ := nodeOf_eq_ok.mp hm₁
  obtain rfl := setNode_eq_ok.mp hm₂
  refine ⟨_, run_bind_eq_ok.mpr ⟨_, _, hw₁, setNode_eq_ok.mpr rfl⟩, ?_, trivial⟩
  rw [hg]
  exact hbeside₁.setNode hid hnode (hrefs node hinner)

theorem tracks_entriesOf {id : Nat} (hid : p.low ≤ id) :
    Tracks p (Low p) (renumber (· + p.shift)) (entriesOf id) (entriesOf (id + p.shift)) := by
  refine (tracks_nodeOf hid).bind fun node hnode => ?_
  obtain ⟨tag, content⟩ := node
  cases content with
  | mapping entries => exact .pure ((low_iff).mpr hnode.2)
  | scalar text => exact .refuse
  | sequence items => exact .refuse

theorem tracks_setEntries {id : Nat} (hid : p.low ≤ id) {entries : List (Nat × Nat)}
    (hentries : Low p entries) :
    Tracks p (fun _ => True) (fun u => u) (setEntries id entries)
      (setEntries (id + p.shift) (renumber (· + p.shift) entries)) :=
  tracks_update hid (fun _ => rfl) fun _ _ => (low_iff).mp hentries

theorem tracks_hasTag {id : Nat} (hid : p.low ≤ id) (tag : Tag) :
    Tracks p (fun _ => True) (fun b => b) (hasTag tag id) (hasTag tag (id + p.shift)) :=
  (tracks_nodeOf hid).bind fun node _ => .pure (r := decide (node.tag = tag)) trivial

/-- A list of entries split at one of them, under other numbers. -/
def renumberSplit (f : Nat → Nat) (found : List (Nat × Nat) × (Nat × Nat) × List (Nat × Nat)) :
    List (Nat × Nat) × (Nat × Nat) × List (Nat × Nat) :=
  (renumber f found.1, (f found.2.1.1, f found.2.1.2), renumber f found.2.2)

theorem tracks_splitAtTag (tag : Tag) {entries : List (Nat × Nat)} (h : Low p entries) :
    Tracks p (fun r => ∀ found ∈ r, Low p found.1 ∧ (p.low ≤ found.2.1.1 ∧ p.low ≤ found.2.1.2) ∧
        Low p found.2.2)
      (Option.map (renumberSplit (· + p.shift))) (splitAtTag tag entries)
      (splitAtTag tag (renumber (· + p.shift) entries)) := by
  induction entries with
  | nil => exact .pure fun found hfound => by cases hfound
  | cons e entries ih =>
    have he := h e List.mem_cons_self
    have hs : Low p entries := fun x hx => h x (List.mem_cons_of_mem _ hx)
    refine (tracks_hasTag he.1 tag).bind fun b _ => ?_
    cases b with
    | true =>
      refine .pure (r := some ([], e, entries)) fun found hfound => ?_
      cases hfound
      exact ⟨.nil, he, hs⟩
    | false =>
      refine (ih hs).bind fun found hfound => ?_
      cases found with
      | none => exact .pure fun found hfound => by cases hfound
      | some found =>
        obtain ⟨before, e', after⟩ := found
        obtain ⟨hbefore, he', hafter⟩ := hfound _ rfl
        refine .pure (r := some (e :: before, e', after)) fun found hfound => ?_
        cases hfound
        exact ⟨.cons he hbefore, he', hafter⟩

theorem tracks_unmarkDefaults {entries : List (Nat × Nat)} (h : Low p entries) :
    Tracks p (fun _ => True) (fun u => u) (unmarkDefaults entries)
      (unmarkDefaults (renumber (· + p.shift) entries)) := by
  induction entries with
  | nil => exact .pure trivial
  | cons e entries ih =>
    have he := h e List.mem_cons_self
    have hs : Low p entries := fun x hx => h x (List.mem_cons_of_mem _ hx)
    intro a₀ w₀ a w u a' hbeside hm
    unfold unmarkDefaults at hm
    obtain ⟨node, a₁, hm₁, hm₂⟩ := run_bind_eq_ok.mp hm
    obtain ⟨w₁, hw₁, hbeside₁, hhigh, hinner⟩ := tracks_nodeOf he.1 hbeside hm₁
    obtain ⟨hnode, rfl⟩ := nodeOf_eq_ok.mp hm₁
    change ∃ w', unmarkDefaults ((e.1 + p.shift, e.2 + p.shift) ::
      renumber (· + p.shift) entries) w = _ ∧ _
    unfold unmarkDefaults
    rw [run_bind_of_ok hw₁]
    have hsame : (node.map (· + p.shift)).tag = node.tag := rfl
    by_cases htag : node.tag = .default
    · rw [if_pos htag] at hm₂
      rw [if_pos (hsame.trans htag)]
      obtain ⟨u', a₂, hset, hm₃⟩ := run_bind_eq_ok.mp hm₂
      obtain rfl := setNode_eq_ok.mp hset
      have hset' : Beside p a₀ w₀
          { a₁ with nodes := Table.put a₁.nodes e.1 { node with tag := .text } } _ :=
        hbeside₁.setNode he.1 hnode hinner
      obtain ⟨w', hw', hbeside', htrivial⟩ := ih hs hset' hm₃
      exact ⟨w', run_bind_eq_ok.mpr ⟨(), _, rfl, hw'⟩, hbeside', htrivial⟩
    · rw [if_neg htag] at hm₂
      rw [if_neg fun h => htag (hsame.symm.trans h)]
      exact ih hs hbeside₁ hm₂

/-! ## Merging -/

/-- With as much fuel in the whole at least, merging comes to the same as in the part. -/
structure AllMerge (p : Span) (fuel fuel' : Nat) : Prop where
  takeMerged : ∀ ⦃id⦄, p.low ≤ id → Tracks p (Low p) (renumber (· + p.shift))
    (takeMerged fuel id) (takeMerged fuel' (id + p.shift))
  flattened : ∀ ⦃id⦄, p.low ≤ id → Tracks p (Low p) (renumber (· + p.shift))
    (flattened fuel id) (flattened fuel' (id + p.shift))
  allFlattened : ∀ ⦃ids⦄, (∀ id ∈ ids, p.low ≤ id) →
    Tracks p (fun r => ∀ es ∈ r, Low p es) (List.map (renumber (· + p.shift)))
      (allFlattened fuel ids) (allFlattened fuel' (ids.map (· + p.shift)))

variable {fuel fuel' : Nat}

theorem renumber_append (f : Nat → Nat) (entries entries' : List (Nat × Nat)) :
    renumber f (entries ++ entries') = renumber f entries ++ renumber f entries' :=
  List.map_append

theorem tracks_mergedFrom (h : AllMerge p fuel fuel') {value : Nat} (hvalue : p.low ≤ value) :
    Tracks p (Low p) (renumber (· + p.shift)) (nodeOf value >>= mergedFrom fuel value)
      (nodeOf (value + p.shift) >>= mergedFrom fuel' (value + p.shift)) := by
  refine (tracks_nodeOf hvalue).bind fun node hnode => ?_
  obtain ⟨tag, content⟩ := node
  cases content with
  | mapping entries => exact h.flattened hvalue
  | scalar text => exact .refuse
  | sequence items =>
    refine (h.allFlattened hnode.2).map (fun r => ?_) fun r hr e he => ?_
    · rw [← List.map_reverse]
      exact List.map_flatten.symm
    · obtain ⟨es, hes, he⟩ := List.mem_flatten.mp he
      exact hr es (List.mem_reverse.mp hes) e he

theorem tracks_takeMerged (h : AllMerge p fuel fuel') {id : Nat} (hid : p.low ≤ id) :
    Tracks p (Low p) (renumber (· + p.shift)) (takeMerged (fuel + 1) id)
      (takeMerged (fuel' + 1) (id + p.shift)) := by
  rw [takeMerged_succ, takeMerged_succ]
  refine ((tracks_entriesOf hid).bind fun entries hentries =>
    tracks_splitAtTag .merge hentries).bind fun found hfound => ?_
  cases found with
  | none => exact .pure .nil
  | some found =>
    obtain ⟨before, e, after⟩ := found
    obtain ⟨hbefore, he, hafter⟩ := hfound _ rfl
    have hset := tracks_setEntries hid (hbefore.append hafter)
    rw [renumber_append] at hset
    refine hset.bind fun _ _ => (tracks_mergedFrom h he.2).bind fun merged hmerged => ?_
    refine (h.takeMerged hid).bind fun rest hrest => ?_
    have hpure := Tracks.pure (p := p) (φ := renumber (· + p.shift)) (hmerged.append hrest)
    rwa [renumber_append] at hpure

theorem tracks_putMerged {id : Nat} (hid : p.low ≤ id) {merged own : List (Nat × Nat)}
    (hmerged : Low p merged) (hown : Low p own) :
    Tracks p (Low p) (renumber (· + p.shift)) (putMerged id merged own)
      (putMerged (id + p.shift) (renumber (· + p.shift) merged) (renumber (· + p.shift) own)) := by
  cases merged with
  | nil => exact .pure hown
  | cons e merged =>
    have hset := tracks_setEntries hid (hmerged.append hown)
    have hpure := Tracks.pure (p := p) (φ := renumber (· + p.shift)) (hmerged.append hown)
    rw [renumber_append] at hset hpure
    exact hset.bind fun _ _ => hpure

theorem tracks_flattened (h : AllMerge p fuel fuel') {id : Nat} (hid : p.low ≤ id) :
    Tracks p (Low p) (renumber (· + p.shift)) (flattened (fuel + 1) id)
      (flattened (fuel' + 1) (id + p.shift)) := by
  rw [flattened_succ, flattened_succ]
  refine (h.takeMerged hid).bind fun merged hmerged => ?_
  refine (tracks_entriesOf hid).bind fun own hown => ?_
  exact (tracks_unmarkDefaults hown).bind fun _ _ => tracks_putMerged hid hmerged hown

theorem tracks_allFlattened (h : AllMerge p fuel fuel') {ids : List Nat}
    (hids : ∀ id ∈ ids, p.low ≤ id) :
    Tracks p (fun r => ∀ es ∈ r, Low p es) (List.map (renumber (· + p.shift)))
      (allFlattened (fuel + 1) ids) (allFlattened (fuel' + 1) (ids.map (· + p.shift))) := by
  cases ids with
  | nil =>
    rw [allFlattened, List.map_nil, allFlattened]
    · exact .pure fun es hes => by cases hes
    all_goals simp
  | cons id ids =>
    rw [allFlattened, List.map_cons, allFlattened]
    refine (h.flattened (hids id List.mem_cons_self)).bind fun entries hentries => ?_
    refine (h.allFlattened fun j hj => hids j (List.mem_cons_of_mem _ hj)).bind fun rest hrest => ?_
    refine .pure fun es hes => ?_
    rcases List.mem_cons.mp hes with rfl | hes
    · exact hentries
    · exact hrest es hes

theorem allMerge (p : Span) {fuel fuel' : Nat} (hfuel : fuel ≤ fuel') : AllMerge p fuel fuel' := by
  induction fuel generalizing fuel' with
  | zero =>
    refine ⟨fun id _ => ?_, fun id _ => ?_, fun ids _ => ?_⟩
    · exact .refuse
    · exact .refuse
    · exact .refuse
  | succ fuel ih =>
    obtain ⟨fuel', rfl⟩ : ∃ n, fuel' = n + 1 := ⟨fuel' - 1, by omega⟩
    have h := ih (Nat.le_of_succ_le_succ hfuel)
    exact ⟨fun _ => tracks_takeMerged h, fun _ => tracks_flattened h, fun _ => tracks_allFlattened h⟩

/-- What comes after a look at the state. -/
theorem tracks_get {α β : Type} {inv : α → Prop} {φ : α → β} {f : Formation → Form α}
    {g : Formation → Form β} (h : ∀ a w, Form.extent a.nodes ≤ Form.extent w.nodes →
      a.nodes.length ≤ w.nodes.length → Tracks p inv φ (f a) (g w)) :
    Tracks p inv φ (get >>= f) (get >>= g) := by
  intro a₀ w₀ a w r a' hbeside hm
  have hextent := hbeside.extent
  have hlength := hbeside.length
  have hroom := hbeside.room
  exact h a w (by omega) (by omega) hbeside hm

theorem tracks_mergedEntries {id : Nat} (hid : p.low ≤ id) :
    Tracks p (Low p) (renumber (· + p.shift)) (mergedEntries id) (mergedEntries (id + p.shift)) := by
  refine tracks_get fun a w hextent _ => (allMerge p ?_).flattened hid
  exact Nat.mul_le_mul (by omega) (by omega)

end Form
end PubspecTidy.Yaml
