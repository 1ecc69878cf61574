import PubspecTidy.Proofs.Yaml.Shrink

/-!
# Composing an entry in its place

The tokens of some entries of a block mapping can be composed on their own, or with other entries
around them; then their nodes have greater numbers. Main statement: if they can be composed on their
own, they give the same nodes in their place.
-/
namespace PubspecTidy.Yaml

/-! ## Nodes with other numbers -/

/-- The numbers that a node refers to. -/
def Content.refs : Content → List Nat
  | .scalar _ => []
  | .sequence items => items
  | .mapping entries => entries.flatMap fun e => [e.1, e.2]

/-- The same entries, with other numbers. -/
def renumber (f : Nat → Nat) (entries : List (Nat × Nat)) : List (Nat × Nat) :=
  entries.map fun e => (f e.1, f e.2)

def Content.map (f : Nat → Nat) : Content → Content
  | .scalar text => .scalar text
  | .sequence items => .sequence (items.map f)
  | .mapping entries => .mapping (renumber f entries)

def Node.map (f : Nat → Nat) (node : Node) : Node := ⟨node.tag, node.content.map f⟩

/-- Nodes with numbers that are greater by `d`. -/
def shiftNodes (d : Nat) (nodes : Table Nat Node) : Table Nat Node :=
  nodes.map fun e => (e.1 + d, e.2.map (· + d))

/-- Where the tokens of some entries stand. -/
structure Site where
  /-- By how much the numbers of their nodes are greater. -/
  shift : Nat
  /-- The anchors among the tokens; none of them comes before. -/
  names : List String
  /-- The anchors before. -/
  before : List String
  /-- The token behind them. -/
  next : Token
  ends : next = .key ∨ next = .blockEnd
  rest : List Token
  /-- The nodes before. -/
  nodes : Table Nat Node

namespace Compose

variable {p : Site} {α β : Type}

/-- Two states at the same token of the entries: on their own, and in their place. The numbers
before `k` are taken. -/
structure Near (p : Site) (k : Nat) (a w : Composer) : Prop where
  tokens : ∃ z, a.tokens = z ++ [.blockEnd, .streamEnd] ∧ w.tokens = z ++ p.next :: p.rest ∧
    ∀ x, Token.anchor x ∈ z → x ∈ p.names
  nodes : w.nodes = shiftNodes p.shift a.nodes ++ p.nodes
  ids : ∀ e ∈ a.nodes, 1 ≤ e.1 ∧ e.1 < a.count
  refs : ∀ e ∈ a.nodes, ∀ j ∈ e.2.content.refs, 1 ≤ j
  count : w.count = a.count + p.shift
  low : 1 ≤ a.count ∧ k ≤ a.count
  anchors : ∀ x id, Table.get? a.anchors x = some id →
    1 ≤ id ∧ Table.get? w.anchors x = some (id + p.shift)
  free : ∀ x ∈ p.names, Table.has a.anchors x = false → Table.has w.anchors x = false
  known : ∀ x, Table.has w.anchors x = true → x ∈ p.names ∨ x ∈ p.before
  handles : a.handles = usualHandles ∧ w.handles = usualHandles

/-- What is composed of the entries on their own is composed in their place too, up to the numbers,
as long as the tokens that close their mapping are not taken. -/
def Follows (p : Site) (inv : α → Prop) (φ : α → β) (m : Compose α) (m' : Compose β) : Prop :=
  ∀ ⦃k a w r a'⦄, Near p k a w → m a = .ok (r, a') → 2 ≤ a'.tokens.length →
    ∃ w', m' w = .ok (φ r, w') ∧ Near p k a' w' ∧ inv r

/-- The same, behind the last token of the entries. -/
def FollowsAtEnd (p : Site) (inv : α → Prop) (φ : α → β) (m : Compose α) (m' : Compose β) : Prop :=
  ∀ ⦃k a w r a'⦄, Near p k a w → a.tokens = [.blockEnd, .streamEnd] → m a = .ok (r, a') →
    2 ≤ a'.tokens.length → ∃ w', m' w = .ok (φ r, w') ∧ Near p k a' w' ∧ inv r

/-- Takes the tokens that close the mapping, or fails. -/
def Overruns (m : Compose α) : Prop :=
  ∀ ⦃a r a'⦄, a.tokens = [.blockEnd, .streamEnd] → m a = .ok (r, a') → a'.tokens.length < 2

/-- Takes no token. -/
def Stays (m : Compose α) : Prop := ∀ ⦃a r a'⦄, m a = .ok (r, a') → a'.tokens = a.tokens

section Rules

variable {γ δ : Type} {inv : α → Prop} {φ : α → β} {inv' : γ → Prop} {ψ : γ → δ}
  {m : Compose α} {m' : Compose β} {f : α → Compose γ} {g : β → Compose δ}

theorem Follows.pure {r : α} (h : inv r) : Follows p inv φ (pure r) (pure (φ r)) := by
  intro k a w b a' hnear hm _
  cases hm
  exact ⟨w, rfl, hnear, h⟩

theorem Follows.bind (h : Follows p inv φ m m')
    (hf : ∀ r, inv r → Follows p inv' ψ (f r) (g (φ r))) (hs : ∀ r, Shrinks (f r)) :
    Follows p inv' ψ (m >>= f) (m' >>= g) := by
  intro k a w r a' hnear hm hlength
  obtain ⟨⟨r₁, a₁⟩, hm₁, hm₂⟩ := bind_eq_ok.mp hm
  obtain ⟨w₁, hw₁, hnear₁, hinv⟩ := h hnear hm₁ (Nat.le_trans hlength (hs r₁ hm₂).length_le)
  obtain ⟨w₂, hw₂, hnear₂, hinv'⟩ := hf r₁ hinv hnear₁ hm₂ hlength
  exact ⟨w₂, bind_eq_ok.mpr ⟨_, hw₁, hw₂⟩, hnear₂, hinv'⟩

theorem Follows.map (h : Follows p inv φ m m') {c : α → γ} {c' : β → δ}
    (hc : ∀ r, c' (φ r) = ψ (c r)) (hinv : ∀ r, inv r → inv' (c r)) :
    Follows p inv' ψ (c <$> m) (c' <$> m') := by
  rw [map_eq_pure_bind, map_eq_pure_bind]
  refine h.bind (fun r hr => ?_) fun _ => .pure _
  rw [hc]
  exact .pure (hinv r hr)

theorem Follows.atEnd (h : Follows p inv φ m m') : FollowsAtEnd p inv φ m m' :=
  fun _ _ _ _ _ hnear _ hm hlength => h hnear hm hlength

theorem Overruns.followsAtEnd (h : Overruns m) : FollowsAtEnd p inv φ m m' :=
  fun _ _ _ _ _ _ hend hm hlength => absurd (h hend hm) (Nat.not_lt.mpr hlength)

theorem follows_refuse : Follows p inv φ refuse m' := by
  intro k a w r a' _ hm
  cases hm

/-- Looking at the next token: inside the entries it is the same token. -/
theorem follows_peek {f : Token → Compose α} {g : Token → Compose β}
    (h : ∀ t, (∀ x, t = .anchor x → x ∈ p.names) → Follows p inv φ (f t) (g t))
    (hend : FollowsAtEnd p inv φ (f .blockEnd) (g p.next)) :
    Follows p inv φ (peek >>= f) (peek >>= g) := by
  intro k a w r a' hnear hm hlength
  obtain ⟨⟨t, a₁⟩, hpeek, hrun⟩ := bind_eq_ok.mp hm
  obtain ⟨rfl, ts, hts⟩ := peek_eq_ok.mp hpeek
  obtain ⟨z, ha, hw, hnames⟩ := hnear.tokens
  cases z with
  | nil =>
    obtain ⟨rfl, -⟩ := List.cons.inj (hts.symm.trans ha)
    obtain ⟨w', hw', hnear', hinv⟩ := hend hnear ha hrun hlength
    exact ⟨w', bind_eq_ok.mpr ⟨_, peek_of_cons hw, hw'⟩, hnear', hinv⟩
  | cons u z =>
    obtain ⟨rfl, -⟩ := List.cons.inj (hts.symm.trans ha)
    obtain ⟨w', hw', hnear', hinv⟩ := h t (fun x hx => hnames x (by simp [hx])) hnear hrun hlength
    exact ⟨w', bind_eq_ok.mpr ⟨_, peek_of_cons hw, hw'⟩, hnear', hinv⟩

theorem overruns_refuse : Overruns (refuse : Compose α) := by
  intro a r a' _ hm
  cases hm

theorem overruns_peek {f : Token → Compose α} (h : Overruns (f .blockEnd)) :
    Overruns (peek >>= f) := by
  intro a r a' hend hm
  obtain ⟨⟨t, a₁⟩, hpeek, hm⟩ := bind_eq_ok.mp hm
  obtain ⟨rfl, ts, hts⟩ := peek_eq_ok.mp hpeek
  obtain ⟨rfl, -⟩ := List.cons.inj (hts.symm.trans hend)
  exact h hend hm

theorem Overruns.bind (h : Overruns m) (hs : ∀ r, Shrinks (f r)) : Overruns (m >>= f) := by
  intro a r a' hend hm
  obtain ⟨⟨r₁, a₁⟩, hm₁, hm₂⟩ := bind_eq_ok.mp hm
  exact Nat.lt_of_le_of_lt (hs r₁ hm₂).length_le (h hend hm₁)

theorem Stays.overruns_bind (h : Stays m) (hf : ∀ r, Overruns (f r)) : Overruns (m >>= f) := by
  intro a r a' hend hm
  obtain ⟨⟨r₁, a₁⟩, hm₁, hm₂⟩ := bind_eq_ok.mp hm
  exact hf r₁ ((h hm₁).trans hend) hm₂

theorem overruns_advance : Overruns advance := by
  intro a r a' hend hm
  cases hm
  simp [hend]

end Rules

/-! ## Steps -/

theorem Near.advance {k : Nat} {a w : Composer} (h : Near p k a w) (hlength : 3 ≤ a.tokens.length) :
    Near p k { a with tokens := a.tokens.drop 1 } { w with tokens := w.tokens.drop 1 } := by
  obtain ⟨z, ha, hw, hnames⟩ := h.tokens
  cases z with
  | nil => simp [ha] at hlength
  | cons t z =>
    refine ⟨⟨z, by simp [ha], by simp [hw], fun x hx => hnames x (List.mem_cons_of_mem _ hx)⟩,
      h.nodes, h.ids, h.refs, h.count, h.low, h.anchors, h.free, h.known, h.handles⟩

theorem follows_advance : Follows p (fun _ => True) id advance advance := by
  intro k a w r a' hnear hm hlength
  cases hm
  refine ⟨_, rfl, hnear.advance ?_, trivial⟩
  have hdrop : (a.tokens.drop 1).length = a.tokens.length - 1 := List.length_drop
  change 2 ≤ (a.tokens.drop 1).length at hlength
  omega

/-- A number is taken for a node. -/
theorem Near.reserve {k : Nat} {a w a' : Composer} {anchor : Option String} {id : Nat}
    (h : Near p k a w) (hnames : ∀ x ∈ anchor, x ∈ p.names)
    (hreserve : reserve anchor a = .ok (id, a')) :
    id = a.count ∧ ∃ w', Compose.reserve anchor w = .ok (id + p.shift, w') ∧
      Near p (id + 1) a' w' ∧ a'.tokens = a.tokens := by
  obtain ⟨rfl, hfree, rfl⟩ := reserve_eq_ok.mp hreserve
  refine ⟨rfl, _, reserve_eq_ok.mpr ⟨h.count.symm, fun x hx => ?_, rfl⟩, ?_, rfl⟩
  · exact h.free x (hnames x hx) (hfree x hx)
  have hcount := h.count
  obtain ⟨hlow, -⟩ := h.low
  refine ⟨h.tokens, h.nodes, fun e he => ?_, h.refs, ?_, ⟨Nat.le_succ_of_le hlow, Nat.le_refl _⟩,
    fun x id hx => ?_, fun x hx hno => ?_, fun x hx => ?_, h.handles⟩
  · obtain ⟨hone, hlt⟩ := h.ids e he
    exact ⟨hone, Nat.lt_succ_of_lt hlt⟩
  · change w.count + 1 = a.count + 1 + p.shift
    omega
  · cases anchor with
    | none => exact h.anchors x id hx
    | some y =>
      change Table.get? (Table.put a.anchors y a.count) x = some id at hx
      change _ ∧ Table.get? (Table.put w.anchors y w.count) x = some (id + p.shift)
      rw [Table.get?_put] at hx ⊢
      split at hx
      · obtain rfl := Option.some.inj hx
        rw [if_pos ‹_›, hcount]
        exact ⟨hlow, rfl⟩
      · rw [if_neg ‹_›]
        exact h.anchors x id hx
  · cases anchor with
    | none => exact h.free x hx hno
    | some y =>
      change Table.has (Table.put a.anchors y a.count) x = false at hno
      change Table.has (Table.put w.anchors y w.count) x = false
      unfold Table.has at hno ⊢
      rw [Table.get?_put] at hno ⊢
      split at hno
      · simp at hno
      · rw [if_neg ‹_›]
        exact h.free x hx hno
  · cases anchor with
    | none => exact h.known x hx
    | some y =>
      change Table.has (Table.put w.anchors y w.count) x = true at hx
      unfold Table.has at hx
      rw [Table.get?_put] at hx
      split at hx
      · rename_i heq
        exact .inl (heq ▸ hnames y rfl)
      · exact h.known x hx

/-- A node is written down under a number that has been taken. -/
theorem Near.define {k id : Nat} {a w : Composer} {node : Node} (h : Near p k a w) (hid : 1 ≤ id)
    (hlt : id < a.count) (hrefs : ∀ j ∈ node.content.refs, 1 ≤ j) :
    Near p k { a with nodes := (id, node) :: a.nodes }
      { w with nodes := (id + p.shift, node.map (· + p.shift)) :: w.nodes } := by
  refine ⟨h.tokens, ?_, fun e he => ?_, fun e he => ?_, h.count, h.low, h.anchors, h.free,
    h.known, h.handles⟩
  · change (id + p.shift, node.map (· + p.shift)) :: w.nodes = _
    rw [h.nodes]
    rfl
  · rcases List.mem_cons.mp he with rfl | he
    · exact ⟨hid, hlt⟩
    · exact h.ids e he
  · rcases List.mem_cons.mp he with rfl | he
    · exact hrefs
    · exact h.refs e he

theorem follows_collect {anchor tag : Option String} {usual : Tag} {content content' : Compose Content}
    (hnames : ∀ x ∈ anchor, x ∈ p.names)
    (h : Follows p (fun c => ∀ j ∈ c.refs, 1 ≤ j) (Content.map (· + p.shift)) content content') :
    Follows p (1 ≤ ·) (· + p.shift) (collect anchor tag usual content)
      (collect anchor tag usual content') := by
  intro k a w r a' hnear hm hlength
  obtain ⟨⟨id, a₁⟩, hreserve, hm⟩ := bind_eq_ok.mp hm
  obtain ⟨⟨c, a₂⟩, hcontent, hm⟩ := bind_eq_ok.mp hm
  cases hm
  obtain ⟨rfl, w₁, hw₁, hnear₁, htokens⟩ := hnear.reserve hnames hreserve
  obtain ⟨w₂, hw₂, hnear₂, hrefs⟩ := h hnear₁ hcontent hlength
  obtain ⟨hlow, hk⟩ := hnear.low
  have hcount := hnear₂.low.2
  have hdone : Near p (a.count + 1)
      { a₂ with nodes := (a.count, ⟨collectionTag tag usual, c⟩) :: a₂.nodes } _ :=
    hnear₂.define hlow hcount hrefs
  refine ⟨_, bind_eq_ok.mpr ⟨_, hw₁, bind_eq_ok.mpr ⟨_, hw₂, rfl⟩⟩, ⟨hdone.tokens, hdone.nodes,
    hdone.ids, hdone.refs, hdone.count, ⟨hdone.low.1, ?_⟩, hdone.anchors, hdone.free,
    hdone.known, hdone.handles⟩, hlow⟩
  exact Nat.le_trans hk (Nat.le_trans (Nat.le_succ _) hcount)

theorem follows_scalar {anchor : Option String} (hnames : ∀ x ∈ anchor, x ∈ p.names) (tag : Tag)
    (text : String) :
    Follows p (1 ≤ ·) (· + p.shift) (scalar anchor tag text) (scalar anchor tag text) := by
  intro k a w r a' hnear hm hlength
  obtain ⟨⟨id, a₁⟩, hreserve, hm⟩ := bind_eq_ok.mp hm
  cases hm
  obtain ⟨rfl, w₁, hw₁, hnear₁, htokens⟩ := hnear.reserve hnames hreserve
  obtain ⟨hlow, hk⟩ := hnear.low
  have hcount := hnear₁.low.2
  have hdone : Near p (a.count + 1)
      { a₁ with nodes := (a.count, ⟨tag, .scalar text⟩) :: a₁.nodes } _ :=
    hnear₁.define hlow hcount fun j hj => by cases hj
  refine ⟨_, bind_eq_ok.mpr ⟨_, hw₁, rfl⟩, ⟨hdone.tokens, hdone.nodes,
    hdone.ids, hdone.refs, hdone.count, ⟨hdone.low.1, ?_⟩, hdone.anchors, hdone.free,
    hdone.known, hdone.handles⟩, hlow⟩
  exact Nat.le_trans hk (Nat.le_trans (Nat.le_succ _) hcount)

theorem follows_empty : Follows p (1 ≤ ·) (· + p.shift) empty empty :=
  follows_scalar (fun x hx => by cases hx) .null ""

theorem stays_empty : Stays empty := by
  intro a r a' hm
  cases hm
  rfl

/-! ## Properties of a node -/

/-- An anchor is among those of the entries. -/
def Known {α : Type} (p : Site) (r : Option String × α) : Prop := ∀ x ∈ r.1, x ∈ p.names

theorem follows_takeAnchor :
    Follows p (fun r => ∀ x ∈ r, x ∈ p.names) id takeAnchor? takeAnchor? := by
  refine follows_peek (fun t ht => ?_) ?_
  · split
    · rename_i x
      refine follows_advance.bind (fun _ _ => ?_) fun _ => .pure _
      exact .pure fun y hy => by cases hy; exact ht x rfl
    · exact .pure fun y hy => by cases hy
  · rcases p.ends with h | h <;> rw [h] <;> exact (Follows.pure fun y hy => by cases hy).atEnd

theorem follows_takeTag : Follows p (fun _ => True) id takeTag? takeTag? := by
  refine follows_peek (fun t _ => ?_) ?_
  · split
    · exact follows_advance.bind (fun _ _ => .pure trivial) fun _ => .pure _
    · exact .pure trivial
  · rcases p.ends with h | h <;> rw [h] <;> exact (Follows.pure trivial).atEnd

theorem follows_writtenProperties :
    Follows p (Known p) id writtenProperties writtenProperties := by
  refine follows_takeAnchor.bind (fun anchor hanchor => ?_) fun anchor => ?_
  · cases anchor with
    | some x => exact follows_takeTag.map (fun _ => rfl) fun _ _ => hanchor
    | none =>
      refine follows_takeTag.bind (fun tag _ => ?_) fun tag => ?_
      · cases tag with
        | some t => exact follows_takeAnchor.map (fun _ => rfl) fun _ h => h
        | none => exact .pure fun x hx => by cases hx
      · cases tag with
        | some t => exact shrinks_takeAnchor.map _
        | none => exact .pure _
  · cases anchor with
    | some x => exact shrinks_takeTag.map _
    | none =>
      refine shrinks_takeTag.bind fun tag => ?_
      cases tag with
      | some t => exact shrinks_takeAnchor.map _
      | none => exact .pure _

theorem get_bind {α : Type} (f : Composer → Compose α) (a : Composer) :
    (get >>= f) a = f a a := rfl

theorem follows_resolveTag (handle : Option String) (suffix : String) :
    Follows p (fun _ => True) id (resolveTag handle suffix) (resolveTag handle suffix) := by
  intro k a w r a' hnear hm _
  cases handle with
  | none =>
    cases hm
    exact ⟨w, rfl, hnear, trivial⟩
  | some h =>
    simp only [resolveTag, get_bind, hnear.handles.1, hnear.handles.2] at hm ⊢
    cases hstart : Table.get? usualHandles h with
    | none =>
      rw [hstart] at hm
      cases hm
    | some start =>
      rw [hstart] at hm
      cases hm
      exact ⟨w, rfl, hnear, trivial⟩

theorem follows_takeProperties :
    Follows p (Known p) id takeProperties takeProperties := by
  rw [takeProperties_eq]
  refine follows_writtenProperties.bind (fun r hr => ?_) shrinks_completed
  obtain ⟨anchor, _ | ⟨handle, suffix⟩⟩ := r
  · exact .pure hr
  · exact (follows_resolveTag handle suffix).map (fun _ => rfl) fun _ _ => hr

theorem follows_aliased (name : String) :
    Follows p (1 ≤ ·) (· + p.shift) (aliased name) (aliased name) := by
  refine follows_advance.bind (fun _ _ => ?_) fun _ => ?_
  · intro k a w r a' hnear hm _
    rw [get_bind] at hm ⊢
    cases hid : Table.get? a.anchors name with
    | none =>
      rw [hid] at hm
      cases hm
    | some id =>
      rw [hid] at hm
      cases hm
      obtain ⟨hlow, hw⟩ := hnear.anchors name r hid
      rw [hw]
      exact ⟨w, rfl, hnear, hlow⟩
  · refine shrinks_get.bind fun s => ?_
    split
    · exact .pure _
    · exact shrinks_refuse

/-! ## The end of the entries -/

theorem takeProperties_at_end {a a' : Composer} {r : Option String × Option String}
    (hend : a.tokens = [.blockEnd, .streamEnd]) (hm : takeProperties a = .ok (r, a')) :
    r = (none, none) ∧ a' = a := by
  have hanchor : takeAnchor? a = .ok (none, a) := by
    unfold takeAnchor?
    exact bind_eq_ok.mpr ⟨_, peek_of_cons hend, rfl⟩
  have htag : takeTag? a = .ok (none, a) := by
    unfold takeTag?
    exact bind_eq_ok.mpr ⟨_, peek_of_cons hend, rfl⟩
  have hwritten : takeProperties a = .ok ((none, none), a) := by
    rw [takeProperties_eq]
    refine bind_eq_ok.mpr ⟨((none, none), a), ?_, rfl⟩
    exact bind_eq_ok.mpr ⟨_, hanchor, bind_eq_ok.mpr ⟨_, htag, rfl⟩⟩
  rw [hwritten] at hm
  cases hm
  exact ⟨rfl, rfl⟩

theorem overruns_nodeFrom (block indentless : Bool) (fuel : Nat) :
    Overruns (nodeFrom block indentless fuel .blockEnd) := by
  intro a r a' hend hm
  obtain ⟨⟨q, a₁⟩, hproperties, hrun⟩ := bind_eq_ok.mp hm
  obtain ⟨rfl, rfl⟩ := takeProperties_at_end hend hproperties
  exact overruns_peek overruns_refuse hend hrun

theorem overruns_node (block indentless : Bool) (fuel : Nat) :
    Overruns (node block indentless fuel) := by
  cases fuel with
  | zero => exact overruns_refuse
  | succ fuel =>
    rw [node_succ]
    exact overruns_peek (overruns_nodeFrom block indentless fuel)

theorem overruns_itemsFrom (fuel : Nat) : Overruns (itemsFrom fuel .blockEnd) :=
  overruns_advance.bind fun _ => .pure _

theorem overruns_blockItems (fuel : Nat) : Overruns (blockItems fuel) := by
  cases fuel with
  | zero => exact overruns_refuse
  | succ fuel =>
    rw [blockItems_succ]
    exact overruns_peek (overruns_itemsFrom fuel)

theorem overruns_entriesFrom (fuel : Nat) : Overruns (entriesFrom fuel .blockEnd) :=
  overruns_advance.bind fun _ => .pure _

theorem overruns_separated (first : Bool) {m : Compose α} (h : Overruns m) :
    Overruns (separated first m) := by
  cases first with
  | true => exact h
  | false => exact overruns_peek overruns_refuse

theorem overruns_flowItemsFrom (first : Bool) (fuel : Nat) :
    Overruns (flowItemsFrom first fuel .blockEnd) :=
  overruns_separated first (overruns_peek ((overruns_node _ _ _).bind fun _ =>
    ((allShrink fuel).flowItems _).bind fun _ => .pure _))

theorem overruns_flowEntriesFrom (first : Bool) (fuel : Nat) :
    Overruns (flowEntriesFrom first fuel .blockEnd) :=
  overruns_separated first (overruns_peek ((overruns_node _ _ _).bind fun _ =>
    shrinks_empty.bind fun _ => ((allShrink fuel).flowEntries _).bind fun _ => .pure _))

/-! ## Nodes -/

/-- Every number is one of a node of the entries. -/
def Positive (items : List Nat) : Prop := ∀ j ∈ items, 1 ≤ j

def PositiveEntries (entries : List (Nat × Nat)) : Prop := ∀ e ∈ entries, 1 ≤ e.1 ∧ 1 ≤ e.2

theorem Positive.cons {item : Nat} {items : List Nat} (h : 1 ≤ item) (hs : Positive items) :
    Positive (item :: items) := by
  intro j hj
  rcases List.mem_cons.mp hj with rfl | hj
  · exact h
  · exact hs j hj

theorem PositiveEntries.cons {e : Nat × Nat} {entries : List (Nat × Nat)} (h : 1 ≤ e.1 ∧ 1 ≤ e.2)
    (hs : PositiveEntries entries) : PositiveEntries (e :: entries) := by
  intro j hj
  rcases List.mem_cons.mp hj with rfl | hj
  · exact h
  · exact hs j hj

theorem PositiveEntries.refs {entries : List (Nat × Nat)} (h : PositiveEntries entries) :
    ∀ j ∈ (Content.mapping entries).refs, 1 ≤ j := by
  intro j hj
  obtain ⟨e, he, hj⟩ := List.mem_flatMap.mp hj
  obtain ⟨hkey, hvalue⟩ := h e he
  rcases List.mem_cons.mp hj with rfl | hj
  · exact hkey
  · obtain rfl := List.mem_singleton.mp hj
    exact hvalue

/-- What is composed of the parts of a node follows in their place. -/
structure AllFollow (p : Site) (fuel fuel' : Nat) : Prop where
  node : ∀ block indentless, Follows p (1 ≤ ·) (· + p.shift) (node block indentless fuel)
    (node block indentless fuel')
  blockItems : Follows p Positive (List.map (· + p.shift)) (blockItems fuel) (blockItems fuel')
  indentlessItems : Follows p Positive (List.map (· + p.shift)) (indentlessItems fuel)
    (indentlessItems fuel')
  blockEntries : Follows p PositiveEntries (renumber (· + p.shift)) (blockEntries fuel)
    (blockEntries fuel')
  blockValue : Follows p (1 ≤ ·) (· + p.shift) (blockValue fuel) (blockValue fuel')
  flowItems : ∀ first, Follows p Positive (List.map (· + p.shift)) (flowItems first fuel)
    (flowItems first fuel')
  flowEntries : ∀ first, Follows p PositiveEntries (renumber (· + p.shift))
    (flowEntries first fuel) (flowEntries first fuel')
  flowValue : ∀ close, (Token.blockEnd == close) = false → Follows p (1 ≤ ·) (· + p.shift)
    (flowValue close fuel) (flowValue close fuel')

variable {fuel fuel' : Nat}

theorem follows_orEmpty (nothing : Bool) {m m' : Compose Nat}
    (h : Follows p (1 ≤ ·) (· + p.shift) m m') :
    Follows p (1 ≤ ·) (· + p.shift) (orEmpty nothing m) (orEmpty nothing m') := by
  cases nothing with
  | true => exact follows_empty
  | false => exact h

theorem nodeAt_of_end (block indentless : Bool) (fuel : Nat) (anchor tag : Option String) {t : Token}
    (ht : t = .key ∨ t = .blockEnd) : nodeAt block indentless fuel anchor tag t =
      if anchor.isSome || tag.isSome then scalar anchor (scalarTag tag true "") "" else refuse := by
  rcases ht with rfl | rfl <;> rfl

theorem follows_bare {anchor tag : Option String} (hnames : ∀ x ∈ anchor, x ∈ p.names) :
    Follows p (1 ≤ ·) (· + p.shift)
      (if anchor.isSome || tag.isSome then scalar anchor (scalarTag tag true "") "" else refuse)
      (if anchor.isSome || tag.isSome then scalar anchor (scalarTag tag true "") ""
        else refuse) := by
  split
  · exact follows_scalar hnames _ _
  · exact follows_refuse

theorem follows_sequence {m m' : Compose (List Nat)}
    (h : Follows p Positive (List.map (· + p.shift)) m m') :
    Follows p (fun c => ∀ j ∈ c.refs, 1 ≤ j) (Content.map (· + p.shift)) (Content.sequence <$> m)
      (Content.sequence <$> m') := h.map (fun _ => rfl) fun _ hpos => hpos

theorem follows_mapping {m m' : Compose (List (Nat × Nat))}
    (h : Follows p PositiveEntries (renumber (· + p.shift)) m m') :
    Follows p (fun c => ∀ j ∈ c.refs, 1 ≤ j) (Content.map (· + p.shift)) (Content.mapping <$> m)
      (Content.mapping <$> m') := h.map (fun _ => rfl) fun _ hpos => hpos.refs

theorem follows_nodeAt (h : AllFollow p fuel fuel') (block indentless : Bool)
    {anchor tag : Option String} (hnames : ∀ x ∈ anchor, x ∈ p.names) (t : Token) :
    Follows p (1 ≤ ·) (· + p.shift) (nodeAt block indentless fuel anchor tag t)
      (nodeAt block indentless fuel' anchor tag t) := by
  have hshrink := allShrink fuel
  unfold nodeAt
  split
  · exact follows_advance.bind (fun _ _ => follows_scalar hnames _ _) fun _ => shrinks_scalar _ _ _
  · exact follows_advance.bind
      (fun _ _ => follows_collect hnames (follows_sequence (h.flowItems true)))
      fun _ => shrinks_collect _ _ _ ((hshrink.flowItems true).map _)
  · exact follows_advance.bind
      (fun _ _ => follows_collect hnames (follows_mapping (h.flowEntries true)))
      fun _ => shrinks_collect _ _ _ ((hshrink.flowEntries true).map _)
  · split
    · exact follows_advance.bind
        (fun _ _ => follows_collect hnames (follows_sequence h.blockItems))
        fun _ => shrinks_collect _ _ _ (hshrink.blockItems.map _)
    · split
      · exact follows_advance.bind
          (fun _ _ => follows_collect hnames (follows_mapping h.blockEntries))
          fun _ => shrinks_collect _ _ _ (hshrink.blockEntries.map _)
      · split
        · exact follows_collect hnames (follows_sequence h.indentlessItems)
        · exact follows_bare hnames

theorem follows_nodeFrom (h : AllFollow p fuel fuel') (block indentless : Bool) (t : Token) :
    Follows p (1 ≤ ·) (· + p.shift) (nodeFrom block indentless fuel t)
      (nodeFrom block indentless fuel' t) := by
  unfold nodeFrom
  split
  · exact follows_aliased _
  · refine follows_takeProperties.bind (fun r hr => follows_peek
      (fun t _ => follows_nodeAt h _ _ hr t) ?_)
      fun r => shrinks_peek.bind (shrinks_nodeAt (allShrink fuel) _ _ _ _)
    rw [nodeAt_of_end _ _ _ _ _ (.inr rfl), nodeAt_of_end _ _ _ _ _ p.ends]
    exact (follows_bare hr).atEnd

theorem follows_node (h : AllFollow p fuel fuel') (block indentless : Bool) :
    Follows p (1 ≤ ·) (· + p.shift) (node block indentless (fuel + 1))
      (node block indentless (fuel' + 1)) := by
  rw [node_succ, node_succ]
  exact follows_peek (fun t _ => follows_nodeFrom h block indentless t)
    (overruns_nodeFrom block indentless fuel).followsAtEnd

theorem follows_cons {m m' : Compose (List Nat)} {item : Nat} (hitem : 1 ≤ item)
    (h : Follows p Positive (List.map (· + p.shift)) m m') :
    Follows p Positive (List.map (· + p.shift)) (m >>= fun items => pure (item :: items))
      (m' >>= fun items => pure ((item + p.shift) :: items)) :=
  h.bind (fun _ hs => .pure (Positive.cons hitem hs)) fun _ => .pure _

theorem follows_blockItems (h : AllFollow p fuel fuel') :
    Follows p Positive (List.map (· + p.shift)) (blockItems (fuel + 1))
      (blockItems (fuel' + 1)) := by
  have hshrink := allShrink fuel
  rw [blockItems_succ, blockItems_succ]
  refine follows_peek (fun t _ => ?_) (overruns_itemsFrom fuel).followsAtEnd
  unfold itemsFrom
  split
  · refine follows_advance.bind (fun _ _ => follows_peek (fun t _ => ?_) ?_) fun _ =>
      shrinks_peek.bind fun t => (shrinks_orEmpty _ (hshrink.node _ _)).bind fun _ =>
        hshrink.blockItems.bind fun _ => .pure _
    · exact (follows_orEmpty _ (h.node _ _)).bind (fun item hitem => follows_cons hitem h.blockItems)
        fun _ => hshrink.blockItems.bind fun _ => .pure _
    · refine (stays_empty.overruns_bind fun item => ?_).followsAtEnd
      exact (overruns_blockItems fuel).bind fun _ => .pure _
  · exact follows_advance.bind (fun _ _ => .pure fun j hj => by cases hj) fun _ => .pure _
  · exact follows_refuse

theorem follows_indentlessItems (h : AllFollow p fuel fuel') :
    Follows p Positive (List.map (· + p.shift)) (indentlessItems (fuel + 1))
      (indentlessItems (fuel' + 1)) := by
  have hshrink := allShrink fuel
  have hnone : Follows p Positive (List.map (· + p.shift)) (pure []) (pure []) :=
    .pure fun j hj => by cases hj
  have hitem (nothing : Bool) : Follows p Positive (List.map (· + p.shift))
      (orEmpty nothing (node true false fuel) >>= fun item =>
        indentlessItems fuel >>= fun items => pure (item :: items))
      (orEmpty nothing (node true false fuel') >>= fun item =>
        indentlessItems fuel' >>= fun items => pure (item :: items)) :=
    (follows_orEmpty _ (h.node _ _)).bind
      (fun item hitem => follows_cons hitem h.indentlessItems)
      fun _ => hshrink.indentlessItems.bind fun _ => .pure _
  rw [indentlessItems_succ, indentlessItems_succ]
  refine follows_peek (fun t _ => ?_) ?_
  · unfold indentlessFrom
    split
    · refine follows_advance.bind (fun _ _ => follows_peek (fun t _ => hitem _) ?_) fun _ =>
        shrinks_peek.bind fun t => (shrinks_orEmpty _ (hshrink.node _ _)).bind fun _ =>
          hshrink.indentlessItems.bind fun _ => .pure _
      rcases p.ends with hnext | hnext <;> rw [hnext] <;> exact (hitem true).atEnd
    · exact hnone
  · rcases p.ends with hnext | hnext <;> rw [hnext] <;> exact hnone.atEnd

theorem follows_blockEntry (h : AllFollow p fuel fuel') :
    Follows p (fun e => 1 ≤ e.1 ∧ 1 ≤ e.2) (fun e => (e.1 + p.shift, e.2 + p.shift))
      (blockEntry fuel) (blockEntry fuel') := by
  have hshrink := allShrink fuel
  have hentry (nothing : Bool) : Follows p (fun e => 1 ≤ e.1 ∧ 1 ≤ e.2)
      (fun e => (e.1 + p.shift, e.2 + p.shift))
      (orEmpty nothing (node true true fuel) >>= fun key =>
        blockValue fuel >>= fun value => pure (key, value))
      (orEmpty nothing (node true true fuel') >>= fun key =>
        blockValue fuel' >>= fun value => pure (key, value)) :=
    (follows_orEmpty _ (h.node _ _)).bind
      (fun key hkey => h.blockValue.bind
        (fun value hvalue => .pure (r := (key, value)) ⟨hkey, hvalue⟩) fun _ => .pure _)
      fun _ => hshrink.blockValue.bind fun _ => .pure _
  refine follows_advance.bind (fun _ _ => follows_peek (fun t _ => hentry _) ?_) fun _ =>
    shrinks_peek.bind fun t => (shrinks_orEmpty _ (hshrink.node _ _)).bind fun _ =>
      hshrink.blockValue.bind fun _ => .pure _
  rcases p.ends with hnext | hnext <;> rw [hnext] <;> exact (hentry true).atEnd

theorem follows_consEntry {m m' : Compose (List (Nat × Nat))} {e : Nat × Nat}
    (he : 1 ≤ e.1 ∧ 1 ≤ e.2) (h : Follows p PositiveEntries (renumber (· + p.shift)) m m') :
    Follows p PositiveEntries (renumber (· + p.shift)) (m >>= fun es => pure (e :: es))
      (m' >>= fun es => pure ((e.1 + p.shift, e.2 + p.shift) :: es)) :=
  h.bind (fun _ hs => .pure (PositiveEntries.cons he hs)) fun _ => .pure _

theorem follows_blockEntries (h : AllFollow p fuel fuel') :
    Follows p PositiveEntries (renumber (· + p.shift)) (blockEntries (fuel + 1))
      (blockEntries (fuel' + 1)) := by
  have hshrink := allShrink fuel
  rw [blockEntries_succ, blockEntries_succ]
  refine follows_peek (fun t _ => ?_) (overruns_entriesFrom fuel).followsAtEnd
  unfold entriesFrom
  split
  · exact follows_advance.bind (fun _ _ => .pure fun e he => by cases he) fun _ => .pure _
  · exact (follows_blockEntry h).bind (fun e he => follows_consEntry he h.blockEntries)
      fun _ => hshrink.blockEntries.bind fun _ => .pure _
  · exact follows_refuse

theorem follows_blockValue (h : AllFollow p fuel fuel') :
    Follows p (1 ≤ ·) (· + p.shift) (blockValue (fuel + 1)) (blockValue (fuel' + 1)) := by
  have hshrink := allShrink fuel
  have hvalue (nothing : Bool) := follows_orEmpty nothing (h.node true true)
  rw [blockValue_succ, blockValue_succ]
  refine follows_peek (fun t _ => ?_) ?_
  · unfold valueFrom
    split
    · refine follows_advance.bind (fun _ _ => follows_peek (fun t _ => hvalue _) ?_) fun _ =>
        shrinks_peek.bind fun t => shrinks_orEmpty _ (hshrink.node _ _)
      rcases p.ends with hnext | hnext <;> rw [hnext] <;> exact (hvalue true).atEnd
    · exact follows_empty
  · rcases p.ends with hnext | hnext <;> rw [hnext] <;> exact follows_empty.atEnd

theorem follows_separated {inv : α → Prop} {φ : α → β} (first : Bool) {m : Compose α}
    {m' : Compose β} (h : Follows p inv φ m m') (hs : Shrinks m) :
    Follows p inv φ (separated first m) (separated first m') := by
  cases first with
  | true => exact h
  | false =>
    refine follows_peek (fun t _ => ?_) overruns_refuse.followsAtEnd
    split
    · exact follows_advance.bind (fun _ _ => h) fun _ => hs
    · exact follows_refuse

theorem follows_flowKey (h : AllFollow p fuel fuel') {close : Token}
    (hclose : (Token.blockEnd == close) = false) :
    Follows p (1 ≤ ·) (· + p.shift) (flowKey close fuel) (flowKey close fuel') := by
  refine follows_peek (fun t _ => follows_orEmpty _ (h.node _ _)) ?_
  have hends : (Token.blockEnd == .value || endsFlowPart close .blockEnd) = false := by
    unfold endsFlowPart
    rw [hclose]
    rfl
  rw [hends]
  exact (overruns_node false false fuel).followsAtEnd

theorem follows_flowValue (h : AllFollow p fuel fuel') {close : Token}
    (hclose : (Token.blockEnd == close) = false) :
    Follows p (1 ≤ ·) (· + p.shift) (flowValue close (fuel + 1)) (flowValue close (fuel' + 1)) := by
  have hshrink := allShrink fuel
  rw [flowValue_succ, flowValue_succ]
  refine follows_peek (fun t _ => ?_) ?_
  · unfold flowValueFrom
    split
    · refine follows_advance.bind (fun _ _ => follows_peek
        (fun t _ => follows_orEmpty _ (h.node _ _)) ?_) fun _ =>
        shrinks_peek.bind fun t => shrinks_orEmpty _ (hshrink.node _ _)
      have hends : endsFlowPart close .blockEnd = false := by
        unfold endsFlowPart
        rw [hclose]
        rfl
      rw [hends]
      exact (overruns_node false false fuel).followsAtEnd
    · exact follows_empty
  · rcases p.ends with hnext | hnext <;> rw [hnext] <;> exact follows_empty.atEnd

theorem follows_flowItemFrom (h : AllFollow p fuel fuel') (t : Token) :
    Follows p Positive (List.map (· + p.shift)) (flowItemFrom fuel t) (flowItemFrom fuel' t) := by
  have hshrink := allShrink fuel
  unfold flowItemFrom
  split
  · have hentry : Follows p (fun c => ∀ j ∈ c.refs, 1 ≤ j) (Content.map (· + p.shift))
        (flowKey .flowSequenceEnd fuel >>= fun key => flowValue .flowSequenceEnd fuel >>=
          fun value => pure (.mapping [(key, value)]))
        (flowKey .flowSequenceEnd fuel' >>= fun key => flowValue .flowSequenceEnd fuel' >>=
          fun value => pure (.mapping [(key, value)])) :=
      (follows_flowKey h rfl).bind
        (fun key hkey => (h.flowValue _ rfl).bind
          (fun value hvalue => .pure (r := Content.mapping [(key, value)])
            (PositiveEntries.refs fun e he => by
              obtain rfl := List.mem_singleton.mp he
              exact ⟨hkey, hvalue⟩)) fun _ => .pure _)
        fun _ => (hshrink.flowValue _).bind fun _ => .pure _
    refine follows_advance.bind (fun _ _ => ?_) fun _ => ?_
    · exact (follows_collect (fun x hx => by cases hx) hentry).bind
        (fun id hid => follows_cons hid (h.flowItems false))
        fun _ => (hshrink.flowItems _).bind fun _ => .pure _
    · refine (shrinks_collect _ _ _ ?_).bind fun _ => (hshrink.flowItems _).bind fun _ => .pure _
      exact (shrinks_flowKey hshrink _).bind fun _ => (hshrink.flowValue _).bind fun _ => .pure _
  · exact follows_advance.bind (fun _ _ => .pure fun j hj => by cases hj) fun _ => .pure _
  · exact (h.node _ _).bind (fun item hitem => follows_cons hitem (h.flowItems false))
      fun _ => (hshrink.flowItems _).bind fun _ => .pure _

theorem follows_flowItems (h : AllFollow p fuel fuel') (first : Bool) :
    Follows p Positive (List.map (· + p.shift)) (flowItems first (fuel + 1))
      (flowItems first (fuel' + 1)) := by
  have hshrink := allShrink fuel
  rw [flowItems_succ, flowItems_succ]
  refine follows_peek (fun t _ => ?_) (overruns_flowItemsFrom first fuel).followsAtEnd
  unfold flowItemsFrom
  split
  · exact follows_advance.bind (fun _ _ => .pure fun j hj => by cases hj) fun _ => .pure _
  · refine follows_separated first (follows_peek (fun t _ => follows_flowItemFrom h t) ?_)
      (shrinks_peek.bind (shrinks_flowItemFrom hshrink))
    exact ((overruns_node _ _ _).bind fun _ =>
      (hshrink.flowItems _).bind fun _ => .pure _).followsAtEnd

theorem follows_flowEntryFrom (h : AllFollow p fuel fuel') (t : Token) :
    Follows p PositiveEntries (renumber (· + p.shift)) (flowEntryFrom fuel t)
      (flowEntryFrom fuel' t) := by
  have hshrink := allShrink fuel
  unfold flowEntryFrom
  split
  · refine follows_advance.bind (fun _ _ => (follows_flowKey h rfl).bind
      (fun key hkey => (h.flowValue _ rfl).bind
        (fun value hvalue => follows_consEntry (e := (key, value)) ⟨hkey, hvalue⟩
          (h.flowEntries false)) fun _ => (hshrink.flowEntries _).bind fun _ => .pure _)
      fun _ => (hshrink.flowValue _).bind fun _ => (hshrink.flowEntries _).bind fun _ => .pure _)
      fun _ => (shrinks_flowKey hshrink _).bind fun _ => (hshrink.flowValue _).bind fun _ =>
        (hshrink.flowEntries _).bind fun _ => .pure _
  · exact follows_advance.bind (fun _ _ => .pure fun j hj => by cases hj) fun _ => .pure _
  · exact (h.node _ _).bind
      (fun key hkey => follows_empty.bind
        (fun value hvalue => follows_consEntry (e := (key, value)) ⟨hkey, hvalue⟩
          (h.flowEntries false)) fun _ => (hshrink.flowEntries _).bind fun _ => .pure _)
      fun _ => shrinks_empty.bind fun _ => (hshrink.flowEntries _).bind fun _ => .pure _

theorem follows_flowEntries (h : AllFollow p fuel fuel') (first : Bool) :
    Follows p PositiveEntries (renumber (· + p.shift)) (flowEntries first (fuel + 1))
      (flowEntries first (fuel' + 1)) := by
  have hshrink := allShrink fuel
  rw [flowEntries_succ, flowEntries_succ]
  refine follows_peek (fun t _ => ?_) (overruns_flowEntriesFrom first fuel).followsAtEnd
  unfold flowEntriesFrom
  split
  · exact follows_advance.bind (fun _ _ => .pure fun j hj => by cases hj) fun _ => .pure _
  · refine follows_separated first (follows_peek (fun t _ => follows_flowEntryFrom h t) ?_)
      (shrinks_peek.bind (shrinks_flowEntryFrom hshrink))
    exact ((overruns_node _ _ _).bind fun _ => shrinks_empty.bind fun _ =>
      (hshrink.flowEntries _).bind fun _ => .pure _).followsAtEnd

/-- All parts of a node follow, with at least as much fuel. -/
theorem allFollow (p : Site) {fuel fuel' : Nat} (hfuel : fuel ≤ fuel') :
    AllFollow p fuel fuel' := by
  induction fuel generalizing fuel' with
  | zero =>
    exact ⟨fun _ _ => follows_refuse, follows_refuse, follows_refuse, follows_refuse,
      follows_refuse, fun _ => follows_refuse, fun _ => follows_refuse,
      fun _ _ => follows_refuse⟩
  | succ fuel ih =>
    obtain ⟨fuel', rfl⟩ : ∃ n, fuel' = n + 1 := ⟨fuel' - 1, by omega⟩
    have h := ih (Nat.le_of_succ_le_succ hfuel)
    exact ⟨follows_node h, follows_blockItems h, follows_indentlessItems h, follows_blockEntries h,
      follows_blockValue h, follows_flowItems h, follows_flowEntries h,
      fun close hclose => follows_flowValue h hclose⟩

end Compose
end PubspecTidy.Yaml
