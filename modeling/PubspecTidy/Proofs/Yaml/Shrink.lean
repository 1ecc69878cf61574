import PubspecTidy.Proofs.Outcome
import PubspecTidy.Yaml.Node

/-!
# The steps of composing a node

Each part of a node is composed by looking at the next token, by taking tokens, and by composing
other parts. Main statement: no part gives tokens back.
-/
namespace PubspecTidy.Yaml.Compose

/-! ## Steps -/

/-- An empty scalar where nothing is written, or else what is. -/
def orEmpty (nothing : Bool) (m : Compose Nat) : Compose Nat := if nothing then empty else m

/-- A collection with an anchor. -/
def collect (anchor tag : Option String) (usual : Tag) (content : Compose Content) : Compose Nat :=
  reserve anchor >>= fun id => content >>= fun c =>
    define id ⟨collectionTag tag usual, c⟩ >>= fun _ => pure id

/-- A node behind its properties, by the next token. -/
def nodeAt (block indentless : Bool) (fuel : Nat) (anchor tag : Option String) : Token → Compose Nat
  | .scalar text plain => advance >>= fun _ => scalar anchor (scalarTag tag plain text) text
  | .flowSequenceStart => advance >>= fun _ =>
    collect anchor tag .sequence (Content.sequence <$> flowItems true fuel)
  | .flowMappingStart => advance >>= fun _ =>
    collect anchor tag .mapping (Content.mapping <$> flowEntries true fuel)
  | t =>
    if t == .blockSequenceStart && block then advance >>= fun _ =>
      collect anchor tag .sequence (Content.sequence <$> blockItems fuel)
    else if t == .blockMappingStart && block then advance >>= fun _ =>
      collect anchor tag .mapping (Content.mapping <$> blockEntries fuel)
    else if t == .blockEntry && indentless then
      collect anchor tag .sequence (Content.sequence <$> indentlessItems fuel)
    else if anchor.isSome || tag.isSome then scalar anchor (scalarTag tag true "") ""
    else refuse

/-- The node that an alias stands for. -/
def aliased (name : String) : Compose Nat :=
  advance >>= fun _ => get >>= fun s =>
    match Table.get? s.anchors name with
    | some id => pure id
    | none => refuse

/-- A node by its first token. -/
def nodeFrom (block indentless : Bool) (fuel : Nat) : Token → Compose Nat
  | .alias name => aliased name
  | _ => takeProperties >>= fun p => peek >>= nodeAt block indentless fuel p.1 p.2

theorem node_succ (block indentless : Bool) (fuel : Nat) :
    node block indentless (fuel + 1) = peek >>= nodeFrom block indentless fuel := by
  unfold node
  refine congrArg (peek >>= ·) (funext fun t => ?_)
  cases t <;> rfl

/-- The items of a block sequence from a token on. -/
def itemsFrom (fuel : Nat) : Token → Compose (List Nat)
  | .blockEntry => advance >>= fun _ => peek >>= fun t =>
    orEmpty (endsItem t) (node true false fuel) >>= fun item =>
      blockItems fuel >>= fun items => pure (item :: items)
  | .blockEnd => advance >>= fun _ => pure []
  | _ => refuse

theorem blockItems_succ (fuel : Nat) : blockItems (fuel + 1) = peek >>= itemsFrom fuel := by
  unfold blockItems
  refine congrArg (peek >>= ·) (funext fun t => ?_)
  cases t <;> try rfl
  refine congrArg (advance >>= ·) (funext fun _ => congrArg (peek >>= ·) (funext fun t => ?_))
  dsimp only
  unfold orEmpty
  cases endsItem t <;> rfl

def indentlessFrom (fuel : Nat) : Token → Compose (List Nat)
  | .blockEntry => advance >>= fun _ => peek >>= fun t =>
    orEmpty (endsIndentlessItem t) (node true false fuel) >>= fun item =>
      indentlessItems fuel >>= fun items => pure (item :: items)
  | _ => pure []

theorem indentlessItems_succ (fuel : Nat) :
    indentlessItems (fuel + 1) = peek >>= indentlessFrom fuel := by
  unfold indentlessItems
  refine congrArg (peek >>= ·) (funext fun t => ?_)
  cases t <;> try rfl
  refine congrArg (advance >>= ·) (funext fun _ => congrArg (peek >>= ·) (funext fun t => ?_))
  dsimp only
  unfold orEmpty
  cases endsIndentlessItem t <;> rfl

/-- The key and the value of an entry of a block mapping. -/
def blockEntry (fuel : Nat) : Compose (Nat × Nat) :=
  advance >>= fun _ => peek >>= fun t =>
    orEmpty (endsBlockPart t) (node true true fuel) >>= fun key =>
      blockValue fuel >>= fun value => pure (key, value)

def entriesFrom (fuel : Nat) : Token → Compose (List (Nat × Nat))
  | .blockEnd => advance >>= fun _ => pure []
  | .key => blockEntry fuel >>= fun e => blockEntries fuel >>= fun es => pure (e :: es)
  | _ => refuse

theorem blockEntries_succ (fuel : Nat) : blockEntries (fuel + 1) = peek >>= entriesFrom fuel := by
  unfold blockEntries
  refine congrArg (peek >>= ·) (funext fun t => ?_)
  cases t <;> try rfl
  change (advance >>= _) = (advance >>= _) >>= _
  rw [bind_assoc]
  refine congrArg (advance >>= ·) (funext fun _ => ?_)
  rw [bind_assoc]
  refine congrArg (peek >>= ·) (funext fun t => ?_)
  dsimp only
  unfold orEmpty
  cases endsBlockPart t <;> simp

def valueFrom (fuel : Nat) : Token → Compose Nat
  | .value => advance >>= fun _ => peek >>= fun t =>
    orEmpty (endsBlockPart t) (node true true fuel)
  | _ => empty

theorem blockValue_succ (fuel : Nat) : blockValue (fuel + 1) = peek >>= valueFrom fuel := by
  unfold blockValue
  refine congrArg (peek >>= ·) (funext fun t => ?_)
  cases t <;> rfl

/-- What comes first in a flow collection, or else behind a comma. -/
def separated {α : Type} (first : Bool) (m : Compose α) : Compose α :=
  if first then m
  else peek >>= fun t => if t == .flowEntry then advance >>= fun _ => m else refuse

/-- The key of an entry of a flow collection with a key token. -/
def flowKey (close : Token) (fuel : Nat) : Compose Nat :=
  peek >>= fun t => orEmpty (t == .value || endsFlowPart close t) (node false false fuel)

def flowItemFrom (fuel : Nat) : Token → Compose (List Nat)
  | .key => advance >>= fun _ =>
    collect none none .mapping (flowKey .flowSequenceEnd fuel >>= fun key =>
      flowValue .flowSequenceEnd fuel >>= fun value => pure (.mapping [(key, value)])) >>= fun id =>
        flowItems false fuel >>= fun items => pure (id :: items)
  | .flowSequenceEnd => advance >>= fun _ => pure []
  | _ => node false false fuel >>= fun item =>
    flowItems false fuel >>= fun items => pure (item :: items)

def flowItemsFrom (first : Bool) (fuel : Nat) : Token → Compose (List Nat)
  | .flowSequenceEnd => advance >>= fun _ => pure []
  | _ => separated first (peek >>= flowItemFrom fuel)

theorem run_bind_of_ok {α β : Type} {m : Compose α} {s t : Composer} {a : α}
    (h : m s = .ok (a, t)) (f : α → Compose β) : (m >>= f) s = f a t := by
  change (m s >>= fun r => f r.1 r.2) = _
  rw [h]
  rfl

theorem peek_of_cons {s : Composer} {t : Token} {ts : List Token} (h : s.tokens = t :: ts) :
    peek s = .ok (t, s) := by
  simp only [peek, bind, StateT.bind, get, getThe, MonadStateOf.get, StateT.get, pure, Except.pure,
    Except.bind, h]
  rfl

theorem peek_peek {α : Type} (f : Token → Token → Compose α) :
    (peek >>= fun t => peek >>= f t) = peek >>= fun t => f t t := by
  funext s
  rcases hs : s.tokens with _ | ⟨t, ts⟩
  · simp only [bind, StateT.bind, peek, get, getThe, MonadStateOf.get, StateT.get, pure,
      Except.pure, Except.bind, hs]
    rfl
  · have hpeek := peek_of_cons hs
    rw [run_bind_of_ok hpeek, run_bind_of_ok hpeek, run_bind_of_ok hpeek]

theorem flowItemsFrom_of_ne (first : Bool) (fuel : Nat) {t : Token}
    (h : (t == .flowSequenceEnd) = false) :
    flowItemsFrom first fuel t = separated first (peek >>= flowItemFrom fuel) := by
  cases t <;> first | rfl | cases h

theorem flowItem_eq (fuel : Nat) :
    (do
      let t ← peek
      if t == .key then
        advance
        let id ← reserve none
        let key ←
          if (← peek) == .value || endsFlowPart .flowSequenceEnd (← peek) then empty
          else node false false fuel
        let value ← flowValue .flowSequenceEnd fuel
        define id ⟨.mapping, .mapping [(key, value)]⟩
        return id :: (← flowItems false fuel)
      else if t == .flowSequenceEnd then
        advance
        return []
      else
        let item ← node false false fuel
        return item :: (← flowItems false fuel)) = peek >>= flowItemFrom fuel := by
  refine congrArg (peek >>= ·) (funext fun t => ?_)
  cases t <;> try rfl
  change (advance >>= fun _ => reserve none >>= fun id => peek >>= fun t => peek >>= fun t' => _) = _
  refine congrArg (advance >>= ·) (funext fun _ => ?_)
  unfold collect
  rw [bind_assoc]
  refine congrArg (reserve none >>= ·) (funext fun id => ?_)
  rw [peek_peek]
  unfold flowKey
  simp only [bind_assoc, pure_bind]
  refine congrArg (peek >>= ·) (funext fun t => ?_)
  unfold orEmpty
  split <;> rfl

theorem flowItems_succ (first : Bool) (fuel : Nat) :
    flowItems first (fuel + 1) = peek >>= flowItemsFrom first fuel := by
  unfold flowItems
  refine congrArg (peek >>= ·) (funext fun t => ?_)
  cases hend : t == .flowSequenceEnd with
  | true =>
    obtain rfl : t = .flowSequenceEnd := by simpa using hend
    rfl
  | false =>
    rw [flowItemsFrom_of_ne first fuel hend, ← flowItem_eq]
    cases first with
    | true => rfl
    | false =>
      refine congrArg (peek >>= ·) (funext fun t => ?_)
      cases t <;> rfl

def flowEntryFrom (fuel : Nat) : Token → Compose (List (Nat × Nat))
  | .key => advance >>= fun _ => flowKey .flowMappingEnd fuel >>= fun key =>
    flowValue .flowMappingEnd fuel >>= fun value =>
      flowEntries false fuel >>= fun es => pure ((key, value) :: es)
  | .flowMappingEnd => advance >>= fun _ => pure []
  | _ => node false false fuel >>= fun key => empty >>= fun value =>
    flowEntries false fuel >>= fun es => pure ((key, value) :: es)

def flowEntriesFrom (first : Bool) (fuel : Nat) : Token → Compose (List (Nat × Nat))
  | .flowMappingEnd => advance >>= fun _ => pure []
  | _ => separated first (peek >>= flowEntryFrom fuel)

theorem flowEntriesFrom_of_ne (first : Bool) (fuel : Nat) {t : Token}
    (h : (t == .flowMappingEnd) = false) :
    flowEntriesFrom first fuel t = separated first (peek >>= flowEntryFrom fuel) := by
  cases t <;> first | rfl | cases h

theorem flowEntry_eq (fuel : Nat) :
    (do
      let t ← peek
      if t == .key then
        advance
        let key ←
          if (← peek) == .value || endsFlowPart .flowMappingEnd (← peek) then empty
          else node false false fuel
        let value ← flowValue .flowMappingEnd fuel
        return (key, value) :: (← flowEntries false fuel)
      else if t == .flowMappingEnd then
        advance
        return []
      else
        let key ← node false false fuel
        let value ← empty
        return (key, value) :: (← flowEntries false fuel)) = peek >>= flowEntryFrom fuel := by
  refine congrArg (peek >>= ·) (funext fun t => ?_)
  cases t <;> try rfl
  change (advance >>= fun _ => peek >>= fun t => peek >>= fun t' => _) = _
  refine congrArg (advance >>= ·) (funext fun _ => ?_)
  rw [peek_peek]
  unfold flowKey
  rw [bind_assoc]
  refine congrArg (peek >>= ·) (funext fun t => ?_)
  unfold orEmpty
  split <;> rfl

theorem flowEntries_succ (first : Bool) (fuel : Nat) :
    flowEntries first (fuel + 1) = peek >>= flowEntriesFrom first fuel := by
  unfold flowEntries
  refine congrArg (peek >>= ·) (funext fun t => ?_)
  cases hend : t == .flowMappingEnd with
  | true =>
    obtain rfl : t = .flowMappingEnd := by simpa using hend
    rfl
  | false =>
    rw [flowEntriesFrom_of_ne first fuel hend, ← flowEntry_eq]
    cases first with
    | true => rfl
    | false =>
      refine congrArg (peek >>= ·) (funext fun t => ?_)
      cases t <;> rfl

def flowValueFrom (close : Token) (fuel : Nat) : Token → Compose Nat
  | .value => advance >>= fun _ => peek >>= fun t =>
    orEmpty (endsFlowPart close t) (node false false fuel)
  | _ => empty

theorem flowValue_succ (close : Token) (fuel : Nat) :
    flowValue close (fuel + 1) = peek >>= flowValueFrom close fuel := by
  unfold flowValue
  refine congrArg (peek >>= ·) (funext fun t => ?_)
  cases t <;> rfl

/-- An anchor and a tag, in either order, as they are written. -/
def writtenProperties : Compose (Option String × Option (Option String × String)) :=
  takeAnchor? >>= fun
    | some a => (some a, ·) <$> takeTag?
    | none => takeTag? >>= fun
      | some t => (·, some t) <$> takeAnchor?
      | none => pure (none, none)

/-- An anchor and a tag with the tag completed. -/
def completed : Option String × Option (Option String × String) →
    Compose (Option String × Option String)
  | (anchor, some (handle, suffix)) => (fun tag => (anchor, some tag)) <$> resolveTag handle suffix
  | (anchor, none) => pure (anchor, none)

theorem completed_eq (p : Option String × Option (Option String × String)) :
    (match p with
    | (anchor, tag) =>
      match tag with
      | some (handle, suffix) => do
        return (anchor, some (← resolveTag handle suffix))
      | none => (pure (anchor, none) : Compose (Option String × Option String))) =
      completed p := by
  obtain ⟨anchor, _ | ⟨handle, suffix⟩⟩ := p
  · rfl
  · exact (map_eq_pure_bind _ _).symm

theorem takeProperties_eq : takeProperties = writtenProperties >>= completed := by
  unfold takeProperties writtenProperties
  rw [bind_assoc]
  refine congrArg (takeAnchor? >>= ·) (funext fun anchor => ?_)
  cases anchor with
  | some a =>
    dsimp only
    rw [map_eq_pure_bind, bind_assoc]
    refine congrArg (takeTag? >>= ·) (funext fun tag => ?_)
    exact completed_eq (some a, tag)
  | none =>
    dsimp only
    rw [bind_assoc]
    refine congrArg (takeTag? >>= ·) (funext fun tag => ?_)
    cases tag with
    | some t =>
      dsimp only
      rw [map_eq_pure_bind, bind_assoc]
      refine congrArg (takeAnchor? >>= ·) (funext fun anchor => ?_)
      exact completed_eq (anchor, some t)
    | none => exact completed_eq (none, none)

/-! ## Tokens taken -/

theorem run_bind_eq_ok {α β : Type} {m : Compose α} {f : α → Compose β} {s t : Composer} {b : β} :
    (m >>= f) s = .ok (b, t) ↔ ∃ a u, m s = .ok (a, u) ∧ f a u = .ok (b, t) := by
  refine ⟨fun h => ?_, fun ⟨a, u, h, hf⟩ => bind_eq_ok.mpr ⟨(a, u), h, hf⟩⟩
  obtain ⟨⟨a, u⟩, h, hf⟩ := bind_eq_ok.mp h
  exact ⟨a, u, h, hf⟩

theorem run_bind_pure {α β : Type} (m : Compose α) (f : α → β) (s : Composer) :
    (m >>= fun a => pure (f a)) s = (fun r => (f r.1, r.2)) <$> m s := by
  change (m s >>= fun r => pure (f r.1, r.2)) = _
  cases m s <;> rfl

theorem run_bind_eq {α β : Type} (m : Compose α) (f : α → Compose β) (s : Composer) :
    (m >>= f) s = m s >>= fun r => f r.1 r.2 := rfl

/-- Takes tokens, if any, and gives none back. -/
def Shrinks {α : Type} (m : Compose α) : Prop :=
  ∀ ⦃s a t⦄, m s = .ok (a, t) → t.tokens <:+ s.tokens

theorem Shrinks.pure {α : Type} (a : α) : Shrinks (pure a) := by
  intro s b t h
  cases h
  exact List.suffix_refl _

theorem Shrinks.bind {α β : Type} {m : Compose α} {f : α → Compose β} (h : Shrinks m)
    (hf : ∀ a, Shrinks (f a)) : Shrinks (m >>= f) := by
  intro s b t hm
  obtain ⟨⟨a, u⟩, hu, ht⟩ := bind_eq_ok.mp hm
  exact (hf a ht).trans (h hu)

theorem Shrinks.map {α β : Type} {m : Compose α} (h : Shrinks m) (f : α → β) :
    Shrinks (f <$> m) := by
  rw [map_eq_pure_bind]
  exact h.bind fun a => .pure _

theorem Shrinks.ite {α : Type} {c : Prop} [Decidable c] {m m' : Compose α} (h : Shrinks m)
    (h' : Shrinks m') : Shrinks (if c then m else m') := by
  split
  · exact h
  · exact h'

theorem shrinks_refuse {α : Type} : Shrinks (refuse : Compose α) := by
  intro s a t h
  cases h

theorem shrinks_get : Shrinks (get : Compose Composer) := by
  intro s a t h
  cases h
  exact List.suffix_refl _

theorem peek_eq_ok {s s' : Composer} {t : Token} :
    peek s = .ok (t, s') ↔ s' = s ∧ ∃ ts, s.tokens = t :: ts := by
  rcases hs : s.tokens with _ | ⟨u, us⟩
  · simp [peek, bind, StateT.bind, get, getThe, MonadStateOf.get, StateT.get, pure, Except.pure,
      Except.bind, hs, throw, throwThe, MonadExceptOf.throw, StateT.lift]
  · rw [peek_of_cons hs]
    refine ⟨fun h => ?_, fun ⟨h, ts, hts⟩ => ?_⟩
    · cases h
      exact ⟨rfl, us, rfl⟩
    · rw [h, (List.cons.inj hts).1]

theorem shrinks_peek : Shrinks peek := by
  intro s a t h
  obtain ⟨rfl, -⟩ := (peek_eq_ok).mp h
  exact List.suffix_refl _

theorem shrinks_advance : Shrinks advance := by
  intro s a t h
  cases h
  exact List.drop_suffix 1 s.tokens

theorem reserve_eq_ok {anchor : Option String} {s s' : Composer} {id : Nat} :
    reserve anchor s = .ok (id, s') ↔ id = s.count ∧
      (∀ a ∈ anchor, Table.has s.anchors a = false) ∧
      s' = { s with
        count := s.count + 1
        anchors := anchor.elim s.anchors fun a => Table.put s.anchors a s.count } := by
  cases anchor with
  | none =>
    refine ⟨fun h => ?_, fun ⟨hid, _, hs⟩ => ?_⟩
    · cases h
      exact ⟨rfl, fun a ha => by simp at ha, rfl⟩
    · subst hid hs
      rfl
  | some a =>
    unfold reserve
    simp only [bind, StateT.bind, get, getThe, MonadStateOf.get, StateT.get, Except.bind,
      Except.pure, pure]
    cases hfree : Table.has s.anchors a with
    | true =>
      refine ⟨fun h => ?_, fun ⟨_, hno, _⟩ => absurd (hno a rfl) (by simp [hfree])⟩
      simp only [if_true] at h
      cases h
    | false =>
      refine ⟨fun h => ?_, fun ⟨hid, _, hs⟩ => ?_⟩
      · cases h
        refine ⟨rfl, fun b hb => ?_, rfl⟩
        cases hb
        exact hfree
      · subst hid hs
        rfl

theorem shrinks_reserve (anchor : Option String) : Shrinks (reserve anchor) := by
  intro s a t h
  obtain ⟨-, -, rfl⟩ := (reserve_eq_ok).mp h
  exact List.suffix_refl _

theorem shrinks_define (id : Nat) (node : Node) : Shrinks (define id node) := by
  intro s a t h
  cases h
  exact List.suffix_refl _

theorem shrinks_scalar (anchor : Option String) (tag : Tag) (text : String) :
    Shrinks (scalar anchor tag text) :=
  (shrinks_reserve anchor).bind fun id => (shrinks_define id _).bind fun _ => .pure id

theorem shrinks_empty : Shrinks empty := shrinks_scalar none .null ""

theorem shrinks_takeTag : Shrinks takeTag? := by
  refine shrinks_peek.bind fun t => ?_
  split
  · exact shrinks_advance.bind fun _ => .pure _
  · exact .pure _

theorem shrinks_takeAnchor : Shrinks takeAnchor? := by
  refine shrinks_peek.bind fun t => ?_
  split
  · exact shrinks_advance.bind fun _ => .pure _
  · exact .pure _

theorem shrinks_resolveTag (handle : Option String) (suffix : String) :
    Shrinks (resolveTag handle suffix) := by
  unfold resolveTag
  split
  · exact .pure _
  · refine shrinks_get.bind fun s => ?_
    split
    · exact .pure _
    · exact shrinks_refuse

theorem shrinks_writtenProperties : Shrinks writtenProperties := by
  refine shrinks_takeAnchor.bind fun anchor => ?_
  cases anchor with
  | some a => exact shrinks_takeTag.map _
  | none =>
    refine shrinks_takeTag.bind fun tag => ?_
    cases tag with
    | some t => exact shrinks_takeAnchor.map _
    | none => exact .pure _

theorem shrinks_completed (p : Option String × Option (Option String × String)) :
    Shrinks (completed p) := by
  obtain ⟨anchor, _ | ⟨handle, suffix⟩⟩ := p
  · exact .pure _
  · exact (shrinks_resolveTag handle suffix).map _

theorem shrinks_takeProperties : Shrinks takeProperties := by
  rw [takeProperties_eq]
  exact shrinks_writtenProperties.bind shrinks_completed

/-! ## Nodes -/

theorem shrinks_orEmpty (nothing : Bool) {m : Compose Nat} (h : Shrinks m) :
    Shrinks (orEmpty nothing m) := shrinks_empty.ite h

theorem shrinks_collect (anchor tag : Option String) (usual : Tag) {content : Compose Content}
    (h : Shrinks content) : Shrinks (collect anchor tag usual content) :=
  (shrinks_reserve anchor).bind fun id => h.bind fun _ => (shrinks_define id _).bind fun _ => .pure id

theorem shrinks_aliased (name : String) : Shrinks (aliased name) := by
  refine shrinks_advance.bind fun _ => shrinks_get.bind fun s => ?_
  split
  · exact .pure _
  · exact shrinks_refuse

theorem shrinks_separated {α : Type} (first : Bool) {m : Compose α} (h : Shrinks m) :
    Shrinks (separated first m) :=
  h.ite (shrinks_peek.bind fun _ => (shrinks_advance.bind fun _ => h).ite shrinks_refuse)

/-- What no part of a node that is composed with some fuel does. -/
structure AllShrink (fuel : Nat) : Prop where
  node : ∀ block indentless, Shrinks (node block indentless fuel)
  blockItems : Shrinks (blockItems fuel)
  indentlessItems : Shrinks (indentlessItems fuel)
  blockEntries : Shrinks (blockEntries fuel)
  blockValue : Shrinks (blockValue fuel)
  flowItems : ∀ first, Shrinks (flowItems first fuel)
  flowEntries : ∀ first, Shrinks (flowEntries first fuel)
  flowValue : ∀ close, Shrinks (flowValue close fuel)

variable {fuel : Nat}

theorem shrinks_nodeAt (h : AllShrink fuel) (block indentless : Bool) (anchor tag : Option String)
    (t : Token) : Shrinks (nodeAt block indentless fuel anchor tag t) := by
  unfold nodeAt
  split
  · exact shrinks_advance.bind fun _ => shrinks_scalar _ _ _
  · exact shrinks_advance.bind fun _ => shrinks_collect _ _ _ ((h.flowItems true).map _)
  · exact shrinks_advance.bind fun _ => shrinks_collect _ _ _ ((h.flowEntries true).map _)
  · refine .ite ?_ (.ite ?_ (.ite ?_ (.ite (shrinks_scalar _ _ _) shrinks_refuse)))
    · exact shrinks_advance.bind fun _ => shrinks_collect _ _ _ (h.blockItems.map _)
    · exact shrinks_advance.bind fun _ => shrinks_collect _ _ _ (h.blockEntries.map _)
    · exact shrinks_collect _ _ _ (h.indentlessItems.map _)

theorem shrinks_nodeFrom (h : AllShrink fuel) (block indentless : Bool) (t : Token) :
    Shrinks (nodeFrom block indentless fuel t) := by
  unfold nodeFrom
  split
  · exact shrinks_aliased _
  · exact shrinks_takeProperties.bind fun p => shrinks_peek.bind (shrinks_nodeAt h _ _ p.1 p.2)

theorem shrinks_itemsFrom (h : AllShrink fuel) (t : Token) : Shrinks (itemsFrom fuel t) := by
  unfold itemsFrom
  split
  · exact shrinks_advance.bind fun _ => shrinks_peek.bind fun _ =>
      (shrinks_orEmpty _ (h.node _ _)).bind fun _ => h.blockItems.bind fun _ => .pure _
  · exact shrinks_advance.bind fun _ => .pure _
  · exact shrinks_refuse

theorem shrinks_indentlessFrom (h : AllShrink fuel) (t : Token) :
    Shrinks (indentlessFrom fuel t) := by
  unfold indentlessFrom
  split
  · exact shrinks_advance.bind fun _ => shrinks_peek.bind fun _ =>
      (shrinks_orEmpty _ (h.node _ _)).bind fun _ => h.indentlessItems.bind fun _ => .pure _
  · exact .pure _

theorem shrinks_blockEntry (h : AllShrink fuel) : Shrinks (blockEntry fuel) :=
  shrinks_advance.bind fun _ => shrinks_peek.bind fun _ =>
    (shrinks_orEmpty _ (h.node _ _)).bind fun _ => h.blockValue.bind fun _ => .pure _

theorem shrinks_entriesFrom (h : AllShrink fuel) (t : Token) : Shrinks (entriesFrom fuel t) := by
  unfold entriesFrom
  split
  · exact shrinks_advance.bind fun _ => .pure _
  · exact (shrinks_blockEntry h).bind fun _ => h.blockEntries.bind fun _ => .pure _
  · exact shrinks_refuse

theorem shrinks_valueFrom (h : AllShrink fuel) (t : Token) : Shrinks (valueFrom fuel t) := by
  unfold valueFrom
  split
  · exact shrinks_advance.bind fun _ => shrinks_peek.bind fun _ => shrinks_orEmpty _ (h.node _ _)
  · exact shrinks_empty

theorem shrinks_flowKey (h : AllShrink fuel) (close : Token) : Shrinks (flowKey close fuel) :=
  shrinks_peek.bind fun _ => shrinks_orEmpty _ (h.node _ _)

theorem shrinks_flowItemFrom (h : AllShrink fuel) (t : Token) :
    Shrinks (flowItemFrom fuel t) := by
  unfold flowItemFrom
  split
  · refine shrinks_advance.bind fun _ => (shrinks_collect _ _ _ ?_).bind fun _ =>
      (h.flowItems _).bind fun _ => .pure _
    exact (shrinks_flowKey h _).bind fun _ => (h.flowValue _).bind fun _ => .pure _
  · exact shrinks_advance.bind fun _ => .pure _
  · exact (h.node _ _).bind fun _ => (h.flowItems _).bind fun _ => .pure _

theorem shrinks_flowItemsFrom (h : AllShrink fuel) (first : Bool) (t : Token) :
    Shrinks (flowItemsFrom first fuel t) := by
  unfold flowItemsFrom
  split
  · exact shrinks_advance.bind fun _ => .pure _
  · exact shrinks_separated _ (shrinks_peek.bind (shrinks_flowItemFrom h))

theorem shrinks_flowEntryFrom (h : AllShrink fuel) (t : Token) :
    Shrinks (flowEntryFrom fuel t) := by
  unfold flowEntryFrom
  split
  · exact shrinks_advance.bind fun _ => (shrinks_flowKey h _).bind fun _ =>
      (h.flowValue _).bind fun _ => (h.flowEntries _).bind fun _ => .pure _
  · exact shrinks_advance.bind fun _ => .pure _
  · exact (h.node _ _).bind fun _ => shrinks_empty.bind fun _ =>
      (h.flowEntries _).bind fun _ => .pure _

theorem shrinks_flowEntriesFrom (h : AllShrink fuel) (first : Bool) (t : Token) :
    Shrinks (flowEntriesFrom first fuel t) := by
  unfold flowEntriesFrom
  split
  · exact shrinks_advance.bind fun _ => .pure _
  · exact shrinks_separated _ (shrinks_peek.bind (shrinks_flowEntryFrom h))

theorem shrinks_flowValueFrom (h : AllShrink fuel) (close t : Token) :
    Shrinks (flowValueFrom close fuel t) := by
  unfold flowValueFrom
  split
  · exact shrinks_advance.bind fun _ => shrinks_peek.bind fun _ => shrinks_orEmpty _ (h.node _ _)
  · exact shrinks_empty

/-- No part of a node gives tokens back. -/
theorem allShrink (fuel : Nat) : AllShrink fuel := by
  induction fuel with
  | zero =>
    exact ⟨fun _ _ => shrinks_refuse, shrinks_refuse, shrinks_refuse, shrinks_refuse,
      shrinks_refuse, fun _ => shrinks_refuse, fun _ => shrinks_refuse, fun _ => shrinks_refuse⟩
  | succ fuel ih =>
    refine ⟨fun _ _ => ?_, ?_, ?_, ?_, ?_, fun _ => ?_, fun _ => ?_, fun _ => ?_⟩
    · rw [node_succ]
      exact shrinks_peek.bind (shrinks_nodeFrom ih _ _)
    · rw [blockItems_succ]
      exact shrinks_peek.bind (shrinks_itemsFrom ih)
    · rw [indentlessItems_succ]
      exact shrinks_peek.bind (shrinks_indentlessFrom ih)
    · rw [blockEntries_succ]
      exact shrinks_peek.bind (shrinks_entriesFrom ih)
    · rw [blockValue_succ]
      exact shrinks_peek.bind (shrinks_valueFrom ih)
    · rw [flowItems_succ]
      exact shrinks_peek.bind (shrinks_flowItemsFrom ih _)
    · rw [flowEntries_succ]
      exact shrinks_peek.bind (shrinks_flowEntriesFrom ih _)
    · rw [flowValue_succ]
      exact shrinks_peek.bind (shrinks_flowValueFrom ih _)

end PubspecTidy.Yaml.Compose
