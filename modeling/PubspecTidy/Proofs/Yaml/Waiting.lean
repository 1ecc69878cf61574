import PubspecTidy.Proofs.Outcome
import PubspecTidy.Yaml.Document

/-!
# Collections that wait to be entered

Main statements: each collection waits once, so there is time to enter all of them, and the cells
of a document are the outcome of entering until none waits any more.
-/
namespace PubspecTidy.Yaml.Form

variable {α β : Type} {m : Form α} {f : α → Form β}

theorem run_bind_eq_ok {s t : Formation} {c : β} :
    (m >>= f) s = .ok (c, t) ↔ ∃ r u, m s = .ok (r, u) ∧ f r u = .ok (c, t) := by
  refine ⟨fun h => ?_, fun ⟨r, u, h, hf⟩ => bind_eq_ok.mpr ⟨(r, u), h, hf⟩⟩
  obtain ⟨⟨r, u⟩, h, hf⟩ := bind_eq_ok.mp h
  exact ⟨r, u, h, hf⟩

theorem run_bind_of_ok {s t : Formation} {r : α} (h : m s = .ok (r, t)) (f : α → Form β) :
    (m >>= f) s = f r t := by
  change (m s >>= fun q => f q.1 q.2) = _
  rw [h]
  rfl

theorem nodeOf_eq (id : Nat) (s : Formation) :
    nodeOf id s = (match Table.get? s.nodes id with
      | some node => (pure node : Form Node)
      | none => refuse) s := rfl

theorem nodeOf_eq_ok {id : Nat} {s t : Formation} {node : Node} :
    nodeOf id s = .ok (node, t) ↔ Table.get? s.nodes id = some node ∧ t = s := by
  rw [nodeOf_eq]
  cases Table.get? s.nodes id with
  | none =>
    constructor
    · intro h
      cases h
    · rintro ⟨h, -⟩
      cases h
  | some node' =>
    constructor
    · intro h
      cases h
      exact ⟨rfl, rfl⟩
    · rintro ⟨h, ht⟩
      cases h
      rw [ht]
      rfl

theorem setNode_eq_ok {id : Nat} {node : Node} {s t : Formation} {u : Unit} :
    setNode id node s = .ok (u, t) ↔ t = { s with nodes := Table.put s.nodes id node } := by
  refine ⟨fun h => ?_, fun h => by rw [h]; rfl⟩
  cases h
  rfl

/-! ## The steps of merging and forming -/

/-- The entries that a node merged into a mapping stands for. -/
def mergedFrom (fuel : Nat) (value : Nat) (node : Node) : Form (List (Nat × Nat)) :=
  match node.content with
  | .mapping _ => flattened fuel value
  | .sequence items => (·.reverse.flatten) <$> allFlattened fuel items
  | .scalar _ => refuse

/-- A mapping from which an entry that merges others has been split off. -/
def takeFrom (fuel id : Nat) :
    Option (List (Nat × Nat) × (Nat × Nat) × List (Nat × Nat)) → Form (List (Nat × Nat))
  | none => return []
  | some (before, e, after) => do
    setEntries id (before ++ after)
    let merged ← nodeOf e.2 >>= mergedFrom fuel e.2
    return merged ++ (← takeMerged fuel id)

theorem takeMerged_succ (fuel id : Nat) :
    takeMerged (fuel + 1) id = entriesOf id >>= splitAtTag .merge >>= takeFrom fuel id := by
  rw [takeMerged, bind_assoc]
  refine congrArg _ (funext fun entries => congrArg _ (funext fun found => ?_))
  cases found with
  | none => rfl
  | some found =>
    obtain ⟨before, e, after⟩ := found
    simp only [takeFrom, bind_assoc]
    refine congrArg _ (funext fun _ => congrArg _ (funext fun node => ?_))
    obtain ⟨tag, content⟩ := node
    cases content <;> rfl

/-- The entries of a mapping behind those merged into it, which stay there. -/
def putMerged (id : Nat) (merged own : List (Nat × Nat)) : Form (List (Nat × Nat)) :=
  if merged.isEmpty then return own
  else do
    setEntries id (merged ++ own)
    return merged ++ own

theorem flattened_succ (fuel id : Nat) :
    flattened (fuel + 1) id = (do
      let merged ← takeMerged fuel id
      let own ← entriesOf id
      unmarkDefaults own
      putMerged id merged own) := by
  rw [flattened]
  rfl

/-- The value of a node that has just been formed is kept. -/
def keep (id : Nat) (v : Value) : Form Value := do
  modify fun s => { s with values := (id, v) :: s.values }
  return v

theorem form_eq (id : Nat) (s : Formation) :
    form id s = (match Table.get? s.values id with
      | some v => (pure v : Form Value)
      | none => formNew id >>= keep id) s := rfl

theorem form_of_some {id : Nat} {v : Value} {s : Formation} (h : Table.get? s.values id = some v) :
    form id s = .ok (v, s) := by
  rw [form_eq, h]
  rfl

theorem form_of_none {id : Nat} {s : Formation} (h : Table.get? s.values id = none) :
    form id s = (formNew id >>= keep id) s := by
  rw [form_eq, h]

/-- The pair that the only entry of a mapping is. -/
def formPair : List (Nat × Nat) → Form (Value × Value)
  | [e] => do
    let key ← form e.1
    let value ← form e.2
    return (key, value)
  | _ => refuse

theorem formPairs_cons (id : Nat) (ids : List Nat) :
    formPairs (id :: ids) = (do
      let pair ← entriesOf id >>= formPair
      return pair :: (← formPairs ids)) := by
  rw [formPairs, bind_assoc]
  refine congrArg _ (funext fun entries => ?_)
  match entries with
  | [] => rfl
  | [e] => simp only [formPair, bind_assoc, pure_bind]
  | _ :: _ :: _ => rfl

/-! ## What leaves values and waiting collections alone -/

/-- Nothing is formed, and the nodes keep their numbers. -/
def Keeps (m : Form α) : Prop :=
  ∀ ⦃s r t⦄, m s = .ok (r, t) →
    t.values = s.values ∧ t.waiting = s.waiting ∧ Table.keys t.nodes = Table.keys s.nodes

theorem Keeps.pure (r : α) : Keeps (pure r) := by
  intro s r' t h
  cases h
  exact ⟨rfl, rfl, rfl⟩

theorem Keeps.bind (h : Keeps m) (hf : ∀ r, Keeps (f r)) : Keeps (m >>= f) := by
  intro s r t hrun
  obtain ⟨r₁, s₁, hm, hrun⟩ := (run_bind_eq_ok).mp hrun
  obtain ⟨hvalues, hwaiting, hkeys⟩ := h hm
  obtain ⟨hvalues', hwaiting', hkeys'⟩ := hf r₁ hrun
  exact ⟨hvalues'.trans hvalues, hwaiting'.trans hwaiting, hkeys'.trans hkeys⟩

theorem Keeps.map (h : Keeps m) (c : α → β) : Keeps (c <$> m) := by
  rw [map_eq_pure_bind]
  exact h.bind fun r => .pure (c r)

theorem keeps_refuse : Keeps (refuse : Form α) := by
  intro s r t h
  cases h

theorem keeps_throw (fault : Fault) : Keeps (throw fault : Form α) := by
  intro s r t h
  cases h

theorem keeps_get : Keeps (get : Form Formation) := by
  intro s r t h
  cases h
  exact ⟨rfl, rfl, rfl⟩

theorem keeps_liftM (x : Except Fault α) : Keeps (liftM x : Form α) := by
  intro s r t h
  cases x with
  | error e => cases h
  | ok a =>
    cases h
    exact ⟨rfl, rfl, rfl⟩

theorem keeps_nodeOf (id : Nat) : Keeps (nodeOf id) := by
  intro s r t h
  obtain ⟨-, rfl⟩ := (nodeOf_eq_ok).mp h
  exact ⟨rfl, rfl, rfl⟩

theorem mem_keys_of_nodeOf {id : Nat} {s t : Formation} {node : Node}
    (h : nodeOf id s = .ok (node, t)) : id ∈ Table.keys s.nodes := by
  refine Decidable.by_contra fun hnot => ?_
  have hnode := ((nodeOf_eq_ok).mp h).1
  rw [(Table.get?_eq_none_iff _ _).mpr hnot] at hnode
  cases hnode

/-- A node that is there already is replaced. -/
theorem keeps_update (id : Nat) (g : Node → Node) :
    Keeps (nodeOf id >>= fun node => setNode id (g node)) := by
  intro s r t h
  obtain ⟨node, s₁, hnode, hset⟩ := (run_bind_eq_ok).mp h
  have hmem := mem_keys_of_nodeOf hnode
  obtain ⟨-, rfl⟩ := (nodeOf_eq_ok).mp hnode
  obtain rfl := (setNode_eq_ok).mp hset
  refine ⟨rfl, rfl, ?_⟩
  dsimp only
  rw [Table.keys_put, if_pos hmem]

theorem keeps_setEntries (id : Nat) (entries : List (Nat × Nat)) : Keeps (setEntries id entries) :=
  keeps_update id fun node => { node with content := .mapping entries }

theorem keeps_entriesOf (id : Nat) : Keeps (entriesOf id) := by
  refine (keeps_nodeOf id).bind fun node => ?_
  split
  · exact .pure _
  · exact keeps_refuse

theorem keeps_splitAtTag (tag : Tag) (entries : List (Nat × Nat)) :
    Keeps (splitAtTag tag entries) := by
  induction entries with
  | nil => exact .pure _
  | cons e entries ih =>
    refine ((keeps_nodeOf e.1).bind fun node => .pure _).bind fun b => ?_
    split
    · exact .pure _
    · exact ih.bind fun found => .pure _

theorem keeps_unmarkDefaults (entries : List (Nat × Nat)) : Keeps (unmarkDefaults entries) := by
  induction entries with
  | nil => exact .pure _
  | cons e entries ih =>
    intro s r t h
    unfold unmarkDefaults at h
    obtain ⟨node, s₁, hnode, hrun⟩ := (run_bind_eq_ok).mp h
    have hmem := mem_keys_of_nodeOf hnode
    obtain ⟨-, rfl⟩ := (nodeOf_eq_ok).mp hnode
    by_cases htag : node.tag = .default
    · rw [if_pos htag] at hrun
      obtain ⟨u, s₂, hset, hrest⟩ := (run_bind_eq_ok).mp hrun
      obtain rfl := (setNode_eq_ok).mp hset
      obtain ⟨hvalues, hwaiting, hkeys⟩ := ih hrest
      dsimp only at hkeys
      rw [Table.keys_put, if_pos hmem] at hkeys
      exact ⟨hvalues, hwaiting, hkeys⟩
    · rw [if_neg htag] at hrun
      exact ih hrun

structure AllKeep (fuel : Nat) : Prop where
  takeMerged : ∀ id, Keeps (takeMerged fuel id)
  flattened : ∀ id, Keeps (flattened fuel id)
  allFlattened : ∀ ids, Keeps (allFlattened fuel ids)

variable {fuel : Nat}

theorem keeps_mergedFrom (h : AllKeep fuel) (value : Nat) (node : Node) :
    Keeps (mergedFrom fuel value node) := by
  unfold mergedFrom
  split
  · exact h.flattened value
  · exact (h.allFlattened _).map _
  · exact keeps_refuse

theorem keeps_takeMerged (h : AllKeep fuel) (id : Nat) : Keeps (takeMerged (fuel + 1) id) := by
  rw [takeMerged_succ]
  refine ((keeps_entriesOf id).bind fun _ => keeps_splitAtTag .merge _).bind fun found => ?_
  cases found with
  | none => exact .pure _
  | some found =>
    refine (keeps_setEntries id _).bind fun _ => ?_
    refine ((keeps_nodeOf _).bind fun node => keeps_mergedFrom h _ node).bind fun merged => ?_
    exact (h.takeMerged id).bind fun rest => .pure _

theorem keeps_putMerged (id : Nat) (merged own : List (Nat × Nat)) :
    Keeps (putMerged id merged own) := by
  unfold putMerged
  split
  · exact .pure _
  · exact (keeps_setEntries id _).bind fun _ => .pure _

theorem keeps_flattened (h : AllKeep fuel) (id : Nat) : Keeps (flattened (fuel + 1) id) := by
  rw [flattened_succ]
  refine (h.takeMerged id).bind fun merged => (keeps_entriesOf id).bind fun own => ?_
  exact (keeps_unmarkDefaults own).bind fun _ => keeps_putMerged id merged own

theorem keeps_allFlattened (h : AllKeep fuel) (ids : List Nat) :
    Keeps (allFlattened (fuel + 1) ids) := by
  cases ids with
  | nil =>
    rw [allFlattened]
    · exact .pure _
    · simp
  | cons id ids =>
    rw [allFlattened]
    exact (h.flattened id).bind fun entries => (h.allFlattened ids).bind fun rest => .pure _

theorem allKeep (fuel : Nat) : AllKeep fuel := by
  induction fuel with
  | zero => exact ⟨fun _ => keeps_refuse, fun _ => keeps_refuse, fun _ => keeps_refuse⟩
  | succ fuel ih =>
    exact ⟨keeps_takeMerged ih, keeps_flattened ih, keeps_allFlattened ih⟩

theorem keeps_mergedEntries (id : Nat) : Keeps (mergedEntries id) :=
  keeps_get.bind fun _ => (allKeep _).flattened id

theorem keeps_textOf (fuel id : Nat) : Keeps (textOf fuel id) := by
  induction fuel generalizing id with
  | zero => exact keeps_throw _
  | succ fuel ih =>
    unfold textOf
    refine (keeps_nodeOf id).bind fun node => ?_
    split
    · exact .pure _
    · exact keeps_refuse
    · refine (keeps_splitAtTag .default _).bind fun found => ?_
      split
      · exact ih _
      · exact keeps_refuse

/-! ## What comes to wait -/

/-- Collections with a new value have come to wait, each once. -/
structure Grows (s t : Formation) : Prop where
  waiting : ∃ new, t.waiting = s.waiting ++ new ∧ new.Nodup ∧ ∀ id ∈ new,
    Table.get? s.values id = none ∧ Table.has t.values id = true ∧ id ∈ Table.keys s.nodes
  values : ∀ id, Table.has s.values id = true → Table.has t.values id = true
  keys : Table.keys t.nodes = Table.keys s.nodes

theorem Grows.refl (s : Formation) : Grows s s :=
  ⟨⟨[], by simp⟩, fun _ h => h, rfl⟩

theorem has_eq_false {t : Table Nat Value} {id : Nat} :
    Table.has t id = false ↔ Table.get? t id = none := by
  unfold Table.has
  cases Table.get? t id <;> simp

theorem Grows.trans {s t u : Formation} (h : Grows s t) (h' : Grows t u) : Grows s u := by
  obtain ⟨new, hnew, hnodup, hfresh⟩ := h.waiting
  obtain ⟨new', hnew', hnodup', hfresh'⟩ := h'.waiting
  refine ⟨⟨new ++ new', by rw [hnew', hnew, List.append_assoc], ?_, fun id hid => ?_⟩,
    fun id hid => h'.values id (h.values id hid), h'.keys.trans h.keys⟩
  · refine List.nodup_append.mpr ⟨hnodup, hnodup', fun id hid id' hid' heq => ?_⟩
    have hhas := (hfresh id hid).2.1
    rw [heq, (has_eq_false).mpr (hfresh' id' hid').1] at hhas
    cases hhas
  · rcases List.mem_append.mp hid with hid | hid
    · obtain ⟨hnone, hhas, hkey⟩ := hfresh id hid
      exact ⟨hnone, h'.values id hhas, hkey⟩
    · obtain ⟨hnone, hhas, hkey⟩ := hfresh' id hid
      rw [h.keys] at hkey
      refine ⟨(has_eq_false).mp ?_, hhas, hkey⟩
      cases hs : Table.has s.values id with
      | false => rfl
      | true =>
        rw [← has_eq_false, h.values id hs] at hnone
        cases hnone

/-- Every success of a step lets collections come to wait, each once. -/
def AllGrow (m : Form α) : Prop := ∀ ⦃s r t⦄, m s = .ok (r, t) → Grows s t

theorem AllGrow.pure (r : α) : AllGrow (pure r) := by
  intro s r' t h
  cases h
  exact .refl s

theorem AllGrow.bind (h : AllGrow m) (hf : ∀ r, AllGrow (f r)) : AllGrow (m >>= f) := by
  intro s r t hrun
  obtain ⟨r₁, s₁, hm, hrun⟩ := (run_bind_eq_ok).mp hrun
  exact (h hm).trans (hf r₁ hrun)

theorem Keeps.allGrow (h : Keeps m) : AllGrow m := by
  intro s r t hrun
  obtain ⟨hvalues, hwaiting, hkeys⟩ := h hrun
  exact ⟨⟨[], by simp [hwaiting]⟩, fun id hid => by rwa [hvalues], hkeys⟩

/-- A new value comes from what keeps all collections, or its node comes to wait. -/
theorem formNew_eq_ok {id : Nat} {s t : Formation} {v : Value} (h : formNew id s = .ok (v, t)) :
    id ∈ Table.keys s.nodes ∧ t.values = s.values ∧ Table.keys t.nodes = Table.keys s.nodes ∧
      (t.waiting = s.waiting ∨ t.waiting = s.waiting ++ [id]) := by
  obtain ⟨node, s₁, hnode, hrun⟩ := (run_bind_eq_ok).mp h
  have hmem := mem_keys_of_nodeOf hnode
  obtain ⟨-, rfl⟩ := (nodeOf_eq_ok).mp hnode
  obtain ⟨s₂, s₃, hget, hrun⟩ := (run_bind_eq_ok).mp hrun
  cases hget
  have htext := keeps_textOf (s₁.nodes.length + 1) id
  have hkeeps {m : Form Value} (hm : Keeps m) (hrun : m s₁ = .ok (v, t)) :
      id ∈ Table.keys s₁.nodes ∧ t.values = s₁.values ∧ Table.keys t.nodes = Table.keys s₁.nodes ∧
        (t.waiting = s₁.waiting ∨ t.waiting = s₁.waiting ++ [id]) := by
    obtain ⟨hvalues, hwaiting, hkeys⟩ := hm hrun
    exact ⟨hmem, hvalues, hkeys, .inl hwaiting⟩
  have hlater (hrun : enterLater id s₁ = .ok (v, t)) :
      id ∈ Table.keys s₁.nodes ∧ t.values = s₁.values ∧ Table.keys t.nodes = Table.keys s₁.nodes ∧
        (t.waiting = s₁.waiting ∨ t.waiting = s₁.waiting ++ [id]) := by
    cases hrun
    exact ⟨hmem, rfl, rfl, .inr rfl⟩
  obtain ⟨tag, content⟩ := node
  cases tag
  case null => exact hkeeps (htext.bind fun _ => .pure _) hrun
  case bool => exact hkeeps (htext.bind fun _ => (keeps_liftM _).bind fun _ => .pure _) hrun
  case int => exact hkeeps (htext.bind fun _ => (keeps_liftM _).bind fun _ => .pure _) hrun
  case binary => exact hkeeps (htext.bind fun _ => (keeps_liftM _).bind fun _ => .pure _) hrun
  case float => exact hkeeps (htext.bind fun _ => keeps_liftM _) hrun
  case timestamp =>
    refine hkeeps (htext.bind fun text => ?_) hrun
    dsimp only
    split
    · exact keeps_throw _
    · exact keeps_liftM _
  case text => exact hkeeps (htext.bind fun _ => .pure _) hrun
  case merge => exact hkeeps keeps_refuse hrun
  case default => exact hkeeps keeps_refuse hrun
  case unknown => exact hkeeps keeps_refuse hrun
  all_goals exact hlater hrun

theorem allGrow_form (id : Nat) : AllGrow (form id) := by
  intro s v t h
  cases hvalue : Table.get? s.values id with
  | some v' =>
    rw [form_of_some hvalue] at h
    cases h
    exact .refl s
  | none =>
    rw [form_of_none hvalue] at h
    obtain ⟨v', s₁, hnew, hkeep⟩ := (run_bind_eq_ok).mp h
    obtain ⟨hmem, hvalues, hkeys, hwaiting⟩ := formNew_eq_ok hnew
    cases hkeep
    have hhas : Table.has ((id, v) :: s₁.values) id = true := by
      unfold Table.has
      rw [Table.get?_cons, if_pos rfl]
      rfl
    refine ⟨?_, fun j hj => ?_, hkeys⟩
    · rcases hwaiting with hwaiting | hwaiting
      · exact ⟨[], by simp [hwaiting]⟩
      · refine ⟨[id], hwaiting, List.pairwise_singleton _ id, fun j hj => ?_⟩
        obtain rfl := List.mem_singleton.mp hj
        exact ⟨hvalue, hhas, hmem⟩
    · change Table.has ((id, v) :: s₁.values) j = true
      by_cases heq : id = j
      · subst heq
        exact hhas
      · unfold Table.has Table.get?
        rw [if_neg heq, hvalues]
        exact hj

theorem allGrow_formItems (ids : List Nat) : AllGrow (formItems ids) := by
  induction ids with
  | nil => exact .pure _
  | cons id ids ih => exact (allGrow_form id).bind fun v => ih.bind fun vs => .pure _

theorem allGrow_formEntries (entries : List (Nat × Nat)) (done : List (Value × Value)) :
    AllGrow (formEntries entries done) := by
  induction entries generalizing done with
  | nil => exact .pure _
  | cons e entries ih =>
    refine (allGrow_form e.1).bind fun key => ?_
    cases key.isKey with
    | false => exact keeps_refuse.allGrow
    | true => exact (allGrow_form e.2).bind fun value => ih _

theorem allGrow_formPairs (ids : List Nat) : AllGrow (formPairs ids) := by
  induction ids with
  | nil => exact .pure _
  | cons id ids ih =>
    rw [formPairs_cons]
    refine ((keeps_entriesOf id).allGrow.bind fun entries => ?_).bind fun pair =>
      ih.bind fun rest => .pure _
    unfold formPair
    split
    · exact (allGrow_form _).bind fun key => (allGrow_form _).bind fun value => .pure _
    · exact keeps_refuse.allGrow

theorem allGrow_enter (id : Nat) : AllGrow (enter id) := by
  unfold enter
  refine (keeps_nodeOf id).allGrow.bind fun node => ?_
  split
  · exact (allGrow_formItems _).bind fun vs => .pure _
  · exact (allGrow_formPairs _).bind fun entries => .pure _
  · exact (allGrow_formPairs _).bind fun entries => .pure _
  · exact (keeps_mergedEntries id).allGrow.bind fun entries =>
      (allGrow_formEntries entries []).bind fun pairs => .pure _
  · exact (keeps_mergedEntries id).allGrow.bind fun entries =>
      (allGrow_formEntries entries []).bind fun pairs => .pure _
  · exact keeps_refuse.allGrow

/-! ## Entering until none waits -/

/-- Entering what waits, and what comes to wait meanwhile, gives these cells. -/
inductive Enters : Formation → Table Nat Cell → Prop
  | done {s : Formation} (h : s.waiting = []) : Enters s []
  | next {s s' : Formation} {id : Nat} {rest : List Nat} {cell : Cell} {cells : Table Nat Cell}
      (hwaiting : s.waiting = id :: rest) (hcell : enter id { s with waiting := rest } = .ok (cell, s'))
      (hrest : Enters s' cells) : Enters s ((id, cell) :: cells)

/-- After some collections have been entered, others wait; all of them have been formed, each
once. -/
structure Waits (entered : List Nat) (s : Formation) : Prop where
  nodup : (entered ++ s.waiting).Nodup
  formed : ∀ id ∈ entered ++ s.waiting, Table.has s.values id = true
  known : ∀ id ∈ entered ++ s.waiting, id ∈ Table.keys s.nodes

variable {entered : List Nat} {s t : Formation} {cells : Table Nat Cell}

theorem Waits.length_le (h : Waits entered s) :
    entered.length + s.waiting.length ≤ s.nodes.length := by
  have hle := h.nodup.length_le_of_subset h.known
  rwa [List.length_append, Table.keys, List.length_map] at hle

theorem Waits.grows (h : Waits entered s) (hgrows : Grows s t) : Waits entered t := by
  obtain ⟨new, hnew, hnodup, hfresh⟩ := hgrows.waiting
  rw [← hgrows.keys] at hfresh
  refine ⟨?_, fun id hid => ?_, fun id hid => ?_⟩
  · rw [hnew, ← List.append_assoc]
    refine List.nodup_append.mpr ⟨h.nodup, hnodup, fun id hid id' hid' heq => ?_⟩
    have hhas := h.formed id hid
    rw [heq, (has_eq_false).mpr (hfresh id' hid').1] at hhas
    cases hhas
  · rw [hnew, ← List.append_assoc] at hid
    rcases List.mem_append.mp hid with hid | hid
    · exact hgrows.values id (h.formed id hid)
    · exact (hfresh id hid).2.1
  · rw [hnew, ← List.append_assoc] at hid
    rcases List.mem_append.mp hid with hid | hid
    · rw [hgrows.keys]
      exact h.known id hid
    · exact (hfresh id hid).2.2

theorem Waits.enter (h : Waits entered s) {id : Nat} {rest : List Nat}
    (hwaiting : s.waiting = id :: rest) {cell : Cell}
    (hcell : enter id { s with waiting := rest } = .ok (cell, t)) : Waits (entered ++ [id]) t := by
  have hsame : (entered ++ [id]) ++ rest = entered ++ s.waiting := by simp [hwaiting]
  have htaken : Waits (entered ++ [id]) { s with waiting := rest } := by
    refine ⟨?_, fun j hj => ?_, fun j hj => ?_⟩
    · dsimp only
      rw [hsame]
      exact h.nodup
    · dsimp only at hj
      rw [hsame] at hj
      exact h.formed j hj
    · dsimp only at hj
      rw [hsame] at hj
      exact h.known j hj
  exact htaken.grows (allGrow_enter id hcell)

theorem Enters.length_le (h : Enters s cells) (hwaits : Waits entered s) :
    entered.length + cells.length ≤ s.nodes.length := by
  induction h generalizing entered with
  | done h =>
    have hle := hwaits.length_le
    rw [h] at hle
    exact hle
  | next hwaiting hcell hrest ih =>
    have hle := ih (hwaits.enter hwaiting hcell)
    have hkeys := congrArg List.length (allGrow_enter _ hcell).keys
    simp only [Table.keys, List.length_map] at hkeys
    rw [List.length_append, List.length_singleton, hkeys] at hle
    rw [List.length_cons]
    omega

theorem enterAll_of_nil (h : s.waiting = []) (fuel : Nat) : enterAll (fuel + 1) s = .ok ([], s) := by
  have hget : (get : Form Formation) s = .ok (s, s) := rfl
  rw [enterAll, run_bind_of_ok hget, h]
  rfl

theorem enterAll_of_cons {id : Nat} {rest : List Nat} (h : s.waiting = id :: rest) (fuel : Nat) :
    enterAll (fuel + 1) s = (do
      let cell ← enter id
      return (id, cell) :: (← enterAll fuel)) { s with waiting := rest } := by
  have hget : (get : Form Formation) s = .ok (s, s) := rfl
  have hset : (set { s with waiting := rest } : Form PUnit) s =
      .ok (PUnit.unit, { s with waiting := rest }) := rfl
  rw [enterAll, run_bind_of_ok hget, h]
  exact run_bind_of_ok hset _

theorem Enters.enterAll (h : Enters s cells) {fuel : Nat} (hfuel : cells.length ≤ fuel) :
    ∃ t, enterAll fuel s = .ok (cells, t) := by
  induction h generalizing fuel with
  | @done s h =>
    cases fuel with
    | zero => exact ⟨s, rfl⟩
    | succ fuel => exact ⟨s, enterAll_of_nil h fuel⟩
  | @next s s' id rest cell cells hwaiting hcell hrest ih =>
    obtain ⟨fuel, rfl⟩ : ∃ n, fuel = n + 1 := ⟨fuel - 1, by rw [List.length_cons] at hfuel; omega⟩
    obtain ⟨t, ht⟩ := ih (Nat.le_of_succ_le_succ hfuel)
    refine ⟨t, ?_⟩
    rw [enterAll_of_cons hwaiting, run_bind_of_ok hcell, run_bind_of_ok ht]
    rfl

/-- With as much fuel as there are nodes, all collections are entered. -/
theorem enters_of_enterAll {fuel : Nat} (h : Form.enterAll fuel s = .ok (cells, t))
    (hwaits : Waits entered s) (hfuel : s.nodes.length ≤ entered.length + fuel) :
    Enters s cells := by
  induction fuel generalizing s cells entered with
  | zero =>
    cases h
    refine .done (List.eq_nil_of_length_eq_zero ?_)
    have hle := hwaits.length_le
    omega
  | succ fuel ih =>
    cases hwaiting : s.waiting with
    | nil =>
      rw [enterAll_of_nil hwaiting] at h
      cases h
      exact .done hwaiting
    | cons id rest =>
      rw [enterAll_of_cons hwaiting] at h
      obtain ⟨cell, s', hcell, hrun⟩ := (run_bind_eq_ok).mp h
      obtain ⟨cells', t', hrest, hpure⟩ := (run_bind_eq_ok).mp hrun
      cases hpure
      refine .next hwaiting hcell (ih hrest (hwaits.enter hwaiting hcell) ?_)
      have hkeys := congrArg List.length (allGrow_enter _ hcell).keys
      simp only [Table.keys, List.length_map] at hkeys
      rw [hkeys, List.length_append, List.length_singleton]
      omega

end PubspecTidy.Yaml.Form
