import PubspecTidy.Proofs.Yaml.Joined

/-!
# The values of entries one behind the other

Main statements: entries one behind the other have the values that they have on their own, up to the
numbers of the nodes, and so have the entries of a mapping below a key.
-/
namespace PubspecTidy.Yaml

/-! ## Keys that differ -/

namespace Value

/-- What numbers have in common that are the same as keys; anything else is the same as itself. -/
def numberClass (v : Value) : (Int ⊕ Number.Double) ⊕ Value :=
  match v.number? with
  | some x => .inl x
  | none => .inr v

/-- What keys have in common that are the same. -/
def keyClass : Value → (Time.Date ⊕ Bool × Int) ⊕ (Int ⊕ Number.Double) ⊕ Value
  | date _ d => .inl (.inl d)
  | stamp _ t => .inl (.inr (t.offset.isSome, t.instant))
  | v => .inr v.numberClass

theorem numberClass_eq_iff (a b : Value) : (match a.number?, b.number? with
      | some x, some y => decide (x = y)
      | none, none => decide (a = b)
      | _, _ => false) = true ↔ a.numberClass = b.numberClass := by
  unfold numberClass
  cases a.number? <;> cases b.number? <;> simp

theorem sameKey_iff {a b : Value} : a.sameKey b = true ↔ a.keyClass = b.keyClass := by
  have hstamp (t u : Time.Stamp) : t.sub? u = some 0 ↔
      t.offset.isSome = u.offset.isSome ∧ t.instant = u.instant := by
    unfold Time.Stamp.sub?
    split
    · rename_i hkind
      rw [Option.some.injEq, Int.sub_eq_zero]
      exact ⟨fun hinstant => ⟨hkind, hinstant⟩, And.right⟩
    · rename_i hkind
      exact ⟨fun hnone => (by cases hnone), fun hsame => absurd hsame.1 hkind⟩
  cases a <;> cases b
  case date.date => simp [sameKey, keyClass]
  case stamp.stamp => simp [sameKey, keyClass, hstamp]
  -- a date or a stamp is not the same as any key of another kind
  case date.float | stamp.float | float.date | float.stamp =>
    simp only [sameKey, keyClass, number?]
    split <;> simp_all
  all_goals
    unfold keyClass
    first
      | rw [Sum.inr.injEq, ← numberClass_eq_iff]
        rfl
      | simp [sameKey, number?]

/-- Two keys that are not the same, whatever numbers their nodes have. -/
def Differs (a b : Value) : Prop := ∀ f g : Nat → Nat, (a.map f).sameKey (b.map g) = false

theorem Differs.symm {a b : Value} (h : a.Differs b) : b.Differs a := fun f g => by
  refine Bool.eq_false_iff.mpr fun hsame => ?_
  have hback := (sameKey_iff).mpr ((sameKey_iff).mp hsame).symm
  rw [h g f] at hback
  cases hback

theorem differs_string {s t : String} (h : s ≠ t) : (string s).Differs (string t) := fun f g => by
  simpa [Value.map, sameKey, number?] using h

end Value

/-- No key of some entries is the same as one of others. -/
def KeysDiffer (entries entries' : List (Value × Value)) : Prop :=
  ∀ e ∈ entries, ∀ e' ∈ entries', e.1.Differs e'.1

/-! ## Putting entries into a mapping -/

/-- Puts entries into a mapping one after the other. -/
def putAll (done new : List (Value × Value)) : List (Value × Value) :=
  new.foldl (fun entries e => putEntry entries e.1 e.2) done

variable {done entries new : List (Value × Value)} {key value : Value}

theorem putEntry_append (h : ∀ e ∈ done, e.1.sameKey key = false) :
    putEntry (done ++ entries) key value = done ++ putEntry entries key value := by
  induction done with
  | nil => rfl
  | cons e done ih =>
    rw [List.cons_append, putEntry, if_neg (by simp [h e List.mem_cons_self]),
      ih fun x hx => h x (List.mem_cons_of_mem _ hx), List.cons_append]

/-- The keys of a mapping stay when an entry is put into it. -/
theorem exists_mem_putEntry {e : Value × Value} (key value : Value) (h : e ∈ entries) :
    ∃ e' ∈ putEntry entries key value, e'.1 = e.1 := by
  induction entries with
  | nil => cases h
  | cons x entries ih =>
    unfold putEntry
    split
    · rcases List.mem_cons.mp h with rfl | h
      · exact ⟨_, List.mem_cons_self, rfl⟩
      · exact ⟨e, List.mem_cons_of_mem _ h, rfl⟩
    · rcases List.mem_cons.mp h with rfl | h
      · exact ⟨e, List.mem_cons_self, rfl⟩
      · obtain ⟨e', he', heq⟩ := ih h
        exact ⟨e', List.mem_cons_of_mem _ he', heq⟩

theorem exists_mem_putEntry_same (entries : List (Value × Value)) (key value : Value) :
    ∃ e ∈ putEntry entries key value, e.1.keyClass = key.keyClass := by
  induction entries with
  | nil => exact ⟨_, List.mem_cons_self, rfl⟩
  | cons x entries ih =>
    unfold putEntry
    split
    · rename_i hsame
      exact ⟨_, List.mem_cons_self, (Value.sameKey_iff).mp hsame⟩
    · obtain ⟨e, he, heq⟩ := ih
      exact ⟨e, List.mem_cons_of_mem _ he, heq⟩

theorem exists_mem_putAll {e : Value × Value} (new : List (Value × Value)) (h : e ∈ entries) :
    ∃ e' ∈ putAll entries new, e'.1 = e.1 := by
  induction new generalizing entries e with
  | nil => exact ⟨e, h, rfl⟩
  | cons x new ih =>
    obtain ⟨e', he', heq⟩ := exists_mem_putEntry x.1 x.2 h
    obtain ⟨e'', he'', heq'⟩ := ih he'
    exact ⟨e'', he'', heq'.trans heq⟩

/-- Entries whose keys are not those of a mapping come behind it. -/
theorem putAll_append (h : ∀ e ∈ done, ∀ e' ∈ putAll entries new, e.1.sameKey e'.1 = false) :
    putAll (done ++ entries) new = done ++ putAll entries new := by
  induction new generalizing entries with
  | nil => rfl
  | cons x new ih =>
    have hfresh : ∀ e ∈ done, e.1.sameKey x.1 = false := fun e he => by
      obtain ⟨e', he', hclass⟩ := exists_mem_putEntry_same entries x.1 x.2
      obtain ⟨e'', he'', heq⟩ := exists_mem_putAll new he'
      refine Bool.eq_false_iff.mpr fun hsame => ?_
      have hdiffers := h e he e'' he''
      rw [← Bool.not_eq_true, Value.sameKey_iff, heq, hclass] at hdiffers
      exact hdiffers ((Value.sameKey_iff).mp hsame)
    change putAll (putEntry (done ++ entries) x.1 x.2) new =
      done ++ putAll (putEntry entries x.1 x.2) new
    rw [putEntry_append hfresh, ih h]

namespace Form

open Compose (PositiveEntries)

variable {p : Span} {es es' : List (Nat × Nat)} {s t : Formation}

theorem unmarkDefaults_append (es es' : List (Nat × Nat)) :
    unmarkDefaults (es ++ es') = unmarkDefaults es >>= fun _ => unmarkDefaults es' := by
  induction es with
  | nil => rfl
  | cons e es ih =>
    simp only [List.cons_append, unmarkDefaults, ih, bind_assoc]
    refine congrArg _ (funext fun node => ?_)
    split
    · rw [bind_assoc]
    · rfl

theorem formEntries_cons (e : Nat × Nat) (es : List (Nat × Nat)) (done : List (Value × Value)) :
    formEntries (e :: es) done = form e.1 >>= fun key => if key.isKey then
      form e.2 >>= fun value => formEntries es (putEntry done key value) else refuse := by
  rw [formEntries]
  refine congrArg _ (funext fun key => ?_)
  cases key.isKey <;> rfl

theorem formEntries_append (es es' : List (Nat × Nat)) (done : List (Value × Value)) :
    formEntries (es ++ es') done = formEntries es done >>= formEntries es' := by
  induction es generalizing done with
  | nil => rfl
  | cons e es ih =>
    rw [List.cons_append, formEntries_cons, formEntries_cons, bind_assoc]
    refine congrArg _ (funext fun key => ?_)
    cases key.isKey with
    | false => rfl
    | true => simp only [ih, bind_assoc, if_true]

/-- Entries are put behind those of any mapping in the same way. -/
theorem formEntries_eq_ok {r : List (Value × Value)} (h : formEntries es done s = .ok (r, t)) :
    ∃ new, r = putAll done new ∧ ∀ done', formEntries es done' s = .ok (putAll done' new, t) := by
  induction es generalizing done s with
  | nil =>
    cases h
    exact ⟨[], rfl, fun _ => rfl⟩
  | cons e es ih =>
    rw [formEntries_cons] at h
    obtain ⟨key, s₁, hkey, h⟩ := run_bind_eq_ok.mp h
    cases hisKey : key.isKey with
    | false =>
      rw [hisKey] at h
      cases h
    | true =>
      rw [hisKey, if_pos rfl] at h
      obtain ⟨value, s₂, hvalue, h⟩ := run_bind_eq_ok.mp h
      obtain ⟨new, rfl, hnew⟩ := ih h
      refine ⟨(key, value) :: new, rfl, fun done' => ?_⟩
      rw [formEntries_cons, run_bind_of_ok hkey, hisKey, if_pos rfl, run_bind_of_ok hvalue, hnew]
      rfl

/-! ## Mappings that merge no others -/

/-- The keys of some entries are there, and none of them merges other mappings. -/
def Unmerged (nodes : Table Nat Node) (es : List (Nat × Nat)) : Prop :=
  ∀ e ∈ es, ∃ node, Table.get? nodes e.1 = some node ∧ node.tag ≠ .merge

theorem splitAtTag_of_unmerged (h : Unmerged s.nodes es) :
    splitAtTag .merge es s = .ok (none, s) := by
  induction es with
  | nil => rfl
  | cons e es ih =>
    obtain ⟨node, hnode, htag⟩ := h e List.mem_cons_self
    have hhas : hasTag .merge e.1 s = .ok (false, s) := by
      unfold hasTag
      rw [run_bind_of_ok (nodeOf_eq_ok.mpr ⟨hnode, rfl⟩), decide_eq_false htag]
      rfl
    rw [splitAtTag, run_bind_of_ok hhas]
    change (splitAtTag .merge es >>= _) s = _
    rw [run_bind_of_ok (ih fun x hx => h x (List.mem_cons_of_mem _ hx))]
    rfl

theorem flattened_unmerged {id : Nat} {tag : Tag}
    (hnode : Table.get? s.nodes id = some ⟨tag, .mapping es⟩) (h : Unmerged s.nodes es)
    (fuel : Nat) : flattened (fuel + 2) id s = (unmarkDefaults es >>= fun _ => pure es) s := by
  have hentries : entriesOf id s = .ok (es, s) := by
    unfold entriesOf
    rw [run_bind_of_ok (nodeOf_eq_ok.mpr ⟨hnode, rfl⟩)]
    rfl
  have htake : takeMerged (fuel + 1) id s = .ok ([], s) := by
    rw [takeMerged_succ, bind_assoc, run_bind_of_ok hentries,
      run_bind_of_ok (splitAtTag_of_unmerged h)]
    rfl
  rw [flattened_succ, run_bind_of_ok htake, run_bind_of_ok hentries]
  rfl

/-- A mapping that merges no others is entered by forming its entries. -/
theorem enter_unmerged {id : Nat} (hnode : Table.get? s.nodes id = some ⟨.mapping, .mapping es⟩)
    (h : Unmerged s.nodes es) :
    enter id s = (unmarkDefaults es >>= fun _ => Cell.mapping <$> formEntries es []) s := by
  obtain ⟨fuel, hfuel⟩ : ∃ fuel, (extent s.nodes + 2) * (extent s.nodes + 2) = fuel + 2 := by
    refine ⟨(extent s.nodes + 2) * (extent s.nodes + 2) - 2, ?_⟩
    have hle : 2 * 1 ≤ (extent s.nodes + 2) * (extent s.nodes + 2) :=
      Nat.mul_le_mul (by omega) (by omega)
    omega
  have hget : (get : Form Formation) s = .ok (s, s) := rfl
  have hmerged : mergedEntries id s = (unmarkDefaults es >>= fun _ => pure es) s := by
    unfold mergedEntries
    rw [run_bind_of_ok hget, hfuel, flattened_unmerged hnode h]
  unfold enter
  rw [run_bind_of_ok (nodeOf_eq_ok.mpr ⟨hnode, rfl⟩)]
  change (mergedEntries id >>= fun entries => formEntries entries [] >>= fun r =>
    pure (Cell.mapping r)) s = _
  have hrun : (mergedEntries id >>= fun entries => formEntries entries [] >>= fun r =>
      pure (Cell.mapping r)) s = ((unmarkDefaults es >>= fun _ => pure es) >>= fun entries =>
        formEntries entries [] >>= fun r => pure (Cell.mapping r)) s := by
    change (mergedEntries id s >>= _) = ((unmarkDefaults es >>= fun _ => pure es) s >>= _)
    rw [hmerged]
  rw [hrun, bind_assoc]
  simp only [pure_bind, map_eq_pure_bind]

/-! ## The entries of a document -/

/-- The state in which the root of a document is entered. -/
def rootAt (es : List (Nat × Nat)) (nodes : Table Nat Node) : Formation :=
  ⟨(0, ⟨.mapping, .mapping es⟩) :: nodes, [(0, .ref 0)], []⟩

theorem get?_nodes_rootAt (es : List (Nat × Nat)) (nodes : Table Nat Node) {id : Nat}
    (hid : 1 ≤ id) : Table.get? (rootAt es nodes).nodes id = Table.get? nodes id := by
  change (if 0 = id then _ else Table.get? nodes id) = _
  rw [if_neg (by omega)]

theorem get?_values_rootAt (es : List (Nat × Nat)) (nodes : Table Nat Node) {id : Nat}
    (hid : 1 ≤ id) : Table.get? (rootAt es nodes).values id = none := by
  change (if 0 = id then _ else Table.get? ([] : Table Nat Value) id) = _
  rw [if_neg (by omega)]
  rfl

/-- On their own, some entries of a document have these values, with collections under them. None
of them merges other mappings. -/
structure Formed (es : List (Nat × Nat)) (nodes : Table Nat Node) (top : List (Value × Value))
    (cells : Table Nat Cell) : Prop where
  unmerged : Unmerged nodes es
  formed : ∃ s t, unmarkDefaults es (rootAt es nodes) = .ok ((), s) ∧
    formEntries es [] s = .ok (top, t) ∧ Enters t cells

theorem unmerged_rootAt {nodes : Table Nat Node} (hpositive : PositiveEntries es)
    (h : Unmerged nodes es) : Unmerged (rootAt es nodes).nodes es := fun e he => by
  obtain ⟨node, hnode, htag⟩ := h e he
  exact ⟨node, (get?_nodes_rootAt es nodes (hpositive e he).1).trans hnode, htag⟩

/-- The document of entries that merge no others. -/
theorem ofGraph_eq_ok {nodes : Table Nat Node} {doc : Document} (hpositive : PositiveEntries es)
    (h : Unmerged nodes es) :
    Document.ofGraph ⟨(0, ⟨.mapping, .mapping es⟩) :: nodes, some 0⟩ = .ok doc ↔
      ∃ top cells, Formed es nodes top cells ∧ doc = ⟨(0, .mapping top) :: cells, .ref 0⟩ := by
  let g : Formation := { rootAt es nodes with waiting := [0] }
  have hdocument : Document.ofGraph ⟨(0, ⟨.mapping, .mapping es⟩) :: nodes, some 0⟩ =
      (fun r => ⟨r.1, .ref 0⟩) <$> enterAll (nodes.length + 1) g := by
    have hform : form 0 ⟨(0, ⟨.mapping, .mapping es⟩) :: nodes, [], []⟩ = .ok (.ref 0, g) := rfl
    change Prod.fst <$> (form 0 >>= fun root => enterAll (nodes.length + 1) >>= fun cells =>
      pure (Document.mk cells root)) ⟨(0, ⟨.mapping, .mapping es⟩) :: nodes, [], []⟩ = _
    rw [run_bind_of_ok hform]
    change Prod.fst <$> (enterAll (nodes.length + 1) g >>= _) = _
    cases enterAll (nodes.length + 1) g <;> rfl
  have hroot : Table.get? (rootAt es nodes).nodes 0 = some ⟨.mapping, .mapping es⟩ := rfl
  have henter := enter_unmerged hroot (unmerged_rootAt hpositive h)
  have hwaits : Waits [] g := by
    refine ⟨by simp [g], fun id hid => ?_, fun id hid => ?_⟩ <;>
      obtain rfl : id = 0 := by simpa [g] using hid
    · rfl
    · exact List.mem_cons_self
  rw [hdocument]
  refine ⟨fun hrun => ?_, fun ⟨top, cells, hformed, hdoc⟩ => ?_⟩
  · obtain ⟨⟨all, u⟩, hall, rfl⟩ := map_eq_ok.mp hrun
    cases enters_of_enterAll hall hwaits (by simp [g, rootAt]) with
    | done hnil => cases hnil
    | next hwaiting hcell hrest =>
      obtain ⟨rfl, rfl⟩ := List.cons.inj hwaiting
      change enter 0 (rootAt es nodes) = _ at hcell
      rw [henter] at hcell
      obtain ⟨_, s₁, hunmark, hcell⟩ := run_bind_eq_ok.mp hcell
      rw [map_eq_pure_bind] at hcell
      obtain ⟨top, t₁, hentries, hpure⟩ := run_bind_eq_ok.mp hcell
      cases hpure
      exact ⟨top, _, ⟨h, s₁, _, hunmark, hentries, hrest⟩, rfl⟩
  · obtain ⟨s₁, t₁, hunmark, hentries, hrest⟩ := hformed.formed
    have hcell : enter 0 (rootAt es nodes) = .ok (.mapping top, t₁) := by
      rw [henter, run_bind_of_ok hunmark, map_eq_pure_bind, run_bind_of_ok hentries]
      rfl
    have henters : Enters g ((0, .mapping top) :: cells) := .next rfl hcell hrest
    have hlength : ((0, Cell.mapping top) :: cells).length ≤ nodes.length + 1 := by
      simpa [g, rootAt] using henters.length_le hwaits
    obtain ⟨u, hu⟩ := henters.enterAll hlength
    rw [hu, hdoc]
    rfl

/-! ## Entries one behind the other -/

theorem get?_append_of_none {α : Type} {t t' : Table Nat α} {k : Nat} (h : Table.get? t k = none) :
    Table.get? (t ++ t') k = Table.get? t' k := by
  induction t with
  | nil => rfl
  | cons e t ih =>
    rw [Table.get?_cons] at h
    split at h
    · cases h
    · rename_i hne
      rw [List.cons_append, Table.get?_cons, if_neg hne, ih h]

theorem get?_append_of_some {α : Type} {t t' : Table Nat α} {k : Nat} {a : α}
    (h : Table.get? t k = some a) : Table.get? (t ++ t') k = some a := by
  induction t with
  | nil => cases h
  | cons e t ih =>
    rw [Table.get?_cons] at h
    rw [List.cons_append, Table.get?_cons]
    split at h
    · rename_i heq
      rw [if_pos heq, h]
    · rename_i hne
      rw [if_neg hne, ih h]

theorem get?_shiftNodes (d : Nat) (nodes : Table Nat Node) (k : Nat) :
    Table.get? (shiftNodes d nodes) (k + d) = (Table.get? nodes k).map (Node.map (· + d)) := by
  induction nodes with
  | nil => rfl
  | cons e nodes ih =>
    rw [shiftNodes, List.map_cons, ← shiftNodes, Table.get?_cons, Table.get?_cons]
    by_cases heq : e.1 = k
    · rw [if_pos heq, if_pos (by rw [heq])]
      rfl
    · rw [if_neg heq, if_neg (by simpa using heq), ih]

theorem get?_shiftNodes_of_lt {d k : Nat} {nodes : Table Nat Node} (hids : ∀ e ∈ nodes, 1 ≤ e.1)
    (h : k ≤ d) : Table.get? (shiftNodes d nodes) k = none := by
  refine (Table.get?_eq_none_iff _ _).mpr fun hmem => ?_
  obtain ⟨e, he, rfl⟩ := List.mem_map.mp hmem
  obtain ⟨e', he', rfl⟩ := List.mem_map.mp he
  have hpos := hids e' he'
  dsimp only at h
  omega

variable {ts us : List Token} {nodes nodes' : Table Nat Node} {count count' : Nat}
  {top top' : List (Value × Value)} {cells cells' : Table Nat Cell}

/-- Entries of a document in a greater one. -/
theorem holds_rootAt (h : Compose.Facts ts es nodes count) {d : Nat} {w : Formation}
    (hnodes : ∀ id, 1 ≤ id → id < count →
      Table.get? w.nodes (id + d) = (Table.get? nodes id).map (Node.map (· + d)))
    (hvalues : ∀ id, 1 ≤ id → id < count → Table.get? w.values (id + d) = none) :
    Holds ⟨1, count, d⟩ (rootAt es nodes) w := by
  refine ⟨fun id hid hid' => ?_, fun id hid hid' => ?_, fun id node hnode => ?_, fun id v hv => ?_,
    fun id node hid hnode => ?_, fun id v hid hv => ?_⟩
  · rw [get?_nodes_rootAt es nodes hid, hnodes id hid hid']
  · rw [get?_values_rootAt es nodes hid, hvalues id hid hid']
    rfl
  · rcases Nat.eq_zero_or_pos id with rfl | hpos
    · exact h.count
    · rw [get?_nodes_rootAt es nodes hpos] at hnode
      exact (h.ids _ (Table.mem_of_get? hnode)).2
  · rcases Nat.eq_zero_or_pos id with rfl | hpos
    · exact h.count
    · rw [get?_values_rootAt es nodes hpos] at hv
      cases hv
  · rw [get?_nodes_rootAt es nodes hid] at hnode
    exact h.refs _ (Table.mem_of_get? hnode)
  · rw [get?_values_rootAt es nodes hid] at hv
    cases hv

theorem node_map_add_zero (nodes : Table Nat Node) (id : Nat) :
    (Table.get? nodes id).map (Node.map (· + 0)) = Table.get? nodes id := by
  have hshift := get?_shiftNodes 0 nodes id
  rw [Compose.shiftNodes_zero] at hshift
  exact hshift.symm

theorem extent_cons (id : Nat) (node : Node) (nodes : Table Nat Node) :
    extent ((id, node) :: nodes) = extent nodes + width node + 1 := by
  rw [extent_eq, extent_eq, List.length_cons, List.map_cons, List.sum_cons]
  dsimp only
  omega

theorem extent_rootAt (es : List (Nat × Nat)) (nodes : Table Nat Node) :
    extent (rootAt es nodes).nodes = extent nodes + es.length + 1 := by
  rw [rootAt, extent_cons]
  rfl

theorem extent_shiftNodes_append (d : Nat) (nodes nodes' : Table Nat Node) :
    extent (shiftNodes d nodes' ++ nodes) = extent nodes' + extent nodes := by
  have hwidths : (shiftNodes d nodes').map (fun e => width e.2) =
      nodes'.map fun e => width e.2 := by
    simp [shiftNodes, width_map]
  rw [extent_eq, extent_eq, extent_eq, List.map_append, hwidths, List.sum_append,
    List.length_append, shiftNodes, List.length_map]
  omega

theorem apart_append (count count' : Nat) (hcount : 1 ≤ count) :
    Span.Apart ⟨1, count, 0⟩ ⟨1, count', count - 1⟩ := fun j hj => by
  rw [Span.has_iff] at hj
  rw [Span.has_eq_false, Span.Misses]
  dsimp only at hj ⊢
  omega

theorem get?_nodes_left (h : Compose.Facts us es' nodes' count') {id : Nat} (hid : id < count) :
    Table.get? (shiftNodes (count - 1) nodes' ++ nodes) id = Table.get? nodes id :=
  get?_append_of_none (get?_shiftNodes_of_lt (fun e he => (h.ids e he).1) (by omega))

theorem get?_nodes_right (h : Compose.Facts ts es nodes count) {id : Nat} (hid : 1 ≤ id) :
    Table.get? (shiftNodes (count - 1) nodes' ++ nodes) (id + (count - 1)) =
      (Table.get? nodes' id).map (Node.map (· + (count - 1))) := by
  cases hnode : Table.get? nodes' id with
  | some node =>
    refine get?_append_of_some ?_
    rw [get?_shiftNodes, hnode]
    rfl
  | none =>
    rw [get?_append_of_none (by rw [get?_shiftNodes, hnode]; rfl)]
    refine (Table.get?_eq_none_iff _ _).mpr fun hmem => ?_
    obtain ⟨e, he, heq⟩ := List.mem_map.mp hmem
    have hlt := (h.ids e he).2
    have hpos := h.count
    omega

/-- The documents of entries in that of the entries one behind the other. -/
theorem joined_append (h : Compose.Facts ts es nodes count)
    (h' : Compose.Facts us es' nodes' count') :
    Joined ⟨1, count, 0⟩ ⟨1, count', count - 1⟩ (rootAt es nodes) (rootAt es' nodes')
      (rootAt (es ++ renumber (· + (count - 1)) es') (shiftNodes (count - 1) nodes' ++ nodes)) := by
  refine ⟨holds_rootAt h (fun id hid hid' => ?_)
      (fun id hid _ => get?_values_rootAt _ _ (by omega)),
    holds_rootAt h' (fun id hid _ => ?_) (fun id hid _ => get?_values_rootAt _ _ (by omega)),
    rfl, rfl, (fun j hj => by cases hj), ?_, ?_, ⟨Nat.succ_pos _, Nat.succ_pos _⟩⟩
  · rw [get?_nodes_rootAt _ _ (by omega), Nat.add_zero, get?_nodes_left h' hid', node_map_add_zero]
  · rw [get?_nodes_rootAt _ _ (by omega), get?_nodes_right h hid]
  · rw [extent_rootAt, extent_rootAt, extent_rootAt, extent_shiftNodes_append, List.length_append,
      renumber, List.length_map]
    omega
  · simp only [rootAt, shiftNodes, List.length_cons, List.length_append, List.length_map]
    omega

theorem unmerged_append (h : Unmerged nodes es) (h' : Unmerged nodes' es')
    (hfacts : Compose.Facts ts es nodes count) (hfacts' : Compose.Facts us es' nodes' count') :
    Unmerged (shiftNodes (count - 1) nodes' ++ nodes) (es ++ renumber (· + (count - 1)) es') := by
  intro e he
  rcases List.mem_append.mp he with he | he
  · obtain ⟨node, hnode, htag⟩ := h e he
    refine ⟨node, ?_, htag⟩
    rwa [get?_nodes_left hfacts' (hfacts.ids _ (Table.mem_of_get? hnode)).2]
  · obtain ⟨x, hx, rfl⟩ := List.mem_map.mp he
    obtain ⟨node, hnode, htag⟩ := h' x hx
    refine ⟨node.map (· + (count - 1)), ?_, htag⟩
    rw [get?_nodes_right hfacts (hfacts'.entries x hx).1, hnode]
    rfl

theorem mapPairs_add_zero (entries : List (Value × Value)) :
    mapPairs (· + 0) entries = entries := mapPairs_id entries

/-- Entries one behind the other have the values that they have on their own. -/
theorem Formed.append (h : Formed es nodes top cells) (h' : Formed es' nodes' top' cells')
    (hfacts : Compose.Facts ts es nodes count) (hfacts' : Compose.Facts us es' nodes' count')
    (hkeys : KeysDiffer top top') :
    ∃ all, Formed (es ++ renumber (· + (count - 1)) es') (shiftNodes (count - 1) nodes' ++ nodes)
        (top ++ mapPairs (· + (count - 1)) top') all ∧
      Renamed ⟨1, count, 0⟩ cells all ∧ Renamed ⟨1, count', count - 1⟩ cells' all := by
  have hapart := apart_append count count' hfacts.count
  have hstart := joined_append hfacts hfacts'
  obtain ⟨a₁, a₂, hunmark, hentries, henters⟩ := h.formed
  obtain ⟨b₁, b₂, hunmark', hentries', henters'⟩ := h'.formed
  have hlow : Low ⟨1, count, 0⟩ es := hfacts.entries
  have hlow' : Low ⟨1, count', count - 1⟩ es' := hfacts'.entries
  have hnil (q : Span) : InsidePairs q [] := fun e he => by cases he
  have hkeyed : Keyed [] := fun e he => by cases he
  obtain ⟨w₁, hw₁, hjoined₁, -⟩ := hstart.run hapart (tracks_unmarkDefaults hlow) hunmark
  obtain ⟨w₂, hw₂, hjoined₂, -⟩ :=
    hjoined₁.symm.run hapart.symm (tracks_unmarkDefaults hlow') hunmark'
  obtain ⟨w₃, hw₃, hjoined₃, -⟩ :=
    hjoined₂.symm.run hapart (tracks_formEntries hlow (hnil _) hkeyed) hentries
  obtain ⟨w₄, hw₄, hjoined₄, -⟩ :=
    hjoined₃.symm.run hapart.symm (tracks_formEntries hlow' (hnil _) hkeyed) hentries'
  obtain ⟨all, hall, -, hrenamed, hrenamed'⟩ := hjoined₄.symm.enters hapart henters henters'
  dsimp only at hw₁ hw₂ hw₃ hw₄
  rw [Compose.renumber_add_zero] at hw₁ hw₃
  rw [mapPairs_add_zero, mapPairs_add_zero] at hw₃
  obtain ⟨new, hnew, hbehind⟩ := formEntries_eq_ok hw₄
  have hbehind' := hbehind top
  have hput : putAll (top ++ []) new = top ++ putAll [] new := by
    refine putAll_append fun e he e' he' => ?_
    have hmem : e' ∈ mapPairs (· + (count - 1)) top' := by rw [hnew]; exact he'
    obtain ⟨x, hx, rfl⟩ := List.mem_map.mp hmem
    have hdiffers := hkeys e he x hx id (· + (count - 1))
    rwa [map_id] at hdiffers
  rw [List.append_nil] at hput
  rw [hput, ← show mapPairs (· + (count - 1)) top' = putAll [] new from hnew] at hbehind'
  refine ⟨all, ⟨unmerged_append h.unmerged h'.unmerged hfacts hfacts', w₂, w₄, ?_, ?_, hall⟩,
    hrenamed, hrenamed'⟩
  · rw [unmarkDefaults_append, run_bind_of_ok hw₁, hw₂]
  · rw [formEntries_append, run_bind_of_ok hw₃, hbehind']

/-! ## A mapping below a key -/

/-- A part without nodes. -/
def Span.none : Span := ⟨1, 1, 0⟩

theorem apart_none (p : Span) : p.Apart Span.none := fun j _ => by
  rw [Span.has_eq_false, Span.Misses, Span.none]
  dsimp only
  omega

/-- A part of a document in which no other collections wait. -/
theorem joined_alone {a w : Formation} (h : Holds p a w) (ha : a.waiting = []) (hw : w.waiting = [])
    (hextent : extent a.nodes ≤ extent w.nodes) (hlength : a.nodes.length ≤ w.nodes.length)
    (hpresent : 1 ≤ a.nodes.length) :
    Joined p Span.none a ⟨[(0, ⟨.null, .scalar ""⟩)], [], []⟩ w := by
  refine ⟨h, ⟨fun id hid hid' => ?_, fun id hid hid' => ?_, fun id node hnode => ?_,
    (fun id v hv => by cases hv), fun id node hid hnode => ?_, (fun id v _ hv => by cases hv)⟩,
    by rw [ha, hw]; rfl, by rw [hw]; rfl, (fun j hj => by rw [hw] at hj; cases hj),
    Nat.add_le_add_right hextent 1, Nat.add_le_add_right hlength 1, hpresent, Nat.le_refl 1⟩
  · exact absurd hid (Nat.not_le.mpr hid')
  · exact absurd hid (Nat.not_le.mpr hid')
  · have hmem := Table.mem_of_get? hnode
    obtain rfl : id = 0 := congrArg Prod.fst (List.mem_singleton.mp hmem)
    exact Nat.one_pos
  · have hmem := Table.mem_of_get? hnode
    obtain rfl : id = 0 := congrArg Prod.fst (List.mem_singleton.mp hmem)
    exact absurd hid (by decide)

/-- The nodes of a key with a mapping of some entries below it. -/
def nodesBelow (name : String) (es : List (Nat × Nat)) (nodes : Table Nat Node) : Table Nat Node :=
  (2, ⟨.mapping, .mapping (renumber (· + 2) es)⟩) ::
    (shiftNodes 2 nodes ++ [(1, Compose.keyNode name)])

theorem get?_nodesBelow (h : Compose.Facts ts es nodes count) (name : String) :
    Table.get? (nodesBelow name es nodes) 1 = some (Compose.keyNode name) ∧
      ∀ id, 1 ≤ id → Table.get? (nodesBelow name es nodes) (id + 2) =
        (Table.get? nodes id).map (Node.map (· + 2)) := by
  have hids : ∀ e ∈ nodes, 1 ≤ e.1 := fun e he => (h.ids e he).1
  refine ⟨?_, fun id hid => ?_⟩
  · change (if 2 = 1 then _ else _) = _
    rw [if_neg (by decide), get?_append_of_none (get?_shiftNodes_of_lt hids (by decide))]
    rfl
  · change (if 2 = id + 2 then _ else _) = _
    rw [if_neg (by omega)]
    cases hnode : Table.get? nodes id with
    | some node =>
      refine get?_append_of_some ?_
      rw [get?_shiftNodes, hnode]
      rfl
    | none =>
      rw [get?_append_of_none (by rw [get?_shiftNodes, hnode]; rfl)]
      change (if 1 = id + 2 then _ else _) = _
      rw [if_neg (by omega)]
      rfl

theorem form_text {id : Nat} {name : String} (hvalue : Table.get? s.values id = none)
    (hnode : Table.get? s.nodes id = some ⟨.text, .scalar name⟩) :
    form id s = .ok (.string name, { s with values := (id, .string name) :: s.values }) := by
  have hget : (get : Form Formation) s = .ok (s, s) := rfl
  have htext (fuel : Nat) : textOf (fuel + 1) id s = .ok (name, s) := by
    rw [textOf, run_bind_of_ok (nodeOf_eq_ok.mpr ⟨hnode, rfl⟩)]
    rfl
  have hnew : formNew id s = .ok (.string name, s) := by
    unfold formNew
    rw [run_bind_of_ok (nodeOf_eq_ok.mpr ⟨hnode, rfl⟩), run_bind_of_ok hget]
    change (textOf (s.nodes.length + 1) id >>= _) s = _
    rw [run_bind_of_ok (htext _)]
    rfl
  rw [form_of_none hvalue, run_bind_of_ok hnew]
  rfl

theorem form_mapping {id : Nat} {content : Content} (hvalue : Table.get? s.values id = none)
    (hnode : Table.get? s.nodes id = some ⟨.mapping, content⟩) :
    form id s = .ok (.ref id,
      { s with values := (id, .ref id) :: s.values, waiting := s.waiting ++ [id] }) := by
  have hget : (get : Form Formation) s = .ok (s, s) := rfl
  have hnew : formNew id s = .ok (.ref id, { s with waiting := s.waiting ++ [id] }) := by
    unfold formNew
    rw [run_bind_of_ok (nodeOf_eq_ok.mpr ⟨hnode, rfl⟩), run_bind_of_ok hget]
    rfl
  rw [form_of_none hvalue, run_bind_of_ok hnew]
  rfl

/-- The state in which the mapping below a key is entered. -/
def belowAt (name : String) (es : List (Nat × Nat)) (nodes : Table Nat Node) : Formation :=
  ⟨(rootAt [(1, 2)] (nodesBelow name es nodes)).nodes,
    [(2, .ref 2), (1, .string name), (0, .ref 0)], []⟩

theorem get?_key_nodesBelow (h : Compose.Facts ts es nodes count) {name : String}
    (hname : Tag.ofPlain name = .text) :
    Table.get? (nodesBelow name es nodes) 1 = some ⟨.text, .scalar name⟩ := by
  rw [(get?_nodesBelow h name).1, Compose.keyNode, hname]

/-- The key is formed on the way; the mapping below it is left to be entered. -/
theorem formEntries_nodesBelow (h : Compose.Facts ts es nodes count) {name : String}
    (hname : Tag.ofPlain name = .text) :
    unmarkDefaults [(1, 2)] (rootAt [(1, 2)] (nodesBelow name es nodes)) =
        .ok ((), rootAt [(1, 2)] (nodesBelow name es nodes)) ∧
      formEntries [(1, 2)] [] (rootAt [(1, 2)] (nodesBelow name es nodes)) =
        .ok ([(.string name, .ref 2)], { belowAt name es nodes with waiting := [2] }) := by
  let start := rootAt [(1, 2)] (nodesBelow name es nodes)
  have hkey : Table.get? start.nodes 1 = some ⟨.text, .scalar name⟩ :=
    (get?_nodes_rootAt _ _ (Nat.le_refl 1)).trans (get?_key_nodesBelow h hname)
  have hmapping : Table.get? start.nodes 2 = some ⟨.mapping, .mapping (renumber (· + 2) es)⟩ := rfl
  have hvalue : Table.get? start.values 1 = none := rfl
  have hvalue' : Table.get? ((1, Value.string name) :: start.values) 2 = none := rfl
  have hsecond := form_mapping (s := { start with values := (1, .string name) :: start.values })
    hvalue' hmapping
  refine ⟨?_, ?_⟩
  · rw [unmarkDefaults, run_bind_of_ok (nodeOf_eq_ok.mpr ⟨hkey, rfl⟩)]
    rfl
  · rw [formEntries_cons, run_bind_of_ok (form_text hvalue hkey)]
    change (form 2 >>= _) _ = _
    rw [run_bind_of_ok hsecond]
    rfl

theorem unmerged_belowAt (h : Unmerged nodes es) (hfacts : Compose.Facts ts es nodes count)
    (name : String) : Unmerged (belowAt name es nodes).nodes (renumber (· + 2) es) := fun e he => by
  obtain ⟨x, hx, rfl⟩ := List.mem_map.mp he
  obtain ⟨node, hnode, htag⟩ := h x hx
  refine ⟨node.map (· + 2), ?_, htag⟩
  change Table.get? (rootAt [(1, 2)] (nodesBelow name es nodes)).nodes (x.1 + 2) = _
  rw [get?_nodes_rootAt _ _ (by omega), (get?_nodesBelow hfacts name).2 _ (hfacts.entries x hx).1,
    hnode]
  rfl

theorem holds_belowAt (h : Compose.Facts ts es nodes count) (name : String) :
    Holds ⟨1, count, 2⟩ (rootAt es nodes) (belowAt name es nodes) :=
  holds_rootAt h
    (fun id hid _ =>
      (get?_nodes_rootAt _ _ (by omega)).trans ((get?_nodesBelow h name).2 id hid))
    fun id hid _ => by
      change (if 2 = id + 2 then _ else if 1 = id + 2 then _ else if 0 = id + 2 then _ else _) = _
      rw [if_neg (by omega), if_neg (by omega), if_neg (by omega)]
      rfl

theorem extent_belowAt (name : String) (es : List (Nat × Nat)) (nodes : Table Nat Node) :
    extent (rootAt es nodes).nodes ≤ extent (belowAt name es nodes).nodes := by
  have hextent : extent (belowAt name es nodes).nodes = extent (nodesBelow name es nodes) + 1 + 1 :=
    extent_rootAt [(1, 2)] (nodesBelow name es nodes)
  have hbelow : extent (nodesBelow name es nodes) = _ :=
    extent_cons 2 ⟨.mapping, .mapping (renumber (· + 2) es)⟩ _
  rw [extent_rootAt, hextent, hbelow, extent_shiftNodes_append]
  simp only [width, renumber, List.length_map]
  omega

/-- Some entries as they stand below a key, where no other collections wait. -/
theorem joined_belowAt (h : Compose.Facts ts es nodes count) (name : String) :
    Joined ⟨1, count, 2⟩ Span.none (rootAt es nodes) ⟨[(0, ⟨.null, .scalar ""⟩)], [], []⟩
      (belowAt name es nodes) := by
  refine joined_alone (holds_belowAt h name) rfl rfl (extent_belowAt name es nodes) ?_
    (Nat.succ_pos _)
  simp only [belowAt, rootAt, nodesBelow, shiftNodes, List.length_cons, List.length_append,
    List.length_map]
  omega

/-- The entries below a key have the values that they have on their own. -/
theorem Formed.below (h : Formed es nodes top cells) (hfacts : Compose.Facts ts es nodes count)
    {name : String} (hname : Tag.ofPlain name = .text) :
    ∃ all, Formed [(1, 2)] (nodesBelow name es nodes) [(.string name, .ref 2)] all ∧
      Table.get? all 2 = some (.mapping (mapPairs (· + 2) top)) ∧
      Renamed ⟨1, count, 2⟩ cells all := by
  obtain ⟨hunmarked, hentries⟩ := formEntries_nodesBelow hfacts hname
  obtain ⟨a₁, a₂, hunmark, hformed, henters⟩ := h.formed
  have hlow : Low ⟨1, count, 2⟩ es := hfacts.entries
  have hapart := apart_none ⟨1, count, 2⟩
  obtain ⟨w₁, hw₁, hjoined₁, -⟩ :=
    (joined_belowAt hfacts name).run hapart (tracks_unmarkDefaults hlow) hunmark
  obtain ⟨w₂, hw₂, hjoined₂, -⟩ := hjoined₁.run hapart
    (tracks_formEntries hlow (fun e he => by cases he) (fun e he => by cases he)) hformed
  obtain ⟨all, hall, -, hrenamed, -⟩ := hjoined₂.enters hapart henters (.done rfl)
  have hmapping : Table.get? (belowAt name es nodes).nodes 2 =
      some ⟨.mapping, .mapping (renumber (· + 2) es)⟩ := rfl
  have hcell : enter 2 (belowAt name es nodes) = .ok (.mapping (mapPairs (· + 2) top), w₂) := by
    rw [enter_unmerged hmapping (unmerged_belowAt h.unmerged hfacts name), run_bind_of_ok hw₁,
      map_eq_pure_bind]
    exact run_bind_of_ok hw₂ _
  refine ⟨(2, .mapping (mapPairs (· + 2) top)) :: all,
    ⟨fun e he => ?_, _, _, hunmarked, hentries, .next rfl hcell hall⟩, rfl,
    hrenamed.cons_apart ?_ _⟩
  · obtain rfl := List.mem_singleton.mp he
    exact ⟨_, get?_key_nodesBelow hfacts hname, Tag.noConfusion⟩
  · rw [Span.has_eq_false, Span.Misses]
    exact .inl (by dsimp only; omega)

/-- A key with nothing behind its colon. -/
theorem formed_bare {name : String} (hname : Tag.ofPlain name = .text) :
    Formed [(1, 2)] [(2, ⟨.null, .scalar ""⟩), (1, Compose.keyNode name)] [(.string name, .null)]
      [] := by
  have hkeyNode : Compose.keyNode name = ⟨.text, .scalar name⟩ := by
    unfold Compose.keyNode
    rw [hname]
  rw [hkeyNode]
  let start := rootAt [(1, 2)] [(2, ⟨.null, .scalar ""⟩), (1, ⟨.text, .scalar name⟩)]
  have hkey : Table.get? start.nodes 1 = some ⟨.text, .scalar name⟩ := rfl
  have hunmarked : unmarkDefaults [(1, 2)] start = .ok ((), start) := rfl
  have hvalue : Table.get? start.values 1 = none := rfl
  have hentries : ∃ t, formEntries [(1, 2)] [] start = .ok ([(.string name, .null)], t) ∧
      t.waiting = [] := by
    rw [formEntries_cons, run_bind_of_ok (form_text hvalue hkey)]
    exact ⟨_, rfl, rfl⟩
  obtain ⟨t, hentries, hwaiting⟩ := hentries
  refine ⟨fun e he => ?_, start, t, hunmarked, hentries, .done hwaiting⟩
  obtain rfl := List.mem_singleton.mp he
  exact ⟨_, rfl, Tag.noConfusion⟩

/-- The values of some entries refer to collections under them alone. -/
theorem Formed.inside (h : Formed es nodes top cells) (hfacts : Compose.Facts ts es nodes count) :
    InsidePairs ⟨1, count, 0⟩ top ∧ Renamed ⟨1, count, 0⟩ cells cells := by
  have hroot : Holds ⟨1, count, 0⟩ (rootAt es nodes) (rootAt es nodes) := by
    refine holds_rootAt hfacts (fun id hid _ => ?_) fun id hid _ => ?_
    · rw [node_map_add_zero, Nat.add_zero, get?_nodes_rootAt es nodes hid]
    · rw [Nat.add_zero, get?_values_rootAt es nodes hid]
  have hjoined := joined_alone hroot rfl rfl (Nat.le_refl _) (Nat.le_refl _) (Nat.succ_pos _)
  have hlow : Low ⟨1, count, 0⟩ es := hfacts.entries
  have hapart := apart_none ⟨1, count, 0⟩
  obtain ⟨a₁, a₂, hunmark, hformed, henters⟩ := h.formed
  obtain ⟨w₁, -, hjoined₁, -⟩ := hjoined.run hapart (tracks_unmarkDefaults hlow) hunmark
  obtain ⟨w₂, -, hjoined₂, hinside, -⟩ := hjoined₁.run hapart
    (tracks_formEntries hlow (fun e he => by cases he) (fun e he => by cases he)) hformed
  obtain ⟨all, -, -, hrenamed, -⟩ := hjoined₂.enters hapart henters (.done rfl)
  refine ⟨hinside, fun j _ _ => ?_, hrenamed.inside⟩
  change Table.get? cells j = (Table.get? cells j).map (Cell.map id)
  rw [funext cell_map_id, Option.map_id']

/-- A part of a part of a document. -/
theorem Renamed.trans {p q : Span} {cells'' : Table Nat Cell} (h : Renamed p cells cells')
    (h' : Renamed q cells' cells'') (hlow : q.low ≤ p.low + p.shift)
    (hhigh : p.high + p.shift ≤ q.high) :
    Renamed ⟨p.low, p.high, p.shift + q.shift⟩ cells cells'' := by
  refine ⟨fun id hid hid' => ?_, h.inside⟩
  dsimp only at hid hid' ⊢
  rw [← Nat.add_assoc, h'.moved (id + p.shift) (by omega) (by omega), h.moved id hid hid',
    Option.map_map]
  refine congrArg (Option.map · (Table.get? cells id)) (funext fun cell => ?_)
  rw [Function.comp_apply, cell_map_map]
  exact congrArg (Cell.map · cell) (funext fun j => Nat.add_assoc j _ _)

end Form
end PubspecTidy.Yaml
