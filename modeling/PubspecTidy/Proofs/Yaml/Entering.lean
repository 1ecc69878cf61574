import PubspecTidy.Proofs.Yaml.Forming

/-!
# Entering the collections of a part of a document

Main statements: the value of a node and the content of a collection are the same among other
nodes as in the part alone, and so are all the collections of the part, whatever collections of
other parts are entered between them.
-/
namespace PubspecTidy.Yaml

theorem readFloat_map (f : Nat → Nat) (id : Nat) (text : String) :
    Scalar.readFloat (f id) text = Value.map f <$> Scalar.readFloat id text := by
  unfold Scalar.readFloat
  cases Scalar.takeSign (Text.lowerList [] (Scalar.dropUnderscores text.toList)) with
  | error e => rfl
  | ok r =>
    obtain ⟨negative, cs⟩ := r
    change (if String.ofList cs == Scalar.nanWord then _ else _) = _ <$> (if _ then _ else _)
    split
    · rfl
    · cases Scalar.readDouble negative cs with
      | error e => rfl
      | ok x => cases x <;> rfl

theorem readStamp_map (f : Nat → Nat) (id : Nat) (text : String) :
    Scalar.readStamp (f id) text = Value.map f <$> Scalar.readStamp id text := by
  unfold Scalar.readStamp
  cases Plain.readStamp? (dropFinalBreak text.toList) with
  | none => rfl
  | some t =>
    dsimp only
    cases t.clock with
    | none =>
      simp only [map_bind, map_pure]
      rfl
    | some clock =>
      obtain ⟨h, m, s⟩ := clock
      cases t.offset with
      | none =>
        simp only [map_bind, map_pure]
        rfl
      | some o =>
        simp only [map_bind, map_pure]
        rfl

theorem refs_readFloat {id : Nat} {text : String} {v : Value}
    (h : Scalar.readFloat id text = .ok v) : v.refs = [] := by
  obtain ⟨⟨negative, cs⟩, -, h⟩ := bind_eq_ok.mp h
  dsimp only at h
  split at h
  · cases h
    rfl
  · obtain ⟨x, -, h⟩ := bind_eq_ok.mp h
    cases x <;> cases h <;> rfl

theorem refs_readStamp {id : Nat} {text : String} {v : Value}
    (h : Scalar.readStamp id text = .ok v) : v.refs = [] := by
  unfold Scalar.readStamp at h
  split at h
  · cases h
  · split at h
    · obtain ⟨d, -, h⟩ := bind_eq_ok.mp h
      cases h
      rfl
    · dsimp only at h
      split at h
      all_goals
        obtain ⟨o, -, h⟩ := bind_eq_ok.mp h
        obtain ⟨d, -, h⟩ := bind_eq_ok.mp h
        obtain ⟨t, -, h⟩ := bind_eq_ok.mp h
        cases h
        rfl

namespace Form

/-- A value that refers to collections of the part alone. -/
def Inside (p : Span) (v : Value) : Prop := ∀ j ∈ v.refs, p.low ≤ j ∧ j < p.high

variable {p : Span} {fuel fuel' : Nat}

theorem inside_of_refs {v : Value} (h : v.refs = []) : Inside p v := fun j hj => by
  rw [h] at hj
  cases hj

theorem tracks_textOf (hfuel : fuel ≤ fuel') {id : Nat} (hid : p.low ≤ id) :
    Tracks p (fun _ => True) (fun s => s) (textOf fuel id) (textOf fuel' (id + p.shift)) := by
  induction fuel generalizing fuel' id with
  | zero => exact .throw _
  | succ fuel ih =>
    obtain ⟨fuel', rfl⟩ : ∃ n, fuel' = n + 1 := ⟨fuel' - 1, by omega⟩
    unfold textOf
    refine (tracks_nodeOf hid).bind fun node hnode => ?_
    obtain ⟨tag, content⟩ := node
    cases content with
    | scalar text => exact .pure trivial
    | sequence items => exact .refuse
    | mapping entries =>
      refine (tracks_splitAtTag .default (low_iff.mpr hnode.2)).bind fun found hfound => ?_
      cases found with
      | none => exact .refuse
      | some found =>
        obtain ⟨before, e, after⟩ := found
        exact ih (Nat.le_of_succ_le_succ hfuel) (hfound _ rfl).2.1.2

theorem tracks_enterLater {id : Nat} (hid : p.low ≤ id) (hhigh : id < p.high) :
    Tracks p (Inside p) (Value.map (· + p.shift)) (enterLater id) (enterLater (id + p.shift)) := by
  intro a₀ w₀ a w v a' hbeside hm
  cases hm
  obtain ⟨new, ha, hw, hnew⟩ := hbeside.waiting
  refine ⟨_, rfl, { hbeside with waiting := ⟨new ++ [id], ?_, ?_, fun j hj => ?_⟩ }, fun j hj => ?_⟩
  · change a.waiting ++ [id] = _
    rw [ha, List.append_assoc]
  · change w.waiting ++ [id + p.shift] = _
    rw [hw, List.map_append, List.append_assoc]
    rfl
  · rcases List.mem_append.mp hj with hj | hj
    · exact hnew j hj
    · obtain rfl := List.mem_singleton.mp hj
      exact ⟨hid, hhigh⟩
  · obtain rfl := List.mem_singleton.mp hj
    exact ⟨hid, hhigh⟩

theorem tracks_liftM {α : Type} (x : Except Fault α) :
    Tracks p (fun _ => True) (fun r => r) (liftM x) (liftM x) :=
  .lift (id_map x).symm fun _ _ => trivial

theorem tracks_formNew {id : Nat} (hid : p.low ≤ id) :
    Tracks p (Inside p) (Value.map (· + p.shift)) (formNew id) (formNew (id + p.shift)) := by
  unfold formNew
  refine (tracks_nodeOf hid).bind fun node hnode => tracks_get fun a w _ hlength => ?_
  have htext := tracks_textOf (p := p) (Nat.succ_le_succ hlength) hid
  obtain ⟨tag, content⟩ := node
  cases tag with
  | null => exact htext.bind fun text _ => .pure (inside_of_refs rfl)
  | bool =>
    exact htext.bind fun text _ => (tracks_liftM (Scalar.readBool text)).bind fun b _ =>
      .pure (r := .bool b) (inside_of_refs rfl)
  | int =>
    exact htext.bind fun text _ => (tracks_liftM (Scalar.readInt text)).bind fun n _ =>
      .pure (r := .int n) (inside_of_refs rfl)
  | binary =>
    exact htext.bind fun text _ => (tracks_liftM (Scalar.readBytes text)).bind fun bs _ =>
      .pure (r := .bytes bs) (inside_of_refs rfl)
  | float =>
    exact htext.bind fun text _ => .lift (readFloat_map (· + p.shift) id text) fun v hv =>
      inside_of_refs (refs_readFloat hv)
  | timestamp =>
    refine htext.bind fun text _ => ?_
    have hstamp : Tracks p (Inside p) (Value.map (· + p.shift)) (liftM (Scalar.readStamp id text))
        (liftM (Scalar.readStamp (id + p.shift) text)) :=
      .lift (readStamp_map (· + p.shift) id text) fun v hv => inside_of_refs (refs_readStamp hv)
    cases content with
    | mapping entries => exact .throw _
    | scalar text' => exact hstamp
    | sequence items => exact hstamp
  | text => exact htext.bind fun text _ => .pure (r := .string text) (inside_of_refs rfl)
  | orderedMap => exact tracks_enterLater hid hnode.1
  | pairs => exact tracks_enterLater hid hnode.1
  | set => exact tracks_enterLater hid hnode.1
  | sequence => exact tracks_enterLater hid hnode.1
  | mapping => exact tracks_enterLater hid hnode.1
  | merge => exact .refuse
  | default => exact .refuse
  | unknown => exact .refuse

theorem lt_high_of_formNew {a w a₀ w₀ a' : Formation} (hbeside : Beside p a₀ w₀ a w) {id : Nat}
    {v : Value} (h : formNew id a = .ok (v, a')) : id < p.high := by
  obtain ⟨node, a₁, hnode, -⟩ := run_bind_eq_ok.mp h
  exact hbeside.below id node (nodeOf_eq_ok.mp hnode).1

theorem tracks_keep {id : Nat} (hid : p.low ≤ id) (hhigh : id < p.high) {v : Value}
    (hv : Inside p v) : Tracks p (Inside p) (Value.map (· + p.shift)) (keep id v)
      (keep (id + p.shift) (v.map (· + p.shift))) := by
  intro a₀ w₀ a w v' a' hbeside hm
  cases hm
  refine ⟨_, rfl, { hbeside with
    values := fun j hj hj' => ?_
    formed := fun j v' hj => ?_
    held := fun j v' hj hv' => ?_
    valuesApart := fun j hj => ?_ }, hv⟩
  · change Table.get? ((id + p.shift, _) :: w.values) _ = (Table.get? ((id, v) :: a.values) _).map _
    rw [Table.get?_cons, Table.get?_cons]
    by_cases heq : id = j
    · rw [if_pos heq, if_pos (by omega)]
      rfl
    · rw [if_neg heq, if_neg (by omega)]
      exact hbeside.values j hj hj'
  · change Table.get? ((id, v) :: a.values) _ = _ at hj
    rw [Table.get?_cons] at hj
    split at hj
    · omega
    · exact hbeside.formed j v' hj
  · change Table.get? ((id, v) :: a.values) _ = _ at hv'
    rw [Table.get?_cons] at hv'
    split at hv'
    · cases hv'
      exact hv
    · exact hbeside.held j v' hj hv'
  · change (if id + p.shift = j then _ else Table.get? w.values j) = _
    rw [if_neg]
    · exact hbeside.valuesApart j hj
    · rintro rfl
      rcases hj with hj | hj <;> omega

theorem tracks_form {id : Nat} (hid : p.low ≤ id) :
    Tracks p (Inside p) (Value.map (· + p.shift)) (form id) (form (id + p.shift)) := by
  intro a₀ w₀ a w v a' hbeside hm
  cases hvalue : Table.get? a.values id with
  | some v' =>
    rw [form_of_some hvalue] at hm
    cases hm
    have hhigh := hbeside.formed id v hvalue
    have hvalue' := hbeside.values id hid hhigh
    rw [hvalue] at hvalue'
    exact ⟨w, form_of_some hvalue', hbeside, hbeside.held id v hid hvalue⟩
  | none =>
    rw [form_of_none hvalue] at hm
    obtain ⟨v', a₁, hnew, -⟩ := run_bind_eq_ok.mp hm
    have hhigh := lt_high_of_formNew hbeside hnew
    have hvalue' := hbeside.values id hid hhigh
    rw [hvalue] at hvalue'
    rw [form_of_none hvalue']
    exact ((tracks_formNew hid).bind fun v hv => tracks_keep hid hhigh hv) hbeside hm

/-! ## Collections -/

theorem tracks_formItems {ids : List Nat} (hids : ∀ id ∈ ids, p.low ≤ id) :
    Tracks p (fun vs => ∀ v ∈ vs, Inside p v) (List.map (Value.map (· + p.shift)))
      (formItems ids) (formItems (ids.map (· + p.shift))) := by
  induction ids with
  | nil => exact .pure fun v hv => by cases hv
  | cons id ids ih =>
    refine (tracks_form (hids id List.mem_cons_self)).bind fun v hv => ?_
    refine (ih fun j hj => hids j (List.mem_cons_of_mem _ hj)).bind fun vs hvs => ?_
    refine .pure fun v' hv' => ?_
    rcases List.mem_cons.mp hv' with rfl | hv'
    · exact hv
    · exact hvs v' hv'

/-- Pairs of values that refer to collections of the part alone. -/
def InsidePairs (p : Span) (entries : List (Value × Value)) : Prop :=
  ∀ e ∈ entries, Inside p e.1 ∧ Inside p e.2

theorem InsidePairs.cons {e : Value × Value} {entries : List (Value × Value)}
    (h : Inside p e.1 ∧ Inside p e.2) (hs : InsidePairs p entries) :
    InsidePairs p (e :: entries) := by
  intro x hx
  rcases List.mem_cons.mp hx with rfl | hx
  · exact h
  · exact hs x hx

theorem InsidePairs.tail {e : Value × Value} {entries : List (Value × Value)}
    (h : InsidePairs p (e :: entries)) : InsidePairs p entries := fun x hx =>
  h x (List.mem_cons_of_mem _ hx)

theorem InsidePairs.putEntry {entries : List (Value × Value)} (h : InsidePairs p entries)
    {key value : Value} (hkey : Inside p key) (hvalue : Inside p value) :
    InsidePairs p (putEntry entries key value) := by
  induction entries with
  | nil => exact .cons ⟨hkey, hvalue⟩ fun e he => by cases he
  | cons e entries ih =>
    unfold Yaml.putEntry
    split
    · exact .cons ⟨(h e List.mem_cons_self).1, hvalue⟩ h.tail
    · exact .cons (h e List.mem_cons_self) (ih h.tail)

theorem add_injective (n : Nat) : Function.Injective (· + n) := fun _ _ h => Nat.add_right_cancel h

/-- Entries whose keys are no collections. -/
def Keyed (entries : List (Value × Value)) : Prop := ∀ e ∈ entries, e.1.isKey = true

theorem Keyed.putEntry {entries : List (Value × Value)} (h : Keyed entries) {key : Value}
    (hkey : key.isKey = true) (value : Value) : Keyed (putEntry entries key value) := by
  intro x hx
  induction entries with
  | nil =>
    obtain rfl := List.mem_singleton.mp hx
    exact hkey
  | cons e entries ih =>
    have htail : Keyed entries := fun y hy => h y (List.mem_cons_of_mem _ hy)
    unfold Yaml.putEntry at hx
    split at hx
    · rcases List.mem_cons.mp hx with rfl | hx
      · exact h e List.mem_cons_self
      · exact htail x hx
    · rcases List.mem_cons.mp hx with rfl | hx
      · exact h x List.mem_cons_self
      · exact ih htail hx

theorem tracks_formEntries {entries : List (Nat × Nat)} (h : Low p entries)
    {done : List (Value × Value)} (hdone : InsidePairs p done) (hkeyed : Keyed done) :
    Tracks p (fun r => InsidePairs p r ∧ Keyed r) (mapPairs (· + p.shift)) (formEntries entries done)
      (formEntries (renumber (· + p.shift) entries) (mapPairs (· + p.shift) done)) := by
  induction entries generalizing done with
  | nil => exact .pure ⟨hdone, hkeyed⟩
  | cons e entries ih =>
    have he := h e List.mem_cons_self
    refine (tracks_form he.1).bind fun key hkey => ?_
    rw [isKey_map]
    cases hisKey : key.isKey with
    | false => exact .refuse
    | true =>
      refine (tracks_form he.2).bind fun value hvalue => ?_
      rw [putEntry_map (add_injective p.shift)]
      exact ih (fun x hx => h x (List.mem_cons_of_mem _ hx)) (hdone.putEntry hkey hvalue)
        (hkeyed.putEntry hisKey value)

theorem tracks_formPairs {ids : List Nat} (hids : ∀ id ∈ ids, p.low ≤ id) :
    Tracks p (InsidePairs p) (mapPairs (· + p.shift)) (formPairs ids)
      (formPairs (ids.map (· + p.shift))) := by
  induction ids with
  | nil => exact .pure fun e he => by cases he
  | cons id ids ih =>
    have hpair : Tracks p (fun e => Inside p e.1 ∧ Inside p e.2)
        (fun e => (e.1.map (· + p.shift), e.2.map (· + p.shift))) (entriesOf id >>= formPair)
        (entriesOf (id + p.shift) >>= formPair) := by
      refine (tracks_entriesOf (hids id List.mem_cons_self)).bind fun entries hentries => ?_
      match entries with
      | [] => exact .refuse
      | _ :: _ :: _ => exact .refuse
      | [e] =>
        have he := hentries e List.mem_cons_self
        exact (tracks_form he.1).bind fun key hkey => (tracks_form he.2).bind fun value hvalue =>
          .pure (r := (key, value)) ⟨hkey, hvalue⟩
    rw [formPairs_cons, List.map_cons, formPairs_cons]
    refine hpair.bind fun e he => ?_
    exact (ih fun j hj => hids j (List.mem_cons_of_mem _ hj)).bind fun rest hrest =>
      .pure (.cons he hrest)

/-- The members of a set are no collections. -/
def SetsKeys : Cell → Prop
  | .set members => ∀ v ∈ members, v.isKey = true
  | _ => True

/-- A cell that refers to collections of the part alone. -/
def InsideCell (p : Span) (c : Cell) : Prop := (∀ v ∈ c.values, Inside p v) ∧ SetsKeys c

theorem InsidePairs.values {entries : List (Value × Value)} (h : InsidePairs p entries) :
    ∀ v ∈ entries.flatMap fun e => [e.1, e.2], Inside p v := by
  intro v hv
  obtain ⟨e, he, hv⟩ := List.mem_flatMap.mp hv
  rcases List.mem_cons.mp hv with rfl | hv
  · exact (h e he).1
  · obtain rfl := List.mem_singleton.mp hv
    exact (h e he).2

/-- The cell of a mapping whose entries are formed after the merging. -/
theorem tracks_merged {id : Nat} (hid : p.low ≤ id) {c : List (Value × Value) → Cell}
    (hmap : ∀ entries, c (mapPairs (· + p.shift) entries) = (c entries).map (· + p.shift))
    (hinside : ∀ entries, InsidePairs p entries → Keyed entries → InsideCell p (c entries)) :
    Tracks p (InsideCell p) (Cell.map (· + p.shift))
      (mergedEntries id >>= fun entries => formEntries entries [] >>= fun r => pure (c r))
      (mergedEntries (id + p.shift) >>= fun entries =>
        formEntries entries [] >>= fun r => pure (c r)) := by
  refine (tracks_mergedEntries hid).bind fun entries hentries => ?_
  have hnil : InsidePairs p [] := fun e he => by cases he
  have hkeyed : Keyed [] := fun e he => by cases he
  refine (tracks_formEntries hentries hnil hkeyed).bind fun pairs hpairs => ?_
  rw [hmap]
  exact .pure (hinside pairs hpairs.1 hpairs.2)

theorem tracks_enter {id : Nat} (hid : p.low ≤ id) :
    Tracks p (InsideCell p) (Cell.map (· + p.shift)) (enter id) (enter (id + p.shift)) := by
  unfold enter
  refine (tracks_nodeOf hid).bind fun node hnode => ?_
  obtain ⟨tag, content⟩ := node
  cases content with
  | scalar text => cases tag <;> exact .refuse
  | sequence items =>
    have hpairs : Tracks p (InsideCell p) (Cell.map (· + p.shift))
        (formPairs items >>= fun entries => pure (Cell.pairs entries))
        (formPairs (items.map (· + p.shift)) >>= fun entries => pure (Cell.pairs entries)) :=
      (tracks_formPairs hnode.2).bind fun entries hentries =>
        .pure (r := Cell.pairs entries) ⟨hentries.values, trivial⟩
    cases tag
    case sequence =>
      exact (tracks_formItems hnode.2).bind fun vs hvs => .pure (r := Cell.list vs) ⟨hvs, trivial⟩
    case orderedMap => exact hpairs
    case pairs => exact hpairs
    all_goals exact .refuse
  | mapping entries =>
    cases tag
    case mapping =>
      exact tracks_merged hid (c := .mapping) (fun _ => rfl) fun _ hentries _ =>
        ⟨hentries.values, trivial⟩
    case set =>
      refine tracks_merged hid (c := fun entries => .set (SetOrder.sorted (entries.map (·.1))))
        (fun entries => ?_) fun entries hentries hkeyed => ⟨fun v hv => ?_, fun v hv => ?_⟩
      · have hkeys : (mapPairs (· + p.shift) entries).map (·.1) =
            (entries.map (·.1)).map (Value.map (· + p.shift)) := by
          simp [mapPairs]
        rw [hkeys, SetOrder.sorted_map]
        rfl
      · obtain ⟨e, he, rfl⟩ := List.mem_map.mp (SetOrder.mem_sorted hv)
        exact (hentries e he).1
      · obtain ⟨e, he, rfl⟩ := List.mem_map.mp (SetOrder.mem_sorted hv)
        exact hkeyed e he
    all_goals exact .refuse

end Form
end PubspecTidy.Yaml
