import PubspecTidy.Yaml.SetOrder

/-!
# Values under other numbers

Main statement: which keys are the same, where an entry goes in a mapping, and the order of a set
do not depend on the numbers of the nodes, as long as different nodes keep different numbers.
-/
namespace PubspecTidy.Yaml

/-- The same value with another number for each node. -/
def Value.map (f : Nat → Nat) : Value → Value
  | .nan id => .nan (f id)
  | .date id d => .date (f id) d
  | .stamp id t => .stamp (f id) t
  | .ref id => .ref (f id)
  | v => v

/-- Entries with another number for each node. -/
def mapPairs (f : Nat → Nat) (entries : List (Value × Value)) : List (Value × Value) :=
  entries.map fun e => (e.1.map f, e.2.map f)

def Cell.map (f : Nat → Nat) : Cell → Cell
  | .list items => .list (items.map (Value.map f))
  | .pairs entries => .pairs (mapPairs f entries)
  | .set members => .set (members.map (Value.map f))
  | .mapping entries => .mapping (mapPairs f entries)

variable {f : Nat → Nat}

theorem isKey_map (v : Value) : (v.map f).isKey = v.isKey := by cases v <;> rfl

theorem refs_map (v : Value) : (v.map f).refs = v.refs.map f := by cases v <;> rfl

theorem number?_map (v : Value) : (v.map f).number? = v.number? := by cases v <;> rfl

theorem isWritable_map (v : Value) : (v.map f).isWritable = v.isWritable := by cases v <;> rfl

theorem map_eq_string {v : Value} {s : String} : v.map f = .string s ↔ v = .string s := by
  cases v <;> simp [Value.map]

theorem map_eq_null {v : Value} : v.map f = .null ↔ v = .null := by
  cases v <;> simp [Value.map]

theorem map_map (f g : Nat → Nat) (v : Value) : (v.map f).map g = v.map (g ∘ f) := by
  cases v <;> rfl

theorem map_id (v : Value) : v.map id = v := by cases v <;> rfl

theorem values_map (c : Cell) : (c.map f).values = c.values.map (Value.map f) := by
  have hpairs (entries : List (Value × Value)) :
      (mapPairs f entries).flatMap (fun e => [e.1, e.2]) =
        (entries.flatMap fun e => [e.1, e.2]).map (Value.map f) := by
    induction entries with
    | nil => rfl
    | cons e entries ih =>
      rw [mapPairs, List.map_cons, List.flatMap_cons, List.flatMap_cons, List.map_append]
      exact congrArg _ ih
  cases c with
  | list items => rfl
  | set members => rfl
  | pairs entries => exact hpairs entries
  | mapping entries => exact hpairs entries

theorem mapPairs_map (f g : Nat → Nat) (entries : List (Value × Value)) :
    mapPairs g (mapPairs f entries) = mapPairs (g ∘ f) entries := by
  simp [mapPairs, map_map]

theorem mapPairs_id (entries : List (Value × Value)) : mapPairs id entries = entries := by
  simp [mapPairs, map_id]

theorem cell_map_id (c : Cell) : c.map id = c := by
  have hvalue : Value.map id = id := funext map_id
  cases c <;> simp [Cell.map, mapPairs_id, hvalue]

theorem cell_map_map (f g : Nat → Nat) (c : Cell) : (c.map f).map g = c.map (g ∘ f) := by
  cases c <;> simp [Cell.map, map_map, mapPairs_map]

/-! ## Keys -/

theorem sameKey_map (hf : Function.Injective f) (a b : Value) :
    (a.map f).sameKey (b.map f) = a.sameKey b := by
  cases a <;> cases b <;>
    simp only [Value.map, Value.sameKey, Value.number?] <;> first | rfl | skip
  all_goals simp [hf.eq_iff]

theorem putEntry_map (hf : Function.Injective f) (entries : List (Value × Value))
    (key value : Value) :
    putEntry (mapPairs f entries) (key.map f) (value.map f) =
      mapPairs f (putEntry entries key value) := by
  induction entries with
  | nil => rfl
  | cons e entries ih =>
    rw [mapPairs, List.map_cons, putEntry, putEntry, sameKey_map hf]
    split
    · rfl
    · rw [← mapPairs, ih]
      rfl

/-! ## Sets -/

namespace SetOrder

theorem residue?_map (v : Value) : residue? (v.map f) = residue? v := by
  unfold residue?
  rw [number?_map]

theorem mapM_residue?_map (members : List Value) :
    (members.map (Value.map f)).mapM residue? = members.mapM residue? := by
  induction members with
  | nil => rfl
  | cons v members ih => rw [List.map_cons, List.mapM_cons, List.mapM_cons, ih, residue?_map]

theorem place_map (count : Nat) (members : List (Int × Value)) (placed : List (Nat × Value)) :
    place count (members.map fun e => (e.1, e.2.map f)) (placed.map fun e => (e.1, e.2.map f)) =
      (place count members placed).map fun e => (e.1, e.2.map f) := by
  induction members generalizing placed with
  | nil => rfl
  | cons e members ih =>
    obtain ⟨residue, v⟩ := e
    have hslots : (placed.map fun e => (e.1, e.2.map f)).map (·.1) = placed.map (·.1) := by
      simp
    simp only [List.map_cons, place, hslots]
    rw [← ih]
    rfl

theorem sorted_map (members : List Value) :
    sorted (members.map (Value.map f)) = (sorted members).map (Value.map f) := by
  unfold sorted
  rw [mapM_residue?_map]
  cases members.mapM residue? with
  | none => rfl
  | some residues =>
    have hzip : residues.zip (members.map (Value.map f)) =
        (residues.zip members).map fun e => (e.1, e.2.map f) := by
      rw [List.zip_map_right]
      rfl
    have hplaced := place_map (f := f) (slotCount members.length) (residues.zip members) []
    rw [List.map_nil] at hplaced
    dsimp only
    rw [hzip, List.length_map, hplaced]
    generalize place (slotCount members.length) (residues.zip members) [] = placed
    have hsort : (placed.mergeSort fun a b => decide (a.1 ≤ b.1)).map (fun e => (e.1, e.2.map f)) =
        (placed.map fun e => (e.1, e.2.map f)).mergeSort fun a b => decide (a.1 ≤ b.1) :=
      List.map_mergeSort fun a _ b _ => rfl
    rw [← hsort, List.map_map, List.map_map]
    rfl

theorem mem_place {count : Nat} {members : List (Int × Value)} {placed : List (Nat × Value)}
    {e : Nat × Value} (h : e ∈ place count members placed) :
    e.2 ∈ members.map (·.2) ∨ e ∈ placed := by
  induction members generalizing placed with
  | nil => exact .inr h
  | cons m members ih =>
    rcases ih h with h | h
    · exact .inl (List.mem_cons_of_mem _ h)
    · rcases List.mem_cons.mp h with rfl | h
      · exact .inl List.mem_cons_self
      · exact .inr h

theorem mem_sorted {members : List Value} {v : Value} (h : v ∈ sorted members) : v ∈ members := by
  unfold sorted at h
  split at h
  · exact h
  · rename_i residues hresidues
    obtain ⟨e, he, rfl⟩ := List.mem_map.mp h
    rw [List.mem_mergeSort] at he
    rcases mem_place he with he | he
    · obtain ⟨m, hm, heq⟩ := List.mem_map.mp he
      rw [← heq]
      exact (List.of_mem_zip hm).2
    · cases he

end SetOrder
end PubspecTidy.Yaml
