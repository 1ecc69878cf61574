import Mathlib.Algebra.GroupWithZero.Nat
import PubspecTidy.Proofs.Yaml.Renumber
import PubspecTidy.Yaml.Printer
import PubspecTidy.Yaml.Text

/-!
# Values in another document

A value may stand in another document, among other collections and with other numbers for its nodes.
Main statement: it is written there as it is in its own document.
-/
namespace PubspecTidy.Yaml

/-- The collections with these numbers are in another document under other numbers. They refer to no
other collections, and there are none among the members of their sets. -/
structure Copies (f : Nat → Nat) (inside : Nat → Prop) (d d' : Document) : Prop where
  injective : Function.Injective f
  cells : ∀ id, inside id →
    Table.get? d'.cells (f id) = (Table.get? d.cells id).map (Cell.map f)
  closed : ∀ id cell, inside id → Table.get? d.cells id = some cell →
    ∀ v ∈ cell.values, ∀ j ∈ v.refs, inside j
  sets : ∀ id members, inside id → Table.get? d.cells id = some (.set members) →
    ∀ v ∈ members, v.isKey = true

/-! ## Cells still to be seen -/

/-- The weight of all cells that have not been seen. -/
def unseen (weight : Cell → Nat) (cells : Table Nat Cell) (seen : List Nat) : Nat :=
  ((cells.filter fun e => !seen.contains e.1).map fun e => weight e.2).sum

section Unseen

variable {weight : Cell → Nat} {cells : Table Nat Cell} {seen seen' : List Nat}

theorem unseen_cons (weight : Cell → Nat) (e : Nat × Cell) (cells : Table Nat Cell)
    (seen : List Nat) : unseen weight (e :: cells) seen =
      (if seen.contains e.1 then 0 else weight e.2) + unseen weight cells seen := by
  unfold unseen
  cases hseen : seen.contains e.1 with
  | true => rw [List.filter_cons_of_neg (by simpa using hseen), if_pos rfl, Nat.zero_add]
  | false =>
    rw [List.filter_cons_of_pos (by simpa using hseen), List.map_cons, List.sum_cons,
      if_neg (by simp)]

theorem unseen_le (weight : Cell → Nat) (cells : Table Nat Cell) (h : ∀ id ∈ seen, id ∈ seen') :
    unseen weight cells seen' ≤ unseen weight cells seen := by
  induction cells with
  | nil => exact Nat.le_refl _
  | cons e cells ih =>
    rw [unseen_cons, unseen_cons]
    refine Nat.add_le_add ?_ ih
    by_cases hseen : seen.contains e.1 = true
    · have hseen' : seen'.contains e.1 = true := by simpa using h e.1 (by simpa using hseen)
      exact Nat.le_of_eq (by rw [if_pos hseen, if_pos hseen'])
    · rw [if_neg hseen]
      split <;> omega

/-- A cell that is seen for the first time has its weight among those still to be seen. -/
theorem unseen_visit (weight : Cell → Nat) {id : Nat} {cell : Cell}
    (h : Table.get? cells id = some cell)
    (hnew : seen.contains id = false) :
    unseen weight cells (id :: seen) + weight cell ≤ unseen weight cells seen := by
  induction cells with
  | nil => cases h
  | cons e cells ih =>
    rw [unseen_cons, unseen_cons]
    rw [Table.get?_cons] at h
    split at h
    · rename_i heq
      have hle := unseen_le weight cells fun j (hj : j ∈ seen) => List.mem_cons_of_mem id hj
      obtain rfl := Option.some.inj h
      rw [heq, if_pos (by simp), hnew, if_neg (by simp)]
      omega
    · rename_i hne
      have hrec := ih h
      have hsame : (id :: seen).contains e.1 = seen.contains e.1 := by
        simp [hne]
      rw [hsame]
      omega

end Unseen

variable {f : Nat → Nat} {inside : Nat → Prop} {d d' : Document}

theorem contains_map (hf : Function.Injective f) (seen : List Nat) (id : Nat) :
    (seen.map f).contains (f id) = seen.contains id := by
  rw [Bool.eq_iff_iff]
  simp [hf.eq_iff]

theorem unseen_map_le {seen seen' : List Nat} (weight : Cell → Nat) (cells : Table Nat Cell)
    (h : ∀ j ∈ seen, j ∈ seen') :
    unseen weight cells (seen'.map f) ≤ unseen weight cells (seen.map f) := by
  refine unseen_le weight cells fun j hj => ?_
  obtain ⟨i, hi, rfl⟩ := List.mem_map.mp hj
  exact List.mem_map.mpr ⟨i, h i hi, rfl⟩

/-- A value that refers to collections with these numbers alone. -/
def Within (inside : Nat → Prop) (v : Value) : Prop := ∀ j ∈ v.refs, inside j

theorem Copies.within (h : Copies f inside d d') {id : Nat} {cell : Cell} (hid : inside id)
    (hcell : Table.get? d.cells id = some cell) : ∀ v ∈ cell.values, Within inside v :=
  h.closed id cell hid hcell

theorem Copies.get?_some (h : Copies f inside d d') {id : Nat} {cell : Cell} (hid : inside id)
    (hcell : Table.get? d.cells id = some cell) :
    Table.get? d'.cells (f id) = some (cell.map f) := by
  rw [h.cells id hid, hcell]
  rfl

theorem Copies.get?_none (h : Copies f inside d d') {id : Nat} (hid : inside id)
    (hcell : Table.get? d.cells id = none) : Table.get? d'.cells (f id) = none := by
  rw [h.cells id hid, hcell]
  rfl

/-! ## What is too long to be written -/

theorem length_refs_le (v : Value) : v.refs.length ≤ 1 := by cases v <;> simp [Value.refs]

theorem length_flatMap_refs (vs : List Value) : (vs.flatMap Value.refs).length ≤ vs.length := by
  induction vs with
  | nil => exact Nat.le_refl _
  | cons v vs ih =>
    have hle := length_refs_le v
    rw [List.flatMap_cons, List.length_append, List.length_cons]
    omega

theorem flatMap_refs_map (f : Nat → Nat) (vs : List Value) :
    (vs.map (Value.map f)).flatMap Value.refs = (vs.flatMap Value.refs).map f := by
  induction vs with
  | nil => rfl
  | cons v vs ih =>
    rw [List.map_cons, List.flatMap_cons, List.flatMap_cons, List.map_append, ih, refs_map]

/-- The number of the values of a cell. -/
def size (cell : Cell) : Nat := cell.values.length

theorem size_map (f : Nat → Nat) (cell : Cell) : size (cell.map f) = size cell := by
  rw [size, values_map, List.length_map, size]

/-- The cells that can be reached are the same in the other document, and all of them are inside. -/
theorem Copies.reach (h : Copies f inside d d') {fuel fuel' : Nat} {waiting seen : List Nat}
    (hwaiting : ∀ j ∈ waiting, inside j) (hseen : ∀ j ∈ seen, inside j)
    (hfuel : waiting.length + unseen size d.cells seen ≤ fuel)
    (hfuel' : waiting.length + unseen size d'.cells (seen.map f) ≤ fuel') :
    d'.reach fuel' (waiting.map f) (seen.map f) = (d.reach fuel waiting seen).map f ∧
      ∀ j ∈ d.reach fuel waiting seen, inside j := by
  induction fuel generalizing fuel' waiting seen with
  | zero =>
    obtain rfl : waiting = [] := List.eq_nil_of_length_eq_zero (by omega)
    cases fuel' <;> exact ⟨rfl, hseen⟩
  | succ fuel ih =>
    cases waiting with
    | nil => cases fuel' <;> exact ⟨rfl, hseen⟩
    | cons id waiting =>
      rw [List.length_cons] at hfuel hfuel'
      obtain ⟨fuel', rfl⟩ : ∃ n, fuel' = n + 1 := ⟨fuel' - 1, by omega⟩
      have hid := hwaiting id List.mem_cons_self
      have hrest : ∀ j ∈ waiting, inside j := fun j hj => hwaiting j (List.mem_cons_of_mem _ hj)
      rw [List.map_cons]
      unfold Document.reach
      rw [contains_map h.injective]
      cases hnew : seen.contains id with
      | true => exact ih hrest hseen (by omega) (by omega)
      | false =>
        have hseen' : ∀ j ∈ id :: seen, inside j := fun j hj => by
          rcases List.mem_cons.mp hj with rfl | hj
          · exact hid
          · exact hseen j hj
        rw [if_neg (by simp), if_neg (by simp)]
        cases hcell : Table.get? d.cells id with
        | none =>
          rw [h.get?_none hid hcell]
          have hle := unseen_le size d.cells
            fun j (hj : j ∈ seen) => List.mem_cons_of_mem id hj
          have hle' := unseen_le size d'.cells
            fun j (hj : j ∈ seen.map f) => List.mem_cons_of_mem (f id) hj
          exact ih hrest hseen' (by omega) (by rw [List.map_cons]; omega)
        | some cell =>
          have hcell' := h.get?_some hid hcell
          have hvisit := unseen_visit size hcell hnew
          have hvisit' := unseen_visit size hcell'
            (by rw [contains_map h.injective, hnew] : (seen.map f).contains (f id) = false)
          have hlength := length_flatMap_refs cell.values
          have hinner : ∀ j ∈ cell.values.flatMap Value.refs ++ waiting, inside j := fun j hj => by
            rcases List.mem_append.mp hj with hj | hj
            · obtain ⟨v, hv, hj⟩ := List.mem_flatMap.mp hj
              exact h.within hid hcell v hv j hj
            · exact hrest j hj
          have hmap : (cell.map f).values.flatMap Value.refs ++ waiting.map f =
              (cell.values.flatMap Value.refs ++ waiting).map f := by
            rw [values_map, flatMap_refs_map, List.map_append]
          rw [size_map] at hvisit'
          rw [hcell']
          change d'.reach fuel' ((cell.map f).values.flatMap Value.refs ++ waiting.map f) _ =
            (d.reach fuel (cell.values.flatMap Value.refs ++ waiting) (id :: seen)).map f ∧ _
          rw [hmap]
          unfold size at hfuel hfuel' hvisit hvisit'
          refine ih hinner hseen' ?_ ?_
          · rw [List.length_append]
            unfold size
            omega
          · rw [List.length_append, List.map_cons]
            unfold size
            omega

theorem unseen_nil (weight : Cell → Nat) (cells : Table Nat Cell) :
    unseen weight cells [] = (cells.map fun e => weight e.2).sum := by
  have hall : cells.filter (fun e => !([] : List Nat).contains e.1) = cells :=
    List.filter_eq_self.mpr fun e _ => rfl
  unfold unseen
  rw [hall]

theorem extent_eq_sum (d : Document) : d.extent = unseen size d.cells [] + 1 := by
  have hfold (l : Table Nat Cell) (n : Nat) :
      l.foldl (fun n c => n + c.2.values.length) n = n + (l.map fun e => size e.2).sum := by
    induction l generalizing n with
    | nil => rfl
    | cons e l ih =>
      rw [List.foldl_cons, ih, List.map_cons, List.sum_cons, size, Nat.add_assoc]
  rw [unseen_nil, Document.extent, hfold, Nat.add_comm]

theorem Copies.isWritable (h : Copies f inside d d') {v : Value} (hv : Within inside v) :
    d'.isWritable (v.map f) = d.isWritable v := by
  have hlength := length_refs_le v
  have hboth : d'.reach d'.extent (v.refs.map f) (([] : List Nat).map f) =
      (d.reach d.extent v.refs []).map f ∧ ∀ j ∈ d.reach d.extent v.refs [], inside j := by
    refine h.reach hv (fun j hj => by cases hj) ?_ ?_
    · rw [extent_eq_sum]
      omega
    · rw [extent_eq_sum, List.map_nil]
      omega
  obtain ⟨hreach, hinside⟩ := hboth
  have hvalues (j : Nat) (hj : inside j) :
      (((Table.get? d'.cells (f j)).map Cell.values).getD []).all Value.isWritable =
        (((Table.get? d.cells j).map Cell.values).getD []).all Value.isWritable := by
    rw [h.cells j hj]
    cases Table.get? d.cells j with
    | none => rfl
    | some cell =>
      simp only [Option.map_some, Option.getD_some, values_map, List.all_map]
      exact congrArg cell.values.all (funext isWritable_map)
  unfold Document.isWritable
  rw [List.map_nil] at hreach
  rw [isWritable_map, refs_map, hreach, List.all_map]
  refine congrArg _ (Bool.eq_iff_iff.mpr ?_)
  rw [List.all_eq_true, List.all_eq_true]
  refine forall₂_congr fun j hj => ?_
  rw [Function.comp_apply, hvalues j (hinside j hj)]

/-! ## Written forms -/

/-- Every cell counts the same. -/
def one (_ : Cell) : Nat := 1

theorem writtenLeaf_map (v : Value) : (v.map f).writtenLeaf = v.writtenLeaf := by cases v <;> rfl

theorem written_of_isKey {v : Value} (h : v.isKey = true) (d : Document) (fuel : Nat)
    (around : List Nat) : d.written fuel around v = v.writtenLeaf := by
  cases fuel with
  | zero => rfl
  | succ fuel => cases v <;> first | rfl | cases h

/-- A cell in its written form, where `inner` writes its values and the cell may stand inside
itself. -/
def writtenCell (inner : Value → String) (insideItself : Bool) : Cell → String
  | .list items =>
    if insideItself then "[...]" else "[" ++ Text.join ", " (items.map inner) ++ "]"
  | .pairs entries =>
    if insideItself then "[...]"
    else "[" ++ Text.join ", " (entries.map fun e => Written.listOf [inner e.1, inner e.2]) ++ "]"
  | .set [] => "set()"
  | .set members => "\x7b" ++ Text.join ", " (members.map inner) ++ "\x7d"
  | .mapping entries =>
    if insideItself then "\x7b...\x7d"
    else "\x7b" ++ Text.join ", " (entries.map fun e => inner e.1 ++ ": " ++ inner e.2) ++ "\x7d"

theorem written_ref (d : Document) (fuel : Nat) (around : List Nat) (id : Nat) :
    d.written (fuel + 1) around (.ref id) = ((Table.get? d.cells id).map
      (writtenCell (d.written fuel (id :: around)) (around.contains id))).getD "" := by
  unfold Document.written
  dsimp only
  cases Table.get? d.cells id with
  | none => rfl
  | some cell =>
    cases cell with
    | set members => cases members <;> rfl
    | _ => rfl

theorem writtenCell_map {inner inner' : Value → String} {insideItself : Bool} {cell : Cell}
    (h : insideItself = false → ∀ v ∈ cell.values, inner' (v.map f) = inner v)
    (hset : ∀ members, cell = .set members → ∀ v ∈ members, inner' (v.map f) = inner v) :
    writtenCell inner' insideItself (cell.map f) = writtenCell inner insideItself cell := by
  have hpairs (c : String → String → String) (entries : List (Value × Value))
      (hentries : ∀ v ∈ entries.flatMap fun e => [e.1, e.2], inner' (v.map f) = inner v) :
      (mapPairs f entries).map (fun e => c (inner' e.1) (inner' e.2)) =
        entries.map fun e => c (inner e.1) (inner e.2) := by
    rw [mapPairs, List.map_map]
    refine List.map_congr_left fun e he => ?_
    rw [Function.comp_apply, hentries e.1 (List.mem_flatMap.mpr ⟨e, he, by simp⟩),
      hentries e.2 (List.mem_flatMap.mpr ⟨e, he, by simp⟩)]
  cases cell with
  | set members =>
    cases members with
    | nil => rfl
    | cons v members =>
      have hmembers : ((v :: members).map (Value.map f)).map inner' = (v :: members).map inner := by
        rw [List.map_map]
        exact List.map_congr_left (hset _ rfl)
      exact congrArg (fun texts => "\x7b" ++ Text.join ", " texts ++ "\x7d") hmembers
  | list items =>
    cases insideItself with
    | true => simp only [Cell.map, writtenCell, if_true]
    | false =>
      have hitems : (items.map (Value.map f)).map inner' = items.map inner := by
        rw [List.map_map]
        exact List.map_congr_left (h rfl)
      exact congrArg (fun texts => "[" ++ Text.join ", " texts ++ "]") hitems
  | pairs entries =>
    cases insideItself with
    | true => simp only [Cell.map, writtenCell, if_true]
    | false =>
      exact congrArg (fun texts => "[" ++ Text.join ", " texts ++ "]")
        (hpairs (fun a b => Written.listOf [a, b]) entries (h rfl))
  | mapping entries =>
    cases insideItself with
    | true => simp only [Cell.map, writtenCell, if_true]
    | false =>
      exact congrArg (fun texts => "\x7b" ++ Text.join ", " texts ++ "\x7d")
        (hpairs (fun a b => a ++ ": " ++ b) entries (h rfl))

/-- With fuel for all collections that a value does not stand in, it is written in the same way. -/
theorem Copies.written (h : Copies f inside d d') {fuel fuel' : Nat} {around : List Nat} {v : Value}
    (hv : Within inside v) (hfuel : unseen one d.cells around + 1 ≤ fuel)
    (hfuel' : unseen one d'.cells (around.map f) + 1 ≤ fuel') :
    d'.written fuel' (around.map f) (v.map f) = d.written fuel around v := by
  induction fuel generalizing fuel' around v with
  | zero => omega
  | succ fuel ih =>
    obtain ⟨fuel', rfl⟩ : ∃ n, fuel' = n + 1 := ⟨fuel' - 1, by omega⟩
    cases v with
    | ref id =>
      have hid : inside id := hv id List.mem_cons_self
      change d'.written (fuel' + 1) (around.map f) (.ref (f id)) = _
      rw [written_ref, written_ref, contains_map h.injective]
      cases hcell : Table.get? d.cells id with
      | none => rw [h.get?_none hid hcell]; rfl
      | some cell =>
        rw [h.get?_some hid hcell]
        refine writtenCell_map (fun hnew u hu => ?_) fun members hcells u hu => ?_
        · have hvisit := unseen_visit one hcell hnew
          have hvisit' := unseen_visit one (h.get?_some hid hcell)
            (by rw [contains_map h.injective, hnew] : (around.map f).contains (f id) = false)
          have hone (c : Cell) : one c = 1 := rfl
          rw [hone] at hvisit hvisit'
          rw [← List.map_cons]
          exact ih (h.within hid hcell u hu) (by omega) (by rw [List.map_cons]; omega)
        · subst hcells
          have hkey := h.sets id members hid hcell u hu
          rw [written_of_isKey (by rwa [isKey_map]), written_of_isKey hkey, writtenLeaf_map]
    | _ => rfl

theorem unseen_one_le (cells : Table Nat Cell) : unseen one cells [] ≤ cells.length := by
  rw [unseen_nil]
  induction cells with
  | nil => exact Nat.le_refl _
  | cons e cells ih =>
    rw [List.map_cons, List.sum_cons, List.length_cons, one]
    omega

/-- A value on its own is shown in the same way. -/
theorem Copies.text? (h : Copies f inside d d') {v : Value} (hv : Within inside v) :
    d'.text? (v.map f) = d.text? v := by
  have hle := unseen_one_le d.cells
  have hle' := unseen_one_le d'.cells
  have hwritten : d'.written (d'.cells.length + 2) (([] : List Nat).map f) (v.map f) =
      d.written (d.cells.length + 2) [] v :=
    h.written hv (by omega) (by rw [List.map_nil]; omega)
  have hwritable := h.isWritable hv
  rw [List.map_nil] at hwritten
  cases v with
  | string s => rfl
  | date id t => rfl
  | stamp id t => rfl
  | _ =>
    unfold Document.text?
    dsimp only [Value.map] at hwritten hwritable ⊢
    rw [hwritten, hwritable]

/-! ## Outlines -/

namespace Outline

theorem identity?_map (v : Value) : identity? (v.map f) = (identity? v).map f := by cases v <;> rfl

theorem leaf_map (anchor : Option String) (v : Value) : leaf anchor (v.map f) = leaf anchor v := by
  cases v <;> rfl

/-- Visits under other numbers. -/
def Visits.map (f : Nat → Nat) (s : Visits) : Visits := ⟨s.seen.map f, s.shared.map f⟩

theorem visit_map (hf : Function.Injective f) (s : Visits) (id : Nat) :
    (s.map f).visit (f id) = ((s.visit id).1, (s.visit id).2.map f) := by
  unfold Visits.visit Visits.map
  dsimp only
  rw [contains_map hf, contains_map hf]
  cases s.seen.contains id with
  | true => cases s.shared.contains id <;> simp
  | false => simp

theorem seen_visit (s : Visits) (id : Nat) :
    ((s.visit id).1 = false ∧ (s.visit id).2.seen = s.seen) ∨
      ((s.visit id).1 = true ∧ s.seen.contains id = false ∧
        (s.visit id).2.seen = id :: s.seen) := by
  unfold Visits.visit
  cases hseen : s.seen.contains id with
  | true => cases s.shared.contains id <;> simp
  | false => simp

/-- A walk through the values of a cell. -/
def walkAll (cells : Table Nat Cell) (fuel : Nat) (vs : List Value) (s : Visits) : Visits :=
  vs.foldl (fun s v => walk cells fuel v s) s

/-- What comes after a first visit. -/
def walkInto (cells : Table Nat Cell) (fuel : Nat) (v : Value) (id : Nat) (s : Visits) : Visits :=
  match v, Table.get? cells id with
  | .ref _, some cell => walkAll cells fuel cell.values s
  | _, _ => s

theorem walk_succ (cells : Table Nat Cell) (fuel : Nat) (v : Value) (s : Visits) :
    walk cells (fuel + 1) v s =
      match identity? v with
      | none => s
      | some id =>
        if (s.visit id).1 then walkInto cells fuel v id (s.visit id).2 else (s.visit id).2 := by
  rw [walk]
  cases hid : identity? v with
  | none => rfl
  | some id =>
    cases hfirst : (s.visit id).1 with
    | false => simp [hfirst]
    | true =>
      simp only [hfirst, if_true]
      rfl

theorem seen_walk (cells : Table Nat Cell) (fuel : Nat) (v : Value) (s : Visits) :
    ∀ j ∈ s.seen, j ∈ (walk cells fuel v s).seen := by
  induction fuel generalizing v s with
  | zero => exact fun j hj => hj
  | succ fuel ih =>
    have hall (vs : List Value) (s : Visits) :
        ∀ j ∈ s.seen, j ∈ (walkAll cells fuel vs s).seen := by
      induction vs generalizing s with
      | nil => exact fun j hj => hj
      | cons u vs ihs => exact fun j hj => ihs _ j (ih u s j hj)
    intro j hj
    rw [walk_succ]
    cases identity? v with
    | none => exact hj
    | some id =>
      dsimp only
      rcases seen_visit s id with ⟨hfirst, hseen⟩ | ⟨hfirst, -, hseen⟩
      · rw [hfirst, if_neg (by simp), hseen]
        exact hj
      · rw [hfirst, if_pos rfl]
        have hj' : j ∈ (s.visit id).2.seen := by
          rw [hseen]
          exact List.mem_cons_of_mem _ hj
        unfold walkInto
        split
        · exact hall _ _ j hj'
        · exact hj'

/-- A walk over several values goes the same way where the walk over each one does. -/
theorem walkAll_map {fuel fuel' : Nat}
    (hwalk : ∀ {v : Value} {s : Visits}, Within inside v →
      unseen one d.cells s.seen + 1 ≤ fuel → unseen one d'.cells (s.seen.map f) + 1 ≤ fuel' →
      walk d'.cells fuel' (v.map f) (s.map f) = (walk d.cells fuel v s).map f)
    {vs : List Value} {s : Visits} (hvs : ∀ v ∈ vs, Within inside v)
    (hfuel : unseen one d.cells s.seen + 1 ≤ fuel)
    (hfuel' : unseen one d'.cells (s.seen.map f) + 1 ≤ fuel') :
    walkAll d'.cells fuel' (vs.map (Value.map f)) (s.map f) =
      (walkAll d.cells fuel vs s).map f := by
  induction vs generalizing s with
  | nil => rfl
  | cons v vs ih =>
    -- what has been seen stays seen, so the fuel is enough for the rest
    have hle := unseen_le one d.cells (seen_walk d.cells fuel v s)
    have hle' : unseen one d'.cells ((walk d.cells fuel v s).seen.map f) ≤
        unseen one d'.cells (s.seen.map f) :=
      unseen_map_le one d'.cells (seen_walk d.cells fuel v s)
    change walkAll d'.cells fuel' (vs.map (Value.map f))
      (walk d'.cells fuel' (v.map f) (s.map f)) = _
    rw [hwalk (hvs v List.mem_cons_self) hfuel hfuel']
    exact ih (fun x hx => hvs x (List.mem_cons_of_mem _ hx)) (by omega) (by omega)

/-- With fuel for all cells not yet seen, a walk goes the same way. -/
theorem walk_map (h : Copies f inside d d') {fuel fuel' : Nat} {v : Value} {s : Visits}
    (hv : Within inside v) (hfuel : unseen one d.cells s.seen + 1 ≤ fuel)
    (hfuel' : unseen one d'.cells (s.seen.map f) + 1 ≤ fuel') :
    walk d'.cells fuel' (v.map f) (s.map f) = (walk d.cells fuel v s).map f := by
  induction fuel generalizing fuel' v s with
  | zero => omega
  | succ fuel ih =>
    obtain ⟨fuel', rfl⟩ : ∃ n, fuel' = n + 1 := ⟨fuel' - 1, by omega⟩
    rw [walk_succ, walk_succ, identity?_map]
    cases hidentity : identity? v with
    | none => rfl
    | some id =>
      change (if ((s.map f).visit (f id)).1 then _ else ((s.map f).visit (f id)).2) = _
      rw [visit_map h.injective]
      dsimp only
      rcases seen_visit s id with ⟨hfirst, hseen⟩ | ⟨hfirst, hnew, hseen⟩
      · rw [hfirst, if_neg (by simp), if_neg (by simp)]
      · rw [hfirst, if_pos rfl, if_pos rfl]
        cases v with
        | ref j =>
          obtain rfl := Option.some.inj hidentity
          have hid : inside j := hv j List.mem_cons_self
          unfold walkInto
          dsimp only [Value.map]
          cases hcell : Table.get? d.cells j with
          | none => rw [h.get?_none hid hcell]
          | some cell =>
            have hvisit := unseen_visit one hcell hnew
            have hvisit' := unseen_visit one (h.get?_some hid hcell)
              (by rw [contains_map h.injective, hnew] : (s.seen.map f).contains (f j) = false)
            have hone (c : Cell) : one c = 1 := rfl
            rw [hone] at hvisit hvisit'
            rw [h.get?_some hid hcell]
            dsimp only
            rw [values_map]
            refine walkAll_map ih (h.within hid hcell) ?_ ?_
            · rw [hseen]
              omega
            · rw [hseen, List.map_cons]
              omega
        | date j t => rfl
        | stamp j t => rfl
        | _ => cases hidentity

theorem anchorOf?_map (hf : Function.Injective f) (shared : List Nat) (id : Nat) :
    anchorOf? (shared.map f) (f id) = anchorOf? shared id := by
  have hindex : (shared.map f).idxOf (f id) = shared.idxOf id := by
    induction shared with
    | nil => rfl
    | cons x shared ih =>
      rw [List.map_cons, List.idxOf_cons, List.idxOf_cons, ih]
      by_cases heq : x = id
      · simp [heq]
      · rw [beq_false_of_ne heq, beq_false_of_ne (hf.ne heq)]
  unfold anchorOf?
  rw [contains_map hf, hindex]

variable {cells : Table Nat Cell} {shared : List Nat}

/-- The outline of a cell. -/
def buildCell (cells : Table Nat Cell) (shared : List Nat) (fuel : Nat) (anchor : Option String)
    (cell : Cell) (seen : List Nat) : Outline × List Nat :=
  match cell with
  | .list items =>
    let built := buildItems cells shared fuel items seen
    (.sequence anchor built.1, built.2)
  | .pairs entries =>
    let built := buildEntries cells shared fuel entries seen
    (.sequence anchor (built.1.map fun e => .sequence none [e.1, e.2]), built.2)
  | .set members =>
    let built := buildEntries cells shared fuel (members.map (·, .null)) seen
    (.mapping anchor .set built.1, built.2)
  | .mapping entries =>
    let built := buildEntries cells shared fuel entries seen
    (.mapping anchor .mapping built.1, built.2)

/-- The outline of a value that is built for the first time. -/
def buildInto (cells : Table Nat Cell) (shared : List Nat) (fuel : Nat) (v : Value) (id : Nat)
    (seen : List Nat) : Outline × List Nat :=
  match v, Table.get? cells id with
  | .ref _, some cell => buildCell cells shared fuel (anchorOf? shared id) cell seen
  | _, _ => (leaf (anchorOf? shared id) v, seen)

theorem build_succ (cells : Table Nat Cell) (shared : List Nat) (fuel : Nat) (v : Value)
    (seen : List Nat) : build cells shared (fuel + 1) v seen =
      match identity? v with
      | none => (leaf none v, seen)
      | some id =>
        if seen.contains id then (.alias ((anchorOf? shared id).getD ""), seen)
        else buildInto cells shared fuel v id (id :: seen) := by
  rw [build]
  cases identity? v with
  | none => rfl
  | some id =>
    dsimp only
    cases seen.contains id with
    | true => rfl
    | false =>
      rw [if_neg (by simp), if_neg (by simp)]
      unfold buildInto
      cases v with
      | ref j =>
        cases Table.get? cells id with
        | none => rfl
        | some cell => cases cell <;> rfl
      | _ => rfl

theorem buildItems_cons (fuel : Nat) (v : Value) (vs : List Value) (seen : List Nat) :
    buildItems cells shared (fuel + 1) (v :: vs) seen =
      ((build cells shared fuel v seen).1 ::
          (buildItems cells shared fuel vs (build cells shared fuel v seen).2).1,
        (buildItems cells shared fuel vs (build cells shared fuel v seen).2).2) := by
  rw [buildItems]

theorem buildEntries_cons (fuel : Nat) (e : Value × Value) (entries : List (Value × Value))
    (seen : List Nat) :
    buildEntries cells shared (fuel + 1) (e :: entries) seen =
      (let key := build cells shared fuel e.1 seen
       let value := build cells shared fuel e.2 key.2
       let rest := buildEntries cells shared fuel entries value.2
       ((key.1, value.1) :: rest.1, rest.2)) := by
  obtain ⟨k, v⟩ := e
  rw [buildEntries]

/-- Nothing that has been seen is forgotten. -/
structure AllKept (cells : Table Nat Cell) (shared : List Nat) (fuel : Nat) : Prop where
  build : ∀ v seen, ∀ j ∈ seen, j ∈ (build cells shared fuel v seen).2
  items : ∀ vs seen, ∀ j ∈ seen, j ∈ (buildItems cells shared fuel vs seen).2
  entries : ∀ es seen, ∀ j ∈ seen, j ∈ (buildEntries cells shared fuel es seen).2

theorem allKept (cells : Table Nat Cell) (shared : List Nat) (fuel : Nat) :
    AllKept cells shared fuel := by
  induction fuel with
  | zero =>
    refine ⟨fun v seen j hj => hj, fun vs seen j hj => ?_, fun es seen j hj => ?_⟩
    · rw [buildItems]
      exact hj
    · rw [buildEntries]
      exact hj
  | succ fuel ih =>
    refine ⟨fun v seen j hj => ?_, fun vs seen j hj => ?_, fun es seen j hj => ?_⟩
    · rw [build_succ]
      cases identity? v with
      | none => exact hj
      | some id =>
        dsimp only
        split
        · exact hj
        · have hj' : j ∈ id :: seen := List.mem_cons_of_mem id hj
          unfold buildInto
          split
          · rename_i cell _
            cases cell with
            | list items => exact ih.items _ _ j hj'
            | _ => exact ih.entries _ _ j hj'
          · exact hj'
    · cases vs with
      | nil =>
        rw [buildItems]
        · exact hj
        · simp
      | cons v vs =>
        rw [buildItems_cons]
        exact ih.items _ _ j (ih.build _ _ j hj)
    · cases es with
      | nil =>
        rw [buildEntries]
        · exact hj
        · simp
      | cons e es =>
        rw [buildEntries_cons]
        exact ih.entries _ _ j (ih.build _ _ j (ih.build _ _ j hj))

/-- More than the fuel that a cell takes before its values are built. -/
def room (cell : Cell) : Nat := size cell + 2

/-- With fuel for all cells not yet seen, outlines are built in the same way. -/
structure AllBuild (f : Nat → Nat) (inside : Nat → Prop) (cells cells' : Table Nat Cell)
    (shared : List Nat) (fuel : Nat) : Prop where
  build : ∀ fuel' v seen, Within inside v → unseen room cells seen + 1 ≤ fuel →
    unseen room cells' (seen.map f) + 1 ≤ fuel' →
    build cells' (shared.map f) fuel' (v.map f) (seen.map f) =
      ((build cells shared fuel v seen).1, (build cells shared fuel v seen).2.map f)
  items : ∀ fuel' vs seen, (∀ v ∈ vs, Within inside v) →
    unseen room cells seen + vs.length + 1 ≤ fuel →
    unseen room cells' (seen.map f) + vs.length + 1 ≤ fuel' →
    buildItems cells' (shared.map f) fuel' (vs.map (Value.map f)) (seen.map f) =
      ((buildItems cells shared fuel vs seen).1, (buildItems cells shared fuel vs seen).2.map f)
  entries : ∀ fuel' es seen, (∀ e ∈ es, Within inside e.1 ∧ Within inside e.2) →
    unseen room cells seen + es.length + 1 ≤ fuel →
    unseen room cells' (seen.map f) + es.length + 1 ≤ fuel' →
    buildEntries cells' (shared.map f) fuel' (mapPairs f es) (seen.map f) =
      ((buildEntries cells shared fuel es seen).1, (buildEntries cells shared fuel es seen).2.map f)

variable {fuel : Nat}

theorem AllBuild.buildCell (h : AllBuild f inside d.cells d'.cells shared fuel) {fuel' : Nat}
    {cell : Cell} (hcell : ∀ v ∈ cell.values, Within inside v) {seen : List Nat}
    (hfuel : unseen room d.cells seen + room cell ≤ fuel)
    (hfuel' : unseen room d'.cells (seen.map f) + room cell ≤ fuel') (anchor : Option String) :
    buildCell d'.cells (shared.map f) fuel' anchor (cell.map f) (seen.map f) =
      ((buildCell d.cells shared fuel anchor cell seen).1,
        (buildCell d.cells shared fuel anchor cell seen).2.map f) := by
  have hroom : room cell = size cell + 2 := rfl
  have hpairs (es : List (Value × Value)) (hes : cell.values = es.flatMap fun e => [e.1, e.2]) :
      buildEntries d'.cells (shared.map f) fuel' (mapPairs f es) (seen.map f) =
        ((buildEntries d.cells shared fuel es seen).1,
          (buildEntries d.cells shared fuel es seen).2.map f) := by
    have hlength : es.length ≤ size cell := by
      rw [size, hes]
      clear hes
      induction es with
      | nil => exact Nat.le_refl _
      | cons e es ih =>
        rw [List.flatMap_cons, List.length_append, List.length_cons]
        simp only [List.length_cons, List.length_nil]
        omega
    refine h.entries fuel' es seen (fun e he => ?_) (by omega) (by omega)
    exact ⟨hcell _ (by rw [hes]; exact List.mem_flatMap.mpr ⟨e, he, by simp⟩),
      hcell _ (by rw [hes]; exact List.mem_flatMap.mpr ⟨e, he, by simp⟩)⟩
  cases cell with
  | list items =>
    have hsize : items.length = size (.list items) := rfl
    have hitems := h.items fuel' items seen hcell (by omega) (by omega)
    simp only [Outline.buildCell, Cell.map, hitems]
  | pairs es => simp only [Outline.buildCell, Cell.map, hpairs es rfl]
  | mapping es => simp only [Outline.buildCell, Cell.map, hpairs es rfl]
  | set members =>
    have hmap : (members.map (Value.map f)).map (fun v => (v, Value.null)) =
        mapPairs f (members.map fun v => (v, .null)) := by
      simp [mapPairs, Value.map]
    have hsize : (members.map fun v => (v, Value.null)).length = size (.set members) :=
      List.length_map _
    have hwithin : ∀ e ∈ members.map fun v => (v, Value.null),
        Within inside e.1 ∧ Within inside e.2 := fun e he => by
        obtain ⟨v, hv, rfl⟩ := List.mem_map.mp he
        exact ⟨hcell v hv, fun j hj => by cases hj⟩
    have hmembers := h.entries fuel' (members.map fun v => (v, .null)) seen hwithin (by omega)
      (by omega)
    simp only [Outline.buildCell, Cell.map, hmap, hmembers]

theorem AllBuild.buildInto (ih : AllBuild f inside d.cells d'.cells shared fuel)
    (h : Copies f inside d d') {v : Value} (hv : Within inside v) {id : Nat}
    (hidentity : identity? v = some id) {seen : List Nat} (hnew : seen.contains id = false)
    {fuel' : Nat} (hfuel : unseen room d.cells seen ≤ fuel)
    (hfuel' : unseen room d'.cells (seen.map f) ≤ fuel') :
    buildInto d'.cells (shared.map f) fuel' (v.map f) (f id) ((id :: seen).map f) =
      ((buildInto d.cells shared fuel v id (id :: seen)).1,
        (buildInto d.cells shared fuel v id (id :: seen)).2.map f) := by
  cases v with
  | ref j =>
    obtain rfl := Option.some.inj hidentity
    have hid : inside j := hv j List.mem_cons_self
    unfold Outline.buildInto
    dsimp only [Value.map]
    rw [anchorOf?_map h.injective]
    cases hcell : Table.get? d.cells j with
    | none =>
      rw [h.get?_none hid hcell]
      rfl
    | some cell =>
      have hvisit := unseen_visit room hcell hnew
      have hvisit' := unseen_visit room (h.get?_some hid hcell)
        (by rw [contains_map h.injective, hnew] : (seen.map f).contains (f j) = false)
      have hroom : room (cell.map f) = room cell := by rw [room, size_map, room]
      rw [hroom] at hvisit'
      rw [h.get?_some hid hcell]
      exact ih.buildCell (h.within hid hcell) (by omega) (by rw [List.map_cons]; omega) _
  | date j t =>
    obtain rfl := Option.some.inj hidentity
    exact Prod.ext (congrArg (leaf · (.date j t)) (anchorOf?_map h.injective shared j)) rfl
  | stamp j t =>
    obtain rfl := Option.some.inj hidentity
    exact Prod.ext (congrArg (leaf · (.stamp j t)) (anchorOf?_map h.injective shared j)) rfl
  | _ => cases hidentity

theorem AllBuild.build_succ (ih : AllBuild f inside d.cells d'.cells shared fuel)
    (h : Copies f inside d d') {v : Value} (hv : Within inside v) {seen : List Nat} {fuel' : Nat}
    (hfuel : unseen room d.cells seen ≤ fuel)
    (hfuel' : unseen room d'.cells (seen.map f) ≤ fuel') :
    Outline.build d'.cells (shared.map f) (fuel' + 1) (v.map f) (seen.map f) =
      ((Outline.build d.cells shared (fuel + 1) v seen).1,
        (Outline.build d.cells shared (fuel + 1) v seen).2.map f) := by
  rw [Outline.build_succ, Outline.build_succ, identity?_map]
  cases hidentity : identity? v with
  | none => rw [Option.map_none, leaf_map]
  | some id =>
    rw [Option.map_some]
    dsimp only
    rw [contains_map h.injective, anchorOf?_map h.injective]
    cases hnew : seen.contains id with
    | true => rfl
    | false =>
      rw [if_neg (by simp), if_neg (by simp)]
      exact ih.buildInto h hv hidentity hnew hfuel hfuel'

theorem AllBuild.items_cons (ih : AllBuild f inside d.cells d'.cells shared fuel)
    {v : Value} {vs : List Value} (hvs : ∀ u ∈ v :: vs, Within inside u) {seen : List Nat}
    {fuel' : Nat} (hfuel : unseen room d.cells seen + vs.length + 1 ≤ fuel)
    (hfuel' : unseen room d'.cells (seen.map f) + vs.length + 1 ≤ fuel') :
    buildItems d'.cells (shared.map f) (fuel' + 1) ((v :: vs).map (Value.map f)) (seen.map f) =
      ((buildItems d.cells shared (fuel + 1) (v :: vs) seen).1,
        (buildItems d.cells shared (fuel + 1) (v :: vs) seen).2.map f) := by
  have hkept := (allKept d.cells shared fuel).build v seen
  have hle := unseen_le room d.cells hkept
  have hle' := unseen_map_le (f := f) room d'.cells hkept
  rw [List.map_cons, buildItems_cons, buildItems_cons,
    ih.build fuel' v seen (hvs v List.mem_cons_self) (by omega) (by omega)]
  dsimp only
  rw [ih.items fuel' vs _ (fun u hu => hvs u (List.mem_cons_of_mem _ hu)) (by omega) (by omega)]

theorem AllBuild.entries_cons (ih : AllBuild f inside d.cells d'.cells shared fuel)
    {e : Value × Value} {es : List (Value × Value)}
    (hes : ∀ x ∈ e :: es, Within inside x.1 ∧ Within inside x.2) {seen : List Nat} {fuel' : Nat}
    (hfuel : unseen room d.cells seen + es.length + 1 ≤ fuel)
    (hfuel' : unseen room d'.cells (seen.map f) + es.length + 1 ≤ fuel') :
    buildEntries d'.cells (shared.map f) (fuel' + 1) (mapPairs f (e :: es)) (seen.map f) =
      ((buildEntries d.cells shared (fuel + 1) (e :: es) seen).1,
        (buildEntries d.cells shared (fuel + 1) (e :: es) seen).2.map f) := by
  obtain ⟨hkey, hvalue⟩ := hes e List.mem_cons_self
  have hkept := allKept d.cells shared fuel
  have hle := unseen_le room d.cells (hkept.build e.1 seen)
  have hle' := unseen_map_le (f := f) room d'.cells (hkept.build e.1 seen)
  have hlater := unseen_le room d.cells
    (hkept.build e.2 (Outline.build d.cells shared fuel e.1 seen).2)
  have hlater' := unseen_map_le (f := f) room d'.cells
    (hkept.build e.2 (Outline.build d.cells shared fuel e.1 seen).2)
  change buildEntries d'.cells (shared.map f) (fuel' + 1)
    ((e.1.map f, e.2.map f) :: mapPairs f es) (seen.map f) = _
  rw [buildEntries_cons, buildEntries_cons]
  dsimp only
  rw [ih.build fuel' e.1 seen hkey (by omega) (by omega)]
  dsimp only
  rw [ih.build fuel' e.2 _ hvalue (by omega) (by omega)]
  dsimp only
  rw [ih.entries fuel' es _ (fun x hx => hes x (List.mem_cons_of_mem _ hx)) (by omega) (by omega)]

theorem allBuild (h : Copies f inside d d') (shared : List Nat) (fuel : Nat) :
    AllBuild f inside d.cells d'.cells shared fuel := by
  induction fuel with
  | zero => exact ⟨fun _ _ _ _ hfuel => by omega, fun _ _ _ _ hfuel => by omega,
      fun _ _ _ _ hfuel => by omega⟩
  | succ fuel ih =>
    refine ⟨fun fuel' v seen hv hfuel hfuel' => ?_, fun fuel' vs seen hvs hfuel hfuel' => ?_,
      fun fuel' es seen hes hfuel hfuel' => ?_⟩
    · obtain ⟨fuel', rfl⟩ : ∃ n, fuel' = n + 1 := ⟨fuel' - 1, by omega⟩
      exact ih.build_succ h hv (by omega) (by omega)
    · obtain ⟨fuel', rfl⟩ : ∃ n, fuel' = n + 1 := ⟨fuel' - 1, by omega⟩
      cases vs with
      | nil => rfl
      | cons v vs =>
        rw [List.length_cons] at hfuel hfuel'
        exact ih.items_cons hvs (by omega) (by omega)
    · obtain ⟨fuel', rfl⟩ : ∃ n, fuel' = n + 1 := ⟨fuel' - 1, by omega⟩
      cases es with
      | nil => rfl
      | cons e es =>
        rw [List.length_cons] at hfuel hfuel'
        exact ih.entries_cons hes (by omega) (by omega)

theorem extent_eq_sum (cells : Table Nat Cell) : extent cells = unseen room cells [] + 2 := by
  have hfold (l : Table Nat Cell) (n : Nat) :
      l.foldl (fun n c => n + c.2.values.length + 2) n = n + (l.map fun e => room e.2).sum := by
    induction l generalizing n with
    | nil => rfl
    | cons e l ih =>
      rw [List.foldl_cons, ih, List.map_cons, List.sum_cons, room, size]
      omega
  rw [unseen_nil, extent, hfold, Nat.add_comm]

theorem unseen_one_le_room (cells : Table Nat Cell) (seen : List Nat) :
    unseen one cells seen ≤ unseen room cells seen := by
  induction cells with
  | nil => exact Nat.le_refl _
  | cons e cells ih =>
    rw [unseen_cons, unseen_cons]
    have hle : one e.2 ≤ room e.2 := by
      unfold one room
      omega
    split <;> omega

/-- The outline of a value is the same. -/
theorem ofValue_map (h : Copies f inside d d') {v : Value} (hv : Within inside v) :
    ofValue d' (v.map f) = ofValue d v := by
  have hle := unseen_one_le_room d.cells []
  have hle' := unseen_one_le_room d'.cells []
  have hextent := extent_eq_sum d.cells
  have hextent' := extent_eq_sum d'.cells
  have hwalk : walk d'.cells (extent d'.cells) (v.map f) (Visits.map f ⟨[], []⟩) =
      (walk d.cells (extent d.cells) v ⟨[], []⟩).map f := by
    refine walk_map h hv ?_ ?_
    · dsimp only
      omega
    · rw [List.map_nil]
      omega
  have hbuild := (allBuild h (walk d.cells (extent d.cells) v ⟨[], []⟩).shared
    (extent d.cells)).build (extent d'.cells) v [] hv (by omega) (by rw [List.map_nil]; omega)
  unfold ofValue
  dsimp only
  change (build d'.cells (walk d'.cells (extent d'.cells) (v.map f) (Visits.map f ⟨[], []⟩)).shared
    (extent d'.cells) (v.map f) ([].map f)).1 = _
  rw [hwalk]
  have hfirst := congrArg Prod.fst hbuild
  exact hfirst

end Outline

/-- A value is written as a flow collection in the same way. -/
theorem Copies.flowText? (h : Copies f inside d d') {v : Value} (hv : Within inside v) :
    flowText? d' (v.map f) = flowText? d v := by
  unfold Yaml.flowText?
  rw [h.isWritable hv, Outline.ofValue_map h hv]

end PubspecTidy.Yaml
