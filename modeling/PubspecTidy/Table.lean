/-!
# Tables

A table is a list of entries with distinct keys, in the order in which the keys were first put in.
Main statements: what is found after an entry was put in or erased, and which keys there are then.
-/
namespace PubspecTidy

abbrev Table (κ α : Type) := List (κ × α)

namespace Table
variable {κ α β : Type} [DecidableEq κ]

def keys (t : Table κ α) : List κ := t.map Prod.fst

def values (t : Table κ α) : List α := t.map Prod.snd

def get? (t : Table κ α) (k : κ) : Option α :=
  match t with
  | [] => none
  | (k', a) :: rest => if k' = k then some a else get? rest k

def has (t : Table κ α) (k : κ) : Bool := (get? t k).isSome

def getD (t : Table κ α) (k : κ) (default : α) : α := (get? t k).getD default

/-- Gives `k` the value `a`: in its old place, or at the end if it is new. -/
def put (t : Table κ α) (k : κ) (a : α) : Table κ α :=
  match t with
  | [] => [(k, a)]
  | (k', a') :: rest => if k' = k then (k', a) :: rest else (k', a') :: put rest k a

def erase (t : Table κ α) (k : κ) : Table κ α := t.filter fun e => !decide (e.1 = k)

/-- Puts the entries in one after the other. -/
def ofList (entries : List (κ × α)) : Table κ α := entries.foldl (fun t e => put t e.1 e.2) []

/-- Changes the value of `k`, or puts in a new one. -/
def alter (t : Table κ α) (k : κ) (f : Option α → α) : Table κ α := put t k (f (get? t k))

omit [DecidableEq κ] in
@[simp] theorem keys_nil : keys ([] : Table κ α) = [] := rfl

omit [DecidableEq κ] in
@[simp] theorem keys_cons (e : κ × α) (t : Table κ α) : keys (e :: t) = e.1 :: keys t := rfl

theorem get?_nil (k : κ) : get? ([] : Table κ α) k = none := rfl

theorem get?_cons (e : κ × α) (t : Table κ α) (k : κ) :
    get? (e :: t) k = if e.1 = k then some e.2 else get? t k := rfl

theorem put_nil (k : κ) (a : α) : put ([] : Table κ α) k a = [(k, a)] := rfl

theorem put_cons (e : κ × α) (t : Table κ α) (k : κ) (a : α) :
    put (e :: t) k a = if e.1 = k then (e.1, a) :: t else e :: put t k a := rfl

theorem get?_put (t : Table κ α) (k k' : κ) (a : α) :
    get? (put t k a) k' = if k = k' then some a else get? t k' := by
  induction t with
  | nil => simp [put_nil, get?_cons, get?_nil]
  | cons e rest ih =>
    obtain ⟨k₀, a₀⟩ := e
    by_cases h : k₀ = k
    · subst h
      by_cases h' : k₀ = k' <;> simp [put_cons, get?_cons, h']
    · by_cases h' : k₀ = k'
      · subst h'
        have : ¬ k = k₀ := fun e => h e.symm
        simp [put_cons, get?_cons, h, this]
      · simp [put_cons, get?_cons, h, h', ih]

theorem get?_erase (t : Table κ α) (k k' : κ) :
    get? (erase t k) k' = if k' = k then none else get? t k' := by
  induction t with
  | nil => simp [erase, get?_nil]
  | cons e rest ih =>
    obtain ⟨k₀, a₀⟩ := e
    unfold erase at ih ⊢
    by_cases h : k₀ = k
    · subst h
      by_cases h' : k' = k₀
      · subst h'
        simpa using ih
      · have : ¬ k₀ = k' := fun e => h' e.symm
        simp [get?_cons, ih, h', this]
    · by_cases h' : k₀ = k'
      · subst h'
        simp [get?_cons, h]
      · simp [get?_cons, h, h', ih]

theorem keys_put (t : Table κ α) (k : κ) (a : α) :
    keys (put t k a) = if k ∈ keys t then keys t else keys t ++ [k] := by
  induction t with
  | nil => simp [put_nil]
  | cons e rest ih =>
    obtain ⟨k₀, a₀⟩ := e
    by_cases h : k₀ = k
    · simp [put_cons, h]
    · have h' : ¬ k = k₀ := fun e => h e.symm
      by_cases hm : k ∈ keys rest <;> simp [put_cons, h, h', ih, hm]

theorem get?_eq_none_iff (t : Table κ α) (k : κ) : get? t k = none ↔ k ∉ keys t := by
  induction t with
  | nil => simp [get?_nil]
  | cons e rest ih =>
    obtain ⟨k₀, a₀⟩ := e
    by_cases h : k₀ = k
    · simp [get?_cons, h]
    · have h' : ¬ k = k₀ := fun e => h e.symm
      simp [get?_cons, h, h', ih]

theorem mem_keys_of_get? {t : Table κ α} {k : κ} {a : α} (h : get? t k = some a) : k ∈ keys t := by
  cases Decidable.em (k ∈ keys t) with
  | inl hk => exact hk
  | inr hk =>
    rw [(get?_eq_none_iff t k).mpr hk] at h
    cases h

theorem mem_of_get? {t : Table κ α} {k : κ} {a : α} (h : get? t k = some a) : (k, a) ∈ t := by
  induction t with
  | nil => cases h
  | cons e rest ih =>
    rw [get?_cons] at h
    split at h
    · rename_i hk
      cases h
      rw [← hk]
      exact List.mem_cons_self
    · exact List.mem_cons_of_mem e (ih h)

theorem of_mem_put {t : Table κ α} {k : κ} {a : α} {e : κ × α} (h : e ∈ put t k a) :
    e ∈ t ∨ e = (k, a) := by
  induction t with
  | nil => exact .inr (List.mem_singleton.mp h)
  | cons first rest ih =>
    rw [put_cons] at h
    split at h
    · rename_i hk
      rcases List.mem_cons.mp h with rfl | h
      · exact .inr (by rw [hk])
      · exact .inl (List.mem_cons_of_mem first h)
    · rcases List.mem_cons.mp h with rfl | h
      · exact .inl List.mem_cons_self
      · exact (ih h).imp_left (List.mem_cons_of_mem first)

theorem of_mem_putAll {t : Table κ α} {entries : List (κ × α)} {e : κ × α}
    (h : e ∈ entries.foldl (fun t e => put t e.1 e.2) t) : e ∈ t ∨ e ∈ entries := by
  induction entries generalizing t with
  | nil => exact .inl h
  | cons first rest ih =>
    rcases ih h with h | h
    · rcases of_mem_put h with h | rfl
      · exact .inl h
      · exact .inr List.mem_cons_self
    · exact .inr (List.mem_cons_of_mem first h)

/-- A table of entries holds no others. -/
theorem mem_of_mem_ofList {entries : List (κ × α)} {e : κ × α} (h : e ∈ ofList entries) :
    e ∈ entries :=
  (of_mem_putAll h).resolve_left List.not_mem_nil

theorem mem_keys_putAll {t : Table κ α} {entries : List (κ × α)} {k : κ} :
    k ∈ keys (entries.foldl (fun t e => put t e.1 e.2) t) ↔
      k ∈ keys t ∨ k ∈ entries.map Prod.fst := by
  induction entries generalizing t with
  | nil => simp
  | cons first rest ih =>
    rw [List.foldl_cons, ih, keys_put, List.map_cons, List.mem_cons]
    split
    · rename_i hfirst
      constructor
      · exact fun h => h.imp_right .inr
      · rintro (h | rfl | h)
        · exact .inl h
        · exact .inl hfirst
        · exact .inr h
    · rw [List.mem_append, List.mem_singleton, or_assoc]

theorem mem_keys_ofList {entries : List (κ × α)} {k : κ} :
    k ∈ keys (ofList entries) ↔ k ∈ entries.map Prod.fst :=
  (mem_keys_putAll).trans (by simp)

theorem put_of_notMem {t : Table κ α} {k : κ} (h : k ∉ keys t) (a : α) :
    put t k a = t ++ [(k, a)] := by
  induction t with
  | nil => rfl
  | cons e rest ih =>
    rw [keys_cons, List.mem_cons, not_or] at h
    obtain ⟨hfirst, hrest⟩ := h
    rw [put_cons, if_neg fun heq => hfirst heq.symm, ih hrest, List.cons_append]

theorem putAll_of_nodup {t : Table κ α} {entries : List (κ × α)} (h : (keys (t ++ entries)).Nodup) :
    entries.foldl (fun t e => put t e.1 e.2) t = t ++ entries := by
  induction entries generalizing t with
  | nil => exact (List.append_nil t).symm
  | cons e rest ih =>
    have hsplit : t ++ e :: rest = t ++ [e] ++ rest := by simp
    have hnew : e.1 ∉ keys t := by
      unfold keys at h ⊢
      rw [List.map_append, List.map_cons] at h
      intro hmem
      exact (List.nodup_append.mp h).2.2 e.1 hmem e.1 List.mem_cons_self rfl
    rw [List.foldl_cons, put_of_notMem hnew, hsplit, ih (hsplit ▸ h)]

/-- Entries with distinct keys are a table already. -/
theorem ofList_of_nodup {entries : List (κ × α)} (h : (keys entries).Nodup) :
    ofList entries = entries :=
  putAll_of_nodup (t := []) h

theorem nodup_keys_put {t : Table κ α} (h : (keys t).Nodup) (k : κ) (a : α) :
    (keys (put t k a)).Nodup := by
  rw [keys_put]
  split
  · exact h
  · rename_i hnew
    refine List.nodup_append.mpr ⟨h, by simp, ?_⟩
    rintro k₁ hk₁ k₂ hk₂ rfl
    exact hnew (List.mem_singleton.mp hk₂ ▸ hk₁)

theorem get?_of_mem {t : Table κ α} (h : (keys t).Nodup) {e : κ × α} (he : e ∈ t) :
    get? t e.1 = some e.2 := by
  induction t with
  | nil => cases he
  | cons first rest ih =>
    obtain ⟨hfirst, hrest⟩ := List.nodup_cons.mp h
    rw [get?_cons]
    rcases List.mem_cons.mp he with rfl | he
    · exact if_pos rfl
    · have hne : first.1 ≠ e.1 := fun heq => hfirst (heq ▸ List.mem_map_of_mem he)
      rw [if_neg hne, ih hrest he]

/-! ## Tables that are changed entry by entry -/

theorem get?_map (f : α → β) (t : Table κ α) (k : κ) :
    get? (t.map fun e => (e.1, f e.2)) k = (get? t k).map f := by
  induction t with
  | nil => rfl
  | cons e rest ih =>
    rw [List.map_cons, get?_cons, get?_cons, ih]
    split <;> rfl

theorem put_map (f : α → β) (t : Table κ α) (k : κ) (a : α) :
    put (t.map fun e => (e.1, f e.2)) k (f a) = (put t k a).map fun e => (e.1, f e.2) := by
  induction t with
  | nil => rfl
  | cons e rest ih =>
    rw [List.map_cons, put_cons, put_cons, ih]
    split <;> rfl

theorem ofList_map (f : α → β) (entries : List (κ × α)) :
    ofList (entries.map fun e => (e.1, f e.2)) = (ofList entries).map fun e => (e.1, f e.2) := by
  have hall (t : Table κ α) :
      (entries.map fun e => (e.1, f e.2)).foldl (fun t e => put t e.1 e.2)
          (t.map fun e => (e.1, f e.2)) =
        (entries.foldl (fun t e => put t e.1 e.2) t).map fun e => (e.1, f e.2) := by
    induction entries generalizing t with
    | nil => rfl
    | cons e rest ih => rw [List.map_cons, List.foldl_cons, put_map, ih, List.foldl_cons]
  exact hall []

theorem get?_map_keys (ks : List κ) (f : κ → α) (k : κ) :
    get? (ks.map fun k => (k, f k)) k = if k ∈ ks then some (f k) else none := by
  induction ks with
  | nil => rfl
  | cons first rest ih =>
    rw [List.map_cons, get?_cons, ih]
    by_cases hk : first = k
    · simp [hk]
    · simp [hk, Ne.symm hk]

omit [DecidableEq κ] in
theorem keys_map_keys (ks : List κ) (f : κ → α) : keys (ks.map fun k => (k, f k)) = ks := by
  simp [keys, Function.comp_def]

omit [DecidableEq κ] in
theorem values_map_keys (ks : List κ) (f : κ → α) :
    values (ks.map fun k => (k, f k)) = ks.map f := by
  simp [values, Function.comp_def]

end Table
end PubspecTidy
