import PubspecTidy.Manifest.Declaration
import PubspecTidy.Proofs.Outcome

/-!
# What changes make of the declarations

A change takes a package out of sections or moves what a section declares of it to the other one.
Main statement: where all changes of a package are alike, they come to one of them, whatever other
packages are changed between them.
-/
namespace PubspecTidy.Manifest

open Yaml (Document Value)

theorem SectionKind.other_other (kind : SectionKind) : kind.other.other = kind := by
  cases kind <;> rfl

theorem SectionKind.eq_other_of_ne {kind target : SectionKind} (h : kind ≠ target) :
    kind = target.other := by
  cases kind <;> cases target
  · exact absurd rfl h
  · rfl
  · rfl
  · exact absurd rfl h

namespace Declarations

variable {ds : Declarations} {kind : SectionKind} {name : String}

def ofKind (ds : Declarations) : SectionKind → List Declaration
  | .dependencies => ds.dependencies
  | .devDependencies => ds.devDependencies

/-- Whether a section declares a package. -/
def declares (ds : Declarations) (name : String) (kind : SectionKind) : Bool :=
  (ds.ofKind kind).any (·.name == name)

theorem declares_iff : ds.declares name kind = true ↔ ∃ d ∈ ds.ofKind kind, d.name = name := by
  simp [declares]

/-- Every declaration is labelled with its section. -/
def Labelled (ds : Declarations) : Prop := ∀ kind, ∀ d ∈ ds.ofKind kind, d.kind = kind

end Declarations

theorem kind_of_mem_declaredIn {doc : Document} {top : List (Value × Value)} {lines : List String}
    {kind : SectionKind} {found : List Declaration}
    (h : declaredIn doc top lines kind = .ok found) :
    ∀ d ∈ found, d.kind = kind := by
  unfold declaredIn at h
  dsimp only at h
  split at h
  · cases h
    simp
  · intro d hd
    obtain ⟨e, -, hd⟩ := exists_of_mem_mapM h d hd
    obtain ⟨name, -, hd⟩ := bind_eq_ok.mp hd
    obtain ⟨spec, -, hd⟩ := bind_eq_ok.mp hd
    cases hd
    rfl

/-- Declarations that were read are labelled with their sections. -/
theorem labelled_readDeclarations {text : String} {ds : Declarations}
    (h : readDeclarations text = .ok ds) : ds.Labelled := by
  obtain ⟨loaded, -, h⟩ := bind_eq_ok.mp h
  obtain ⟨dependencies, hdeps, h⟩ := bind_eq_ok.mp h
  obtain ⟨dev, hdev, h⟩ := bind_eq_ok.mp h
  cases h
  intro kind
  cases kind with
  | dependencies => exact kind_of_mem_declaredIn hdeps
  | devDependencies => exact kind_of_mem_declaredIn hdev

/-- What each section declares: packages with the texts of their versions. -/
abbrev Declared := SectionKind → List (String × Option String)

def Declarations.declared (ds : Declarations) : Declared := fun kind =>
  (ds.ofKind kind).map fun d => (d.name, d.spec.version?)

/-- What a change makes of what is declared. -/
def Change.make (c : Change) (s : Declared) : Declared := fun kind =>
  match c.action with
  | .remove => (s kind).filter (·.1 != c.package)
  | .removeFrom source =>
    if kind = source then (s kind).filter (·.1 != c.package) else s kind
  | .moveTo target =>
    if kind = target then s kind ++ (s kind.other).filter (·.1 == c.package)
    else (s kind).filter (·.1 != c.package)

/-- What changes make of what is declared, one after the other. -/
def makeAll (changes : List Change) (s : Declared) : Declared :=
  changes.foldl (fun s c => c.make s) s

/-- Where a package is declared after an action, if it was declared where `p` says. -/
def Action.leaves (a : Action) (p : SectionKind → Prop) (kind : SectionKind) : Prop :=
  match a with
  | .remove => False
  | .removeFrom source => kind ≠ source ∧ p kind
  | .moveTo target => kind = target ∧ (p kind ∨ p kind.other)

namespace Action

variable {a : Action} {p q : SectionKind → Prop} {kind : SectionKind}

theorem leaves_congr (h : ∀ kind, p kind ↔ q kind) : a.leaves p kind ↔ a.leaves q kind := by
  rw [funext fun kind => propext (h kind)]

/-- An action that has been carried out has nothing left to do. -/
theorem leaves_leaves : a.leaves (a.leaves p) kind ↔ a.leaves p kind := by
  cases a with
  | remove => exact Iff.rfl
  | removeFrom source =>
    simp only [leaves]
    exact ⟨fun h => h.2, fun h => ⟨h.1, h⟩⟩
  | moveTo target =>
    simp only [leaves]
    constructor
    · rintro ⟨rfl, h | h⟩
      · exact h
      · cases kind <;> cases h.1
    · rintro ⟨rfl, h⟩
      exact ⟨rfl, .inl ⟨rfl, h⟩⟩

theorem exists_leaves {α : Type} {p : α → SectionKind → Prop} :
    (∃ x, a.leaves (p x) kind) ↔ a.leaves (fun kind => ∃ x, p x kind) kind := by
  cases a with
  | remove => simp [leaves]
  | removeFrom source => simp [leaves]
  | moveTo target => simp [leaves, exists_or]

end Action

variable {c : Change} {changes : List Change} {s : Declared} {x : String × Option String}
  {kind : SectionKind}

/-! ## One change -/

theorem mem_make_of_ne (h : x.1 ≠ c.package) : x ∈ c.make s kind ↔ x ∈ s kind := by
  unfold Change.make
  split
  · simp [h]
  · split <;> simp [h]
  · split <;> simp [h]

theorem mem_make_of_eq (h : x.1 = c.package) :
    x ∈ c.make s kind ↔ c.action.leaves (x ∈ s ·) kind := by
  unfold Change.make Action.leaves
  split
  · simp [h]
  · split <;> simp [*]
  · split <;> simp [*]

/-! ## Runs -/

/-- Changes of other packages leave a package alone. -/
theorem mem_makeAll_of_ne (h : ∀ c ∈ changes, x.1 ≠ c.package) :
    x ∈ makeAll changes s kind ↔ x ∈ s kind := by
  induction changes generalizing s with
  | nil => exact Iff.rfl
  | cons c cs ih =>
    have hrest := ih (s := c.make s) fun c' hc' => h c' (List.mem_cons_of_mem c hc')
    exact hrest.trans (mem_make_of_ne (h c List.mem_cons_self))

/-- Like changes of a package come to one of them. -/
theorem mem_makeAll_of_alike {a : Action} (halike : ∀ c ∈ changes, x.1 = c.package → c.action = a)
    (hsome : ∃ c ∈ changes, x.1 = c.package) :
    x ∈ makeAll changes s kind ↔ a.leaves (x ∈ s ·) kind := by
  induction changes generalizing s with
  | nil =>
    obtain ⟨c, hc, -⟩ := hsome
    cases hc
  | cons c cs ih =>
    have halike' := fun c' hc' => halike c' (List.mem_cons_of_mem c hc')
    change x ∈ makeAll cs (c.make s) kind ↔ _
    by_cases hfirst : x.1 = c.package
    · have hmake (kind : SectionKind) : x ∈ c.make s kind ↔ a.leaves (x ∈ s ·) kind := by
        rw [← halike c List.mem_cons_self hfirst]
        exact mem_make_of_eq hfirst
      by_cases hrest : ∃ c ∈ cs, x.1 = c.package
      · exact (ih halike' hrest).trans ((Action.leaves_congr hmake).trans Action.leaves_leaves)
      · exact (mem_makeAll_of_ne fun c' hc' h => hrest ⟨c', hc', h⟩).trans (hmake kind)
    · have hrest : ∃ c ∈ cs, x.1 = c.package := by
        obtain ⟨c', hc', hx⟩ := hsome
        rcases List.mem_cons.mp hc' with rfl | hc'
        · exact absurd hx hfirst
        · exact ⟨c', hc', hx⟩
      exact (ih halike' hrest).trans (Action.leaves_congr fun kind => mem_make_of_ne hfirst)

/-- Nothing is declared that was not declared before, in one section or the other. -/
theorem exists_of_mem_makeAll (h : x ∈ makeAll changes s kind) : ∃ kind, x ∈ s kind := by
  induction changes generalizing s with
  | nil => exact ⟨kind, h⟩
  | cons c cs ih =>
    obtain ⟨kind', hmem⟩ := ih h
    by_cases hx : x.1 = c.package
    · rw [mem_make_of_eq hx] at hmem
      cases ha : c.action with
      | remove =>
        rw [ha] at hmem
        exact hmem.elim
      | removeFrom source =>
        rw [ha] at hmem
        exact ⟨kind', hmem.2⟩
      | moveTo target =>
        rw [ha] at hmem
        rcases hmem.2 with hmem | hmem
        · exact ⟨_, hmem⟩
        · exact ⟨_, hmem⟩
    · exact ⟨kind', (mem_make_of_ne hx).mp hmem⟩

/-! ## Up to order -/

variable {s' : Declared}

theorem make_perm (h : ∀ kind, (s kind).Perm (s' kind)) (c : Change) (kind : SectionKind) :
    (c.make s kind).Perm (c.make s' kind) := by
  unfold Change.make
  split
  · exact (h kind).filter _
  · split
    · exact (h kind).filter _
    · exact h kind
  · split
    · exact (h kind).append ((h kind.other).filter _)
    · exact (h kind).filter _

theorem makeAll_perm (h : ∀ kind, (s kind).Perm (s' kind)) (changes : List Change)
    (kind : SectionKind) : (makeAll changes s kind).Perm (makeAll changes s' kind) := by
  induction changes generalizing s s' with
  | nil => exact h kind
  | cons c cs ih => exact ih (make_perm h c)

/-- Both sections declare a package. -/
def DeclaredTwice (s : Declared) (name : String) : Prop := ∀ kind, ∃ x ∈ s kind, x.1 = name

/-- No change makes a section declare what the other one goes on declaring. -/
theorem declaredTwice_of_make {name : String} (h : DeclaredTwice (c.make s) name) :
    DeclaredTwice s name := by
  by_cases hname : name = c.package
  · exfalso
    have hleaves (kind : SectionKind) : ∃ p, c.action.leaves p kind := by
      obtain ⟨x, hx, hxname⟩ := h kind
      exact ⟨_, (mem_make_of_eq (hxname.trans hname)).mp hx⟩
    cases ha : c.action with
    | remove =>
      obtain ⟨p, hp⟩ := hleaves .dependencies
      rw [ha] at hp
      exact hp
    | removeFrom source =>
      obtain ⟨p, hp⟩ := hleaves source
      rw [ha] at hp
      exact hp.1 rfl
    | moveTo target =>
      obtain ⟨p, hp⟩ := hleaves target.other
      rw [ha] at hp
      cases target <;> cases hp.1
  · intro kind
    obtain ⟨x, hx, hxname⟩ := h kind
    refine ⟨x, (mem_make_of_ne ?_).mp hx, hxname⟩
    rwa [hxname]

end PubspecTidy.Manifest
