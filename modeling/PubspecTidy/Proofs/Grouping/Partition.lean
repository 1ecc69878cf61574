import Mathlib.Data.List.Induction
import Mathlib.Data.List.Nodup
import Mathlib.Data.List.Perm.Basic
import Mathlib.Data.Prod.Lex
import Mathlib.Data.String.Basic
import PubspecTidy.Grouping.Basic

/-!
# Groups as a partition

Without the service, the category of a package depends on the overrides, the cache and its name
alone: what the search for one package puts into the cache does not change the answer for any. The
categories have a strict order, and so have the packages of a group if their names are distinct.
Main statement: the groups are a partition of the packages by category, and they and their order are
the same however the packages are listed.
-/
namespace PubspecTidy

/-! ## The order of categories -/

namespace Category

variable {a b c : String}

/-- Whether a category comes before another: known categories come by priority and before all
others, and these by code point. -/
inductive Precedes (a b : String) : Prop
  | ranked : a ∈ known → b ∈ known → known.idxOf a < known.idxOf b → Precedes a b
  | ahead : a ∈ known → b ∉ known → Precedes a b
  | unranked : a ∉ known → b ∉ known → a < b → Precedes a b

theorem sortKey_of_mem (h : a ∈ known) : sortKey a = (known.idxOf a, "") :=
  if_pos (List.idxOf_lt_length_iff.mpr h)

theorem sortKey_of_notMem (h : a ∉ known) : sortKey a = (known.length, a) :=
  if_neg fun hlt => h (List.idxOf_lt_length_iff.mp hlt)

/-- Different categories have different places in the order. -/
theorem sortKey_injective : Function.Injective sortKey := by
  intro a b heq
  by_cases ha : a ∈ known <;> by_cases hb : b ∈ known
  · rw [sortKey_of_mem ha, sortKey_of_mem hb, Prod.mk.injEq] at heq
    exact (List.idxOf_inj ha).mp heq.1
  · rw [sortKey_of_mem ha, sortKey_of_notMem hb, Prod.mk.injEq] at heq
    exact absurd heq.1 (List.idxOf_lt_length_iff.mpr ha).ne
  · rw [sortKey_of_notMem ha, sortKey_of_mem hb, Prod.mk.injEq] at heq
    exact absurd heq.1.symm (List.idxOf_lt_length_iff.mpr hb).ne
  · rw [sortKey_of_notMem ha, sortKey_of_notMem hb, Prod.mk.injEq] at heq
    exact heq.2

theorem sortKey_lt_iff : toLex (sortKey a) < toLex (sortKey b) ↔ Precedes a b := by
  rw [Prod.Lex.toLex_lt_toLex]
  by_cases ha : a ∈ known <;> by_cases hb : b ∈ known
  · rw [sortKey_of_mem ha, sortKey_of_mem hb]
    constructor
    · rintro (hlt | ⟨-, hlt⟩)
      · exact .ranked ha hb hlt
      · exact absurd hlt (lt_irrefl "")
    · rintro (⟨-, -, hlt⟩ | ⟨-, hb'⟩ | ⟨ha', -, -⟩)
      · exact .inl hlt
      · exact absurd hb hb'
      · exact absurd ha ha'
  · rw [sortKey_of_mem ha, sortKey_of_notMem hb]
    exact iff_of_true (.inl (List.idxOf_lt_length_iff.mpr ha)) (.ahead ha hb)
  · rw [sortKey_of_notMem ha, sortKey_of_mem hb]
    refine iff_of_false ?_ ?_
    · rintro (hlt | ⟨heq, -⟩)
      · exact absurd hlt (List.idxOf_lt_length_iff.mpr hb).not_gt
      · exact absurd heq.symm (List.idxOf_lt_length_iff.mpr hb).ne
    · rintro (⟨ha', -, -⟩ | ⟨ha', -⟩ | ⟨-, hb', -⟩)
      · exact ha ha'
      · exact ha ha'
      · exact hb' hb
  · rw [sortKey_of_notMem ha, sortKey_of_notMem hb]
    constructor
    · rintro (hlt | ⟨-, hlt⟩)
      · exact absurd hlt (lt_irrefl _)
      · exact .unranked ha hb hlt
    · rintro (⟨ha', -, -⟩ | ⟨ha', -⟩ | ⟨-, -, hlt⟩)
      · exact absurd ha' ha
      · exact absurd ha' ha
      · exact .inr ⟨rfl, hlt⟩

theorem before_iff : before a b = true ↔ toLex (sortKey a) ≤ toLex (sortKey b) := by
  rw [Prod.Lex.toLex_le_toLex, before]
  simp only [not_lt, Bool.or_eq_true, Bool.and_eq_true, beq_iff_eq, decide_eq_true_eq]

theorem before_trans (a b c : String) (hab : before a b = true) (hbc : before b c = true) :
    before a c = true := by
  rw [before_iff] at hab hbc ⊢
  exact hab.trans hbc

theorem before_total (a b : String) : (before a b || before b a) = true := by
  rw [Bool.or_eq_true, before_iff, before_iff]
  exact le_total _ _

theorem before_antisymm (hab : before a b = true) (hba : before b a = true) : a = b := by
  rw [before_iff] at hab hba
  exact sortKey_injective (toLex.injective (hab.antisymm hba))

/-- Categories that are listed once are sorted strictly. -/
theorem pairwise_sort {categories : List String} (h : categories.Nodup) :
    (sort categories).Pairwise Precedes := by
  have hnodup : (sort categories).Nodup := (List.mergeSort_perm categories before).nodup_iff.mpr h
  refine (List.pairwise_mergeSort before_trans before_total categories).imp₂ ?_ hnodup
  intro a b hbefore hne
  rw [before_iff] at hbefore
  exact (sortKey_lt_iff).mp (lt_of_le_of_ne hbefore fun heq =>
    hne (sortKey_injective (toLex.injective heq)))

/-- The order of the categories does not depend on how they are listed. -/
theorem sort_eq_of_perm {categories categories' : List String} (h : categories.Perm categories') :
    sort categories = sort categories' := by
  have hsort := List.pairwise_mergeSort before_trans before_total
  refine List.Perm.eq_of_pairwise (fun a b _ _ => before_antisymm) (hsort categories)
    (hsort categories') ?_
  exact (List.mergeSort_perm categories before).trans
    (h.trans (List.mergeSort_perm categories' before).symm)

end Category

namespace Grouping

open Category (Cache Precedes Resolver)
open Time (Stamp)

variable {findings findings' : List Finding} {category : String → String}

/-! ## The order within a group -/

theorem byName_perm (findings : List Finding) : (byName findings).Perm findings :=
  List.mergeSort_perm findings _

theorem pairwise_byName_le (findings : List Finding) :
    (byName findings).Pairwise fun f g => f.name ≤ g.name := by
  have htrans (f g h : Finding) (hfg : decide (¬ g.name < f.name) = true)
      (hgh : decide (¬ h.name < g.name) = true) : decide (¬ h.name < f.name) = true := by
    simp only [not_lt, decide_eq_true_eq] at hfg hgh ⊢
    exact hfg.trans hgh
  have htotal (f g : Finding) :
      (decide (¬ g.name < f.name) || decide (¬ f.name < g.name)) = true := by
    simp only [not_lt, Bool.or_eq_true, decide_eq_true_eq]
    exact le_total _ _
  exact (List.pairwise_mergeSort htrans htotal findings).imp fun hle =>
    not_lt.mp (of_decide_eq_true hle)

theorem pairwise_byName (h : (findings.map (·.name)).Nodup) :
    (byName findings).Pairwise fun f g => f.name < g.name := by
  have hnodup : ((byName findings).map (·.name)).Nodup :=
    ((byName_perm findings).map (·.name)).nodup_iff.mpr h
  exact (pairwise_byName_le findings).imp₂ (fun f g => lt_of_le_of_ne) (List.pairwise_map.mp hnodup)

theorem byName_eq_of_perm (h : findings.Perm findings') (hnodup : (findings.map (·.name)).Nodup) :
    byName findings = byName findings' := by
  refine List.Perm.eq_of_pairwise (fun f g hf hg hfg hgf => ?_) (pairwise_byName_le findings)
    (pairwise_byName_le findings')
    ((byName_perm findings).trans (h.trans (byName_perm findings').symm))
  refine List.inj_on_of_nodup_map hnodup ((byName_perm findings).mem_iff.mp hf) ?_
    (hfg.antisymm hgf)
  exact h.mem_iff.mpr ((byName_perm findings').mem_iff.mp hg)

/-! ## The groups -/

/-- The packages of a category, as they are listed. -/
def members (category : String → String) (findings : List Finding) (c : String) : List Finding :=
  findings.filter fun f => category f.name == c

/-- The groups, as they are before they are sorted. -/
def buckets (category : String → String) (findings : List Finding) : Table String (List Finding) :=
  (findings.map fun f => (category f.name, f)).foldl (fun t p => addTo t p.1 p.2) []

theorem buckets_concat (category : String → String) (findings : List Finding) (f : Finding) :
    buckets category (findings ++ [f]) = addTo (buckets category findings) (category f.name) f := by
  simp [buckets]

theorem members_concat (category : String → String) (findings : List Finding) (f : Finding)
    (c : String) : members category (findings ++ [f]) c =
      members category findings c ++ if category f.name = c then [f] else [] := by
  by_cases hf : category f.name = c <;> simp [members, hf]

theorem members_eq_nil {c : String} (h : ¬ ∃ f ∈ findings, category f.name = c) :
    members category findings c = [] := by
  rw [members, List.filter_eq_nil_iff]
  exact fun f hf heq => h ⟨f, hf, by simpa using heq⟩

/-- A category that some package has is a key, and its packages are the value. -/
theorem get?_buckets (category : String → String) (findings : List Finding) (c : String) :
    Table.get? (buckets category findings) c =
      if ∃ f ∈ findings, category f.name = c then some (members category findings c) else none := by
  induction findings using List.reverseRecOn with
  | nil => rfl
  | append_singleton rest f ih =>
    rw [buckets_concat, addTo, Table.alter, Table.get?_put, members_concat]
    by_cases hc : category f.name = c
    · subst hc
      have hmem : ∃ g ∈ rest ++ [f], category g.name = category f.name := ⟨f, by simp, rfl⟩
      rw [if_pos hmem, if_pos rfl, if_pos rfl, ih]
      split
      · rfl
      · rename_i hnew
        rw [members_eq_nil hnew]
        rfl
    · rw [if_neg hc, ih, if_neg hc, List.append_nil]
      simp [hc]

theorem nodup_keys_buckets (category : String → String) (findings : List Finding) :
    (Table.keys (buckets category findings)).Nodup := by
  induction findings using List.reverseRecOn with
  | nil => exact List.nodup_nil
  | append_singleton rest f ih =>
    rw [buckets_concat]
    exact Table.nodup_keys_put ih _ _

theorem mem_keys_buckets {c : String} :
    c ∈ Table.keys (buckets category findings) ↔ ∃ f ∈ findings, category f.name = c := by
  rw [← not_iff_not, ← Table.get?_eq_none_iff, get?_buckets]
  split <;> simp_all

/-- Every category that some package has comes with its packages. -/
theorem buckets_eq (category : String → String) (findings : List Finding) :
    buckets category findings =
      (Table.keys (buckets category findings)).map fun c => (c, members category findings c) := by
  rw [Table.keys, List.map_map]
  conv_lhs => rw [← List.map_id (buckets category findings)]
  refine List.map_congr_left fun e he => Prod.ext rfl ?_
  have hget := Table.get?_of_mem (nodup_keys_buckets category findings) he
  rw [get?_buckets] at hget
  split at hget
  · exact (Option.some.inj hget).symm
  · cases hget

/-- The packages of several categories, one category after the other. -/
theorem perm_flatMap_members (category : String → String) (findings : List Finding)
    {cs : List String} (h : cs.Nodup) :
    (cs.flatMap (members category findings)).Perm
      (findings.filter fun f => cs.contains (category f.name)) := by
  induction cs with
  | nil => simp
  | cons c rest ih =>
    obtain ⟨hnew, hrest⟩ := List.nodup_cons.mp h
    have hsplit := List.filter_append_perm (fun f => category f.name == c)
      (findings.filter fun f => (c :: rest).contains (category f.name))
    have hfirst : (findings.filter fun f => (c :: rest).contains (category f.name)).filter
        (fun f => category f.name == c) = members category findings c := by
      rw [List.filter_filter, members]
      refine List.filter_congr fun f _ => ?_
      by_cases hf : category f.name = c <;> simp [hf]
    have hlater : (findings.filter fun f => (c :: rest).contains (category f.name)).filter
        (fun f => !(category f.name == c)) =
          findings.filter fun f => rest.contains (category f.name) := by
      rw [List.filter_filter]
      refine List.filter_congr fun f _ => ?_
      by_cases hf : category f.name = c
      · simp [hf, hnew]
      · simp [hf]
    rw [hfirst, hlater] at hsplit
    rw [List.flatMap_cons]
    exact ((ih hrest).append_left _).trans hsplit

/-- The grouping of packages by a category for each name. -/
def groupedBy (category : String → String) (findings : List Finding) : Grouping :=
  ofPairs (findings.map fun f => (category f.name, f))

theorem groups_groupedBy (category : String → String) (findings : List Finding) :
    (groupedBy category findings).groups = (Table.keys (buckets category findings)).map
      fun c => (c, byName (members category findings c)) := by
  change (buckets category findings).map (fun e => (e.1, byName e.2)) = _
  rw [buckets_eq, List.map_map, Table.keys_map_keys]
  rfl

theorem keys_groupedBy (category : String → String) (findings : List Finding) :
    Table.keys (groupedBy category findings).groups = Table.keys (buckets category findings) := by
  rw [groups_groupedBy, Table.keys_map_keys]

theorem order_groupedBy (category : String → String) (findings : List Finding) :
    (groupedBy category findings).order = Category.sort (Table.keys (buckets category findings)) :=
  rfl

theorem get?_groupedBy (category : String → String) (findings : List Finding) (c : String) :
    Table.get? (groupedBy category findings).groups c =
      if ∃ f ∈ findings, category f.name = c then some (byName (members category findings c))
      else none := by
  rw [groups_groupedBy, Table.get?_map_keys]
  simp only [mem_keys_buckets]

theorem perm_packages_groupedBy (category : String → String) (findings : List Finding) :
    (groupedBy category findings).packages.Perm findings := by
  have hall : (findings.filter fun f =>
      (Table.keys (buckets category findings)).contains (category f.name)) = findings := by
    rw [List.filter_eq_self]
    intro f hf
    exact List.contains_iff_mem.mpr ((mem_keys_buckets).mpr ⟨f, hf, rfl⟩)
  have hmembers := perm_flatMap_members category findings (nodup_keys_buckets category findings)
  rw [hall] at hmembers
  rw [packages, groups_groupedBy, Table.values_map_keys, ← List.flatMap_def]
  exact (List.Perm.flatMap_left _ fun c _ => byName_perm _).trans hmembers

/-- The groups are a partition of packages by category, sorted by name, and come in the order of their
categories. -/
structure Partitions (g : Grouping) (category : String → String) (findings : List Finding) : Prop where
  nodup_keys : (Table.keys g.groups).Nodup
  /-- There is a group for each category that some package has. -/
  mem_keys : ∀ c, c ∈ Table.keys g.groups ↔ ∃ f ∈ findings, category f.name = c
  /-- The group of a category holds the packages of that category. -/
  group : ∀ c, (g.group c).Perm (findings.filter fun f => category f.name == c)
  /-- All groups together hold each package once. -/
  packages : g.packages.Perm findings
  sorted : ∀ c, (g.group c).Pairwise fun f f' => f.name < f'.name
  order : g.order.Perm (Table.keys g.groups)
  ordered : g.order.Pairwise fun c c' => toLex (Category.sortKey c) < toLex (Category.sortKey c')
  precedes : g.order.Pairwise Precedes

/-- The same packages are in the same groups, which come in the same order. -/
structure Alike (g g' : Grouping) : Prop where
  groups : ∀ c, Table.get? g'.groups c = Table.get? g.groups c
  order : g'.order = g.order

theorem group_groupedBy (category : String → String) (findings : List Finding) (c : String) :
    (groupedBy category findings).group c = byName (members category findings c) := by
  rw [group, Table.getD, get?_groupedBy]
  split
  · rfl
  · rename_i hnone
    rw [members_eq_nil hnone, byName, List.mergeSort_nil]
    rfl

theorem nodup_members (h : (findings.map (·.name)).Nodup) (c : String) :
    ((members category findings c).map (·.name)).Nodup :=
  (List.filter_sublist.map _).nodup h

theorem partitions_groupedBy (category : String → String) (h : (findings.map (·.name)).Nodup) :
    (groupedBy category findings).Partitions category findings where
  nodup_keys := by
    rw [keys_groupedBy]
    exact nodup_keys_buckets category findings
  mem_keys c := by rw [keys_groupedBy, mem_keys_buckets]
  group c := by
    rw [group_groupedBy]
    exact byName_perm _
  packages := perm_packages_groupedBy category findings
  sorted c := by
    rw [group_groupedBy]
    exact pairwise_byName (nodup_members h c)
  order := by
    rw [order_groupedBy, keys_groupedBy]
    exact List.mergeSort_perm _ _
  ordered := by
    rw [order_groupedBy]
    exact (Category.pairwise_sort (nodup_keys_buckets category findings)).imp
      (Category.sortKey_lt_iff).mpr
  precedes := by
    rw [order_groupedBy]
    exact Category.pairwise_sort (nodup_keys_buckets category findings)

/-- However packages are listed, they are grouped alike. -/
theorem alike_groupedBy (category : String → String) (h : findings'.Perm findings)
    (hnodup : (findings.map (·.name)).Nodup) :
    Alike (groupedBy category findings) (groupedBy category findings') where
  groups c := by
    rw [get?_groupedBy, get?_groupedBy]
    simp only [h.mem_iff]
    split
    · exact congrArg some (byName_eq_of_perm (h.symm.filter _) (nodup_members hnodup c)).symm
    · rfl
  order := by
    rw [order_groupedBy, order_groupedBy]
    refine Category.sort_eq_of_perm ((List.perm_ext_iff_of_nodup (nodup_keys_buckets _ _)
      (nodup_keys_buckets _ _)).mpr fun c => ?_)
    simp only [mem_keys_buckets, h.mem_iff]

/-! ## Categories of any origin -/

section Found

variable {r : Resolver} {s : Resolver.State} {now : Stamp} {overrides : Table String String}
  {pairs : List (String × Finding)} {g : Grouping}

theorem map_snd_categorize (h : (categorize r overrides now s findings).1 = .ok pairs) :
    pairs.map (·.2) = findings := by
  induction findings generalizing s pairs with
  | nil =>
    cases h
    rfl
  | cons f rest ih =>
    unfold categorize at h
    generalize categoryOf r overrides now s f.name = result at h
    obtain ⟨found, s'⟩ := result
    cases found with
    | error fault => cases h
    | ok category =>
      dsimp only at h
      cases hrest : (categorize r overrides now s' rest).1 with
      | error fault =>
        rw [hrest] at h
        cases h
      | ok more =>
        rw [hrest] at h
        cases h
        rw [List.map_cons, ih hrest]

/-- Packages of distinct names have one category for each name. -/
theorem exists_groupedBy (h : ((pairs.map (·.2)).map (·.name)).Nodup) :
    ∃ category, ofPairs pairs = groupedBy category (pairs.map (·.2)) := by
  have hkeys : (Table.keys (pairs.map fun p => (p.2.name, p.1))).Nodup := by
    rw [Table.keys, List.map_map]
    rwa [List.map_map] at h
  refine ⟨fun name => Table.getD (pairs.map fun p => (p.2.name, p.1)) name "", ?_⟩
  rw [groupedBy, List.map_map]
  refine congrArg ofPairs ?_
  conv_lhs => rw [← List.map_id pairs]
  refine List.map_congr_left fun p hp => Prod.ext ?_ rfl
  have hget := Table.get?_of_mem hkeys (List.mem_map_of_mem (f := fun p => (p.2.name, p.1)) hp)
  dsimp only [Function.comp_apply] at hget ⊢
  rw [Table.getD, hget]
  rfl

/-- Wherever their categories come from, packages of distinct names are grouped by one for each
name. -/
theorem exists_partitions (hnodup : (findings.map (·.name)).Nodup)
    (h : (of r overrides now s findings).1 = .ok g) : ∃ category, g.Partitions category findings := by
  change (categorize r overrides now s findings).1.map ofPairs = .ok g at h
  cases hpairs : (categorize r overrides now s findings).1 with
  | error fault =>
    rw [hpairs] at h
    cases h
  | ok pairs =>
    rw [hpairs] at h
    cases h
    obtain rfl := map_snd_categorize hpairs
    obtain ⟨category, hgrouped⟩ := exists_groupedBy hnodup
    rw [hgrouped]
    exact ⟨category, partitions_groupedBy category hnodup⟩

end Found

/-! ## Categories without the service -/

variable {r : Resolver} {s : Resolver.State} {now : Stamp} {overrides : Table String String}

/-- The category of a package by the overrides and a cache, or else by its name. -/
def localCategory (overrides : Table String String) (cache : Cache) (now : Stamp) (name : String) :
    String :=
  match Table.get? overrides name with
  | some category => category
  | none => ((cache.fresh? now name).map (·.primary)).getD (Category.infer name)

theorem categoryOf_offline (h : r.service = none) (overrides : Table String String) (now : Stamp)
    (s : Resolver.State) (name : String) :
    (categoryOf r overrides now s name).1 = .ok (localCategory overrides s.cache now name) := by
  unfold categoryOf localCategory Resolver.primary Resolver.resolve Resolver.askAny
  rw [h]
  cases Table.get? overrides name with
  | some category => rfl
  | none => cases s.cache.fresh? now name <;> rfl

/-- A search leaves the cache as it is, or puts a guess into it where it knew nothing. -/
theorem cache_categoryOf (h : r.service = none) (overrides : Table String String) (now : Stamp)
    (s : Resolver.State) (name : String) :
    (categoryOf r overrides now s name).2.cache = s.cache ∨
      s.cache.fresh? now name = none ∧
        (categoryOf r overrides now s name).2.cache =
          s.cache.put name (Resolver.guess now name) := by
  unfold categoryOf Resolver.primary Resolver.resolve Resolver.askAny
  rw [h]
  cases Table.get? overrides name with
  | some category => exact .inl rfl
  | none =>
    cases s.cache.fresh? now name with
    | some a => exact .inl rfl
    | none => exact .inr ⟨rfl, rfl⟩

/-- A guess in the cache says what the name alone would. -/
theorem localCategory_put {cache : Cache} {other : String} (h : cache.fresh? now other = none)
    (overrides : Table String String) (name : String) :
    localCategory overrides (cache.put other (Resolver.guess now other)) now name =
      localCategory overrides cache now name := by
  unfold localCategory
  cases Table.get? overrides name with
  | some category => rfl
  | none =>
    have hget : (cache.put other (Resolver.guess now other)).get? name =
        if other = name then some (Resolver.guess now other) else cache.get? name :=
      Table.get?_put _ _ _ _
    by_cases hname : other = name
    · subst hname
      rw [if_pos rfl] at hget
      dsimp only
      rw [h, Cache.fresh?, hget, Option.filter_some]
      split <;> rfl
    · rw [if_neg hname] at hget
      dsimp only
      rw [Cache.fresh?, hget]
      rfl

/-- What the search for a package puts into the cache changes the category of none. -/
theorem localCategory_categoryOf (h : r.service = none) (overrides : Table String String)
    (now : Stamp) (s : Resolver.State) (other name : String) :
    localCategory overrides (categoryOf r overrides now s other).2.cache now name =
      localCategory overrides s.cache now name := by
  rcases cache_categoryOf h overrides now s other with hcache | ⟨hfresh, hcache⟩
  · rw [hcache]
  · rw [hcache, localCategory_put hfresh]

theorem categorize_offline (h : r.service = none) (overrides : Table String String) (now : Stamp)
    (s : Resolver.State) (findings : List Finding) :
    (categorize r overrides now s findings).1 =
      .ok (findings.map fun f => (localCategory overrides s.cache now f.name, f)) := by
  induction findings generalizing s with
  | nil => rfl
  | cons f rest ih =>
    have hfirst := categoryOf_offline h overrides now s f.name
    have hlater := localCategory_categoryOf h overrides now s f.name
    unfold categorize
    generalize categoryOf r overrides now s f.name = result at hfirst hlater
    obtain ⟨found, s'⟩ := result
    dsimp only at hfirst hlater
    subst hfirst
    dsimp only
    rw [ih s', List.map_cons]
    simp only [hlater]
    rfl

theorem of_offline (h : r.service = none) (overrides : Table String String) (now : Stamp)
    (s : Resolver.State) (findings : List Finding) :
    (of r overrides now s findings).1 =
      .ok (groupedBy (localCategory overrides s.cache now) findings) := by
  change (categorize r overrides now s findings).1.map ofPairs = _
  rw [categorize_offline h]
  rfl

theorem localCategory_of_override {name c : String} (h : Table.get? overrides name = some c)
    (cache : Cache) (now : Stamp) : localCategory overrides cache now name = c := by
  rw [localCategory, h]

theorem primary_offline (hservice : r.service = none) {name : String}
    (h : Table.get? overrides name = none) (now : Stamp) (s : Resolver.State) :
    (r.primary s now name).1 = .ok (localCategory overrides s.cache now name) := by
  have hcategory := categoryOf_offline hservice overrides now s name
  rwa [categoryOf, h] at hcategory

/-- Without the service, packages of distinct names are grouped by the category that each has by the
overrides, or else by the resolver with the cache as it is at first. The groups are a partition of
them, each sorted by name, in the strict order of their categories, and both groups and order are
the same however the packages are listed. -/
theorem of_partitions (hservice : r.service = none) (overrides : Table String String) (now : Stamp)
    (s : Resolver.State) (hnodup : (findings.map (·.name)).Nodup) :
    (∀ name c, Table.get? overrides name = some c →
      localCategory overrides s.cache now name = c) ∧
    (∀ name, Table.get? overrides name = none →
      (r.primary s now name).1 = .ok (localCategory overrides s.cache now name)) ∧
    ∃ g, (of r overrides now s findings).1 = .ok g ∧
      g.Partitions (localCategory overrides s.cache now) findings ∧
      ∀ findings', findings'.Perm findings →
        ∃ g', (of r overrides now s findings').1 = .ok g' ∧ Alike g g' := by
  refine ⟨fun name c h => localCategory_of_override h s.cache now,
    fun name h => primary_offline hservice h now s, _, of_offline hservice overrides now s findings,
    partitions_groupedBy _ hnodup, fun findings' hperm => ?_⟩
  exact ⟨_, of_offline hservice overrides now s findings', alike_groupedBy _ hperm hnodup⟩

/-! ### A cache that knows a package -/

def midday : Stamp := ⟨⟨2024, 5, 20⟩, 12 * Time.hour, some 0⟩

/-- A cache that knows the category of `dio`. -/
def knowing : Resolver.State where
  cache :=
    { path := ["cache.json"]
      life := Time.day
      entries :=
        [("dio", { name := "dio", categories := ["HTTP Clients"], primary := "HTTP Clients",
                   source := "remote", confidence := .ofDecimal false 9 (-1), fetched := midday })] }
  tree := { files := [], directories := [], location := "." }

def packageNamed (name : String) : Finding := ⟨name, "1", .dependencies, .used, {}⟩

/-- Packages of which the cache knows one and the overrides another. -/
def severalPackages : List Finding := ["zed", "http", "graphql", "dio"].map packageNamed

theorem of_partitions_several :
    ({} : Resolver).service = none ∧ (severalPackages.map (·.name)).Nodup ∧
    ∃ g, (of {} [("zed", "Alpha")] midday knowing severalPackages).1 = .ok g ∧
      g.Partitions (localCategory [("zed", "Alpha")] knowing.cache midday) severalPackages ∧
      ∀ findings', findings'.Perm severalPackages →
        ∃ g', (of {} [("zed", "Alpha")] midday knowing findings').1 = .ok g' ∧ Alike g g' := by
  have hnodup : (severalPackages.map (·.name)).Nodup := by decide
  exact ⟨rfl, hnodup, (of_partitions rfl [("zed", "Alpha")] midday knowing hnodup).2.2⟩

end Grouping
end PubspecTidy
