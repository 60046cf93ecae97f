import Mathlib.Data.List.AList

/-! # Unordered containers

An unordered map is an association list without duplicate keys whose order
means nothing: a loop over it takes the entries in an order of its own choice
(`IterOrder`). Grouping a list of keys by a name (`groupKeys`) is the map from
each name to the keys that have it, in list order. -/

namespace MeshPP.Lib

/-- The order in which an unordered container is traversed: any permutation. -/
structure IterOrder where
  order : ∀ {α : Type}, List α → List α
  perm : ∀ {α : Type} (l : List α), (order l).Perm l

/-- Entries in the order in which they are stored. -/
def IterOrder.stored : IterOrder := ⟨id, fun l => List.Perm.refl l⟩

theorem IterOrder.mem (ord : IterOrder) {α : Type} {x : α} {l : List α} :
    x ∈ ord.order l ↔ x ∈ l := (ord.perm l).mem_iff

abbrev UMap (K V : Type) := AList fun _ : K => V

variable {K V : Type}

namespace UMap

section
variable [DecidableEq K]

theorem lookup_insert (m : UMap K V) (a : K) (v : V) (k : K) :
    (m.insert a v).lookup k = if k = a then some v else m.lookup k := by
  split
  · next h => rw [h, AList.lookup_insert]
  · next h => exact AList.lookup_insert_ne h

theorem lookup_erase (m : UMap K V) (a k : K) :
    (m.erase a).lookup k = if k = a then none else m.lookup k := by
  split
  · next h => rw [h, AList.lookup_erase]
  · next h => exact AList.lookup_erase_ne h

theorem mem_entries {m : UMap K V} {k : K} {v : V} :
    (⟨k, v⟩ : Sigma fun _ : K => V) ∈ m.entries ↔ m.lookup k = some v :=
  AList.mem_lookup_iff.symm

theorem mem_iff {m : UMap K V} {k : K} : k ∈ m ↔ ∃ v, m.lookup k = some v := by
  rw [← AList.lookup_isSome, Option.isSome_iff_exists]

theorem exists_entry (m : UMap K V) (p : K → V → Prop) :
    (∃ e ∈ m.entries, p e.1 e.2) ↔ ∃ k v, m.lookup k = some v ∧ p k v := by
  constructor
  · intro ⟨e, he, hp⟩
    exact ⟨e.1, e.2, mem_entries.mp he, hp⟩
  · intro ⟨k, v, hk, hp⟩
    exact ⟨⟨k, v⟩, mem_entries.mpr hk, hp⟩

theorem entries_ne_nil {m : UMap K V} {ks : List K} (hne : ks ≠ []) (h : ∀ k, k ∈ m ↔ k ∈ ks) :
    m.entries ≠ [] := by
  obtain ⟨k, hk⟩ := List.exists_mem_of_ne_nil ks hne
  obtain ⟨v, hv⟩ := mem_iff.mp ((h k).mpr hk)
  exact List.ne_nil_of_mem (mem_entries.mpr hv)

theorem entries_eq_nil {m : UMap K V} : m.entries = [] ↔ ∀ k, m.lookup k = none := by
  constructor
  · intro h k
    cases hk : m.lookup k with
    | none => rfl
    | some v =>
      have := mem_entries.mpr hk
      rw [h] at this
      cases this
  · intro h
    cases he : m.entries with
    | nil => rfl
    | cons e es =>
      have := mem_entries.mp (show (⟨e.1, e.2⟩ : Sigma fun _ : K => V) ∈ m.entries by rw [he]; simp)
      rw [h] at this
      cases this

end

theorem keys_perm (ord : IterOrder) (m : UMap K V) :
    ((ord.order m.entries).map Sigma.fst).Perm m.keys :=
  (ord.perm m.entries).map Sigma.fst

theorem keys_nodup (ord : IterOrder) (m : UMap K V) :
    ((ord.order m.entries).map Sigma.fst).Nodup :=
  (keys_perm ord m).nodup_iff.mpr (AList.keys_nodup m)

end UMap

namespace UMap

/-- Change each value by `f`, dropping the entries for which it gives none. -/
def bindValues (f : V → Option V) (m : UMap K V) : UMap K V where
  entries := m.entries.filterMap fun e => (f e.2).map (Sigma.mk e.1)
  nodupKeys := by
    have h := m.nodupKeys
    rw [List.nodupKeys_iff_pairwise] at h ⊢
    refine h.filterMap _ fun e e' hne d hd d' hd' => ?_
    obtain ⟨_, -, rfl⟩ := Option.map_eq_some_iff.mp hd
    obtain ⟨_, -, rfl⟩ := Option.map_eq_some_iff.mp hd'
    exact hne

/-- `insert`, which leaves a value that is already there. -/
def insertNew [DecidableEq K] (m : UMap K V) (k : K) (v : V) : UMap K V :=
  if k ∈ m then m else m.insert k v

variable [DecidableEq K]

theorem lookup_bindValues (f : V → Option V) (m : UMap K V) (k : K) :
    (m.bindValues f).lookup k = (m.lookup k).bind f := by
  refine Option.ext fun v => ?_
  rw [← mem_entries, Option.bind_eq_some_iff]
  constructor
  · intro h
    obtain ⟨e, he, hv⟩ := List.mem_filterMap.mp h
    obtain ⟨w, hw, heq⟩ := Option.map_eq_some_iff.mp hv
    cases heq
    exact ⟨e.2, mem_entries.mp he, hw⟩
  · intro ⟨w, hw, hf⟩
    exact List.mem_filterMap.mpr ⟨⟨k, w⟩, mem_entries.mpr hw, by rw [hf]; rfl⟩

end UMap

/-- An unordered set is a map to nothing. -/
abbrev USet (K : Type) := UMap K Unit

/-! ## Grouping -/

variable {N : Type} [DecidableEq N]

/-- `groups[name].push_back(key)`. -/
def pushKey (groups : UMap N (List K)) (name : N) (key : K) : UMap N (List K) :=
  groups.insert name ((groups.lookup name).getD [] ++ [key])

theorem lookup_pushKey (groups : UMap N (List K)) (name : N) (key : K) (n : N) :
    (pushKey groups name key).lookup n =
      if n = name then some ((groups.lookup n).getD [] ++ [key]) else groups.lookup n := by
  rw [pushKey, UMap.lookup_insert]
  split
  · next h => rw [h]
  · rfl

/-- The groups hold the keys of `done`, each under its name, in order. -/
def Grouped (name : K → N) (done : List K) (groups : UMap N (List K)) : Prop :=
  ∀ n, groups.lookup n =
    if done.filter (fun k => name k = n) = [] then none else some (done.filter fun k => name k = n)

theorem Grouped.empty (name : K → N) : Grouped name [] (∅ : UMap N (List K)) := by
  intro n; simp

theorem Grouped.push {name : K → N} {done : List K} {groups : UMap N (List K)}
    (h : Grouped name done groups) (key : K) :
    Grouped name (done ++ [key]) (pushKey groups (name key) key) := by
  intro n
  rw [lookup_pushKey, List.filter_append]
  by_cases hn : n = name key
  · subst hn
    have hg : (groups.lookup (name key)).getD [] = done.filter fun k => name k = name key := by
      rw [h]
      split
      · next he => rw [he]; rfl
      · rfl
    simp [hg]
  · have hk : [key].filter (fun k => name k = n) = [] := by simp [Ne.symm hn]
    rw [if_neg hn, hk, List.append_nil, h]

theorem Grouped.mem {name : K → N} {keys : List K} {groups : UMap N (List K)}
    (h : Grouped name keys groups) {n : N} {ks : List K} (hl : groups.lookup n = some ks) :
    ks ≠ [] ∧ ∀ k, k ∈ ks ↔ k ∈ keys ∧ name k = n := by
  rw [h n] at hl
  split at hl
  · cases hl
  · next hne =>
    cases hl
    exact ⟨hne, fun k => by simp⟩

theorem Grouped.lookup_none {name : K → N} {keys : List K} {groups : UMap N (List K)}
    (h : Grouped name keys groups) {n : N} (hl : groups.lookup n = none) :
    ∀ k ∈ keys, name k ≠ n := by
  intro k hk hn
  rw [h n] at hl
  split at hl
  · next he =>
    have : k ∈ keys.filter (fun k => name k = n) := by simp [hk, hn]
    rw [he] at this
    cases this
  · cases hl

theorem Grouped.nodup {name : K → N} {keys : List K} {groups : UMap N (List K)}
    (h : Grouped name keys groups) (hk : keys.Nodup) {n : N} {ks : List K}
    (hl : groups.lookup n = some ks) : ks.Nodup := by
  rw [h n] at hl
  split at hl
  · cases hl
  · cases hl
    exact hk.filter _

section
variable {name : K → N} {keys : List K} {groups : UMap N (List K)} {ord : IterOrder}
  {e : Sigma fun _ : N => List K}

theorem Grouped.entry (h : Grouped name keys groups) (he : e ∈ ord.order groups.entries) :
    e.2 ≠ [] ∧ ∀ k, k ∈ e.2 ↔ k ∈ keys ∧ name k = e.1 :=
  h.mem (UMap.mem_entries.mp (ord.mem.mp he))

theorem Grouped.name_eq (h : Grouped name keys groups) (he : e ∈ ord.order groups.entries) {k : K}
    (hk : k ∈ e.2) : name k = e.1 := (((h.entry he).2 k).mp hk).2

/-- Every group is under the name of a key. -/
theorem Grouped.exists_name (h : Grouped name keys groups) (he : e ∈ ord.order groups.entries) :
    ∃ k ∈ keys, name k = e.1 := by
  obtain ⟨hne, hmem⟩ := h.entry he
  obtain ⟨k, hk⟩ := List.exists_mem_of_ne_nil _ hne
  exact ⟨k, (hmem k).mp hk⟩

end

/-- All the groups together, in any order, have the grouped keys. -/
theorem Grouped.mem_flatMap {name : K → N} {keys : List K} {groups : UMap N (List K)}
    (h : Grouped name keys groups) (ord : IterOrder) (k : K) :
    k ∈ (ord.order groups.entries).flatMap Sigma.snd ↔ k ∈ keys := by
  rw [List.mem_flatMap]
  constructor
  · intro ⟨e, he, hk⟩
    exact (((h.entry he).2 k).mp hk).1
  · intro hk
    cases hl : groups.lookup (name k) with
    | none => exact absurd rfl (h.lookup_none hl k hk)
    | some ks =>
      exact ⟨⟨name k, ks⟩, ord.mem.mpr (UMap.mem_entries.mpr hl), ((h.mem hl).2 k).mpr ⟨hk, rfl⟩⟩

theorem Grouped.name_mem {name : K → N} {keys : List K} {groups : UMap N (List K)}
    (h : Grouped name keys groups) (ord : IterOrder) {k : K} (hk : k ∈ keys) :
    name k ∈ (ord.order groups.entries).map Sigma.fst := by
  obtain ⟨e, he, hke⟩ := List.mem_flatMap.mp ((h.mem_flatMap ord k).mpr hk)
  rw [h.name_eq he hke]
  exact List.mem_map_of_mem he

end MeshPP.Lib
