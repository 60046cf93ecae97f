import Mathlib.Order.Monotone.Basic
import MeshPP.Lib.Unordered

/-! # Containers that hold positions in a list

When the element at `index` is taken out of a list, the positions behind it move
down by one. A container that holds positions follows: as values of a map, as
elements of a set or as keys of a map. In each case what is found afterwards at
`j` is what was found before at `before index j`. -/

namespace MeshPP.Lib

/-- Where the element at `j` was before the one at `index` was taken out. -/
def before (index j : Nat) : Nat := if j < index then j else j + 1

/-- Where the element at `i` is once the one at `index` is taken out. -/
def after (index i : Nat) : Option Nat :=
  if i = index then none else if index < i then some (i - 1) else some i

theorem after_eq_some {index i j : Nat} : after index i = some j ↔ i = before index j := by
  unfold after before
  split
  · split <;> simp <;> omega
  · split <;> split <;> simp <;> omega

theorem exists_before {index i : Nat} (h : i ≠ index) : ∃ j, before index j = i := by
  by_cases hi : i < index
  · exact ⟨i, if_pos hi⟩
  · refine ⟨i - 1, ?_⟩
    unfold before
    split <;> omega

theorem le_before (index j : Nat) : j ≤ before index j := by
  unfold before
  split <;> omega

theorem before_strictMono (index : Nat) : StrictMono (before index) := by
  intro j j' h
  unfold before
  split <;> split <;> omega

theorem before_of_lt {index j : Nat} (h : j < index) : before index j = j := if_pos h

theorem getElem?_eraseIdx_before {α : Type} (l : List α) (index j : Nat) :
    (l.eraseIdx index)[j]? = l[before index j]? := by
  rw [List.getElem?_eraseIdx, before]
  split <;> rfl

/-! ## Several elements

The positions are given in increasing order, and the last element is taken out first. -/

/-- Where the element at `j` was before those at `indices` were taken out. -/
def beforeAll : List Nat → Nat → Nat
  | [], j => j
  | index :: rest, j => beforeAll rest (before index j)

theorem le_beforeAll (indices : List Nat) (j : Nat) : j ≤ beforeAll indices j := by
  induction indices generalizing j with
  | nil => exact Nat.le_refl j
  | cons index rest ih => exact Nat.le_trans (le_before index j) (ih _)

theorem beforeAll_strictMono (indices : List Nat) : StrictMono (beforeAll indices) := by
  induction indices with
  | nil => exact strictMono_id
  | cons index rest ih => exact ih.comp (before_strictMono index)

theorem beforeAll_of_lt {indices : List Nat} {j : Nat} (h : ∀ i ∈ indices, j < i) :
    beforeAll indices j = j := by
  induction indices with
  | nil => rfl
  | cons index rest ih =>
    rw [beforeAll, before_of_lt (h index (by simp))]
    exact ih fun i hi => h i (by simp [hi])

theorem beforeAll_notMem {indices : List Nat} (hs : indices.Pairwise (· < ·)) (j : Nat) :
    beforeAll indices j ∉ indices := by
  induction indices generalizing j with
  | nil => exact List.not_mem_nil
  | cons index rest ih =>
    obtain ⟨hfirst, hrest⟩ := List.pairwise_cons.mp hs
    intro hmem
    rcases List.mem_cons.mp hmem with heq | hmem
    · rw [beforeAll] at heq
      by_cases hj : j < index
      · rw [before_of_lt hj, beforeAll_of_lt fun i hi => Nat.lt_trans hj (hfirst i hi)] at heq
        omega
      · have hle := le_beforeAll rest (before index j)
        rw [heq, before, if_neg hj] at hle
        omega
    · exact ih hrest _ hmem

theorem exists_beforeAll {indices : List Nat} (hs : indices.Pairwise (· < ·)) {i : Nat}
    (hi : i ∉ indices) : ∃ j, beforeAll indices j = i := by
  induction indices with
  | nil => exact ⟨i, rfl⟩
  | cons index rest ih =>
    obtain ⟨hfirst, hrest⟩ := List.pairwise_cons.mp hs
    obtain ⟨j, hj⟩ := ih hrest fun hmem => hi (by simp [hmem])
    have hne : j ≠ index := by
      rintro rfl
      exact hi (by rw [← hj, beforeAll_of_lt hfirst]; simp)
    obtain ⟨k, hk⟩ := exists_before hne
    exact ⟨k, by rw [beforeAll, hk, hj]⟩

/-! ## Positions as values -/

section
variable {K : Type} [DecidableEq K]

def UMap.removePosition (index : Nat) (m : UMap K Nat) : UMap K Nat := m.bindValues (after index)

theorem UMap.lookup_removePosition {index : Nat} {m : UMap K Nat} {k : K} {j : Nat} :
    (m.removePosition index).lookup k = some j ↔ m.lookup k = some (before index j) := by
  rw [removePosition, lookup_bindValues, Option.bind_eq_some_iff]
  constructor
  · intro ⟨i, hi, hj⟩
    rw [hi, after_eq_some.mp hj]
  · exact fun h => ⟨_, h, after_eq_some.mpr rfl⟩

end

/-! ## Positions as elements -/

/-- One element of the set that is built anew. -/
def USet.removeStep (index : Nat) (set : USet Nat) (item : Nat) : USet Nat :=
  if index < item then set.insert (item - 1) ()
  else if item < index then set.insert item ()
  else set

def USet.removePosition (ord : IterOrder) (index : Nat) (set : USet Nat) : USet Nat :=
  (ord.order set.keys).foldl (removeStep index) ∅

theorem USet.mem_removeStep {index item j : Nat} {set : USet Nat} :
    j ∈ removeStep index set item ↔ j ∈ set ∨ item = before index j := by
  unfold removeStep
  rw [← after_eq_some, after]
  split
  · rw [AList.mem_insert, if_neg (by omega), Option.some.injEq, or_comm, eq_comm]
  · split
    · rw [AList.mem_insert, if_neg (by omega), Option.some.injEq, or_comm, eq_comm]
    · rw [if_pos (by omega)]
      simp

theorem USet.mem_foldl_removeStep {index j : Nat} (items : List Nat) (set : USet Nat) :
    j ∈ items.foldl (removeStep index) set ↔ j ∈ set ∨ before index j ∈ items := by
  induction items generalizing set with
  | nil => simp
  | cons item items ih =>
    rw [List.foldl_cons, ih, mem_removeStep, List.mem_cons, or_assoc]
    exact or_congr_right (or_congr_left eq_comm)

theorem USet.mem_removePosition {ord : IterOrder} {index j : Nat} {set : USet Nat} :
    j ∈ set.removePosition ord index ↔ before index j ∈ set := by
  rw [removePosition, mem_foldl_removeStep, ord.mem, ← AList.mem_keys]
  simp

/-! ## Positions as keys -/

section
variable {V : Type}

/-- The entry at `index2` moves down. -/
def UMap.shiftStep (m : UMap Nat V) (index2 : Nat) : UMap Nat V :=
  match m.lookup index2 with
  | some v => (m.insertNew (index2 - 1) v).erase index2
  | none => m

/-- The entries behind `index` of a map into a list of length `size` move down. -/
def UMap.shiftKeys (m : UMap Nat V) (index size : Nat) : UMap Nat V :=
  (List.range' (index + 1) (size - (index + 1))).foldl shiftStep m

theorem UMap.lookup_shiftStep {m : UMap Nat V} {i : Nat} (h : m.lookup i = none) (k : Nat) :
    (m.shiftStep (i + 1)).lookup k =
      if k = i then m.lookup (i + 1) else if k = i + 1 then none else m.lookup k := by
  have hi : i ∉ m := AList.lookup_eq_none.mp h
  unfold shiftStep
  cases hv : m.lookup (i + 1) with
  | none =>
    simp only
    split
    · next hk => rw [hk, h]
    · split
      · next hk => rw [hk, hv]
      · rfl
  | some v =>
    simp only [Nat.add_sub_cancel, lookup_erase, insertNew, hi, if_false, lookup_insert]
    by_cases hk : k = i
    · simp [hk]
    · simp [hk]

theorem UMap.lookup_foldl_shiftStep (n i : Nat) (m : UMap Nat V)
    (h : m.lookup i = none) (k : Nat) :
    ((List.range' (i + 1) n).foldl shiftStep m).lookup k =
      if k < i then m.lookup k else if k < i + n then m.lookup (k + 1)
      else if k = i + n then none else m.lookup k := by
  induction n generalizing i m with
  | zero =>
    simp only [List.range'_zero, List.foldl_nil, Nat.add_zero]
    split
    · rfl
    · split
      · next hk => rw [hk, h]
      · rfl
  | succ n ih =>
    rw [List.range'_succ, List.foldl_cons, ih (i + 1) _ (by rw [lookup_shiftStep h]; simp)]
    simp only [lookup_shiftStep h]
    repeat' split
    all_goals first | omega | rfl | (subst_vars; rfl)

/-- No entry is beyond the list, and that of `index` is gone. -/
theorem UMap.lookup_shiftKeys {m : UMap Nat V} {index size : Nat} (hindex : index < size)
    (h : m.lookup index = none) (hsize : ∀ k, size ≤ k → m.lookup k = none) (k : Nat) :
    (m.shiftKeys index size).lookup k = m.lookup (before index k) := by
  rw [shiftKeys, lookup_foldl_shiftStep _ _ _ h]
  by_cases hk : k < index
  · rw [if_pos hk, before, if_pos hk]
  · rw [if_neg hk, before, if_neg hk]
    split
    · rfl
    · rw [hsize (k + 1) (by omega)]
      split
      · rfl
      · exact hsize k (by omega)

/-- The entries of a map whose keys are below `size`, position by position. -/
theorem UMap.entries_perm_range {m : UMap Nat V} {size : Nat}
    (hsize : ∀ k v, m.lookup k = some v → k < size) :
    m.entries.Perm ((List.range size).filterMap fun k => (m.lookup k).map (Sigma.mk k)) := by
  have hnodup : m.entries.Nodup := List.Nodup.of_map Sigma.fst (AList.keys_nodup m)
  refine (List.perm_ext_iff_of_nodup hnodup ?_).mpr fun e => ?_
  · refine List.nodup_range.filterMap fun k k' e he he' => ?_
    obtain ⟨_, -, rfl⟩ := Option.map_eq_some_iff.mp he
    obtain ⟨_, -, heq⟩ := Option.map_eq_some_iff.mp he'
    exact (congrArg Sigma.fst heq).symm
  · rw [List.mem_filterMap]
    constructor
    · intro he
      have he' : (⟨e.1, e.2⟩ : Sigma fun _ : Nat => V) ∈ m.entries := he
      have hl := UMap.mem_entries.mp he'
      exact ⟨e.1, List.mem_range.mpr (hsize e.1 e.2 hl), by rw [hl]; rfl⟩
    · intro h
      obtain ⟨k, -, hk⟩ := h
      obtain ⟨v, hv, rfl⟩ := Option.map_eq_some_iff.mp hk
      exact UMap.mem_entries.mpr hv

end

end MeshPP.Lib
