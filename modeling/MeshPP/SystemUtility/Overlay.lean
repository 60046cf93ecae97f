import MeshPP.SystemUtility.BlockView

/-! # The overlay of a container

An overlay keeps, per key, a packet and a flag: `none` for an object that was
only read, `modified` for one to be written and `deleted` for one to be erased.
`OverlayAt` says what the entry of a key means between the saved and the working
value under that key, and `assign_groups` that erasing the deleted keys and then
writing the modified ones turns the one into the other. -/

namespace MeshPP.SystemUtility
open MeshPP.Lib

variable {K T : Type}

/-- What an entry, or its absence, says of a key saved as `g` and worked on as `w`. -/
def OverlayAt (g w : Option T) : Option (Option T × ECode) → Prop
  | none => w = g
  | some (packet, .none) => packet = w ∧ w.isSome ∧ w = g
  | some (packet, .modified) => packet = w ∧ w.isSome
  | some (_, .deleted) => w = none ∧ g.isSome

variable [DecidableEq K]

/-- The entries of `o` say how `w` differs from `g`. -/
def Overlay.Between (o : Overlay K T) (g w : K → Option T) : Prop :=
  ∀ k, OverlayAt (g k) (w k) (o.lookup k)

namespace Overlay

theorem between_empty (g : K → Option T) : Between (∅ : Overlay K T) g g := fun _ => rfl

theorem Between.insert {o : Overlay K T} {g w w' : K → Option T} (h : o.Between g w) {key : K}
    {entry : Option T × ECode} (hw : ∀ k, k ≠ key → w' k = w k)
    (hkey : OverlayAt (g key) (w' key) (some entry)) :
    Between (AList.insert key entry o) g w' := fun k => by
  rw [UMap.lookup_insert]
  split
  · next he => rw [he]; exact hkey
  · next he => rw [hw k he]; exact h k

theorem Between.erase {o : Overlay K T} {g w w' : K → Option T} (h : o.Between g w) {key : K}
    (hw : ∀ k, k ≠ key → w' k = w k) (hkey : w' key = g key) :
    Between (AList.erase key o) g w' := fun k => by
  rw [UMap.lookup_erase]
  split
  · next he => rw [he]; exact hkey
  · next he => rw [hw k he]; exact h k

/-- Where nothing is in the overlay, nothing has been worked on. -/
theorem Between.eq_of_empty {o : Overlay K T} {g w : K → Option T} (h : o.Between g w)
    (ho : o.entries.isEmpty = true) : g = w := by
  have hover : ∀ k, o.lookup k = none := UMap.entries_eq_nil.mp (by simpa using ho)
  funext k
  have := h k
  rw [hover k] at this
  exact this.symm

/-- The key is worked on exactly when its entry is not marked as deleted, or it has
none and is saved. -/
theorem Between.isSome_iff {o : Overlay K T} {g w : K → Option T} (h : o.Between g w) (key : K) :
    (w key).isSome ↔ match o.lookup key with
      | some (_, code) => code ≠ .deleted
      | none => (g key).isSome := by
  have ho := h key
  cases hl : o.lookup key with
  | none => rw [hl] at ho; rw [show w key = g key from ho]
  | some entry =>
    obtain ⟨packet, code⟩ := entry
    rw [hl] at ho
    cases code with
    | none => simpa using ho.2.1
    | modified => simpa using ho.2
    | deleted => simp [ho.1]

theorem mem_keysOf (ord : IterOrder) (o : Overlay K T) (code : ECode) (k : K) :
    k ∈ o.keysOf ord code ↔ ∃ packet, o.lookup k = some (packet, code) := by
  simp only [keysOf, List.mem_map, List.mem_filter, decide_eq_true_eq]
  constructor
  · rintro ⟨e, ⟨he, hc⟩, rfl⟩
    exact ⟨e.2.1, by rw [UMap.mem_entries.mp (ord.mem.mp he), ← hc]⟩
  · intro ⟨packet, hp⟩
    exact ⟨⟨k, packet, code⟩, ⟨ord.mem.mpr (UMap.mem_entries.mpr hp), rfl⟩, rfl⟩

omit [DecidableEq K] in
theorem keysOf_nodup (ord : IterOrder) (o : Overlay K T) (code : ECode) :
    (o.keysOf ord code).Nodup :=
  (UMap.keys_nodup ord o).sublist (List.filter_sublist.map _)

/-- The two groups together turn the saved function into the working one. -/
theorem Between.assign_groups (ord : IterOrder) {o : Overlay K T} {g w : K → Option T}
    (h : o.Between g w) :
    assign (o.keysOf ord .modified) o.packetOf
      (assign (o.keysOf ord .deleted) (fun _ => none) g) = w := by
  funext k
  have hk := h k
  have hmod := mem_keysOf ord o .modified k
  have hdel := mem_keysOf ord o .deleted k
  unfold assign packetOf
  cases hl : o.lookup k with
  | none =>
    rw [hl] at hk hmod hdel
    rw [if_neg (by rw [hmod]; simp), if_neg (by rw [hdel]; simp)]
    exact hk.symm
  | some entry =>
    obtain ⟨packet, code⟩ := entry
    rw [hl] at hk hmod hdel
    cases code with
    | none =>
      rw [if_neg (by rw [hmod]; simp), if_neg (by rw [hdel]; simp)]
      exact hk.2.2.symm
    | modified =>
      rw [if_pos (hmod.mpr ⟨packet, rfl⟩)]
      exact hk.1
    | deleted =>
      rw [if_neg (by rw [hmod]; simp), if_pos (hdel.mpr ⟨packet, rfl⟩)]
      exact hk.1.symm

/-- The keys to erase are saved. -/
theorem Between.admits_erase (ord : IterOrder) {o : Overlay K T} {g w : K → Option T}
    (h : o.Between g w) : Op.Admits .erase o.packetOf g (o.keysOf ord .deleted) := fun k hk => by
  obtain ⟨packet, hp⟩ := (mem_keysOf ord o .deleted k).mp hk
  have := h k
  rw [hp] at this
  exact this.2

/-- The keys to write come with a packet. -/
theorem Between.admits_modify (ord : IterOrder) {o : Overlay K T} {g w : K → Option T}
    (h : o.Between g w) (g' : K → Option T) :
    Op.Admits .modify o.packetOf g' (o.keysOf ord .modified) := fun k hk => by
  obtain ⟨packet, hp⟩ := (mem_keysOf ord o .modified k).mp hk
  have := h k
  rw [hp] at this
  rw [packetOf, hp, Option.bind_some, this.1]
  exact this.2

end Overlay

end MeshPP.SystemUtility
