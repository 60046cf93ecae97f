import Mathlib.Data.List.Perm.Subperm
import MeshPP.SystemUtility.FileSaver

/-! # Blocks as partial functions

What a block holds, seen as a partial function from keys to packets (`Rep`),
and what the work of `file_saver_helper` on one block does to that function:
the keys of the group get their new values or lose them, every other key of the
block keeps what it had (`processBlock_spec`). -/

namespace MeshPP.SystemUtility
open MeshPP.Lib

variable {K T : Type}

/-- The items are the graph of `g`. -/
def Denotes (items : List (BlockItem K T)) (g : K → Option T) : Prop :=
  ∀ it, it ∈ items ↔ ∃ v, g it.key = some v ∧ it.item = some v

variable (fmt : BlockFormat K T)

/-- The files of a block, the pending or the committed ones, hold the graph of `g`. -/
def Files.Rep (f : Files) (pending : Bool) (g : K → Option T) : Prop :=
  ∃ items, f.Holds fmt.anyRow pending items ∧ Denotes items g

variable {fmt}

theorem Denotes.nil : Denotes ([] : List (BlockItem K T)) fun _ => none := fun it => by simp

theorem Files.rep_absent (pending : Bool) :
    Files.absent.Rep fmt pending fun _ => none :=
  ⟨[], by cases pending <;> exact Holds.absent, Denotes.nil⟩

theorem Denotes.item {items : List (BlockItem K T)} {g : K → Option T} (h : Denotes items g)
    {it : BlockItem K T} (hm : it ∈ items) : it.item = g it.key ∧ (g it.key).isSome := by
  obtain ⟨v, hg, hi⟩ := (h it).mp hm
  exact ⟨by rw [hg, hi], by rw [hg]; rfl⟩

theorem Denotes.mem_keys {items : List (BlockItem K T)} {g : K → Option T} (h : Denotes items g)
    (k : K) : k ∈ items.map BlockItem.key ↔ (g k).isSome := by
  constructor
  · intro hm
    obtain ⟨it, hit, rfl⟩ := List.mem_map.mp hm
    exact (h.item hit).2
  · intro hs
    obtain ⟨v, hv⟩ := Option.isSome_iff_exists.mp hs
    exact List.mem_map.mpr ⟨⟨k, some v⟩, (h _).mpr ⟨v, hv, rfl⟩, rfl⟩

variable [DecidableEq K]

/-- `g` with the values of `h` at `keys`. -/
def assign (keys : List K) (h g : K → Option T) : K → Option T := fun k =>
  if k ∈ keys then h k else g k

theorem assign_nil (h g : K → Option T) : assign [] h g = g := by
  funext k
  exact if_neg List.not_mem_nil

theorem assign_append (ks ks' : List K) (h g : K → Option T) :
    assign ks' h (assign ks h g) = assign (ks ++ ks') h g := by
  funext k
  unfold assign
  by_cases hk : k ∈ ks <;> by_cases hk' : k ∈ ks' <;> simp [hk, hk']

/-! ## The values of a loader -/

theorem LoadedValues.mem_iff {items : List (BlockItem K T)} {keys : List K}
    {values : UMap K (Value K T)} (h : LoadedValues items keys values) (k : K) :
    k ∈ values ↔ k ∈ keys ∨ (keys = [] ∧ k ∈ items.map BlockItem.key) := by
  rw [UMap.mem_iff]
  constructor
  · intro ⟨v, hv⟩
    rcases (h k v).mp hv with ⟨hk, j, it, hj, he, -⟩ | ⟨hk, -⟩
    · rcases hk with hnil | hk
      · exact .inr ⟨hnil, he ▸ List.mem_map_of_mem (List.mem_of_getElem? hj)⟩
      · exact .inl hk
    · exact .inl hk
  · intro hk
    by_cases hm : k ∈ items.map BlockItem.key
    · obtain ⟨it, hit, he⟩ := List.mem_map.mp hm
      obtain ⟨j, hj⟩ := List.getElem?_of_mem hit
      refine ⟨_, (h k _).mpr (.inl ⟨?_, j, it, hj, he, rfl⟩)⟩
      rcases hk with hk | ⟨hnil, -⟩
      · exact .inr hk
      · exact .inl hnil
    · refine ⟨_, (h k _).mpr (.inr ⟨?_, hm, rfl⟩)⟩
      rcases hk with hk | ⟨-, hk⟩
      · exact hk
      · exact absurd hk hm

/-- A loaded value is what the block has under its key, and it was found exactly
when the block has something there. -/
theorem LoadedValues.item {items : List (BlockItem K T)} {keys : List K} {g : K → Option T}
    {values : UMap K (Value K T)} (h : LoadedValues items keys values) (hd : Denotes items g)
    {k : K} {v : Value K T} (hv : values.lookup k = some v) :
    v.item.item = g k ∧ v.loadedMarkerIndex.isSome = (g k).isSome := by
  rcases (h k v).mp hv with ⟨-, j, it, hj, rfl, rfl⟩ | ⟨-, hm, rfl⟩
  · obtain ⟨h1, h2⟩ := hd.item (List.mem_of_getElem? hj)
    exact ⟨h1, h2.symm⟩
  · rw [hd.mem_keys, Option.isSome_iff_exists, not_exists] at hm
    have : g k = none := Option.eq_none_iff_forall_ne_some.mpr hm
    rw [this]
    exact ⟨rfl, rfl⟩

/-- The keys the constructor reports as loaded. -/
theorem mem_loaded {items : List (BlockItem K T)} {keys : List K} {g : K → Option T}
    {self : BlockFileLoader K T} (h : LoadedValues items keys self.values) (hd : Denotes items g)
    (k : K) : k ∈ self.loaded ↔ (keys = [] ∨ k ∈ keys) ∧ (g k).isSome := by
  simp only [BlockFileLoader.loaded, List.mem_map, List.mem_filter]
  constructor
  · rintro ⟨e, ⟨he, hs⟩, rfl⟩
    have hv := UMap.mem_entries.mp he
    rw [(h.item hd hv).2] at hs
    refine ⟨?_, hs⟩
    rcases (h.mem_iff e.1).mp (UMap.mem_iff.mpr ⟨_, hv⟩) with hk | ⟨hnil, -⟩
    · exact .inr hk
    · exact .inl hnil
  · intro ⟨hk, hs⟩
    have hmem : k ∈ self.values := (h.mem_iff k).mpr <| by
      rcases hk with hnil | hk
      · exact .inr ⟨hnil, (hd.mem_keys k).mpr hs⟩
      · exact .inl hk
    obtain ⟨v, hv⟩ := UMap.mem_iff.mp hmem
    exact ⟨⟨k, v⟩, ⟨UMap.mem_entries.mpr hv, by rw [(h.item hd hv).2]; exact hs⟩, rfl⟩

/-! ## Putting packets into the values -/

/-- `temp` after the packets of `keys` have been put into it. -/
structure PutInto (packetOf : K → Option T) (keys : List K) (temp temp' : BlockFileLoader K T) :
    Prop where
  ptransaction : temp'.ptransaction = temp.ptransaction
  mainPath : temp'.mainPath = temp.mainPath
  markers : temp'.markers = temp.markers
  mem : ∀ k, k ∈ temp'.values ↔ k ∈ temp.values
  lookup : ∀ k v', temp'.values.lookup k = some v' → ∃ v, temp.values.lookup k = some v ∧
    v' = { v with item := ⟨v.item.key, if k ∈ keys then packetOf k else v.item.item⟩ }

theorem PutInto.refl (packetOf : K → Option T) (temp : BlockFileLoader K T) :
    PutInto packetOf [] temp temp where
  ptransaction := rfl
  mainPath := rfl
  markers := rfl
  mem _ := Iff.rfl
  lookup k v' hv := ⟨v', hv, by simp⟩

theorem setItem_spec {F : Frame World} {packetOf : K → Option T} {keys : List K} {k : K}
    {temp temp' : BlockFileLoader K T} (h : PutInto packetOf keys temp temp')
    (hk : k ∈ temp.values) {w : World} :
    Ends F (temp'.setItem k (packetOf k)) w
      (fun r w' => PutInto packetOf (keys ++ [k]) temp r ∧ r.modified = true ∧ w' = w) := by
  obtain ⟨v, hv⟩ := UMap.mem_iff.mp ((h.mem k).mpr hk)
  simp only [BlockFileLoader.setItem, hv]
  refine ends_pure ⟨⟨h.ptransaction, h.mainPath, h.markers, fun j => ?_,
    fun j v' hj => ?_⟩, rfl, rfl⟩
  · rw [AList.mem_insert, h.mem]
    exact ⟨fun hj => hj.elim (fun he => he ▸ hk) id, .inr⟩
  · rw [UMap.lookup_insert] at hj
    split at hj
    · next he =>
      subst he
      cases hj
      obtain ⟨v0, hv0, rfl⟩ := h.lookup j v hv
      exact ⟨v0, hv0, by simp⟩
    · next he =>
      obtain ⟨v0, hv0, rfl⟩ := h.lookup j v' hj
      exact ⟨v0, hv0, by simp [he]⟩

theorem setItems_spec {F : Frame World} (packetOf : K → Option T) {temp : BlockFileLoader K T}
    {keys : List K} (hk : ∀ k ∈ keys, k ∈ temp.values) {w : World} :
    Ends F (keys.foldlM (fun temp key => temp.setItem key (packetOf key)) temp) w
      (fun r w' => PutInto packetOf keys temp r ∧ (keys ≠ [] → r.modified = true) ∧ w' = w) := by
  suffices h : ∀ (todo done : List K) (temp' : BlockFileLoader K T), (∀ k ∈ todo, k ∈ temp.values) →
      PutInto packetOf done temp temp' → (done ≠ [] → temp'.modified = true) →
      Ends F (todo.foldlM (fun temp key => temp.setItem key (packetOf key)) temp') w
        (fun r w' => PutInto packetOf (done ++ todo) temp r ∧
          (done ++ todo ≠ [] → r.modified = true) ∧ w' = w) by
    simpa using h keys [] temp hk (.refl packetOf temp) (by simp)
  intro todo
  induction todo with
  | nil =>
    intro done temp' _ h hmod
    rw [List.append_nil]
    exact ends_pure ⟨h, hmod, rfl⟩
  | cons k todo ih =>
    intro done temp' hin h _
    rw [List.foldlM_cons]
    refine (setItem_spec h (hin k (by simp))).bind fun temp1 w1 _ h1 => ?_
    obtain ⟨h1, hmod1, rfl⟩ := h1
    have := ih (done ++ [k]) temp1 (fun j hj => hin j (by simp [hj])) h1 fun _ => hmod1
    rwa [List.append_assoc, List.singleton_append] at this

/-- The entries still designate their old positions afterwards. -/
theorem PutInto.indexed {packetOf : K → Option T} {keys : List K} {temp temp' : BlockFileLoader K T}
    (h : PutInto packetOf keys temp temp') {items : List (BlockItem K T)}
    (hi : Indexed items temp.values) : Indexed items temp'.values where
  key k v hv := by
    obtain ⟨v0, hv0, rfl⟩ := h.lookup k v hv
    exact hi.key k v0 hv0
  index k v hv := by
    obtain ⟨v0, hv0, rfl⟩ := h.lookup k v hv
    exact hi.index k v0 hv0

/-! ## The graph after `save` and `erase` -/

theorem Denotes.replaced {items : List (BlockItem K T)} {g h : K → Option T} {keys : List K}
    {values : UMap K (Value K T)} {es : List (Sigma fun _ : K => Value K T)}
    (hd : Denotes items g) (hv : Indexed items values) (hes : ∀ e, e ∈ es ↔ e ∈ values.entries)
    (hmem : ∀ k, k ∈ values ↔ k ∈ keys)
    (hnew : ∀ k v, values.lookup k = some v → v.item.item = h k ∧ (h k).isSome) :
    Denotes (replaced items values es) (assign keys h g) := by
  intro it
  unfold SystemUtility.replaced assign
  simp only [List.mem_append, List.mem_filter, List.mem_map, hes, decide_not, Bool.not_eq_true',
    decide_eq_false_iff_not, hmem]
  constructor
  · rintro (⟨hit, hk⟩ | ⟨e, he, rfl⟩)
    · rw [if_neg hk]
      exact (hd it).mp hit
    · have hl := UMap.mem_entries.mp he
      have hkey := hv.key _ _ hl
      have hin : e.1 ∈ keys := (hmem _).mp (UMap.mem_iff.mpr ⟨_, hl⟩)
      obtain ⟨v, hv'⟩ := Option.isSome_iff_exists.mp (hnew _ _ hl).2
      rw [hkey, if_pos hin]
      exact ⟨v, hv', by rw [(hnew _ _ hl).1, hv']⟩
  · intro ⟨v, hg, hi⟩
    split at hg
    · next hk =>
      obtain ⟨u, hu⟩ := UMap.mem_iff.mp ((hmem _).mpr hk)
      refine .inr ⟨⟨it.key, u⟩, UMap.mem_entries.mpr hu, ?_⟩
      have h1 := hv.key _ _ hu
      have h2 := (hnew _ _ hu).1
      rw [hg, ← hi] at h2
      cases hui : u.item
      rw [hui] at h1 h2
      cases it
      simp_all
    · next hk => exact .inl ⟨(hd it).mpr ⟨v, hg, hi⟩, hk⟩

theorem Denotes.erased {items : List (BlockItem K T)} {g : K → Option T} {keys : List K}
    {values : UMap K (Value K T)} (hd : Denotes items g) (hmem : ∀ k, k ∈ values ↔ k ∈ keys) :
    Denotes (items.filter fun it => it.key ∉ values) (assign keys (fun _ => none) g) := by
  intro it
  unfold assign
  simp only [List.mem_filter, decide_not, Bool.not_eq_true', decide_eq_false_iff_not, hmem, hd it]
  by_cases hk : it.key ∈ keys <;> simp [hk]

/-- When as many keys are erased as the block has items, nothing is left. -/
theorem Denotes.cleared {items : List (BlockItem K T)} {g : K → Option T} {keys : List K}
    (hd : Denotes items g) (hn : keys.Nodup) (hs : ∀ k ∈ keys, (g k).isSome)
    (hlen : keys.length = items.length) : Denotes [] (assign keys (fun _ => none) g) := by
  have hsub : keys ⊆ items.map BlockItem.key := fun k hk => (hd.mem_keys k).mpr (hs k hk)
  have hperm : keys.Perm (items.map BlockItem.key) :=
    (hn.subperm hsub).perm_of_length_le (by rw [List.length_map, hlen])
  intro it
  simp only [List.not_mem_nil, assign, false_iff, not_exists, not_and]
  intro v hg
  split at hg
  · cases hg
  · next hk =>
    have : it.key ∈ items.map BlockItem.key := (hd.mem_keys _).mpr (by rw [hg]; rfl)
    exact absurd (hperm.mem_iff.mpr this) hk

/-! ## One block -/

/-- What the keys of a group hold afterwards. -/
def Op.result (i : Op) (packetOf : K → Option T) : K → Option T :=
  match i with
  | .erase => fun _ => none
  | .modify => packetOf

omit [DecidableEq K] in
@[simp] theorem Op.result_erase (packetOf : K → Option T) :
    Op.erase.result packetOf = fun _ => none := rfl

omit [DecidableEq K] in
@[simp] theorem Op.result_modify (packetOf : K → Option T) : Op.modify.result packetOf = packetOf :=
  rfl

/-- Erased keys are in the block, modified ones come with a packet. -/
def Op.Admits (i : Op) (packetOf g : K → Option T) (keys : List K) : Prop :=
  match i with
  | .erase => ∀ k ∈ keys, (g k).isSome
  | .modify => ∀ k ∈ keys, (packetOf k).isSome

omit [DecidableEq K] in
theorem openTransaction_eq {self : BlockFileLoader K T} {path : String}
    (hpath : self.mainPath = path) (ht : ∀ t ∈ self.ptransaction, t = ⟨path, false⟩) :
    self.openTransaction = ⟨path, false⟩ := by
  unfold BlockFileLoader.openTransaction
  cases hp : self.ptransaction with
  | none => rw [Option.getD_none, hpath]
  | some t => exact ht t hp

omit [DecidableEq K] in
theorem written [fmt.Lawful] (es : List (Sigma fun _ : K => Value K T)) : Written fmt.anyRow es :=
  fun e _ => ⟨(BlockFormat.Lawful.writes e.2.item).toString_ne_nil,
    (BlockFormat.Lawful.writes e.2.item).fromString_toString⟩

theorem processBlock_spec [fmt.Lawful] (ord : IterOrder) {packetOf g : K → Option T} {i : Op}
    {path : String} {keys : List K} {ptransaction : Option BlockTransaction} {w : World}
    (h : (w.disk path).Rep fmt ptransaction.isSome g) (hn : keys.Nodup) (hne : keys ≠ [])
    (hok : i.Admits packetOf g keys) (ht : ∀ t ∈ ptransaction, t = ⟨path, false⟩) :
    Ends (blockFrame path) (processBlock fmt ord packetOf i path keys ptransaction) w
      (fun taken w' => taken = some ⟨path, false⟩ ∧
        (w'.disk path).Rep fmt true (assign keys (i.result packetOf) g)) := by
  obtain ⟨items, hh, hd⟩ := h
  unfold processBlock
  refine (ends_onBlock (construct_spec hh)).bind fun temp w1 _ h1 => ?_
  obtain ⟨hc, hw⟩ := h1
  have hw1 : w1.disk path = w.disk path := by rw [hw]
  rw [← hw1, ← hc.ptransaction] at hh
  have hms := hc.markers
  rw [← hw1, ← hc.ptransaction] at hms
  have htr : ∀ t ∈ temp.ptransaction, t = ⟨path, false⟩ := by rw [hc.ptransaction]; exact ht
  have hmem : temp.purposeClearAll = false → ∀ k, k ∈ temp.values ↔ k ∈ keys := by
    intro hcl k
    rw [(hc.values hcl).mem_iff]
    simp [hne]
  cases i with
  | erase =>
    refine (erase_spec hc.mainPath hh hms
      fun hcl => (hc.values hcl).indexed hh.stores.nodup).bind fun temp2 w2 _ h2 => ?_
    obtain ⟨htaken, hpend, -⟩ := h2
    refine ends_pure ⟨by rw [htaken, openTransaction_eq hc.mainPath htr], _, hpend, ?_⟩
    cases hcl : temp.purposeClearAll with
    | true =>
      have hlen := hc.clear
      rw [hcl] at hlen
      simp only [Bool.true_eq, Bool.and_eq_true, beq_iff_eq] at hlen
      exact hd.cleared hn hok hlen.1.2
    | false => exact hd.erased (hmem hcl)
  | modify =>
    have hcl : temp.purposeClearAll = false := by
      rw [hc.clear, show (Op.modify == Op.erase) = false from rfl]
      rfl
    have hkeys : ∀ k ∈ keys, k ∈ temp.values := fun k hk => (hmem hcl k).mpr hk
    refine (setItems_spec packetOf hkeys).bind fun temp1 w2 _ h2 => ?_
    obtain ⟨hput, hmod, rfl⟩ := h2
    have hind := hput.indexed ((hc.values hcl).indexed hh.stores.nodup)
    have hkeys : ∀ k, k ∈ temp1.values ↔ k ∈ keys := fun k => (hput.mem k).trans (hmem hcl k)
    have hentries : temp1.values.entries ≠ [] := UMap.entries_ne_nil hne hkeys
    refine (save_spec ord (hput.mainPath.trans hc.mainPath) (hmod hne)
      (by rw [hput.ptransaction]; exact hh) (by rw [hput.ptransaction, hput.markers]; exact hms)
      hind hentries (written _)).bind fun temp2 w3 _ h3 => ?_
    obtain ⟨htaken, hpend, -⟩ := h3
    refine ends_pure ⟨?_, _, hpend, ?_⟩
    · rw [htaken, openTransaction_eq (hput.mainPath.trans hc.mainPath)
        (by rw [hput.ptransaction]; exact htr)]
    · refine hd.replaced hind (fun e => ord.mem) hkeys fun k v hv => ?_
      obtain ⟨v0, -, rfl⟩ := hput.lookup k v hv
      have hk : k ∈ keys := (hkeys k).mp (UMap.mem_iff.mpr ⟨_, hv⟩)
      exact ⟨by simp [hk, Op.result], hok k hk⟩

end MeshPP.SystemUtility
