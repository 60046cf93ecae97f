import Mathlib.Data.List.Nodup
import Mathlib.Data.List.Perm.Basic
import MeshPP.SystemUtility.BlockMap

/-! # Saving one loader more than once

`save` records for each value the position at which its new entry was pushed back, and only
then drops the entries that are replaced, so the recorded positions are too large by the number
of entries dropped in front of them. The next `save` drops what lies at these positions. The
state of a loader after any number of saves is described by what its caller has put into it
(`Puts`), and from this follows when the last save is the one that is found in the file. -/

namespace MeshPP.SystemUtility
open MeshPP.Lib

variable {K T : Type}

/-! ## Positions in a row -/

/-- A run of positions cuts its part out of the list. -/
theorem dropIndices_range {α : Type} {er : List Nat} {lo n : Nat}
    (h : ∀ i, i ∈ er ↔ lo ≤ i ∧ i < lo + n) (i : Nat) (l : List α) :
    dropIndices er i l = l.take (lo - i) ++ l.drop (lo + n - i) := by
  induction l generalizing i with
  | nil => simp [dropIndices]
  | cons x l ih =>
    unfold dropIndices
    simp only [ih, h]
    by_cases hlo : lo ≤ i
    · rw [show lo - i = 0 by omega, show lo - (i + 1) = 0 by omega]
      split
      · rw [show lo + n - i = lo + n - (i + 1) + 1 by omega]
        simp
      · rw [show lo + n - i = 0 by omega, show lo + n - (i + 1) = 0 by omega]
        simp
    · rw [if_neg (by omega), show lo - i = lo - (i + 1) + 1 by omega,
        show lo + n - i = lo + n - (i + 1) + 1 by omega]
      simp

variable [DecidableEq K]

/-! ## The loader in use -/

/-- What a caller does with one loader. -/
inductive Use (K T : Type)
  | write (key : K) (packet : Option T)
  | save

/-- The mutable `operator[]` and an assignment to the packet of the item. The flag is set in
front of `values.at`, which throws for a key that was not requested. -/
def BlockFileLoader.put (self : BlockFileLoader K T) (key : K) (packet : Option T) :
    BlockFileLoader K T :=
  { self with
    modified := true,
    values := match self.values.lookup key with
      | some v => self.values.insert key { v with item := { v.item with item := packet } }
      | none => self.values }

theorem BlockFileLoader.setItem_eq_put {self : BlockFileLoader K T} {key : K}
    (h : key ∈ self.values) (packet : Option T) :
    self.setItem key packet = pure (self.put key packet) := by
  obtain ⟨v, hv⟩ := UMap.mem_iff.mp h
  simp only [setItem, put, hv]

def BlockFileLoader.use (fmt : BlockFormat K T) (ordOf : UMap K (Value K T) → IterOrder)
    (self : BlockFileLoader K T) : Use K T → FileM (BlockFileLoader K T)
  | .write key packet => pure (self.put key packet)
  | .save => self.save fmt (ordOf self.values)

/-- One loader is constructed, used and committed. -/
def useLoader (fmt : BlockFormat K T) (ordOf : UMap K (Value K T) → IterOrder) (path : String)
    (keys : List K) (uses : List (Use K T)) : FileM (BlockFileLoader K T) := do
  let temp ← BlockFileLoader.construct fmt path keys none false
  let temp ← uses.foldlM (fun temp use => temp.use fmt ordOf use) temp
  temp.commit

/-- A map whose key set stays the same is traversed in one order. -/
def Steady (ordOf : UMap K (Value K T) → IterOrder) (keys traversal : List K) : Prop :=
  ∀ m : UMap K (Value K T), (∀ k, k ∈ m ↔ k ∈ keys) →
    ((ordOf m).order m.entries).map Sigma.fst = traversal

/-! ## What the caller has put into it -/

/-- The packets as they stand, and as they stood at each save that found something written. -/
structure Puts (K T : Type) where
  packets : K → Option T
  modified : Bool
  saves : List (K → Option T)

def Puts.after (keys : List K) (p : Puts K T) : Use K T → Puts K T
  | .write key packet => { p with
      modified := true,
      packets := if key ∈ keys then Function.update p.packets key packet else p.packets }
  | .save =>
    if p.modified then { p with modified := false, saves := p.saves ++ [p.packets] } else p

/-- A loader starts with the packets of the block. -/
def Puts.start (fmt : BlockFormat K T) (f : Files) : Puts K T :=
  ⟨fun k => (f.itemOf fmt k).bind BlockItem.item, false, []⟩

def savesOf (fmt : BlockFormat K T) (f : Files) (keys : List K) (uses : List (Use K T)) :
    List (K → Option T) :=
  (uses.foldl (Puts.after keys) (.start fmt f)).saves

/-- The requested keys that the block has. -/
def storedCount (fmt : BlockFormat K T) (f : Files) (traversal : List K) : Nat :=
  traversal.countP fun k => (f.itemOf fmt k).isSome

/-- The save that the file keeps for `k`: the first one for as many keys of the traversal as
the block had, and the second one, where there is one, for the keys behind them. -/
def keptSave (traversal : List K) (stored : Nat) (saves : List (K → Option T)) (k : K) :
    Option (K → Option T) :=
  if k ∈ traversal.take stored then saves.head? else (saves.take 2).getLast?

/-- For each key the save that is kept has the packet of the last one. -/
def LastSaveKept (keys traversal : List K) (stored : Nat) (saves : List (K → Option T)) : Prop :=
  ∀ k ∈ keys, saves.getLast?.bind (· k) = (keptSave traversal stored saves k).bind (· k)

/-- The block has the items of the last save under the requested keys and its old rows under
the others, and is as it was where nothing was saved. -/
def SavedLast (fmt : BlockFormat K T) (keys : List K) (saves : List (K → Option T))
    (f f' : Files) : Prop :=
  match saves.getLast? with
  | none => f' = f
  | some packets => Updated fmt packets .modify keys f f'

/-! ## The state of the loader -/

/-- The items of the block under other keys. -/
def others (keys : List K) (items : List (BlockItem K T)) : List (BlockItem K T) :=
  items.filter fun it => it.key ∉ keys

def itemsAt (packets : K → Option T) (ks : List K) : List (BlockItem K T) :=
  ks.map fun k => ⟨k, packets k⟩

/-- The items of the pending file after the saves. -/
def itemsAfter (keys traversal : List K) (stored : Nat) (saves : List (K → Option T))
    (items : List (BlockItem K T)) : List (BlockItem K T) :=
  others keys items ++
    itemsAt (fun k => (keptSave traversal stored saves k).bind (· k)) traversal

/-- The position recorded for the first key of the traversal. -/
def recordedFrom (keys traversal : List K) (saves : List (K → Option T))
    (items : List (BlockItem K T)) : Nat :=
  match saves with
  | [_] => items.length
  | _ => (others keys items).length + traversal.length

/-- What the files and the recorded positions are, before the first save and after any. -/
inductive Stage (fmt : BlockFormat K T) (f : Files) (keys traversal : List K)
    (items : List (BlockItem K T)) (saves : List (K → Option T)) (path : String)
    (temp : BlockFileLoader K T) (w : World) : Prop
  | unsaved (hnil : saves = []) (hnone : temp.ptransaction = none) (hdisk : w.disk path = f)
      (hindexed : Indexed items temp.values)
  | saved (hne : saves ≠ []) (htaken : temp.ptransaction = some ⟨path, false⟩)
      (hholds : (w.disk path).Holds (kept fmt f keys) true
        (itemsAfter keys traversal (storedCount fmt f traversal) saves items))
      (hindex : ∀ k v, temp.values.lookup k = some v → ∃ i, traversal[i]? = some k ∧
        v.loadedMarkerIndex = some (recordedFrom keys traversal saves items + i))

structure InUse (fmt : BlockFormat K T) (f : Files) (keys traversal : List K)
    (items : List (BlockItem K T)) (path : String) (p : Puts K T)
    (temp : BlockFileLoader K T) (w : World) : Prop where
  mainPath : temp.mainPath = path
  modified : temp.modified = p.modified
  mem : ∀ k, k ∈ temp.values ↔ k ∈ keys
  item : ∀ k v, temp.values.lookup k = some v → v.item = ⟨k, p.packets k⟩
  markers : temp.markers = entriesOf ((w.disk path).markers temp.ptransaction.isSome)
  stage : Stage fmt f keys traversal items p.saves path temp w

section
variable {fmt : BlockFormat K T} {f : Files} {keys traversal : List K}
  {items : List (BlockItem K T)} {ordOf : UMap K (Value K T) → IterOrder}

omit [DecidableEq K] in
theorem Steady.traverses (h : Steady ordOf keys traversal) {m : UMap K (Value K T)}
    (hm : ∀ k, k ∈ m ↔ k ∈ keys) : traversal.Nodup ∧ ∀ k, k ∈ traversal ↔ k ∈ keys := by
  rw [← h m hm]
  refine ⟨UMap.keys_nodup (ordOf m) m, fun k => ?_⟩
  rw [(UMap.keys_perm (ordOf m) m).mem_iff, ← AList.mem_keys, hm]

omit [DecidableEq K] in
theorem length_itemsAt (packets : K → Option T) (ks : List K) :
    (itemsAt packets ks).length = ks.length := List.length_map _

omit [DecidableEq K] in
theorem map_key_itemsAt (packets : K → Option T) (ks : List K) :
    (itemsAt packets ks).map BlockItem.key = ks := by
  unfold itemsAt
  rw [List.map_map]
  exact List.map_id ks

/-- The items under other keys and those under the requested ones are all items. -/
theorem length_others (hh : f.Holds fmt.anyRow false items) (hn : traversal.Nodup)
    (hmem : ∀ k, k ∈ traversal ↔ k ∈ keys) :
    (others keys items).length + storedCount fmt f traversal = items.length := by
  have hperm : (traversal.filter fun k => (f.itemOf fmt k).isSome).Perm
      ((items.map BlockItem.key).filter fun k => k ∈ keys) := by
    refine (List.perm_ext_iff_of_nodup (hn.filter _) (hh.stores.nodup.filter _)).mpr fun k => ?_
    rw [List.mem_filter, List.mem_filter, hmem, hh.isSome_itemOf, decide_eq_true_eq, and_comm]
  have hcount : storedCount fmt f traversal = items.countP fun it => it.key ∈ keys := by
    unfold storedCount
    rw [List.countP_eq_length_filter, hperm.length_eq, ← List.countP_eq_length_filter,
      List.countP_map]
    rfl
  have hall := List.length_eq_countP_add_countP (fun it : BlockItem K T => decide (it.key ∈ keys))
    (l := items)
  have hothers : (others keys items).length =
      items.countP fun it => ¬ (decide (it.key ∈ keys) = true) := by
    unfold others
    rw [← List.countP_eq_length_filter]
    simp only [decide_not, decide_eq_true_eq]
  omega

theorem map_key_itemsAfter (stored : Nat) (saves : List (K → Option T)) :
    (itemsAfter keys traversal stored saves items).map BlockItem.key =
      (others keys items).map BlockItem.key ++ traversal := by
  unfold itemsAfter
  rw [List.map_append, map_key_itemsAt]

theorem itemsAfter_nodup (hn : traversal.Nodup) (hmem : ∀ k, k ∈ traversal ↔ k ∈ keys)
    (hi : (items.map BlockItem.key).Nodup) (stored : Nat) (saves : List (K → Option T)) :
    ((itemsAfter keys traversal stored saves items).map BlockItem.key).Nodup := by
  rw [map_key_itemsAfter, List.nodup_append]
  refine ⟨hi.sublist (List.filter_sublist.map _), hn, fun a ha b hb he => ?_⟩
  exact ((mem_keys_filter items (· ∈ keys) a).mp ha).2 ((hmem a).mp (he ▸ hb))

/-! ### What one more save makes of the items -/

theorem itemsAfter_first (stored : Nat) (packets : K → Option T) :
    itemsAfter keys traversal stored [packets] items =
      others keys items ++ itemsAt packets traversal := by
  have hkept : ∀ k, keptSave traversal stored [packets] k = some packets := fun k => by
    unfold keptSave
    split <;> rfl
  simp only [itemsAfter, hkept, Option.bind_some]

/-- After the second save the file has the first keys of the traversal as the first save wrote
them, and the others as the second one did. -/
theorem itemsAfter_second (hn : traversal.Nodup) (stored : Nat) (first second : K → Option T) :
    itemsAfter keys traversal stored [first, second] items =
      others keys items ++ (itemsAt first (traversal.take stored) ++
        itemsAt second (traversal.drop stored)) := by
  unfold itemsAfter itemsAt
  rw [List.append_cancel_left_eq]
  conv_lhs => rw [← List.take_append_drop stored traversal]
  rw [List.map_append, List.take_append_drop]
  congr 1
  · refine List.map_congr_left fun k hk => ?_
    simp only [keptSave, if_pos hk, List.head?_cons, Option.bind_some]
  · refine List.map_congr_left fun k hk => ?_
    have hnot : k ∉ traversal.take stored := fun ht =>
      List.disjoint_take_drop hn (Nat.le_refl stored) ht hk
    simp only [keptSave, if_neg hnot, List.take_succ_cons, List.take_zero,
      List.getLast?_cons_cons, List.getLast?_singleton, Option.bind_some]

theorem itemsAfter_later (stored : Nat) (first second : K → Option T)
    (rest : List (K → Option T)) (packets : K → Option T) :
    itemsAfter keys traversal stored ((first :: second :: rest) ++ [packets]) items =
      itemsAfter keys traversal stored (first :: second :: rest) items := by
  have hkept : ∀ k, keptSave traversal stored ((first :: second :: rest) ++ [packets]) k =
      keptSave traversal stored (first :: second :: rest) k := fun k => rfl
  simp only [itemsAfter, hkept]

omit [DecidableEq K] in
theorem appended_range {es : List (Sigma fun _ : K => Value K T)} {base : Nat}
    (h : ∀ i, i ∈ positions es ↔ base ≤ i ∧ i < base + es.length)
    (old : List (BlockItem K T)) :
    appended old es = (old ++ es.map fun e => e.2.item).take base ++
      (old ++ es.map fun e => e.2.item).drop (base + es.length) := by
  unfold appended
  rw [dropIndices_range h, Nat.sub_zero, Nat.sub_zero]

/-- The positions recorded by the last save cut out what `itemsAfter` says. -/
theorem appended_itemsAfter (hn : traversal.Nodup) {stored : Nat}
    (hlen : (others keys items).length + stored = items.length) (hle : stored ≤ traversal.length)
    {saves : List (K → Option T)} (hne : saves ≠ []) {packets : K → Option T}
    {es : List (Sigma fun _ : K => Value K T)}
    (hitems : (es.map fun e => e.2.item) = itemsAt packets traversal)
    (hpos : ∀ i, i ∈ positions es ↔ recordedFrom keys traversal saves items ≤ i ∧
      i < recordedFrom keys traversal saves items + es.length) :
    appended (itemsAfter keys traversal stored saves items) es =
      itemsAfter keys traversal stored (saves ++ [packets]) items := by
  have hes : es.length = traversal.length := by
    have h := congrArg List.length hitems
    rwa [List.length_map, length_itemsAt] at h
  rw [appended_range hpos, hitems, hes]
  match saves, hne with
  | [first], _ =>
    simp only [recordedFrom]
    rw [itemsAfter_first, List.singleton_append, itemsAfter_second hn, ← hlen, List.append_assoc]
    have htake : (others keys items ++ (itemsAt first traversal ++ itemsAt packets traversal)).take
        ((others keys items).length + stored) =
          others keys items ++ itemsAt first (traversal.take stored) := by
      rw [List.take_length_add_append, List.take_append_of_le_length
        (by rwa [length_itemsAt]), itemsAt, itemsAt, List.map_take]
    have hdrop : (others keys items ++ (itemsAt first traversal ++ itemsAt packets traversal)).drop
        ((others keys items).length + stored + traversal.length) =
          itemsAt packets (traversal.drop stored) := by
      rw [Nat.add_assoc, List.drop_length_add_append, Nat.add_comm stored,
        ← length_itemsAt first traversal, List.drop_length_add_append, itemsAt, itemsAt,
        List.map_drop]
    rw [htake, hdrop, List.append_assoc]
  | first :: second :: rest, _ =>
    have hall : (itemsAfter keys traversal stored (first :: second :: rest) items).length =
        (others keys items).length + traversal.length := by
      rw [itemsAfter, List.length_append, length_itemsAt]
    simp only [recordedFrom]
    rw [itemsAfter_later, ← hall, List.take_left, ← length_itemsAt packets traversal,
      ← List.length_append, List.drop_length, List.append_nil]

/-! ### Construction and writes -/

theorem lookup_put (self : BlockFileLoader K T) (key : K) (packet : Option T) (k : K) :
    (self.put key packet).values.lookup k = (self.values.lookup k).map fun v =>
      if k = key then { v with item := { v.item with item := packet } } else v := by
  unfold BlockFileLoader.put
  cases hkey : self.values.lookup key with
  | some v =>
    simp only [UMap.lookup_insert]
    split
    · next he => rw [he, hkey, Option.map_some]
    · rw [Option.map_id']
  | none =>
    simp only
    split
    · next he => rw [he, hkey, Option.map_none]
    · rw [Option.map_id']

variable {path : String} {p : Puts K T} {self : BlockFileLoader K T} {w : World}

theorem InUse.start {temp : BlockFileLoader K T} {ms : List Marker} (hne : keys ≠ [])
    (hh : f.Holds fmt.anyRow false items) (hdisk : w.disk path = f)
    (hc : Constructed path keys none false ms items temp)
    (hms : ms = entriesOf ((w.disk path).markers false)) :
    InUse fmt f keys traversal items path (.start fmt f) temp w := by
  have hv := hc.values (hc.clear.trans rfl)
  have hmarkers : temp.markers = entriesOf ((w.disk path).markers temp.ptransaction.isSome) := by
    rw [hc.ptransaction, hc.markers, hms]
    rfl
  refine ⟨hc.mainPath, hc.modified, fun k => ?_, fun k v hl => ?_, hmarkers,
    .unsaved rfl hc.ptransaction hdisk (hv.indexed hh.stores.nodup)⟩
  · rw [hv.mem_iff]
    simp [hne]
  · rcases (hv k v).mp hl with ⟨-, j, it, hj, rfl, rfl⟩ | ⟨-, hm, rfl⟩
    · simp only [Puts.start, hh.itemOf (List.mem_of_getElem? hj), Option.bind_some]
    · simp only [Puts.start, hh.itemOf_none hm, Option.bind_none]

variable (traversal) in
theorem exists_inUse {d : Disk} (hne : keys ≠ []) (hh : (d path).Holds fmt.anyRow false items) :
    ∃ temp, BlockFileLoader.construct fmt path keys none false ⟨d, []⟩ = .ok temp ⟨d, []⟩ ∧
      InUse fmt (d path) keys traversal items path (.start fmt (d path)) temp ⟨d, []⟩ := by
  have hw : ((World.mk d []).disk path).Holds fmt.anyRow false items := hh
  obtain ⟨temp, hrun, hc, -⟩ := returns_quiet (construct_committed hw)
  exact ⟨temp, hrun, .start hne hh rfl hc rfl⟩

theorem InUse.put (h : InUse fmt f keys traversal items path p self w) (key : K)
    (packet : Option T) :
    InUse fmt f keys traversal items path (p.after keys (.write key packet))
      (self.put key packet) w := by
  have hlookup : ∀ k v', (self.put key packet).values.lookup k = some v' →
      ∃ v, self.values.lookup k = some v ∧ v'.loadedMarkerIndex = v.loadedMarkerIndex ∧
        v'.item = if k = key then { v.item with item := packet } else v.item := by
    intro k v' hv'
    rw [lookup_put] at hv'
    obtain ⟨v, hv, rfl⟩ := Option.map_eq_some_iff.mp hv'
    refine ⟨v, hv, ?_⟩
    split <;> exact ⟨rfl, rfl⟩
  have hmem : ∀ k, k ∈ (self.put key packet).values ↔ k ∈ keys := by
    intro k
    rw [← h.mem, ← AList.lookup_isSome, ← AList.lookup_isSome, lookup_put, Option.isSome_map]
  refine ⟨h.mainPath, rfl, hmem, fun k v' hv' => ?_, h.markers, ?_⟩
  · have hk : k ∈ keys := (hmem k).mp (UMap.mem_iff.mpr ⟨v', hv'⟩)
    obtain ⟨v, hv, -, hitem⟩ := hlookup k v' hv'
    rw [hitem, h.item k v hv]
    simp only [Puts.after]
    split
    · next he => rw [← he, if_pos hk, Function.update_self]
    · next he =>
      split
      · rw [Function.update_of_ne he]
      · rfl
  · cases h.stage with
    | unsaved hnil hnone hdisk hindexed =>
      refine .unsaved hnil hnone hdisk ⟨fun k v' hv' => ?_, fun k v' hv' i => ?_⟩
      · obtain ⟨v, hv, -, hitem⟩ := hlookup k v' hv'
        rw [hitem, ← hindexed.key k v hv]
        split <;> rfl
      · obtain ⟨v, hv, hidx, -⟩ := hlookup k v' hv'
        rw [hidx]
        exact hindexed.index k v hv i
    | saved hne htaken hholds hindex =>
      refine .saved hne htaken hholds fun k v' hv' => ?_
      obtain ⟨v, hv, hidx, -⟩ := hlookup k v' hv'
      rw [hidx]
      exact hindex k v hv

/-! ### A save -/

theorem InUse.entries (h : InUse fmt f keys traversal items path p self w)
    (hord : Steady ordOf keys traversal) :
    (((ordOf self.values).order self.values.entries).map fun e => e.2.item) =
      itemsAt p.packets traversal := by
  rw [itemsAt, ← hord self.values h.mem, List.map_map]
  refine List.map_congr_left fun e he => ?_
  exact h.item e.1 e.2 (UMap.mem_entries.mp ((ordOf self.values).mem.mp he))

/-- The values a save leaves, and the positions it has recorded for them. -/
theorem InUse.saved_values (h : InUse fmt f keys traversal items path p self w)
    (hord : Steady ordOf keys traversal) {values : UMap K (Value K T)}
    (hvalues : values = (((ordOf self.values).order self.values.entries).foldl (appendValue fmt)
      ⟨self.markers, none, [], [], self.values⟩).values) :
    (∀ k, k ∈ values ↔ k ∈ keys) ∧ ∀ k v, values.lookup k = some v → v.item = ⟨k, p.packets k⟩ ∧
      ∃ i, traversal[i]? = some k ∧ v.loadedMarkerIndex = some (self.markers.length + i) := by
  have hfst := hord self.values h.mem
  have htr := hord.traverses h.mem
  have hn := UMap.keys_nodup (ordOf self.values) self.values
  have hin : ∀ k ∈ keys, ∃ i v, traversal[i]? = some k ∧ self.values.lookup k = some v ∧
      values.lookup k = some { v with loadedMarkerIndex := some (self.markers.length + i) } := by
    intro k hk
    obtain ⟨i, hi⟩ := List.getElem?_of_mem ((htr.2 k).mpr hk)
    have hi' := hi
    rw [← hfst, List.getElem?_map] at hi'
    obtain ⟨e, he, rfl⟩ := Option.map_eq_some_iff.mp hi'
    refine ⟨i, e.2, hi, ?_, ?_⟩
    · exact UMap.mem_entries.mp ((ordOf self.values).mem.mp (List.mem_of_getElem? he))
    · rw [hvalues]
      exact lookup_foldl_appendValue fmt hn he _
  have hout : ∀ k ∉ keys, values.lookup k = none := by
    intro k hk
    rw [hvalues, lookup_foldl_appendValue_of_not_mem fmt (by rwa [hfst, htr.2])]
    exact AList.lookup_eq_none.mpr fun hm => hk ((h.mem k).mp hm)
  have hmem : ∀ k, k ∈ values ↔ k ∈ keys := by
    intro k
    constructor
    · intro hm
      by_contra hk
      exact AList.lookup_eq_none.mp (hout k hk) hm
    · intro hk
      obtain ⟨_, _, -, -, hl⟩ := hin k hk
      exact UMap.mem_iff.mpr ⟨_, hl⟩
  refine ⟨hmem, fun k v hv => ?_⟩
  obtain ⟨i, v0, hi, hv0, hl⟩ := hin k ((hmem k).mp (UMap.mem_iff.mpr ⟨v, hv⟩))
  obtain rfl := Option.some.inj (hl.symm.trans hv)
  exact ⟨h.item k v0 hv0, i, hi, rfl⟩

omit [DecidableEq K] in
/-- The positions recorded by the last save follow the traversal. -/
theorem mem_positions_iff {es : List (Sigma fun _ : K => Value K T)} {base : Nat}
    (hfst : es.map Sigma.fst = traversal) (hn : traversal.Nodup)
    (hindex : ∀ e ∈ es, ∃ i, traversal[i]? = some e.1 ∧ e.2.loadedMarkerIndex = some (base + i))
    (i : Nat) : i ∈ positions es ↔ base ≤ i ∧ i < base + es.length := by
  have hlen : es.length = traversal.length := by rw [← hfst, List.length_map]
  rw [mem_positions, hlen]
  constructor
  · intro ⟨e, he, hi⟩
    obtain ⟨j, hj, hidx⟩ := hindex e he
    obtain rfl := Option.some.inj (hidx.symm.trans hi)
    have := (List.getElem?_eq_some_iff.mp hj).1
    omega
  · intro ⟨hlo, hhi⟩
    have hj : i - base < es.length := by omega
    obtain ⟨j, htr, hidx⟩ := hindex es[i - base] (List.getElem_mem hj)
    have hat : traversal[i - base]? = some es[i - base].1 := by
      rw [← hfst, List.getElem?_map, List.getElem?_eq_getElem hj, Option.map_some]
    have hsame : i - base = j :=
      (List.getElem?_inj (by omega) hn).mp (hat.trans htr.symm)
    exact ⟨_, List.getElem_mem hj, by rw [hidx, ← hsame]; congr 1; omega⟩

/-- What the files hold in front of a save, and what the save makes of it. -/
theorem InUse.current (hh : f.Holds fmt.anyRow false items)
    (h : InUse fmt f keys traversal items path p self w) (hord : Steady ordOf keys traversal) :
    ∃ cur, (w.disk path).Holds (kept fmt f keys) self.ptransaction.isSome cur ∧
      appended cur ((ordOf self.values).order self.values.entries) =
        itemsAfter keys traversal (storedCount fmt f traversal) (p.saves ++ [p.packets]) items ∧
      recordedFrom keys traversal (p.saves ++ [p.packets]) items = cur.length := by
  have hitems := h.entries hord
  have hfst := hord self.values h.mem
  obtain ⟨hn, hmem⟩ := hord.traverses h.mem
  cases h.stage with
  | unsaved hnil hnone hdisk hindexed =>
    refine ⟨items, ?_, ?_, by rw [hnil]; rfl⟩
    · rw [hnone, hdisk]
      exact hh.kept keys
    · rw [hindexed.appended ((ordOf self.values).perm _), replaced, hitems, hnil, List.nil_append,
        itemsAfter_first, others]
      simp only [h.mem]
  | saved hne htaken hholds hindex =>
    refine ⟨_, by rw [htaken]; exact hholds, ?_, ?_⟩
    · refine appended_itemsAfter hn (length_others hh hn hmem) List.countP_le_length hne hitems ?_
      exact mem_positions_iff hfst hn fun e he =>
        hindex e.1 e.2 (UMap.mem_entries.mp ((ordOf self.values).mem.mp he))
    · rw [itemsAfter, List.length_append, length_itemsAt]
      obtain ⟨first, saves, hsaves⟩ := List.exists_cons_of_ne_nil hne
      rw [hsaves]
      cases saves with
      | nil => rfl
      | cons => rfl

theorem InUse.save [fmt.Lawful] (hh : f.Holds fmt.anyRow false items) (hne : keys ≠ [])
    (h : InUse fmt f keys traversal items path p self w) (hord : Steady ordOf keys traversal) :
    Ends (blockFrame path) (self.save fmt (ordOf self.values)) w fun self' w' =>
      InUse fmt f keys traversal items path (p.after keys .save) self' w' := by
  cases hmod : p.modified with
  | false =>
    refine (save_unmodified (ordOf self.values) (h.modified.trans hmod)).mono fun self' w' _ h' => ?_
    obtain ⟨rfl, rfl⟩ := h'
    simpa only [Puts.after, hmod, Bool.false_eq_true, if_false] using h
  | true =>
    obtain ⟨cur, hholds, happ, hfrom⟩ := h.current hh hord
    obtain ⟨hn, hmem⟩ := hord.traverses h.mem
    have htr : traversal ≠ [] := fun hnil => by
      obtain ⟨k, hk⟩ := List.exists_mem_of_ne_nil keys hne
      rw [← hmem, hnil] at hk
      cases hk
    have hleft : itemsAfter keys traversal (storedCount fmt f traversal)
        (p.saves ++ [p.packets]) items ≠ [] := fun hnil => by
      have hlen := congrArg List.length hnil
      rw [itemsAfter, List.length_append, length_itemsAt, List.length_nil] at hlen
      exact htr (List.length_eq_zero_iff.mp (by omega))
    have hwritten : Written (kept fmt f keys) self.values.entries := fun e he => by
      have hwrites : fmt.Writes e.2.item := BlockFormat.Lawful.writes e.2.item
      have hl := UMap.mem_entries.mp he
      refine ⟨hwrites.toString_ne_nil, hwrites.fromString_toString, fun hno => absurd ?_ hno⟩
      rw [h.item e.1 e.2 hl, ← h.mem]
      exact UMap.mem_iff.mpr ⟨_, hl⟩
    have hlength : self.markers.length = cur.length := by
      rw [h.markers]
      exact hholds.stores.toRows.length_eq
    refine (save_appends (ordOf self.values) h.mainPath (h.modified.trans hmod) hholds h.markers
      (fun k v hv => by rw [h.item k v hv]) (UMap.entries_ne_nil hne h.mem) hwritten
      (by rw [happ]; exact itemsAfter_nodup hn hmem hh.stores.nodup _ _)
      (by rwa [happ])).mono fun self' w' _ h' => ?_
    obtain ⟨rfl, hleaves, -⟩ := h'
    obtain ⟨hmem', hvalues⟩ := h.saved_values hord rfl
    have hopen : self.openTransaction = ⟨path, false⟩ := by
      refine openTransaction_eq h.mainPath fun t ht => ?_
      cases h.stage with
      | unsaved _ hnone => rw [hnone] at ht; cases ht
      | saved _ htaken => rw [htaken] at ht; exact (Option.some.inj ht).symm
    simp only [Puts.after, hmod, if_true]
    refine ⟨h.mainPath, rfl, hmem', fun k v hv => (hvalues k v hv).1, rfl,
      .saved (by simp) (congrArg some hopen) (happ ▸ hleaves) fun k v hv => ?_⟩
    rw [hfrom, ← hlength]
    exact (hvalues k v hv).2

theorem InUse.run [fmt.Lawful] (hh : f.Holds fmt.anyRow false items) (hne : keys ≠ [])
    (hord : Steady ordOf keys traversal) (uses : List (Use K T)) :
    ∀ {p : Puts K T} {self : BlockFileLoader K T} {w : World},
      InUse fmt f keys traversal items path p self w →
      Ends (blockFrame path) (uses.foldlM (fun temp use => temp.use fmt ordOf use) self) w
        fun self' w' =>
          InUse fmt f keys traversal items path (uses.foldl (Puts.after keys) p) self' w' := by
  induction uses with
  | nil => exact fun h => ends_pure h
  | cons use uses ih =>
    intro p self w h
    rw [List.foldlM_cons]
    cases use with
    | write key packet => exact (ends_pure (h.put key packet)).bind fun _ _ _ h' => ih h'
    | save => exact (h.save hh hne hord).bind fun _ _ _ h' => ih h'

/-! ## The block after the commit -/

/-- What the committed block holds. -/
structure LeftBy (fmt : BlockFormat K T) (keys traversal : List K)
    (saves : List (K → Option T)) (items : List (BlockItem K T)) (f f' : Files) : Prop where
  unsaved : saves = [] → f' = f
  holds : saves ≠ [] → f'.Holds (kept fmt f keys) false
    (itemsAfter keys traversal (storedCount fmt f traversal) saves items)

theorem useLoader_spec [fmt.Lawful] {d : Disk} (hh : (d path).Holds fmt.anyRow false items)
    (hne : keys ≠ []) (hord : Steady ordOf keys traversal) (uses : List (Use K T)) :
    ∃ temp f', useLoader fmt ordOf path keys uses ⟨d, []⟩ =
        .ok temp ⟨Function.update d path f', []⟩ ∧
      LeftBy fmt keys traversal (savesOf fmt (d path) keys uses) items (d path) f' := by
  obtain ⟨temp0, hrun0, hstart⟩ := exists_inUse traversal hne hh
  obtain ⟨temp1, f1, hrun1, -, huse⟩ := returns_block (hstart.run hh hne hord uses)
  have hrun : useLoader fmt ordOf path keys uses ⟨d, []⟩ = .ok { temp1 with ptransaction := none }
      ⟨temp1.ptransaction.elim (Function.update d path f1)
        fun t => t.commit (Function.update d path f1), []⟩ := by
    unfold useLoader
    rw [bind_run_ok hrun0, bind_run_ok hrun1]
    rfl
  cases huse.stage with
  | unsaved hnil hnone hdisk _ =>
    have hf1 : f1 = d path := (Function.update_self path f1 d).symm.trans hdisk
    refine ⟨{ temp1 with ptransaction := none }, d path, ?_,
      ⟨fun _ => rfl, fun hno => absurd hnil hno⟩⟩
    rw [hrun, hnone, hf1]
    rfl
  | saved hsaved htaken hholds _ =>
    dsimp only at hholds
    rw [Function.update_self] at hholds
    refine ⟨{ temp1 with ptransaction := none }, f1.after commitCalls, ?_,
      ⟨fun hnil => absurd hnil hsaved, fun _ => ?_⟩⟩
    · rw [hrun, htaken]
      show EStateM.Result.ok _ (World.mk (BlockTransaction.commit _ _) []) = _
      simp only [BlockTransaction.commit, Bool.false_eq_true, if_false, Function.update_self,
        Function.update_idem]
    · rw [after_commitCalls]
      exact hholds

theorem LeftBy.itemOf {saves : List (K → Option T)} {f' : Files} {k : K}
    (h : LeftBy fmt keys traversal saves items f f') (hsaved : saves ≠ []) (hk : k ∈ traversal) :
    f'.itemOf fmt k =
      some ⟨k, (keptSave traversal (storedCount fmt f traversal) saves k).bind (· k)⟩ :=
  (h.holds hsaved).itemOf (List.mem_append_right _ (List.mem_map.mpr ⟨k, hk, rfl⟩))

theorem LeftBy.wellFormed {saves : List (K → Option T)} {f' : Files}
    (h : LeftBy fmt keys traversal saves items f f') (hf : f.WellFormed fmt) :
    f'.WellFormed fmt := by
  by_cases hnil : saves = []
  · rw [h.unsaved hnil]
    exact hf
  · exact (h.holds hnil).wellFormed

theorem LeftBy.savedLast_iff {saves : List (K → Option T)} {f' : Files}
    (h : LeftBy fmt keys traversal saves items f f') (hh : f.Holds fmt.anyRow false items)
    (hmem : ∀ k, k ∈ traversal ↔ k ∈ keys) :
    SavedLast fmt keys saves f f' ↔
      LastSaveKept keys traversal (storedCount fmt f traversal) saves := by
  unfold SavedLast LastSaveKept
  cases hlast : saves.getLast? with
  | none =>
    have hnil : saves = [] := List.getLast?_eq_none_iff.mp hlast
    refine ⟨fun _ k _ => ?_, fun _ => h.unsaved hnil⟩
    rw [hnil, keptSave]
    split <;> rfl
  | some packets =>
    have hsaved : saves ≠ [] := fun hnil => by rw [hnil] at hlast; cases hlast
    have hitem := fun k hk => h.itemOf hsaved ((hmem k).mpr hk)
    constructor
    · intro hupdated k hk
      have hchanged : f'.itemOf fmt k = some ⟨k, packets k⟩ := hupdated.changed k hk
      rw [hitem k hk] at hchanged
      injection hchanged with hchanged
      injection hchanged with _ hpacket
      exact hpacket.symm
    · intro hkept
      refine ⟨(h.holds hsaved).wellFormed, fun k hk => ?_, fun k hk => ?_⟩
      · refine (hh.kept keys).same_rows (h.holds hsaved) (fun k hk => ?_) hk
        rw [map_key_itemsAfter, List.mem_append, hmem, or_iff_left hk]
        exact (mem_keys_filter items (· ∈ keys) k).trans (and_iff_left hk)
      · rw [hitem k hk, ← hkept k hk]
        rfl

end

/-- What is found after one loader has been constructed on the keys, used and committed: the
last save under the requested keys and the old rows under the others, whatever is opened. -/
def KeepsLastSave (fmt : BlockFormat K T) (ordOf : UMap K (Value K T) → IterOrder) (d : Disk)
    (path : String) (keys : List K) (uses : List (Use K T)) : Prop :=
  ∃ temp d', useLoader fmt ordOf path keys uses ⟨d, []⟩ = .ok temp ⟨d', []⟩ ∧
    (∀ q, q ≠ path → d' q = d q) ∧
    SavedLast fmt keys (savesOf fmt (d path) keys uses) (d path) (d' path) ∧
    ∀ again, ∃ self,
      BlockFileLoader.construct fmt path again none false ⟨d', []⟩ = .ok self ⟨d', []⟩ ∧
        Reopened fmt (d' path) again self

/-- **When the last save is kept.** The last save of a loader is found in the file exactly when
its packets are those of the save that the stale positions leave there: the first save for as
many keys of the traversal as the block had, and the second one for the keys behind them. -/
theorem keepsLastSave_iff {fmt : BlockFormat K T} [fmt.Lawful]
    {ordOf : UMap K (Value K T) → IterOrder} {d : Disk} {path : String} {keys traversal : List K}
    (h : (d path).WellFormed fmt) (hne : keys ≠ []) (hord : Steady ordOf keys traversal)
    (uses : List (Use K T)) :
    KeepsLastSave fmt ordOf d path keys uses ↔
      LastSaveKept keys traversal (storedCount fmt (d path) traversal)
        (savesOf fmt (d path) keys uses) := by
  obtain ⟨items, hh⟩ := h.holds
  obtain ⟨temp, f', hrun, hleft⟩ := useLoader_spec hh hne hord uses
  obtain ⟨temp0, -, hstart⟩ := exists_inUse traversal hne hh
  have hiff := hleft.savedLast_iff hh (hord.traverses hstart.mem).2
  unfold KeepsLastSave
  constructor
  · intro ⟨temp', d', hrun', _, hsaved, _⟩
    rw [hrun] at hrun'
    cases hrun'
    rw [Function.update_self] at hsaved
    exact hiff.mp hsaved
  · intro hkept
    refine ⟨temp, _, hrun, fun q hq => Function.update_of_ne hq _ _, ?_, fun again => ?_⟩
    · rw [Function.update_self]
      exact hiff.mpr hkept
    · refine Files.WellFormed.opens ?_ again
      rw [Function.update_self]
      exact hleft.wellFormed h

namespace Pairs

instance : format.Lawful := ⟨format_writes⟩

/-- A map with one key has one order. -/
theorem steady_one : Steady (fun _ : UMap UInt8 (Value UInt8 UInt8) => .stored) [1] [1] := by
  intro m hm
  refine List.perm_singleton.mp ((List.perm_ext_iff_of_nodup (AList.keys_nodup m)
    (List.nodup_singleton 1)).mpr fun k => ?_)
  rw [← AList.mem_keys]
  exact hm k

/-- A packet is put under the stored key 1 and saved, twice. -/
def twice : List (Use UInt8 UInt8) := [.write 1 (some 5), .save, .write 1 (some 6), .save]

end Pairs

theorem keepsLastSave_iff_twice :
    KeepsLastSave Pairs.format (fun _ => .stored) Pairs.disk "pairs" [1] Pairs.twice ↔
      LastSaveKept [1] [1] (storedCount Pairs.format (Pairs.disk "pairs") [1])
        (savesOf Pairs.format (Pairs.disk "pairs") [1] Pairs.twice) :=
  keepsLastSave_iff Pairs.disk_wellFormed (by decide) Pairs.steady_one Pairs.twice

/-- The second save of a stored key drops its own entry and keeps the one of the first. -/
theorem second_save_lost :
    ¬ KeepsLastSave Pairs.format (fun _ => .stored) Pairs.disk "pairs" [1] Pairs.twice := by
  intro ⟨temp, after, hrun, _, hsaved, _⟩
  have hfirst : passes (useLoader Pairs.format (fun _ => .stored) "pairs" [1] Pairs.twice)
      ⟨Pairs.disk, []⟩ (fun _ w =>
        (w.disk "pairs").itemOf Pairs.format 1 = some ⟨1, some 5⟩) = true := by decide +kernel
  obtain ⟨temp', w, hrun', hitem⟩ := exists_of_passes hfirst
  rw [hrun] at hrun'
  cases hrun'
  have hlast : (after "pairs").itemOf Pairs.format 1 = some ⟨1, some 6⟩ :=
    Updated.changed hsaved 1 List.mem_cons_self
  rw [of_decide_eq_true hitem] at hlast
  cases hlast

end MeshPP.SystemUtility
