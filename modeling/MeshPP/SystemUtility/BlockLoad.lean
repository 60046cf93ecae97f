import MeshPP.SystemUtility.Compact

/-! # What the constructor of `block_file_loader` loads

A contents file and a marker file store a list of items (`Stores`) when the
markers are spaced, lie inside the contents and cut it into rows that are read
as the items, each under the hash of its key, and no key occurs twice. Loading
such a pair never fails by itself and finds exactly the requested items, however
the hashes of the keys collide. What else is asked of the rows is a parameter. -/

namespace MeshPP.SystemUtility
open MeshPP.Lib

variable {K T : Type} (fmt : BlockFormat K T)

/-- The row is read as the item. -/
def BlockFormat.Reads (it : BlockItem K T) (row : Bytes) : Prop := fmt.fromString row = some it

/-- What is asked of the row of an item, at least that it is read as the item. -/
structure RowSpec where
  admits : BlockItem K T → Bytes → Prop
  reads : ∀ it row, admits it row → fmt.Reads it row

variable {fmt} (P : RowSpec fmt)

def Row (b : Bytes) (m : Marker) (it : BlockItem K T) : Prop :=
  P.admits it (slice b m.start m.end_) ∧ m.key = fmt.keyToUint64 it.key

/-- `ms` cuts `b` into rows of the `items`. -/
structure Rows (b : Bytes) (ms : List Marker) (items : List (BlockItem K T)) : Prop where
  spaced : Spaced 0 ms
  inside : lastEnd 0 ms ≤ b.length
  rows : List.Forall₂ (Row P b) ms items

structure Stores (b : Bytes) (ms : List Marker) (items : List (BlockItem K T)) : Prop
    extends Rows P b ms items where
  nodup : (items.map BlockItem.key).Nodup

def entriesOf (m : Option MarkerFile) : List Marker := (m.map MarkerFile.entries).getD []

/-- A contents file and a marker file, either possibly absent, hold `items`. -/
structure Holds (c : Option Bytes) (m : Option MarkerFile) (items : List (BlockItem K T)) :
    Prop where
  stray : ∀ f ∈ m, f.stray = 0
  stores : Stores P (c.getD []) (entriesOf m) items

/-- No more than that it is read as the item. -/
def BlockFormat.anyRow (fmt : BlockFormat K T) : RowSpec fmt := ⟨fmt.Reads, fun _ _ h => h⟩

variable {P}

theorem Rows.nil (b : Bytes) : Rows P b [] [] := ⟨trivial, Nat.zero_le _, .nil⟩

theorem Holds.absent : Holds P none none [] where
  stray _ h := by cases h
  stores := { toRows := Rows.nil _, nodup := List.nodup_nil }

theorem Rows.markers_nil {ms : List Marker} {items : List (BlockItem K T)}
    (h : Rows P [] ms items) : ms = [] ∧ items = [] := by
  cases ms with
  | nil => exact ⟨rfl, by cases h.rows; rfl⟩
  | cons m ms =>
    have h1 := h.spaced
    have h2 := h.inside
    have h3 := h1.2.2.le_lastEnd
    have h4 := h1.2.1
    simp only [lastEnd, List.length_nil] at h2
    omega

theorem Rows.length_eq {b : Bytes} {ms : List Marker} {items : List (BlockItem K T)}
    (h : Rows P b ms items) : ms.length = items.length := h.rows.length_eq

/-- Items whose key is wanted, looked up by position. -/
theorem index_unique {items : List (BlockItem K T)} (hn : (items.map BlockItem.key).Nodup)
    {i j : Nat} {a c : BlockItem K T} (hi : items[i]? = some a) (hj : items[j]? = some c)
    (hk : a.key = c.key) : i = j := by
  have hli : i < (items.map BlockItem.key).length := by
    rw [List.length_map]; exact (List.getElem?_eq_some_iff.mp hi).1
  refine (List.getElem?_inj hli hn).mp ?_
  rw [List.getElem?_map, List.getElem?_map, hi, hj]
  simp [hk]

/-! ## The marker checks -/

theorem checkMarkers_spec {q : String} {ms : List Marker} :
    ∀ {previous : Option Marker} {lo : Nat} {w : World}, Spaced lo ms →
      (∀ p ∈ previous, p.end_ ≤ lo) →
      Ends readFrame (checkMarkers q previous ms) w (fun _ w' => w' = w) := by
  induction ms with
  | nil => intro _ _ _ _ _; exact ends_pure rfl
  | cons m ms ih =>
    intro previous lo w h hp
    obtain ⟨hlo, hne, hsp⟩ := h
    unfold checkMarkers
    rw [if_neg (by omega), if_neg]
    · exact ih hsp (fun p hp => by simp at hp; subst hp; exact Nat.le_refl _)
    · cases previous with
      | none => simp
      | some p =>
        have := hp p rfl
        simp only [Option.any_some, decide_eq_true_eq]
        omega

theorem loadMarkers_spec {q : String} {c : Option Bytes} {m : Option MarkerFile}
    {items : List (BlockItem K T)} {w : World} (h : Holds P c m items) :
    Ends readFrame (loadMarkers q m) w (fun ms w' => ms = entriesOf m ∧ w' = w) := by
  cases m with
  | none => exact ends_pure ⟨rfl, rfl⟩
  | some f =>
    have hstray : ¬ f.stray ≠ 0 := fun hne => hne (h.stray f rfl)
    simp only [loadMarkers, if_neg hstray]
    refine (checkMarkers_spec h.stores.spaced (by simp)).bind fun _ w' _ hw => ?_
    subst hw
    exact ends_pure ⟨rfl, rfl⟩

/-! ## Keyed loading -/

variable [DecidableEq K]

theorem lookup_requestKeys (keys : List K) (k : K) :
    (requestKeys keys).lookup k = if k ∈ keys then some false else none := by
  suffices h : ∀ (ks : List K) (ex : UMap K Bool), (∀ j, ex.lookup j ≠ some true) →
      (ks.foldl (fun ex key => ex.insert key false) ex).lookup k =
        if k ∈ ks then some false else ex.lookup k by
    have := h keys ∅ (by simp)
    simpa [requestKeys] using this
  intro ks
  induction ks with
  | nil => intro ex _; simp
  | cons a ks ih =>
    intro ex hex
    rw [List.foldl_cons, ih]
    · by_cases hk : k ∈ ks
      · simp [hk]
      · by_cases ha : k = a <;> simp [hk, ha, UMap.lookup_insert]
    · intro j
      rw [UMap.lookup_insert]
      split
      · simp
      · exact hex j

/-- The loading state after the items `done`: the flags say which requested keys
were seen, the values are the requested items seen, with their positions. -/
structure LoadedSoFar (keys : List K) (done : List (BlockItem K T)) (l : Loading K T) : Prop where
  flags : ∀ k, l.keysEx.lookup k =
    if k ∈ keys then some (decide (k ∈ done.map BlockItem.key)) else none
  values : ∀ k v, l.values.lookup k = some v ↔ (keys = [] ∨ k ∈ keys) ∧
    ∃ j it, done[j]? = some it ∧ it.key = k ∧ v = ⟨it, some j⟩

theorem LoadedSoFar.start (keys : List K) :
    LoadedSoFar keys [] (⟨requestKeys keys, ∅⟩ : Loading K T) where
  flags k := by rw [lookup_requestKeys]; simp
  values k v := by simp

/-- What the items so far give a key, after one more item. -/
theorem getElem?_concat {α : Type} {done : List α} {x a : α} {j : Nat} :
    (done ++ [x])[j]? = some a ↔ done[j]? = some a ∨ (j = done.length ∧ a = x) := by
  rw [List.getElem?_append]
  split
  · next hj => exact ⟨.inl, fun h => h.resolve_right fun h => by omega⟩
  · next hj =>
    have hnone : done[j]? = none := List.getElem?_eq_none (by omega)
    rw [hnone, List.getElem?_singleton]
    split
    · next h0 => simp [show j = done.length by omega, eq_comm]
    · next h0 => simp [show j ≠ done.length by omega]

/-- An item nobody asked for leaves the loading state as it is. -/
theorem LoadedSoFar.skip {keys : List K} {done : List (BlockItem K T)} {l : Loading K T}
    (h : LoadedSoFar keys done l) {it : BlockItem K T} (hne : keys ≠ []) (hk : it.key ∉ keys) :
    LoadedSoFar keys (done ++ [it]) l where
  flags k := by
    rw [h.flags]
    by_cases hm : k ∈ keys
    · have : k ≠ it.key := fun he => hk (he ▸ hm)
      simp [hm, this]
    · simp [hm]
  values k v := by
    rw [h.values]
    refine and_congr_right fun hm => ?_
    simp only [getElem?_concat]
    constructor
    · intro ⟨j, a, hj, ha, hv⟩
      exact ⟨j, a, .inl hj, ha, hv⟩
    · rintro ⟨j, a, hj | ⟨_, rfl⟩, ha, hv⟩
      · exact ⟨j, a, hj, ha, hv⟩
      · subst ha
        exact absurd (hm.resolve_left hne) hk

/-- A requested item is flagged and stored under its position. -/
theorem LoadedSoFar.take {keys : List K} {done : List (BlockItem K T)} {l l' : Loading K T}
    (h : LoadedSoFar keys done l) {it : BlockItem K T} (hk : keys = [] ∨ it.key ∈ keys)
    (hnew : it.key ∉ done.map BlockItem.key)
    (hflags : ∀ k, l'.keysEx.lookup k =
      if k = it.key ∧ k ∈ keys then some true else l.keysEx.lookup k)
    (hvalues : l'.values = l.values.insert it.key ⟨it, some done.length⟩) :
    LoadedSoFar keys (done ++ [it]) l' where
  flags k := by
    rw [hflags, h.flags]
    by_cases he : k = it.key
    · by_cases hm : it.key ∈ keys <;> simp [he, hm]
    · by_cases hm : k ∈ keys <;> simp [hm, he]
  values k v := by
    rw [hvalues, UMap.lookup_insert]
    simp only [getElem?_concat]
    split
    · next he =>
      subst he
      constructor
      · intro hv
        cases hv
        exact ⟨hk, done.length, it, .inr ⟨rfl, rfl⟩, rfl, rfl⟩
      · rintro ⟨-, j, a, hj | ⟨rfl, rfl⟩, ha, rfl⟩
        · exact absurd (ha ▸ List.mem_map_of_mem (List.mem_of_getElem? hj)) hnew
        · rfl
    · next he =>
      rw [h.values]
      refine and_congr_right fun _ => ?_
      constructor
      · intro ⟨j, a, hj, ha, hv⟩
        exact ⟨j, a, .inl hj, ha, hv⟩
      · rintro ⟨j, a, hj | ⟨_, rfl⟩, ha, hv⟩
        · exact ⟨j, a, hj, ha, hv⟩
        · exact absurd ha.symm he

theorem loadRow_spec {q : String} {b : Bytes} {keys : List K} {done : List (BlockItem K T)}
    {l : Loading K T} {w : World} {m : Marker} {it : BlockItem K T} (h : LoadedSoFar keys done l)
    (hrow : Row P b m it) (hend : m.end_ ≤ b.length) (hnew : it.key ∉ done.map BlockItem.key) :
    Ends readFrame (loadRow fmt q b keys.isEmpty l done.length m) w
      (fun l' w' => LoadedSoFar keys (done ++ [it]) l' ∧ w'.disk = w.disk) := by
  obtain ⟨hrow, hkey⟩ := hrow
  have hread : fmt.fromString (slice b m.start m.end_) = some it := P.reads it _ hrow
  have hmem : it.key ∈ l.keysEx ↔ it.key ∈ keys := by
    rw [UMap.mem_iff, h.flags]; split <;> simp_all
  unfold loadRow
  split
  · refine (ends_readRow hend).bind fun row w1 _ hw1 => ?_
    obtain ⟨rfl, hw1⟩ := hw1
    rw [hread]
    simp only
    split
    · next hall =>
      have hnil : keys = [] := by simpa using hall
      refine ends_pure ⟨h.take (.inl hnil) hnew (fun k => ?_) rfl, hw1⟩
      simp [hnil]
    · next hall =>
      have hne : keys ≠ [] := by simpa using hall
      split
      · next hin =>
        have hin' : it.key ∈ keys := by
          simp only [Bool.and_eq_true, decide_eq_true_eq] at hin
          exact hmem.mp hin.1
        refine ends_pure ⟨h.take (.inr hin') hnew (fun k => ?_) rfl, hw1⟩
        simp only [UMap.lookup_insert]
        by_cases he : k = it.key
        · subst he; simp [hin']
        · simp [he]
      · next hin =>
        have hout : it.key ∉ keys := by
          intro hmemk
          exact hin (by simp [hmem.mpr hmemk, hkey])
        exact ends_pure ⟨h.skip hne hout, hw1⟩
  · next hno =>
    simp only [Bool.or_eq_true, not_or, Bool.not_eq_true, List.any_eq_false, beq_iff_eq] at hno
    have hne : keys ≠ [] := by simpa using hno.1
    have hout : it.key ∉ keys := fun hmemk =>
      hno.2 it.key (AList.mem_keys.mpr (hmem.mpr hmemk)) hkey.symm
    exact ends_pure ⟨h.skip hne hout, rfl⟩

theorem loadRows_spec {q : String} {b : Bytes} {keys : List K} {ms : List Marker}
    {items : List (BlockItem K T)} (hrows : List.Forall₂ (Row P b) ms items)
    (hend : ∀ m ∈ ms, m.end_ ≤ b.length) :
    ∀ {done : List (BlockItem K T)} {l : Loading K T} {w : World}, LoadedSoFar keys done l →
      ((done ++ items).map BlockItem.key).Nodup →
      Ends readFrame (loadRows fmt q b keys.isEmpty done.length ms l) w
        (fun l' w' => LoadedSoFar keys (done ++ items) l' ∧ w'.disk = w.disk) := by
  induction hrows with
  | nil =>
    intro done l w h _
    exact ends_pure ⟨by rwa [List.append_nil], rfl⟩
  | @cons m it ms items hrow _ ih =>
    intro done l w h hn
    have hnew : it.key ∉ done.map BlockItem.key := by
      rw [List.map_append, List.nodup_append] at hn
      exact fun hm => hn.2.2 _ hm _ (by simp) rfl
    unfold loadRows
    refine (loadRow_spec h hrow (hend m (by simp)) hnew).bind fun l1 w1 _ h1 => ?_
    have hassoc : done ++ it :: items = (done ++ [it]) ++ items := by simp
    have := ih (fun m hm => hend m (by simp [hm])) (w := w1) h1.1 (by rw [← hassoc]; exact hn)
    rw [List.length_append, List.length_singleton] at this
    refine this.mono fun l2 w2 _ h2 => ?_
    rw [hassoc]
    exact ⟨h2.1, h2.2.trans h1.2⟩

/-! ## What a loader holds after loading -/

/-- The values of a loader: the requested items of the file with their
positions, and a default item for each requested key the file does not have. -/
def LoadedValues (items : List (BlockItem K T)) (keys : List K) (values : UMap K (Value K T)) :
    Prop :=
  ∀ k v, values.lookup k = some v ↔
    ((keys = [] ∨ k ∈ keys) ∧ ∃ j it, items[j]? = some it ∧ it.key = k ∧ v = ⟨it, some j⟩) ∨
    (k ∈ keys ∧ k ∉ items.map BlockItem.key ∧ v = ⟨⟨k, none⟩, none⟩)

theorem lookup_addMissing_aux (es : List (Sigma fun _ : K => Bool)) (values : UMap K (Value K T))
    (k : K) :
    (es.foldl (fun values e => if e.2 then values else values.insert e.1 ⟨⟨e.1, none⟩, none⟩)
      values).lookup k = if (⟨k, false⟩ : Sigma fun _ : K => Bool) ∈ es then
        some ⟨⟨k, none⟩, none⟩ else values.lookup k := by
  induction es generalizing values with
  | nil => simp
  | cons e es ih =>
    obtain ⟨a, f⟩ := e
    rw [List.foldl_cons, ih]
    cases f with
    | true => simp
    | false =>
      by_cases he : k = a
      · subst he; simp
      · simp [he]

theorem lookup_addMissing (l : Loading K T) (k : K) :
    (addMissing l).lookup k =
      if l.keysEx.lookup k = some false then some ⟨⟨k, none⟩, none⟩ else l.values.lookup k := by
  rw [addMissing, lookup_addMissing_aux]
  simp only [UMap.mem_entries]

theorem LoadedSoFar.loadedValues {keys : List K} {items : List (BlockItem K T)} {l : Loading K T}
    (h : LoadedSoFar keys items l) : LoadedValues items keys (addMissing l) := by
  intro k v
  rw [lookup_addMissing, h.flags]
  by_cases hk : k ∈ keys
  · by_cases hm : k ∈ items.map BlockItem.key
    · simp only [hk, hm, if_true, decide_true, Option.some.injEq, Bool.true_eq_false, if_false,
        h.values, or_true, true_and, not_true, false_and, and_false, or_false]
    · have hno : ∀ j (it : BlockItem K T), items[j]? = some it → it.key ≠ k := fun j it hj he =>
        hm (he ▸ List.mem_map_of_mem (List.mem_of_getElem? hj))
      simp only [hk, hm, if_true, decide_false, or_true, true_and, not_false_eq_true,
        Option.some.injEq]
      constructor
      · intro hv; exact .inr hv.symm
      · rintro (⟨j, it, hj, hit, -⟩ | hv)
        · exact absurd hit (hno j it hj)
        · exact hv.symm
  · simp only [hk, if_false, reduceCtorEq, h.values, false_and, or_false]

/-- The files a loader works on: the pending ones inside a transaction. -/
def Files.contents (f : Files) (pending : Bool) : Option Bytes := if pending then f.tr else f.main

def Files.markers (f : Files) (pending : Bool) : Option MarkerFile := if pending then f.mTr else f.m

variable (P) in
def Files.Holds (f : Files) (pending : Bool) (items : List (BlockItem K T)) : Prop :=
  SystemUtility.Holds P (f.contents pending) (f.markers pending) items

/-- What the constructor makes of a block that holds `items`. -/
structure Constructed (path : String) (keys : List K) (ptransaction : Option BlockTransaction)
    (purposeClear : Bool) (markers : List Marker) (items : List (BlockItem K T))
    (temp : BlockFileLoader K T) : Prop where
  modified : temp.modified = false
  mainPath : temp.mainPath = path
  ptransaction : temp.ptransaction = ptransaction
  markers : temp.markers = markers
  clear : temp.purposeClearAll = (purposeClear && keys.length == items.length && !keys.isEmpty)
  values : temp.purposeClearAll = false → LoadedValues items keys temp.values

theorem construct_spec {path : String} {keys : List K} {ptransaction : Option BlockTransaction}
    {purposeClear : Bool} {items : List (BlockItem K T)} {w : World}
    (h : (w.disk path).Holds P ptransaction.isSome items) :
    Ends readFrame (BlockFileLoader.construct fmt path keys ptransaction purposeClear) w
      (fun self w' => Constructed path keys ptransaction purposeClear
        (entriesOf ((w.disk path).markers ptransaction.isSome)) items self ∧
        w'.disk = w.disk) := by
  unfold BlockFileLoader.construct
  refine (ends_get (Q := fun a t => a = w ∧ t = w) ⟨rfl, rfl⟩).bind fun a t _ ht => ?_
  obtain ⟨rfl, rfl⟩ := ht
  have hm : (if ptransaction.isNone then (t.disk path).m else (t.disk path).mTr) =
      (t.disk path).markers ptransaction.isSome := by cases ptransaction <;> rfl
  have hc : (if ptransaction.isNone then (t.disk path).main else (t.disk path).tr) =
      (t.disk path).contents ptransaction.isSome := by cases ptransaction <;> rfl
  simp only [hm, hc]
  unfold Files.Holds at h
  generalize (t.disk path).markers ptransaction.isSome = m at *
  generalize (t.disk path).contents ptransaction.isSome = c at *
  refine (loadMarkers_spec h).bind fun ms t1 _ h1 => ?_
  obtain ⟨rfl, rfl⟩ := h1
  have hmarkers : (if (keys.isEmpty && (c.getD []).isEmpty) = true then [] else entriesOf m) =
      entriesOf m := by
    split
    · next hnil =>
      have hb : c.getD [] = [] := by simp only [Bool.and_eq_true] at hnil; simpa using hnil.2
      have := h.stores.toRows
      rw [hb] at this
      exact this.markers_nil.1.symm
    · rfl
  have hlen : (entriesOf m).length = items.length := h.stores.toRows.length_eq
  simp only [hmarkers, hlen]
  split
  · refine (loadRows_spec h.stores.rows (fun m hm => ?_) (LoadedSoFar.start keys) ?_).bind
      fun l t2 _ h2 => ends_pure ⟨⟨rfl, rfl, rfl, rfl, rfl, fun _ => h2.1.loadedValues⟩, h2.2⟩
    · exact Nat.le_trans (h.stores.spaced.end_le hm) h.stores.inside
    · exact h.stores.nodup
  · next hno =>
    refine ends_pure ⟨⟨rfl, rfl, rfl, rfl, rfl, fun hclear => ?_⟩, rfl⟩
    -- nothing was read because there are no contents, hence no items
    have hclear' : (purposeClear && keys.length == items.length && !keys.isEmpty) = false := hclear
    have hb : c.getD [] = [] := by rw [hclear'] at hno; simpa using hno
    have hstores := h.stores.toRows
    rw [hb] at hstores
    rw [hstores.markers_nil.2]
    exact (LoadedSoFar.start keys).loadedValues

/-- Without a transaction the committed files are read. -/
theorem construct_committed {path : String} {keys : List K} {purposeClear : Bool}
    {items : List (BlockItem K T)} {w : World} (h : (w.disk path).Holds P false items) :
    Ends readFrame (BlockFileLoader.construct fmt path keys none purposeClear) w
      (fun self w' => Constructed path keys none purposeClear
        (entriesOf ((w.disk path).markers false)) items self ∧ w'.disk = w.disk) := by
  have hnone : (w.disk path).Holds P (none : Option BlockTransaction).isSome items := h
  exact construct_spec hnone

end MeshPP.SystemUtility
