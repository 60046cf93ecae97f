import Mathlib.Data.List.Forall2
import MeshPP.SystemUtility.BlockLoad

/-! # What `save` and `erase` leave in a block

`save` appends the values behind the last marker and drops the entries they
replace; `erase` drops the entries of its values. Both leave the pending files
holding the items with that change (`save_spec`, `erase_spec`), whatever a
failed call has left in them before. -/

namespace MeshPP.SystemUtility
open MeshPP.Lib

/-! ## Dropping entries by index -/

section
variable {α β : Type}

theorem dropIndices_sublist (er : List Nat) (i : Nat) (l : List α) :
    (dropIndices er i l).Sublist l := by
  induction l generalizing i with
  | nil => exact List.Sublist.refl _
  | cons x l ih =>
    unfold dropIndices
    split
    · exact (ih _).cons _
    · exact (ih _).cons_cons _

theorem dropIndices_append (er : List Nat) (i : Nat) (l l' : List α) :
    dropIndices er i (l ++ l') = dropIndices er i l ++ dropIndices er (i + l.length) l' := by
  induction l generalizing i with
  | nil => rfl
  | cons x l ih =>
    have hlen : i + (x :: l).length = i + 1 + l.length := by simp only [List.length_cons]; omega
    simp only [List.cons_append, dropIndices, ih, hlen]
    split <;> simp

/-- The entries dropped are the ones a predicate picks at their positions. -/
theorem dropIndices_eq_filter {er : List Nat} {p : α → Bool} {l : List α} {i : Nat}
    (h : ∀ j x, l[j]? = some x → (i + j ∈ er ↔ p x = false)) : dropIndices er i l = l.filter p := by
  induction l generalizing i with
  | nil => rfl
  | cons x l ih =>
    have hx := h 0 x rfl
    have hl := ih (i := i + 1) fun j y hj => by
      rw [show i + 1 + j = i + (j + 1) by omega]; exact h (j + 1) y hj
    unfold dropIndices
    rw [hl, List.filter_cons]
    cases hp : p x with
    | true => rw [if_neg (by rw [Nat.add_zero] at hx; simp [hx, hp])]; rfl
    | false => rw [if_pos (by rw [Nat.add_zero] at hx; simp [hx, hp])]; rfl

/-- Only which positions are to be dropped matters. -/
theorem dropIndices_congr {er er' : List Nat} (h : ∀ i, i ∈ er ↔ i ∈ er') (i : Nat) (l : List α) :
    dropIndices er i l = dropIndices er' i l := by
  induction l generalizing i with
  | nil => rfl
  | cons x l ih => simp only [dropIndices, h, ih]

theorem dropIndices_forall₂ {R : α → β → Prop} (er : List Nat) {l : List α} {l' : List β}
    (h : List.Forall₂ R l l') (i : Nat) :
    List.Forall₂ R (dropIndices er i l) (dropIndices er i l') := by
  induction h generalizing i with
  | nil => exact .nil
  | cons hx _ ih =>
    unfold dropIndices
    split
    · exact ih _
    · exact .cons hx (ih _)

end

variable {K T : Type} {fmt : BlockFormat K T} {P : RowSpec fmt}

theorem Rows.dropIndices {b : Bytes} {ms : List Marker} {items : List (BlockItem K T)}
    (h : Rows P b ms items) (er : List Nat) :
    Rows P b (dropIndices er 0 ms) (SystemUtility.dropIndices er 0 items) := by
  obtain ⟨hsp, hle⟩ := h.spaced.sublist (dropIndices_sublist er 0 ms)
  exact ⟨hsp, Nat.le_trans hle h.inside, dropIndices_forall₂ er h.rows 0⟩

/-- Markers that designate the old pieces in a new file store the old items there. -/
theorem Rows.moved {b b' : Bytes} {ms ms' : List Marker} {items : List (BlockItem K T)}
    (h : Rows P b ms items) (hm : Moved b ms b' ms') (hsp : Spaced 0 ms')
    (hle : lastEnd 0 ms' ≤ b'.length) : Rows P b' ms' items := by
  refine ⟨hsp, hle, ?_⟩
  have hrows := h.rows
  clear h hsp hle
  unfold Moved at hm
  induction hm generalizing items with
  | nil => cases hrows; exact .nil
  | cons hp _ ih =>
    cases hrows with
    | cons hr hrs => exact .cons ⟨hp.2.2.symm ▸ hr.1, hp.1.trans hr.2⟩ (ih hrs)

/-! ## The appended entries -/

variable (fmt) in
/-- The entries `save` pushes back for `es` when the last one ends at `p`. -/
def placed : Nat → List (Sigma fun _ : K => Value K T) → List Marker
  | _, [] => []
  | p, e :: es =>
    let q := p + (fmt.toString e.2.item).length
    ⟨p, q, fmt.keyToUint64 e.1⟩ :: placed q es

variable (fmt) in
def bulk (es : List (Sigma fun _ : K => Value K T)) : Bytes :=
  es.flatMap fun e => fmt.toString e.2.item

variable (fmt) in
theorem placed_spaced (p : Nat) {es : List (Sigma fun _ : K => Value K T)}
    (hw : ∀ e ∈ es, fmt.toString e.2.item ≠ []) :
    Spaced p (placed fmt p es) ∧ lastEnd p (placed fmt p es) = p + (bulk fmt es).length := by
  induction es generalizing p with
  | nil => exact ⟨trivial, by simp [placed, lastEnd, bulk]⟩
  | cons e es ih =>
    have hpos : 0 < (fmt.toString e.2.item).length := List.length_pos_of_ne_nil (hw e (by simp))
    obtain ⟨h1, h2⟩ := ih (p + (fmt.toString e.2.item).length) fun e he => hw e (by simp [he])
    refine ⟨⟨Nat.le_refl _, by simp only; omega, h1⟩, ?_⟩
    simp only [placed, lastEnd, h2, bulk, List.flatMap_cons, List.length_append]
    omega

theorem placed_rows {b : Bytes} {p : Nat} {es : List (Sigma fun _ : K => Value K T)}
    (h : slice b p (p + (bulk fmt es).length) = bulk fmt es) (hlen : p ≤ b.length)
    (hk : ∀ e ∈ es, e.2.item.key = e.1)
    (hw : ∀ e ∈ es, P.admits e.2.item (fmt.toString e.2.item)) :
    List.Forall₂ (Row P b) (placed fmt p es) (es.map fun e => e.2.item) := by
  induction es generalizing p with
  | nil => exact .nil
  | cons e es ih =>
    have hbulk : bulk fmt (e :: es) = fmt.toString e.2.item ++ bulk fmt es := by simp [bulk]
    have hend : p + (bulk fmt (e :: es)).length ≤ b.length := by
      have := congrArg List.length h
      simp only [slice, List.length_take, List.length_drop] at this
      omega
    rw [hbulk, List.length_append, ← Nat.add_assoc,
      ← slice_append_slice b (s := p) (e := p + (fmt.toString e.2.item).length) (by omega)
        (by omega)] at h
    rw [hbulk, List.length_append] at hend
    obtain ⟨h1, h2⟩ := List.append_inj h (by rw [length_slice (by omega)]; omega)
    exact .cons ⟨h1.symm ▸ hw e (by simp), by rw [hk e (by simp)]⟩
      (ih h2 (by omega) (fun e he => hk e (by simp [he])) fun e he => hw e (by simp [he]))

theorem getLast?_end (ms : List Marker) (lo : Nat) :
    lastEnd lo ms = (ms.getLast?.map Marker.end_).getD lo := by
  induction ms generalizing lo with
  | nil => rfl
  | cons m ms ih =>
    rw [lastEnd, ih, List.getLast?_cons]
    cases ms.getLast? <;> rfl

variable [DecidableEq K]

variable (fmt) in
/-- The loop of `save`: entries and bytes are appended, and every old position
met is collected. -/
theorem foldl_appendValue (es : List (Sigma fun _ : K => Value K T)) (a : Append K T) :
    ∃ values er, es.foldl (appendValue fmt) a =
        ⟨a.markers ++ placed fmt (lastEnd 0 a.markers) es,
          if es = [] then a.startPos else some (a.startPos.getD (lastEnd 0 a.markers)),
          a.bulkBuffer ++ bulk fmt es, er, values⟩ ∧
      ∀ i, i ∈ er ↔ i ∈ a.eraseIndices ∨ ∃ e ∈ es, e.2.loadedMarkerIndex = some i := by
  induction es generalizing a with
  | nil => exact ⟨a.values, a.eraseIndices, by simp [placed, bulk], fun i => by simp⟩
  | cons e es ih =>
    obtain ⟨values, er, heq, her⟩ := ih (appendValue fmt a e)
    refine ⟨values, er, ?_, fun i => ?_⟩
    · rw [List.foldl_cons, heq]
      simp only [appendValue, ← getLast?_end, lastEnd_append, lastEnd, placed, bulk,
        List.flatMap_cons, List.append_assoc, List.singleton_append, Option.getD_some, reduceCtorEq,
        if_false, ite_self]
    · rw [her]
      simp only [appendValue, List.mem_append, Option.mem_toList, List.mem_cons, exists_eq_or_imp]
      constructor
      · rintro ((h | h) | h)
        · exact .inr (.inl h)
        · exact .inl h
        · exact .inr (.inr h)
      · rintro (h | h | h)
        · exact .inl (.inr h)
        · exact .inl (.inl h)
        · exact .inr h

variable (fmt) in
theorem lookup_foldl_appendValue_of_not_mem {es : List (Sigma fun _ : K => Value K T)} {k : K}
    (hk : k ∉ es.map Sigma.fst) (a : Append K T) :
    (es.foldl (appendValue fmt) a).values.lookup k = a.values.lookup k := by
  induction es generalizing a with
  | nil => rfl
  | cons e es ih =>
    rw [List.map_cons, List.mem_cons, not_or] at hk
    rw [List.foldl_cons, ih hk.2]
    exact (UMap.lookup_insert _ _ _ _).trans (if_neg hk.1)

variable (fmt) in
/-- Each value met is recorded at the position of the entry pushed back for it. -/
theorem lookup_foldl_appendValue {es : List (Sigma fun _ : K => Value K T)}
    (hn : (es.map Sigma.fst).Nodup) {i : Nat} {e : Sigma fun _ : K => Value K T}
    (he : es[i]? = some e) (a : Append K T) :
    (es.foldl (appendValue fmt) a).values.lookup e.1 =
      some { e.2 with loadedMarkerIndex := some (a.markers.length + i) } := by
  induction es generalizing a i with
  | nil => cases he
  | cons x es ih =>
    rw [List.map_cons, List.nodup_cons] at hn
    rw [List.foldl_cons]
    cases i with
    | zero =>
      obtain rfl := Option.some.inj he
      rw [lookup_foldl_appendValue_of_not_mem fmt hn.1]
      exact (UMap.lookup_insert _ _ _ _).trans (if_pos rfl)
    | succ i =>
      rw [ih hn.2 he]
      have hlen : (appendValue fmt a x).markers.length = a.markers.length + 1 := by
        simp [appendValue]
      rw [hlen, Nat.add_right_comm, Nat.add_assoc]

/-! ## The pending files -/

theorem removeMTr_spec {path : String} {w : World} :
    Ends (blockFrame path) (removeMTr path) w (fun _ w' =>
      w'.disk path = { w.disk path with mTr := none }) := by
  unfold removeMTr
  refine (ends_get (Q := fun a t => a = w ∧ t = w) ⟨rfl, rfl⟩).bind fun a t _ ht => ?_
  obtain ⟨rfl, rfl⟩ := ht
  split
  · exact ends_call ⟨rfl, rfl⟩
  · next hno =>
    have hno' : (t.disk path).mTr = none := by simpa using hno
    refine ends_pure ?_
    rw [← hno']

theorem saveMarkers_spec {path : String} {ms : List Marker} {w : World} :
    Ends (blockFrame path) (saveMarkers path ms) w (fun _ w' => w'.disk path =
      { w.disk path with mTr := if ms = [] then none else some ⟨ms, 0⟩ }) := by
  unfold saveMarkers
  cases ms with
  | nil => exact removeMTr_spec
  | cons m ms =>
    refine (ends_call ⟨rfl, rfl⟩).bind fun _ w₁ _ h₁ => ?_
    refine Ends.onFailure ?_ fun t _ => ends_guardCall ⟨rfl, rfl⟩
    refine (ends_call ⟨rfl, rfl⟩).bind fun _ w₂ _ h₂ => ?_
    exact ends_callId.mono fun _ w' _ hw => by rw [hw, h₂, h₁]; simp

theorem removeTrGuard_spec {path : String} {copied : Bool} {w : World} :
    Ends (blockFrame path) (removeTrGuard path copied) w (fun _ _ => True) := by
  unfold removeTrGuard
  split
  · exact ends_guardCall ⟨rfl, rfl⟩
  · exact ends_pure trivial

omit [DecidableEq K] in
/-- After the copy the pending contents have the items, also where the copy is
left out because the block has no contents at all. -/
theorem copyToTr_spec {path what : String} {pending : Bool} {items : List (BlockItem K T)}
    {w : World} (h : (w.disk path).Holds P pending items) :
    Ends (blockFrame path) (copyToTr path what (!pending && (w.disk path).main.isSome)) w
      (fun _ w' => Stores P ((w'.disk path).tr.getD []) (entriesOf ((w.disk path).markers pending)) items) := by
  have hs := h.stores
  unfold copyToTr
  cases pending with
  | true => exact ends_pure hs
  | false =>
    cases hmain : (w.disk path).main with
    | some b =>
      rw [if_pos (by simp)]
      refine (ends_call ⟨rfl, rfl⟩).mono fun _ w' _ hw => ?_
      rw [hw]
      exact hs
    | none =>
      rw [if_neg (by simp)]
      refine ends_pure ?_
      have hrows := hs.toRows
      simp only [Files.contents, hmain, Option.getD_none, Bool.false_eq_true, if_false] at hrows
      obtain ⟨hms, hitems⟩ := hrows.markers_nil
      rw [hms, hitems]
      exact { toRows := Rows.nil _, nodup := List.nodup_nil }

/-- The values of a loader designate the old positions of their keys. -/
structure Indexed (items : List (BlockItem K T)) (values : UMap K (Value K T)) : Prop where
  key : ∀ k v, values.lookup k = some v → v.item.key = k
  index : ∀ k v, values.lookup k = some v → ∀ i, v.loadedMarkerIndex = some i ↔
    ∃ it, items[i]? = some it ∧ it.key = k

theorem LoadedValues.indexed {items : List (BlockItem K T)} {keys : List K}
    {values : UMap K (Value K T)} (h : LoadedValues items keys values)
    (hn : (items.map BlockItem.key).Nodup) : Indexed items values where
  key k v hv := by
    rcases (h k v).mp hv with ⟨-, j, it, -, hk, rfl⟩ | ⟨-, -, rfl⟩
    · exact hk
    · rfl
  index k v hv i := by
    rcases (h k v).mp hv with ⟨-, j, it, hj, hk, rfl⟩ | ⟨-, hm, rfl⟩
    · constructor
      · intro he
        cases he
        exact ⟨it, hj, hk⟩
      · intro ⟨it', hi, hk'⟩
        rw [index_unique hn hi hj (hk'.trans hk.symm)]
    · simp only [reduceCtorEq, false_iff, not_exists, not_and]
      exact fun it hi he => hm (he ▸ List.mem_map_of_mem (List.mem_of_getElem? hi))

/-- Dropping the old positions of the values drops the items under their keys. -/
theorem Indexed.dropIndices {items : List (BlockItem K T)} {values : UMap K (Value K T)}
    (h : Indexed items values) {er : List Nat}
    (her : ∀ i, i ∈ er ↔ ∃ k v, values.lookup k = some v ∧ v.loadedMarkerIndex = some i) :
    SystemUtility.dropIndices er 0 items = items.filter (fun it => it.key ∉ values) := by
  refine dropIndices_eq_filter fun j it hj => ?_
  rw [Nat.zero_add, her]
  simp only [decide_not, Bool.not_eq_false', decide_eq_true_eq, UMap.mem_iff]
  constructor
  · intro ⟨k, v, hk, hi⟩
    obtain ⟨it', hj', hkey⟩ := (h.index k v hk j).mp hi
    rw [hj] at hj'
    cases hj'
    exact ⟨v, hkey ▸ hk⟩
  · intro ⟨v, hv⟩
    exact ⟨it.key, v, hv, (h.index _ v hv j).mpr ⟨it, hj, rfl⟩⟩

/-- No index of a value lies behind the items. -/
theorem Indexed.lt {items : List (BlockItem K T)} {values : UMap K (Value K T)}
    (h : Indexed items values) {k : K} {v : Value K T} (hv : values.lookup k = some v) {i : Nat}
    (hi : v.loadedMarkerIndex = some i) : i < items.length := by
  obtain ⟨it, hit, -⟩ := (h.index k v hv i).mp hi
  exact (List.getElem?_eq_some_iff.mp hit).1

/-! ## `save` -/

omit [DecidableEq K] in
/-- The keys of the items that are left when those under some keys are dropped. -/
theorem mem_keys_filter (items : List (BlockItem K T)) (S : K → Prop) [DecidablePred S] (k : K) :
    k ∈ (items.filter fun it => ¬ S it.key).map BlockItem.key ↔
      k ∈ items.map BlockItem.key ∧ ¬ S k := by
  constructor
  · intro hk
    obtain ⟨it, hit, rfl⟩ := List.mem_map.mp hk
    obtain ⟨hmem, hdropped⟩ := List.mem_filter.mp hit
    exact ⟨List.mem_map_of_mem hmem, of_decide_eq_true hdropped⟩
  · intro ⟨hk, hdropped⟩
    obtain ⟨it, hit, rfl⟩ := List.mem_map.mp hk
    exact List.mem_map_of_mem (List.mem_filter.mpr ⟨hit, decide_eq_true hdropped⟩)

/-- The items of a block after its entries for the values have been replaced. -/
def replaced (items : List (BlockItem K T)) (values : UMap K (Value K T))
    (es : List (Sigma fun _ : K => Value K T)) : List (BlockItem K T) :=
  items.filter (fun it => it.key ∉ values) ++ es.map fun e => e.2.item

omit [DecidableEq K] in
theorem rows_overwrite {b : Bytes} {ms : List Marker} {items : List (BlockItem K T)} {p : Nat}
    (h : List.Forall₂ (Row P b) ms items) (row : Bytes) (hp : p ≤ b.length)
    (hin : ∀ m ∈ ms, m.end_ ≤ p) : List.Forall₂ (Row P (overwrite 0 b p row)) ms items := by
  induction h with
  | nil => exact .nil
  | @cons m _ _ _ hr _ ih =>
    have hsame := slice_overwrite_before 0 row hp (hin m (by simp)) (s := m.start)
    exact .cons ⟨hsame.symm ▸ hr.1, hr.2⟩ (ih fun m hm => hin m (by simp [hm]))

variable (P) in
/-- Each value has a row that is not empty and is as is asked. -/
def Written (es : List (Sigma fun _ : K => Value K T)) : Prop :=
  ∀ e ∈ es, fmt.toString e.2.item ≠ [] ∧ P.admits e.2.item (fmt.toString e.2.item)

omit [DecidableEq K] in
/-- The old and the appended entries, over the file the bulk is written to. -/
theorem appended_rows {b : Bytes} {ms : List Marker} {items : List (BlockItem K T)}
    {es : List (Sigma fun _ : K => Value K T)} (h : Rows P b ms items)
    (hk : ∀ e ∈ es, e.2.item.key = e.1) (hw : Written P es) :
    Rows P (overwrite 0 b (lastEnd 0 ms) (bulk fmt es)) (ms ++ placed fmt (lastEnd 0 ms) es)
      (items ++ es.map fun e => e.2.item) := by
  have hle := h.inside
  obtain ⟨hsp, hend⟩ := placed_spaced fmt (lastEnd 0 ms) fun e he => (hw e he).1
  have hold := rows_overwrite h.rows (bulk fmt es) hle fun m hm => h.spaced.end_le hm
  have hbulk : slice (overwrite 0 b (lastEnd 0 ms) (bulk fmt es)) (lastEnd 0 ms)
      (lastEnd 0 ms + (bulk fmt es).length) = bulk fmt es := by
    have := slice_overwrite_at 0 (b := b) (p := lastEnd 0 ms) (i := 0)
      (j := (bulk fmt es).length) (bulk fmt es) hle (Nat.le_refl _)
    rwa [Nat.add_zero, slice_full] at this
  have hnew := placed_rows hbulk (by rw [length_overwrite 0 _ hle]; omega) hk
    fun e he => (hw e he).2
  exact ⟨Spaced.append.mpr ⟨h.spaced, hsp⟩,
    by rw [lastEnd_append, hend, length_overwrite 0 _ hle]; omega, List.rel_append hold hnew⟩

/-- The positions the values of a loader collect. -/
def positions (es : List (Sigma fun _ : K => Value K T)) : List Nat :=
  es.filterMap fun e => e.2.loadedMarkerIndex

omit [DecidableEq K] in
theorem mem_positions {es : List (Sigma fun _ : K => Value K T)} {i : Nat} :
    i ∈ positions es ↔ ∃ e ∈ es, e.2.loadedMarkerIndex = some i := List.mem_filterMap

/-- The items `save` leaves: the values behind the old items, less the positions the
values had recorded. -/
def appended (items : List (BlockItem K T)) (es : List (Sigma fun _ : K => Value K T)) :
    List (BlockItem K T) :=
  dropIndices (positions es) 0 (items ++ es.map fun e => e.2.item)

/-- Where the values designate the old positions of their keys, these are the ones dropped. -/
theorem Indexed.appended {items : List (BlockItem K T)} {values : UMap K (Value K T)}
    {es : List (Sigma fun _ : K => Value K T)} (hv : Indexed items values)
    (hes : es.Perm values.entries) :
    SystemUtility.appended items es = replaced items values es := by
  have her : ∀ i, i ∈ positions es ↔
      ∃ k v, values.lookup k = some v ∧ v.loadedMarkerIndex = some i := by
    intro i
    simp only [mem_positions, hes.mem_iff]
    exact UMap.exists_entry values fun _ v => v.loadedMarkerIndex = some i
  -- the positions to drop are positions of old entries
  have hkeep : SystemUtility.dropIndices (positions es) (0 + items.length)
      (es.map fun e => e.2.item) = es.map fun e => e.2.item := by
    rw [dropIndices_eq_filter (p := fun _ => true), List.filter_true]
    intro j x _
    simp only [Bool.true_eq_false, iff_false, her, not_exists, not_and]
    intro k v hk hi
    have := hv.lt hk hi
    omega
  unfold SystemUtility.appended
  rw [dropIndices_append, hv.dropIndices her, hkeep, replaced]

theorem replaced_nodup {items : List (BlockItem K T)} {values : UMap K (Value K T)}
    {es : List (Sigma fun _ : K => Value K T)} (hn : (items.map BlockItem.key).Nodup)
    (hv : Indexed items values) (hes : es.Perm values.entries) :
    ((replaced items values es).map BlockItem.key).Nodup := by
  have hkeys : (es.map fun e => e.2.item.key) = es.map Sigma.fst :=
    List.map_congr_left fun e he => hv.key _ _ (UMap.mem_entries.mp (hes.mem_iff.mp he))
  rw [replaced, List.map_append, List.map_map, List.nodup_append]
  refine ⟨hn.sublist (List.filter_sublist.map _), ?_, ?_⟩
  · show (es.map fun e => e.2.item.key).Nodup
    rw [hkeys]
    exact (hes.map Sigma.fst).nodup_iff.mpr values.nodupKeys
  · intro a ha c hc he
    have hc' : c ∈ es.map fun e => e.2.item.key := hc
    rw [hkeys, ← he] at hc'
    obtain ⟨e, hmem, rfl⟩ := List.mem_map.mp hc'
    exact ((mem_keys_filter items (· ∈ values) e.1).mp ha).2
      (UMap.mem_iff.mpr ⟨e.2, UMap.mem_entries.mp (hes.mem_iff.mp hmem)⟩)

theorem writeBulk_spec {path : String} {items : List (BlockItem K T)} {w : World}
    {ms : List Marker} {values : UMap K (Value K T)} {es : List (Sigma fun _ : K => Value K T)}
    (h : Rows P ((w.disk path).tr.getD []) ms items) (hk : ∀ e ∈ es, e.2.item.key = e.1)
    (hw : Written P es) (hes : es ≠ []) (hne : appended items es ≠ []) :
    Ends (blockFrame path) (writeBulk path (es.foldl (appendValue fmt)
      ⟨ms, none, [], [], values⟩)) w (fun ms' w' =>
        (w'.disk path).mTr = some ⟨ms', 0⟩ ∧ ms' ≠ [] ∧
          Rows P ((w'.disk path).tr.getD []) ms' (appended items es)) := by
  obtain ⟨values', er, heq, her⟩ := foldl_appendValue fmt es ⟨ms, none, [], [], values⟩
  rw [heq, if_neg hes]
  simp only [List.nil_append, Option.getD_none]
  unfold writeBulk
  refine (ends_call ⟨rfl, rfl⟩).bind fun _ w0 _ h0 => ?_
  refine (ends_sizeTr (by rw [h0])).bind fun _ w1 _ h1 => ?_
  simp only
  refine ends_callId.bind fun _ w1' _ h1' => ?_
  refine (ends_call ⟨rfl, rfl⟩).bind fun _ w2 _ h2 => ?_
  refine ends_callId.bind fun _ w3 _ h3 => ?_
  rw [h2, h1', h1.2, h0] at h3
  simp only [Option.map_some] at h3
  have her' : ∀ i, i ∈ er ↔ i ∈ positions es := fun i => by
    rw [her, mem_positions]
    simp
  have hrows := (appended_rows h hk hw).dropIndices er
  rw [dropIndices_congr her' 0 (items ++ es.map fun e => e.2.item)] at hrows
  have hmne : dropIndices er 0 (ms ++ placed fmt (lastEnd 0 ms) es) ≠ [] := by
    intro h0
    have hlen := hrows.length_eq
    rw [h0] at hlen
    exact hne (List.length_eq_zero_iff.mp hlen.symm)
  refine (compact_spec hrows.spaced hrows.inside (by rw [h3]) hmne).bind fun ms' w4 _ h4 => ?_
  obtain ⟨b', hrw, hlen, hsp, hmoved⟩ := h4
  have hrows' := hrows.moved hmoved hsp (by omega)
  have hne' : ms' ≠ [] := by
    intro h0
    have hlen := hrows'.length_eq
    rw [h0, ← hrows.length_eq] at hlen
    exact hmne (List.length_eq_zero_iff.mp hlen.symm)
  refine saveMarkers_spec.bind fun _ w5 _ h5 => ends_pure ?_
  rw [if_neg hne'] at h5
  rw [h5]
  refine ⟨rfl, hne', ?_⟩
  simp only [hrw.tr, Option.getD_some]
  exact hrows'

/-- Where no entry is left, there are no pending contents. -/
def Files.Tidy (f : Files) : Prop := entriesOf f.mTr = [] → f.tr = none

/-- `save` of a loader something was put into appends its values to the pending files of the
block, drops what their recorded positions designate there, and records the new ones. -/
theorem save_appends {path : String} {items : List (BlockItem K T)} {w : World} (ord : IterOrder)
    {self : BlockFileLoader K T} (hpath : self.mainPath = path) (hmod : self.modified = true)
    (h : (w.disk path).Holds P self.ptransaction.isSome items)
    (hms : self.markers = entriesOf ((w.disk path).markers self.ptransaction.isSome))
    (hk : ∀ k v, self.values.lookup k = some v → v.item.key = k)
    (hne : self.values.entries ≠ []) (hw : Written P self.values.entries)
    (hn : ((appended items (ord.order self.values.entries)).map BlockItem.key).Nodup)
    (hleft : appended items (ord.order self.values.entries) ≠ []) :
    Ends (blockFrame path) (self.save fmt ord) w (fun self' w' =>
      self' = { self with
        modified := false,
        ptransaction := some self.openTransaction,
        markers := entriesOf (w'.disk path).mTr,
        values := ((ord.order self.values.entries).foldl (appendValue fmt)
          ⟨self.markers, none, [], [], self.values⟩).values } ∧
      (w'.disk path).Holds P true (appended items (ord.order self.values.entries)) ∧
      (w'.disk path).Tidy) := by
  have hperm := ord.perm self.values.entries
  have hes : ord.order self.values.entries ≠ [] := fun hnil =>
    hne (hnil ▸ hperm).nil_eq.symm
  have hkey : ∀ e ∈ ord.order self.values.entries, e.2.item.key = e.1 := fun e he =>
    hk e.1 e.2 (UMap.mem_entries.mp (ord.mem.mp he))
  unfold BlockFileLoader.save
  rw [if_pos hmod, hpath, hms]
  refine (ends_get (Q := fun a t => a = w ∧ t = w) ⟨rfl, rfl⟩).bind fun a t _ ht => ?_
  obtain ⟨rfl, rfl⟩ := ht
  have hpend : self.ptransaction.isNone = !self.ptransaction.isSome := by
    cases self.ptransaction <;> rfl
  rw [hpend]
  refine (copyToTr_spec h).bind fun _ w1 _ h1 => ?_
  refine Ends.bind (Ends.onFailure (writeBulk_spec h1.toRows hkey
    (fun e he => hw e (ord.mem.mp he)) hes hleft) fun t _ => removeTrGuard_spec)
    fun ms' w2 _ h2 => ends_pure ?_
  obtain ⟨hm, hne', hrows⟩ := h2
  refine ⟨by simp [hm, entriesOf], ⟨by simp [Files.markers, hm], ?_⟩, fun hnil => ?_⟩
  · simpa [Files.markers, Files.contents, hm, entriesOf] using
      ({ toRows := hrows, nodup := hn } : Stores P _ ms' _)
  · rw [hm] at hnil
    exact absurd hnil hne'

/-- `save` of a loader something was put into leaves the pending files of the block
with the replaced items. -/
theorem save_spec {path : String} {items : List (BlockItem K T)} {w : World} (ord : IterOrder)
    {self : BlockFileLoader K T} (hpath : self.mainPath = path) (hmod : self.modified = true)
    (h : (w.disk path).Holds P self.ptransaction.isSome items)
    (hms : self.markers = entriesOf ((w.disk path).markers self.ptransaction.isSome))
    (hv : Indexed items self.values) (hne : self.values.entries ≠ [])
    (hw : Written P self.values.entries) :
    Ends (blockFrame path) (self.save fmt ord) w (fun self' w' =>
      self'.ptransaction = some self.openTransaction ∧
      (w'.disk path).Holds P true
        (replaced items self.values (ord.order self.values.entries)) ∧ (w'.disk path).Tidy) := by
  have hperm := ord.perm self.values.entries
  have hreplaced := hv.appended hperm
  have hleft : replaced items self.values (ord.order self.values.entries) ≠ [] := by
    intro hnil
    have hes := List.map_eq_nil_iff.mp (List.append_eq_nil_iff.mp hnil).2
    exact hne (hes ▸ hperm).nil_eq.symm
  have hspec := save_appends ord hpath hmod h hms hv.key hne hw
    (by rw [hreplaced]; exact replaced_nodup h.stores.nodup hv hperm) (by rwa [hreplaced])
  rw [hreplaced] at hspec
  refine hspec.mono fun self' w' _ h' => ?_
  obtain ⟨rfl, hholds, htidy⟩ := h'
  exact ⟨rfl, hholds, htidy⟩

theorem save_unmodified {self : BlockFileLoader K T} (ord : IterOrder) {path : String} {w : World}
    (hmod : self.modified = false) :
    Ends (blockFrame path) (self.save fmt ord) w (fun self' w' => self' = self ∧ w' = w) := by
  unfold BlockFileLoader.save
  rw [if_neg (by simp [hmod])]
  exact ends_pure ⟨rfl, rfl⟩

/-! ## `erase` -/

omit [DecidableEq K] in
/-- The part of `erase` behind the copy: the marked rows are kept, and where no row
is left both pending files go. -/
theorem rewrite_spec {path : String} {ms : List Marker} {items : List (BlockItem K T)} {w : World}
    (hn : (items.map BlockItem.key).Nodup)
    (h : ms ≠ [] → Rows P ((w.disk path).tr.getD []) ms items)
    (hsome : ms ≠ [] → (w.disk path).tr.isSome) (hnil : ms = [] → items = []) :
    Ends (blockFrame path) (do
        let markers ← compact path ms
        saveMarkers path markers
        pure markers) w
      (fun _ w' => (w'.disk path).Holds P true items ∧ (w'.disk path).Tidy) := by
  by_cases hms : ms = []
  · subst hms
    refine compact_nil_spec.bind fun ms' w1 _ h1 => ?_
    obtain ⟨rfl, h1⟩ := h1
    refine saveMarkers_spec.bind fun _ w2 _ h2 => ends_pure ?_
    rw [h2, h1, hnil rfl]
    exact ⟨Holds.absent, fun _ => rfl⟩
  · obtain ⟨b, hb⟩ := Option.isSome_iff_exists.mp (hsome hms)
    have hrows := h hms
    rw [hb, Option.getD_some] at hrows
    refine (compact_spec hrows.spaced hrows.inside hb hms).bind fun ms' w1 _ h1 => ?_
    obtain ⟨b', hrw, hlen, hsp, hmoved⟩ := h1
    have hrows' := hrows.moved hmoved hsp (by omega)
    refine saveMarkers_spec.bind fun _ w2 _ h2 => ends_pure ?_
    have hne' : ms' ≠ [] := by
      intro h0
      have hlen := hrows'.length_eq
      rw [h0, ← hrows.length_eq] at hlen
      exact hms (List.length_eq_zero_iff.mp hlen.symm)
    rw [if_neg hne'] at h2
    rw [h2]
    refine ⟨⟨by simp [Files.markers], { toRows := ?_, nodup := hn }⟩, fun h0 => absurd h0 hne'⟩
    simpa [Files.contents, Files.markers, entriesOf, hrw.tr] using hrows'

omit [DecidableEq K] in
/-- Where entries are left, the pending contents are those that were loaded: without a file
there are none. -/
theorem copyToTr_left {path what : String} {ptransaction : Option BlockTransaction}
    {ms : List Marker} {items : List (BlockItem K T)} {w : World}
    (h : Rows P (((w.disk path).contents ptransaction.isSome).getD []) ms items) :
    Ends (blockFrame path) (copyToTr path what (ptransaction.isNone &&
      (w.disk path).main.isSome && !ms.isEmpty)) w (fun _ w' => ms ≠ [] →
        (w'.disk path).tr = (w.disk path).contents ptransaction.isSome) := by
  unfold copyToTr
  cases ptransaction with
  | some x => exact ends_pure fun _ => rfl
  | none =>
    split
    · exact (ends_call ⟨rfl, rfl⟩).mono fun _ w' _ hw _ => by rw [hw]; rfl
    · next hno =>
      refine ends_pure fun hne => ?_
      have hmain : (w.disk path).main = none := by simpa [hne] using hno
      simp only [Files.contents, Option.isSome_none, Bool.false_eq_true, if_false, hmain,
        Option.getD_none] at h
      exact absurd h.markers_nil.1 hne

/-- `erase` leaves the pending files of the block without the items under the keys
of its values; with `purpose_clear_all` without any item. -/
theorem erase_spec {path : String} {items : List (BlockItem K T)} {w : World}
    {self : BlockFileLoader K T} (hpath : self.mainPath = path)
    (h : (w.disk path).Holds P self.ptransaction.isSome items)
    (hms : self.markers = entriesOf ((w.disk path).markers self.ptransaction.isSome))
    (hv : self.purposeClearAll = false → Indexed items self.values) :
    Ends (blockFrame path) self.erase w (fun self' w' =>
      self'.ptransaction = some self.openTransaction ∧
      (w'.disk path).Holds P true (if self.purposeClearAll then []
        else items.filter fun it => it.key ∉ self.values) ∧ (w'.disk path).Tidy) := by
  have hs := h.stores
  rw [← hms] at hs
  have herase : ∀ i, i ∈ (self.values.entries.filterMap fun e => e.2.loadedMarkerIndex) ↔
      ∃ k v, self.values.lookup k = some v ∧ v.loadedMarkerIndex = some i := by
    intro i
    rw [List.mem_filterMap]
    exact UMap.exists_entry self.values fun _ v => v.loadedMarkerIndex = some i
  -- the entries that are left and the items they cut out of the loaded contents
  obtain ⟨ms', hms', items', hitems', hrows⟩ : ∃ ms', ms' = (if self.purposeClearAll then [] else
        dropIndices (self.values.entries.filterMap fun e => e.2.loadedMarkerIndex) 0
          self.markers) ∧
      ∃ items', items' = (if self.purposeClearAll then []
        else items.filter fun it => it.key ∉ self.values) ∧
      Rows P (((w.disk path).contents self.ptransaction.isSome).getD []) ms' items' := by
    refine ⟨_, rfl, _, rfl, ?_⟩
    cases hclear : self.purposeClearAll with
    | true => exact Rows.nil _
    | false =>
      have := hs.toRows.dropIndices
        (self.values.entries.filterMap fun e => e.2.loadedMarkerIndex)
      rwa [(hv hclear).dropIndices herase] at this
  have hn' : (items'.map BlockItem.key).Nodup := by
    rw [hitems']
    split
    · exact List.nodup_nil
    · exact hs.nodup.sublist (List.filter_sublist.map _)
  have hnil : ms' = [] → items' = [] := fun h0 => by
    have := hrows.length_eq
    rw [h0] at this
    exact List.length_eq_zero_iff.mp this.symm
  unfold BlockFileLoader.erase
  simp only [hpath]
  refine (ends_get (Q := fun a t => a = w ∧ t = w) ⟨rfl, rfl⟩).bind fun a t _ ht => ?_
  obtain ⟨rfl, rfl⟩ := ht
  rw [← hms', ← hitems']
  refine (copyToTr_left hrows).bind fun _ w1 _ h1 => ?_
  refine Ends.bind (Ends.onFailure (rewrite_spec hn' ?_ ?_ hnil) ?_)
    fun _ w2 _ h2 => ends_pure ⟨rfl, h2⟩
  · exact fun hne => by rw [h1 hne]; exact hrows
  · intro hne
    rw [h1 hne]
    cases hc : (t.disk path).contents self.ptransaction.isSome with
    | some b => rfl
    | none =>
      rw [hc] at hrows
      exact absurd hrows.markers_nil.1 hne
  · exact fun _ _ => removeTrGuard_spec

end MeshPP.SystemUtility
