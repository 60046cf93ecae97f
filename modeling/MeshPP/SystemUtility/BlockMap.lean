import MeshPP.SystemUtility.SavedBlocks

/-! # A block file as a finite map

A loader that is constructed on some keys, has items put under them and is
saved and committed changes the rows of these keys alone, and leaves a pair of
files that the constructor takes again. The same goes for one that is erased. -/

namespace MeshPP.SystemUtility
open MeshPP.Lib

variable {K T : Type}

/-! ## The rows of a block -/

/-- The rows that the markers cut out of the contents. -/
def Files.rows (f : Files) (pending : Bool) : List Bytes :=
  (entriesOf (f.markers pending)).map fun m => slice ((f.contents pending).getD []) m.start m.end_

/-- What the constructor checks, and what it relies on. -/
structure Files.WellFormed (fmt : BlockFormat K T) (f : Files) : Prop where
  stray : ∀ m ∈ f.m, m.stray = 0
  spaced : Spaced 0 (entriesOf f.m)
  inside : lastEnd 0 (entriesOf f.m) ≤ (f.main.getD []).length
  keyed : ∀ m ∈ entriesOf f.m, ∃ it,
    fmt.fromString (slice (f.main.getD []) m.start m.end_) = some it ∧
    m.key = fmt.keyToUint64 it.key
  once : ((f.rows false).filterMap fun row => (fmt.fromString row).map BlockItem.key).Nodup

variable [DecidableEq K]

/-- The committed row of the item under `k`. -/
def Files.rowOf (fmt : BlockFormat K T) (f : Files) (k : K) : Option Bytes :=
  (f.rows false).find? fun row => (fmt.fromString row).any fun it => it.key = k

def Files.itemOf (fmt : BlockFormat K T) (f : Files) (k : K) : Option (BlockItem K T) :=
  (f.rowOf fmt k).bind fmt.fromString

/-! ## The update -/

def BlockFileLoader.commit (self : BlockFileLoader K T) : FileM (BlockFileLoader K T) := do
  modify fun w => { w with disk := self.ptransaction.elim w.disk fun t => t.commit w.disk }
  pure { self with ptransaction := none }

omit [DecidableEq K] in
theorem commit_run {path : String} (temp : BlockFileLoader K T)
    (h : temp.ptransaction = some ⟨path, false⟩) (d : Disk) : temp.commit ⟨d, []⟩ =
      .ok { temp with ptransaction := none }
        ⟨Function.update d path ((d path).after commitCalls), []⟩ := by
  show EStateM.Result.ok _ (World.mk (temp.ptransaction.elim d fun t => t.commit d) []) = _
  rw [h]
  rfl

/-- A loader is constructed on the keys, and given the items and saved, or erased. -/
def prepare (fmt : BlockFormat K T) (ord : IterOrder) (packetOf : K → Option T) (i : Op)
    (purposeClear : Bool) (path : String) (keys : List K) : FileM (BlockFileLoader K T) := do
  let temp ← BlockFileLoader.construct fmt path keys none purposeClear
  match i with
  | .erase => temp.erase
  | .modify =>
    let temp ← keys.foldlM (fun temp key => temp.setItem key (packetOf key)) temp
    temp.save fmt ord

def update (fmt : BlockFormat K T) (ord : IterOrder) (packetOf : K → Option T) (i : Op)
    (purposeClear : Bool) (path : String) (keys : List K) : FileM (BlockFileLoader K T) := do
  let temp ← prepare fmt ord packetOf i purposeClear path keys
  temp.commit

/-! ## Rows and items -/

section
variable {fmt : BlockFormat K T} {P : RowSpec fmt} {rows : List Bytes}
  {items : List (BlockItem K T)}

omit [DecidableEq K] in
theorem filterMap_key (h : List.Forall₂ (fun row it => P.admits it row) rows items) :
    (rows.filterMap fun row => (fmt.fromString row).map BlockItem.key) =
      items.map BlockItem.key := by
  induction h with
  | nil => rfl
  | @cons row it _ _ hrow _ ih =>
    have hread : fmt.fromString row = some it := P.reads it row hrow
    rw [List.filterMap_cons, hread, Option.map_some, ih]
    rfl

/-- The first row with the key of an item is the one of the item. -/
theorem find?_zip (h : List.Forall₂ (fun row it => P.admits it row) rows items)
    (hn : (items.map BlockItem.key).Nodup) {row : Bytes} {it : BlockItem K T}
    (hm : (row, it) ∈ rows.zip items) :
    (rows.find? fun row => (fmt.fromString row).any fun other => other.key = it.key) =
      some row := by
  induction h with
  | nil => cases hm
  | @cons row0 it0 _ _ hrow _ ih =>
    have hread : fmt.fromString row0 = some it0 := P.reads it0 row0 hrow
    rw [List.map_cons, List.nodup_cons] at hn
    rw [List.zip_cons_cons, List.mem_cons] at hm
    rcases hm with heq | hm
    · cases heq
      rw [List.find?_cons_of_pos (by simp [hread])]
    · have hne : it0.key ≠ it.key := fun he =>
        hn.1 (he ▸ List.mem_map_of_mem (List.of_mem_zip hm).2)
      rw [List.find?_cons_of_neg (by simp [hread, hne]), ih hn.2 hm]

theorem find?_none (h : List.Forall₂ (fun row it => P.admits it row) rows items) {k : K}
    (hk : k ∉ items.map BlockItem.key) :
    (rows.find? fun row => (fmt.fromString row).any fun other => other.key = k) = none := by
  rw [← filterMap_key h, List.mem_filterMap] at hk
  rw [List.find?_eq_none]
  intro row hrow hany
  cases hread : fmt.fromString row with
  | none =>
    rw [hread] at hany
    cases hany
  | some it =>
    rw [hread, Option.any_some] at hany
    exact hk ⟨row, hrow, by rw [hread, Option.map_some, of_decide_eq_true hany]⟩

end

section
variable {fmt : BlockFormat K T} {P : RowSpec fmt} {f : Files} {items : List (BlockItem K T)}

omit [DecidableEq K] in
theorem Files.Holds.rows {pending : Bool} (h : f.Holds P pending items) :
    List.Forall₂ (fun row it => P.admits it row) (f.rows pending) items :=
  List.forall₂_map_left_iff.mpr (h.stores.rows.imp fun _ _ hrow => hrow.1)

theorem Files.Holds.rowOf (h : f.Holds P false items) {it : BlockItem K T} (hm : it ∈ items) :
    ∃ row, f.rowOf fmt it.key = some row ∧ P.admits it row := by
  obtain ⟨j, hj, rfl⟩ := List.getElem_of_mem hm
  have hlen : j < (f.rows false).length := h.rows.length_eq.symm ▸ hj
  have hzip : ((f.rows false)[j], items[j]) ∈ (f.rows false).zip items :=
    List.mem_iff_getElem.mpr ⟨j, by rw [List.length_zip]; omega, List.getElem_zip⟩
  exact ⟨_, find?_zip h.rows h.stores.nodup hzip, (List.forall₂_iff_zip.mp h.rows).2 hzip⟩

theorem Files.Holds.rowOf_none (h : f.Holds P false items) {k : K}
    (hk : k ∉ items.map BlockItem.key) : f.rowOf fmt k = none := find?_none h.rows hk

omit [DecidableEq K] in
theorem Files.Holds.wellFormed (h : f.Holds P false items) : f.WellFormed fmt where
  stray := h.stray
  spaced := h.stores.spaced
  inside := h.stores.inside
  keyed m hm := by
    obtain ⟨j, hj, rfl⟩ := List.getElem_of_mem hm
    have hrow := (List.forall₂_iff_get.mp h.stores.rows).2 j hj (h.stores.rows.length_eq ▸ hj)
    exact ⟨_, P.reads _ _ hrow.1, hrow.2⟩
  once := filterMap_key h.rows ▸ h.stores.nodup

omit [DecidableEq K] in
theorem exists_rows {b : Bytes} {ms : List Marker}
    (h : ∀ m ∈ ms, ∃ it, fmt.fromString (slice b m.start m.end_) = some it ∧
      m.key = fmt.keyToUint64 it.key) :
    ∃ items, List.Forall₂ (Row fmt.anyRow b) ms items := by
  induction ms with
  | nil => exact ⟨[], .nil⟩
  | cons m ms ih =>
    obtain ⟨it, hrow⟩ := h m List.mem_cons_self
    obtain ⟨items, hrows⟩ := ih fun m hm => h m (List.mem_cons_of_mem _ hm)
    exact ⟨it :: items, .cons hrow hrows⟩

omit [DecidableEq K] in
theorem Files.WellFormed.holds (h : f.WellFormed fmt) :
    ∃ items, f.Holds fmt.anyRow false items := by
  obtain ⟨items, hrows⟩ := exists_rows h.keyed
  have hread : List.Forall₂ (fun row it => fmt.anyRow.admits it row) (f.rows false) items :=
    List.forall₂_map_left_iff.mpr (hrows.imp fun _ _ hrow => hrow.1)
  have hnodup : (items.map BlockItem.key).Nodup := filterMap_key hread ▸ h.once
  exact ⟨items, h.stray, { toRows := ⟨h.spaced, h.inside, hrows⟩, nodup := hnodup }⟩

/-- The row of an item that is not under one of the keys is the one that `f` has for it. -/
def kept (fmt : BlockFormat K T) (f : Files) (keys : List K) : RowSpec fmt where
  admits it row := fmt.Reads it row ∧ (it.key ∉ keys → f.rowOf fmt it.key = some row)
  reads _ _ h := h.1

theorem Files.Holds.kept (h : f.Holds P false items) (keys : List K) :
    f.Holds (kept fmt f keys) false items where
  stray := h.stray
  stores := by
    refine { toRows := ⟨h.stores.spaced, h.stores.inside, ?_⟩, nodup := h.stores.nodup }
    refine List.forall₂_iff_zip.mpr ⟨h.stores.rows.length_eq, fun {m it} hm => ?_⟩
    have hrow := (List.forall₂_iff_zip.mp h.stores.rows).2 hm
    have hzip : (slice (f.main.getD []) m.start m.end_, it) ∈ (f.rows false).zip items := by
      unfold Files.rows
      rw [List.zip_map_left]
      exact List.mem_map_of_mem hm
    exact ⟨⟨P.reads _ _ hrow.1, fun _ => find?_zip h.rows h.stores.nodup hzip⟩, hrow.2⟩

/-- Where the rows of both are as `kept` asks, the rows under other keys are the same. -/
theorem Files.Holds.same_rows {f' : Files} {keys : List K} {items' : List (BlockItem K T)}
    (h : f.Holds (SystemUtility.kept fmt f keys) false items)
    (h' : f'.Holds (SystemUtility.kept fmt f keys) false items')
    (hsame : ∀ k ∉ keys, k ∈ items'.map BlockItem.key ↔ k ∈ items.map BlockItem.key) {k : K}
    (hk : k ∉ keys) : f'.rowOf fmt k = f.rowOf fmt k := by
  by_cases hm : k ∈ items'.map BlockItem.key
  · obtain ⟨it, hit, rfl⟩ := List.mem_map.mp hm
    obtain ⟨row, hrow, -, hold⟩ := h'.rowOf hit
    rw [hrow, hold hk]
  · rw [h'.rowOf_none hm, h.rowOf_none fun hold => hm ((hsame k hk).mpr hold)]

theorem Files.Holds.itemOf (h : f.Holds P false items) {it : BlockItem K T} (hm : it ∈ items) :
    f.itemOf fmt it.key = some it := by
  obtain ⟨row, hrow, hadmits⟩ := h.rowOf hm
  unfold Files.itemOf
  rw [hrow]
  exact P.reads it row hadmits

theorem Files.Holds.itemOf_none (h : f.Holds P false items) {k : K}
    (hk : k ∉ items.map BlockItem.key) : f.itemOf fmt k = none := by
  unfold Files.itemOf
  rw [h.rowOf_none hk]
  rfl

theorem Files.Holds.isSome_itemOf (h : f.Holds P false items) (k : K) :
    (f.itemOf fmt k).isSome ↔ k ∈ items.map BlockItem.key := by
  constructor
  · intro hs
    by_contra hm
    rw [h.itemOf_none hm] at hs
    cases hs
  · intro hm
    obtain ⟨it, hit, rfl⟩ := List.mem_map.mp hm
    rw [h.itemOf hit]
    rfl

end

/-! ## Opening the block again -/

/-- What a loader that is constructed on the keys shows of the block. -/
structure Reopened (fmt : BlockFormat K T) (f : Files) (keys : List K)
    (loader : BlockFileLoader K T) : Prop where
  item : ∀ k it, (keys = [] ∨ k ∈ keys) → f.itemOf fmt k = some it →
    (loader.values.lookup k).map Value.item = some it
  loaded : ∀ k, k ∈ loader.loaded ↔ (keys = [] ∨ k ∈ keys) ∧ (f.itemOf fmt k).isSome

section
variable {fmt : BlockFormat K T} {P : RowSpec fmt}

theorem LoadedValues.mem_loaded {items : List (BlockItem K T)} {keys : List K}
    {self : BlockFileLoader K T} (h : LoadedValues items keys self.values) (k : K) :
    k ∈ self.loaded ↔ (keys = [] ∨ k ∈ keys) ∧ k ∈ items.map BlockItem.key := by
  unfold BlockFileLoader.loaded
  rw [List.mem_map]
  constructor
  · intro ⟨e, he, hk⟩
    obtain ⟨he, hs⟩ := List.mem_filter.mp he
    obtain rfl := hk
    rcases (h e.1 e.2).mp (UMap.mem_entries.mp he) with ⟨hk, j, it, hj, hkey, -⟩ | ⟨-, -, hv⟩
    · exact ⟨hk, hkey ▸ List.mem_map_of_mem (List.mem_of_getElem? hj)⟩
    · rw [hv] at hs
      cases hs
  · intro ⟨hk, hm⟩
    obtain ⟨it, hit, rfl⟩ := List.mem_map.mp hm
    obtain ⟨j, hj⟩ := List.getElem?_of_mem hit
    have hlookup := (h it.key ⟨it, some j⟩).mpr (.inl ⟨hk, j, it, hj, rfl, rfl⟩)
    exact ⟨⟨it.key, ⟨it, some j⟩⟩, List.mem_filter.mpr ⟨UMap.mem_entries.mpr hlookup, rfl⟩, rfl⟩

theorem Files.Holds.reopened {f : Files} {items : List (BlockItem K T)}
    (h : f.Holds P false items) {keys : List K} {self : BlockFileLoader K T}
    (hv : LoadedValues items keys self.values) : Reopened fmt f keys self where
  item k it hk hit := by
    have hm := (h.isSome_itemOf k).mp (by rw [hit]; rfl)
    obtain ⟨other, hother, rfl⟩ := List.mem_map.mp hm
    obtain rfl := Option.some.inj ((h.itemOf hother).symm.trans hit)
    obtain ⟨j, hj⟩ := List.getElem?_of_mem hother
    rw [(hv other.key ⟨other, some j⟩).mpr (.inl ⟨hk, j, other, hj, rfl, rfl⟩)]
    rfl
  loaded k := by rw [hv.mem_loaded, h.isSome_itemOf]

/-- A well-formed block is opened with any keys. -/
theorem Files.WellFormed.opens {d : Disk} {path : String} (h : (d path).WellFormed fmt)
    (keys : List K) :
    ∃ self, BlockFileLoader.construct fmt path keys none false ⟨d, []⟩ = .ok self ⟨d, []⟩ ∧
      Reopened fmt (d path) keys self := by
  obtain ⟨items, hh⟩ := h.holds
  obtain ⟨self, hrun, hc, -⟩ := returns_quiet (construct_committed (w := ⟨d, []⟩) hh)
  refine ⟨self, hrun, hh.reopened (hc.values ?_)⟩
  rw [hc.clear]
  rfl

/-! ## What an update leaves -/

/-- What `prepare` leaves in the pending files, where the committed ones held `items`. -/
structure Prepared (fmt : BlockFormat K T) (packetOf : K → Option T) (i : Op) (keys : List K)
    (f : Files) (items : List (BlockItem K T)) (f' : Files) (items' : List (BlockItem K T)) :
    Prop where
  holds : f'.Holds (SystemUtility.kept fmt f keys) true items'
  tidy : f'.Tidy
  same : ∀ k ∉ keys, k ∈ items'.map BlockItem.key ↔ k ∈ items.map BlockItem.key
  changed : ∀ k ∈ keys, match i with
    | .modify => ⟨k, packetOf k⟩ ∈ items'
    | .erase => k ∉ items'.map BlockItem.key

theorem erase_prepares {packetOf : K → Option T} {purposeClear : Bool} {path : String}
    {keys : List K} (hn : keys.Nodup) (hne : keys ≠ []) {f : Files} {items : List (BlockItem K T)}
    (hstored : purposeClear = true → ∀ k ∈ keys, k ∈ items.map BlockItem.key) {w : World}
    {temp : BlockFileLoader K T} {ms : List Marker}
    (hh : (w.disk path).Holds (kept fmt f keys) false items)
    (hc : Constructed path keys none purposeClear ms items temp)
    (hms : ms = entriesOf ((w.disk path).markers false)) :
    Ends (blockFrame path) temp.erase w fun temp' w' =>
      temp'.ptransaction = some ⟨path, false⟩ ∧
        ∃ items', Prepared fmt packetOf .erase keys f items (w'.disk path) items' := by
  rw [← Option.isSome_none (α := BlockTransaction), ← hc.ptransaction] at hh hms
  refine (erase_spec hc.mainPath hh (hc.markers.trans hms)
    fun hcl => (hc.values hcl).indexed hh.stores.nodup).mono fun temp' w' _ h => ?_
  obtain ⟨htaken, hpend, htidy⟩ := h
  have hopen : temp.openTransaction = ⟨path, false⟩ :=
    openTransaction_eq hc.mainPath (by simp [hc.ptransaction])
  suffices hkeys : ∀ items', items' = (if temp.purposeClearAll then []
        else items.filter fun it => it.key ∉ temp.values) →
      (∀ k ∉ keys, k ∈ items'.map BlockItem.key ↔ k ∈ items.map BlockItem.key) ∧
        ∀ k ∈ keys, k ∉ items'.map BlockItem.key from
    ⟨htaken.trans (congrArg some hopen), _, hpend, htidy, (hkeys _ rfl).1, (hkeys _ rfl).2⟩
  intro items' hitems'
  cases hcl : temp.purposeClearAll with
  | true =>
    have hclear := hc.clear
    rw [hcl] at hclear
    simp only [Bool.true_eq, Bool.and_eq_true, beq_iff_eq] at hclear
    have hperm : keys.Perm (items.map BlockItem.key) :=
      (hn.subperm (hstored hclear.1.1)).perm_of_length_le
        (by rw [List.length_map, hclear.1.2])
    rw [hcl, if_pos rfl] at hitems'
    obtain rfl := hitems'
    refine ⟨fun k hk => ?_, fun k _ => List.not_mem_nil⟩
    rw [← hperm.mem_iff, List.map_nil]
    exact ⟨fun hm => (nomatch hm), fun hm => absurd hm hk⟩
  | false =>
    have hmem : ∀ k, k ∈ temp.values ↔ k ∈ keys := fun k => by
      rw [(hc.values hcl).mem_iff]
      simp [hne]
    rw [hcl, if_neg Bool.false_ne_true] at hitems'
    obtain rfl := hitems'
    have hleft : ∀ k, k ∈ (items.filter fun it => it.key ∉ temp.values).map BlockItem.key ↔
        k ∈ items.map BlockItem.key ∧ k ∉ keys := fun k => by
      rw [← hmem]
      exact mem_keys_filter items (· ∈ temp.values) k
    exact ⟨fun k hk => (hleft k).trans (and_iff_left hk), fun k hk hm => ((hleft k).mp hm).2 hk⟩

theorem modify_prepares (ord : IterOrder) {packetOf : K → Option T} {path : String}
    {keys : List K} (hne : keys ≠ []) {f : Files} {items : List (BlockItem K T)}
    (hw : ∀ k ∈ keys, fmt.Writes ⟨k, packetOf k⟩) {w : World}
    {temp : BlockFileLoader K T} {ms : List Marker}
    (hh : (w.disk path).Holds (kept fmt f keys) false items)
    (hc : Constructed path keys none false ms items temp)
    (hms : ms = entriesOf ((w.disk path).markers false)) :
    Ends (blockFrame path) (do
        let temp ← keys.foldlM (fun temp key => temp.setItem key (packetOf key)) temp
        temp.save fmt ord) w fun temp' w' =>
      temp'.ptransaction = some ⟨path, false⟩ ∧
        ∃ items', Prepared fmt packetOf .modify keys f items (w'.disk path) items' := by
  have hcl : temp.purposeClearAll = false := hc.clear
  have hmem : ∀ k, k ∈ temp.values ↔ k ∈ keys := fun k => by
    rw [(hc.values hcl).mem_iff]
    simp [hne]
  refine (setItems_spec packetOf fun k hk => (hmem k).mpr hk).bind fun temp1 w1 _ h1 => ?_
  obtain ⟨hput, hmod, rfl⟩ := h1
  have hp : temp1.ptransaction = none := hput.ptransaction.trans hc.ptransaction
  have hind := hput.indexed ((hc.values hcl).indexed hh.stores.nodup)
  have hkeys : ∀ k, k ∈ temp1.values ↔ k ∈ keys := fun k => (hput.mem k).trans (hmem k)
  have hlookup : ∀ k v, temp1.values.lookup k = some v → k ∈ keys ∧ v.item = ⟨k, packetOf k⟩ := by
    intro k v hv
    have hk : k ∈ keys := (hkeys k).mp (UMap.mem_iff.mpr ⟨v, hv⟩)
    have hkey := hind.key k v hv
    obtain ⟨v0, -, rfl⟩ := hput.lookup k v hv
    refine ⟨hk, ?_⟩
    dsimp only at hkey ⊢
    rw [hkey, if_pos hk]
  have hentry : ∀ k ∈ keys, ∃ v, (⟨k, v⟩ : Sigma fun _ => Value K T) ∈ temp1.values.entries :=
    fun k hk => (UMap.mem_iff.mp ((hkeys k).mpr hk)).imp fun _ hv => UMap.mem_entries.mpr hv
  have hentries : temp1.values.entries ≠ [] := UMap.entries_ne_nil hne hkeys
  have hwritten : Written (kept fmt f keys) temp1.values.entries := by
    intro e he
    obtain ⟨hk, hitem⟩ := hlookup e.1 e.2 (UMap.mem_entries.mp he)
    rw [hitem]
    exact ⟨(hw e.1 hk).toString_ne_nil, (hw e.1 hk).fromString_toString, fun hno => absurd hk hno⟩
  rw [← Option.isSome_none (α := BlockTransaction), ← hp] at hh hms
  refine (save_spec ord (hput.mainPath.trans hc.mainPath) (hmod hne) hh
    (hput.markers.trans (hc.markers.trans hms)) hind hentries hwritten).mono fun temp' w' _ h => ?_
  obtain ⟨htaken, hpend, htidy⟩ := h
  have hopen : temp1.openTransaction = ⟨path, false⟩ :=
    openTransaction_eq (hput.mainPath.trans hc.mainPath) (by simp [hp])
  refine ⟨htaken.trans (congrArg some hopen), _, hpend, htidy, fun k hk => ?_, fun k hk => ?_⟩
  · have hnew : k ∉ ((ord.order temp1.values.entries).map fun e => e.2.item).map
        BlockItem.key := by
      intro hin
      obtain ⟨it, hit, rfl⟩ := List.mem_map.mp hin
      obtain ⟨e, he, rfl⟩ := List.mem_map.mp hit
      obtain ⟨hek, hitem⟩ := hlookup e.1 e.2 (UMap.mem_entries.mp (ord.mem.mp he))
      rw [hitem] at hk
      exact hk hek
    rw [replaced, List.map_append, List.mem_append, or_iff_left hnew]
    refine (mem_keys_filter items (· ∈ temp1.values) k).trans (and_iff_left ?_)
    rw [hkeys]
    exact hk
  · obtain ⟨v, hv⟩ := hentry k hk
    refine List.mem_append_right _ (List.mem_map.mpr ⟨⟨k, v⟩, ord.mem.mpr hv, ?_⟩)
    exact (hlookup k v (UMap.mem_entries.mp hv)).2

theorem prepare_spec (ord : IterOrder) {packetOf : K → Option T} {i : Op} {purposeClear : Bool}
    {path : String} {keys : List K} (hn : keys.Nodup) (hne : keys ≠ []) {w : World}
    {items : List (BlockItem K T)} (hh : (w.disk path).Holds fmt.anyRow false items)
    (hw : i = .modify → ∀ k ∈ keys, fmt.Writes ⟨k, packetOf k⟩)
    (hstored : purposeClear = true → i = .erase ∧ ∀ k ∈ keys, k ∈ items.map BlockItem.key) :
    Ends (blockFrame path) (prepare fmt ord packetOf i purposeClear path keys) w fun temp w' =>
      temp.ptransaction = some ⟨path, false⟩ ∧
        ∃ items', Prepared fmt packetOf i keys (w.disk path) items (w'.disk path) items' := by
  have hkept := hh.kept keys
  unfold prepare
  refine (ends_onBlock (construct_committed hh)).bind fun temp w1 _ h1 => ?_
  obtain ⟨hc, hdisk⟩ := h1
  have hsame : w1.disk path = w.disk path := by rw [hdisk]
  have hhold : (w1.disk path).Holds (kept fmt (w.disk path) keys) false items := by
    rw [hsame]
    exact hkept
  have hms : entriesOf ((w.disk path).markers false) =
      entriesOf ((w1.disk path).markers false) := by
    rw [hsame]
  cases i with
  | erase =>
    exact erase_prepares hn hne (fun hclear => (hstored hclear).2) hhold hc hms
  | modify =>
    have hclear : purposeClear = false :=
      Bool.eq_false_iff.mpr fun hclear => (nomatch (hstored hclear).1)
    subst hclear
    exact modify_prepares ord hne (hw rfl) hhold hc hms

/-- What an update makes of a block: the keys have their new items or none, and the other
rows are as they were. -/
structure Updated (fmt : BlockFormat K T) (packetOf : K → Option T) (i : Op) (keys : List K)
    (f f' : Files) : Prop where
  wellFormed : f'.WellFormed fmt
  kept : ∀ k ∉ keys, f'.rowOf fmt k = f.rowOf fmt k
  changed : ∀ k ∈ keys, f'.itemOf fmt k =
    match i with
    | .modify => some ⟨k, packetOf k⟩
    | .erase => none

theorem Prepared.updated {packetOf : K → Option T} {i : Op} {keys : List K} {f f' : Files}
    {items items' : List (BlockItem K T)} (hh : f.Holds fmt.anyRow false items)
    (h : Prepared fmt packetOf i keys f items f' items') :
    Updated fmt packetOf i keys f (f'.after commitCalls) := by
  have hholds : (f'.after commitCalls).Holds (SystemUtility.kept fmt f keys) false items' := by
    rw [after_commitCalls]
    exact h.holds
  refine ⟨hholds.wellFormed, fun k hk => (hh.kept keys).same_rows hholds h.same hk,
    fun k hk => ?_⟩
  have hchanged := h.changed k hk
  cases i with
  | modify => exact hholds.itemOf hchanged
  | erase => exact hholds.itemOf_none hchanged

end

/-- **A block file is a finite map.** An update of a well-formed block gives the keys their new
items or erases them, leaves the other rows as they are, and leaves a well-formed block, which
opens with any keys and shows its items. -/
theorem update_map {fmt : BlockFormat K T} (ord : IterOrder) {d : Disk} {path : String}
    (h : (d path).WellFormed fmt) {keys : List K} (hn : keys.Nodup) (hne : keys ≠ [])
    {packetOf : K → Option T} {i : Op}
    (hw : i = .modify → ∀ k ∈ keys, fmt.Writes ⟨k, packetOf k⟩) {purposeClear : Bool}
    (hclear : purposeClear = true → i = .erase ∧ ∀ k ∈ keys, ((d path).itemOf fmt k).isSome) :
    ∃ temp d', update fmt ord packetOf i purposeClear path keys ⟨d, []⟩ = .ok temp ⟨d', []⟩ ∧
      Updated fmt packetOf i keys (d path) (d' path) ∧ (∀ q, q ≠ path → d' q = d q) ∧
      ∀ again, ∃ self,
        BlockFileLoader.construct fmt path again none false ⟨d', []⟩ = .ok self ⟨d', []⟩ ∧
          Reopened fmt (d' path) again self := by
  obtain ⟨items, hh⟩ := h.holds
  have hspec := prepare_spec ord hn hne (w := ⟨d, []⟩) hh hw fun hc =>
    ⟨(hclear hc).1, fun k hk => (hh.isSome_itemOf k).mp ((hclear hc).2 k hk)⟩
  obtain ⟨temp, f1, hrun, -, htaken, items', hprepared⟩ := returns_block hspec
  dsimp only at hprepared
  rw [Function.update_self] at hprepared
  have hcommit := commit_run temp htaken (Function.update d path f1)
  rw [Function.update_self, Function.update_idem] at hcommit
  have hupdated := hprepared.updated hh
  refine ⟨_, _, (bind_run_ok hrun).trans hcommit, ?_, fun q hq => ?_, fun again => ?_⟩
  · rw [Function.update_self]
    exact hupdated
  · rw [Function.update_of_ne hq]
  · refine Files.WellFormed.opens ?_ again
    rw [Function.update_self]
    exact hupdated.wellFormed

namespace Pairs

/-- Items of one byte under keys of one byte, whose hash is the last bit. -/
def format : BlockFormat UInt8 UInt8 where
  toString it := it.key :: it.item.toList
  fromString row :=
    match row with
    | [key] => some ⟨key, none⟩
    | [key, value] => some ⟨key, some value⟩
    | _ => none
  keyToUint64 key := key.toUInt64 % 2

theorem format_writes (it : BlockItem UInt8 UInt8) : format.Writes it := by
  obtain ⟨key, item⟩ := it
  refine ⟨List.cons_ne_nil _ _, ?_⟩
  cases item <;> rfl

/-- A block with the keys 1 and 3, whose hashes collide. -/
def disk : Disk := fun _ =>
  ⟨some [1, 10, 3, 30], some ⟨[⟨0, 2, 1⟩, ⟨2, 4, 1⟩], ⟨0, Nat.succ_pos 23⟩⟩, none, none⟩

theorem disk_wellFormed : (disk "pairs").WellFormed format where
  stray m hm := by
    obtain rfl := Option.some.inj hm
    rfl
  spaced := ⟨by decide, by decide, by decide, by decide, trivial⟩
  inside := by decide
  keyed m hm := by
    rcases List.mem_cons.mp hm with rfl | hm
    · exact ⟨⟨1, some 10⟩, rfl, rfl⟩
    · obtain rfl := List.mem_singleton.mp hm
      exact ⟨⟨3, some 30⟩, rfl, rfl⟩
  once := by decide

end Pairs

theorem update_map_pairs : ∃ temp left,
    update Pairs.format .stored (fun key => some (key + 1)) .modify false "pairs" [3, 5]
        ⟨Pairs.disk, []⟩ = .ok temp ⟨left, []⟩ ∧
      Updated Pairs.format (fun key => some (key + 1)) .modify [3, 5] (Pairs.disk "pairs")
        (left "pairs") ∧
      (∀ q, q ≠ "pairs" → left q = Pairs.disk q) ∧
      ∀ again, ∃ self,
        BlockFileLoader.construct Pairs.format "pairs" again none false ⟨left, []⟩ =
            .ok self ⟨left, []⟩ ∧
          Reopened Pairs.format (left "pairs") again self :=
  update_map .stored Pairs.disk_wellFormed (by decide) (by decide)
    (fun _ _ _ => Pairs.format_writes _) fun hclear => (nomatch hclear)

end MeshPP.SystemUtility
