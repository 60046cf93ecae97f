import MeshPP.SystemUtility.BlockMap
import MeshPP.SystemUtility.MapRefinement
import MeshPP.SystemUtility.VectorRefinement

/-! # The bulk clear of a block

A loader that is constructed with `purpose_clear` reads no key where it is given as many keys
as the file has entries, and `erase` then drops the whole file. Where the keys are distinct
and stored in the file this is what the plain `erase` does (`eraseBlock_agrees`), and these
are the only key lists that the containers ever erase (`MapInv.erases`,
`VectorInv.erases`). -/

namespace MeshPP.SystemUtility
open MeshPP.Lib

variable {K T : Type} [DecidableEq K]

/-! ## Two loaders that erase the same -/

/-- A loader is constructed on the keys and erases them. -/
def eraseBlock (fmt : BlockFormat K T) (path : String) (keys : List K)
    (ptransaction : Option BlockTransaction) (purposeClear : Bool) :
    FileM (BlockFileLoader K T) := do
  let temp ← BlockFileLoader.construct fmt path keys ptransaction purposeClear
  temp.erase

namespace BlockFileLoader

/-- The entries that `erase` leaves. -/
def left (self : BlockFileLoader K T) : List Marker :=
  if self.purposeClearAll then [] else dropIndices (positions self.values.entries) 0 self.markers

/-- The calls of `erase` on the files, which depend on the entries left. -/
def eraseCalls (path : String) (ptransaction : Option BlockTransaction) (left : List Marker) :
    FileM (List Marker) := do
  let main := (((← MonadState.get).disk path).main)
  let copy := ptransaction.isNone && main.isSome && !left.isEmpty
  copyToTr path eraseCopy copy
  onFailure (removeTrGuard path copy) do
    let markers ← compact path left
    saveMarkers path markers
    pure markers

omit [DecidableEq K] in
theorem erase_eq (self : BlockFileLoader K T) : self.erase = (do
    let markers ← eraseCalls self.mainPath self.ptransaction self.left
    pure { self with markers, ptransaction := some self.openTransaction }) := by
  unfold erase eraseCalls
  simp only [bind_assoc]
  rfl

/-- `discard`. -/
def discard (self : BlockFileLoader K T) : FileM (BlockFileLoader K T) := do
  modify fun w => { w with disk := self.ptransaction.elim w.disk fun t => t.rollback w.disk }
  pure { self with ptransaction := none, modified := false }

end BlockFileLoader

omit [DecidableEq K] in
theorem discard_run {path : String} (temp : BlockFileLoader K T)
    (h : temp.ptransaction = some ⟨path, false⟩) (d : Disk) : temp.discard ⟨d, []⟩ =
      .ok { temp with ptransaction := none, modified := false }
        ⟨Function.update d path ((d path).after rollbackCalls), []⟩ := by
  show EStateM.Result.ok _ (World.mk (temp.ptransaction.elim d fun t => t.rollback d) []) = _
  rw [h]
  rfl

section
variable {fmt : BlockFormat K T} {P : RowSpec fmt} {path : String} {keys : List K}
  {ptransaction : Option BlockTransaction} {items : List (BlockItem K T)} {ms : List Marker}

/-- The positions of a keyed loader are those of the items under its keys. -/
theorem LoadedValues.mem_positions {values : UMap K (Value K T)}
    (h : LoadedValues items keys values) (hne : keys ≠ []) (i : Nat) :
    i ∈ positions values.entries ↔ ∃ it, items[i]? = some it ∧ it.key ∈ keys := by
  rw [SystemUtility.mem_positions]
  constructor
  · intro ⟨e, he, hi⟩
    rcases (h e.1 e.2).mp (UMap.mem_entries.mp he) with ⟨hk, j, it, hj, hkey, hv⟩ | ⟨-, -, hv⟩
    · rw [hv] at hi
      obtain rfl := Option.some.inj hi
      exact ⟨it, hj, hkey ▸ hk.resolve_left hne⟩
    · rw [hv] at hi
      cases hi
  · intro ⟨it, hi, hk⟩
    have hl := (h it.key ⟨it, some i⟩).mpr (.inl ⟨.inr hk, i, it, hi, rfl, rfl⟩)
    exact ⟨⟨it.key, ⟨it, some i⟩⟩, UMap.mem_entries.mpr hl, rfl⟩

/-- Whether the file is read or not, the same entries are left: where as many keys are given
as there are entries, and each is stored, none is. -/
theorem left_eq {purposeClear : Bool} {plain bulk : BlockFileLoader K T} (hn : keys.Nodup) (hne : keys ≠ [])
    (hstored : ∀ k ∈ keys, k ∈ items.map BlockItem.key) (hlen : ms.length = items.length)
    (hp : Constructed path keys ptransaction false ms items plain)
    (hb : Constructed path keys ptransaction purposeClear ms items bulk) : bulk.left = plain.left := by
  have hplain : plain.purposeClearAll = false := hp.clear
  have hpos := (hp.values hplain).mem_positions hne
  unfold BlockFileLoader.left
  rw [hplain, if_neg Bool.false_ne_true, hp.markers, hb.markers]
  cases hcl : bulk.purposeClearAll with
  | false =>
    rw [if_neg Bool.false_ne_true]
    exact dropIndices_congr (fun i => ((hb.values hcl).mem_positions hne i).trans (hpos i).symm) 0 ms
  | true =>
    have hclear := hb.clear
    rw [hcl] at hclear
    simp only [Bool.true_eq, Bool.and_eq_true, beq_iff_eq] at hclear
    have hperm : keys.Perm (items.map BlockItem.key) :=
      (hn.subperm hstored).perm_of_length_le (by rw [List.length_map, hclear.1.2])
    rw [if_pos rfl, dropIndices_eq_filter (p := fun _ => false), List.filter_false]
    intro j m hj
    rw [Nat.zero_add, hpos]
    have hlt : j < items.length := hlen ▸ (List.getElem?_eq_some_iff.mp hj).1
    refine ⟨fun _ => rfl, fun _ => ⟨items[j], List.getElem?_eq_getElem hlt, ?_⟩⟩
    exact hperm.mem_iff.mpr (List.mem_map_of_mem (List.getElem_mem hlt))

/-- Erasing the keys leaves the same files with and without the bulk clear, before and after
a commit or a rollback, and exactly the items under other keys. -/
structure EraseAgrees (P : RowSpec fmt) (path : String) (keys : List K)
    (ptransaction : Option BlockTransaction) (items : List (BlockItem K T)) (d : Disk)
    (f : Files) : Prop where
  runs : ∀ purposeClear, ∃ temp, eraseBlock fmt path keys ptransaction purposeClear ⟨d, []⟩ =
      .ok temp ⟨Function.update d path f, []⟩ ∧
    temp.commit ⟨Function.update d path f, []⟩ = .ok { temp with ptransaction := none }
      ⟨Function.update d path ⟨f.tr, f.mTr, none, none⟩, []⟩ ∧
    temp.discard ⟨Function.update d path f, []⟩ =
      .ok { temp with ptransaction := none, modified := false }
        ⟨Function.update d path ⟨(d path).main, (d path).m, none, none⟩, []⟩
  holds : f.Holds P true (items.filter fun it => it.key ∉ keys)
  committed : (d path).SameCommitted f

theorem eraseBlock_agrees {d : Disk} (h : (d path).Holds P ptransaction.isSome items)
    (ht : ∀ t ∈ ptransaction, t = ⟨path, false⟩) (hn : keys.Nodup) (hne : keys ≠ [])
    (hstored : ∀ k ∈ keys, k ∈ items.map BlockItem.key) :
    ∃ f, EraseAgrees P path keys ptransaction items d f := by
  have hw : ((World.mk d []).disk path).Holds P ptransaction.isSome items := h
  have hload : ∀ clear, ∃ temp,
      BlockFileLoader.construct fmt path keys ptransaction clear ⟨d, []⟩ = .ok temp ⟨d, []⟩ ∧
        Constructed path keys ptransaction clear
          (entriesOf ((d path).markers ptransaction.isSome)) items temp := fun clear => by
    obtain ⟨temp, hrun, hc, -⟩ := returns_quiet (construct_spec hw)
    exact ⟨temp, hrun, hc⟩
  obtain ⟨plain, -, hp⟩ := hload false
  have hclear : plain.purposeClearAll = false := hp.clear
  have hvalues := hp.values hclear
  have hspec : Ends (blockFrame path) plain.erase ⟨d, []⟩ fun _ w' =>
      (w'.disk path).Holds P true (items.filter fun it => it.key ∉ keys) := by
    refine (erase_spec hp.mainPath (by rw [hp.ptransaction]; exact hw)
      (by rw [hp.ptransaction]; exact hp.markers)
      fun _ => hvalues.indexed hw.stores.nodup).mono fun _ w' _ h' => ?_
    have hholds := h'.2.1
    simp only [hclear, Bool.false_eq_true, if_false, hvalues.mem_iff, hne, false_and,
      or_false] at hholds
    exact hholds
  obtain ⟨plain', f, hrun, hsame, hholds⟩ := returns_block hspec
  dsimp only at hholds
  rw [Function.update_self] at hholds
  rw [BlockFileLoader.erase_eq, hp.mainPath, hp.ptransaction] at hrun
  refine ⟨f, fun clear => ?_, hholds, hsame⟩
  obtain ⟨temp, hconstruct, hc⟩ := hload clear
  have hleft := left_eq hn hne hstored hw.stores.toRows.length_eq hp hc
  cases hcalls : BlockFileLoader.eraseCalls path ptransaction plain.left ⟨d, []⟩ with
  | error e w' => rw [bind_run_error hcalls] at hrun; cases hrun
  | ok markers w' =>
    rw [bind_run_ok hcalls] at hrun
    cases hrun
    have hopen : temp.openTransaction = ⟨path, false⟩ :=
      openTransaction_eq hc.mainPath (by rw [hc.ptransaction]; exact ht)
    refine ⟨{ temp with markers, ptransaction := some temp.openTransaction }, ?_, ?_, ?_⟩
    · unfold eraseBlock
      rw [bind_run_ok hconstruct, BlockFileLoader.erase_eq, hc.mainPath, hc.ptransaction, hleft,
        bind_run_ok hcalls]
      rfl
    · rw [hopen, ← after_commitCalls]
      refine (commit_run _ rfl _).trans ?_
      rw [Function.update_self, Function.update_idem]
    · rw [hopen, hsame.1, hsame.2, ← after_rollbackCalls]
      refine (discard_run _ rfl _).trans ?_
      rw [Function.update_self, Function.update_idem]

end

/-! ## The key lists that are erased -/

/-- What the bulk clear relies on: at least one key, no key twice, and each of them stored in
the file as the transaction of the container has it. -/
def Clearable (fmt : BlockFormat K T) (t : Saver) (e : Sigma fun _ : String => List K) : Prop :=
  e.2 ≠ [] ∧ e.2.Nodup ∧ ∃ ptransaction items, t.transaction.overlay.lookup e.1 =
      some ptransaction ∧ (∀ b ∈ ptransaction, b = ⟨e.1, false⟩) ∧
    (t.world.disk e.1).Holds fmt.anyRow ptransaction.isSome items ∧
    ∀ k ∈ e.2, k ∈ items.map BlockItem.key

/-- The loop of `file_saver_helper` over the groups meets only key lists that can be cleared. -/
def ClearsOnly (fmt : BlockFormat K T) (ord : IterOrder) (packetOf : K → Option T)
    (groups : UMap String (List K)) (t : Saver) : Prop :=
  FoldMeets (fun _ e t => Clearable fmt t e) (fun _ e => processFile fmt ord packetOf .erase e)
    (ord.order groups.entries) ⟨⟩ t

section
variable {fmt : BlockFormat K T} {name : K → String} {headFile : String} {g packetOf : K → Option T}

omit [DecidableEq K] in
theorem Ready.clearable {t : Saver} {e : Sigma fun _ : String => List K}
    (hs : Saved fmt name headFile t.world.disk t.transaction g) (hok : t.transaction.Ok headFile)
    (h : Ready name .erase packetOf g t.transaction e) : Clearable fmt t e := by
  have hfile : e.1 ≠ headFile := fun he => hok.data (he ▸ h.entered)
  obtain ⟨ptransaction, hpt⟩ := UMap.mem_iff.mp h.entered
  obtain ⟨items, hholds, hdenotes⟩ := hs e.1 hfile
  rw [ClassTransaction.entry, if_neg hfile, hpt] at hholds
  refine ⟨h.ne_nil, h.nodup, ptransaction, items, hpt, fun b hb => ?_, hholds, fun k hk => ?_⟩
  · exact hok.entries e.1 b (by rw [hpt]; exact congrArg some hb)
  · rw [hdenotes.mem_keys, restrict, if_pos (h.name k hk)]
    exact h.admits k hk

theorem clearsOnly_of_ready [fmt.Lawful] {ord : IterOrder}
    {es : List (Sigma fun _ : String => List K)} (hkeys : (es.map Sigma.fst).Nodup) :
    ∀ {g : K → Option T} {t : Saver}, Saved fmt name headFile t.world.disk t.transaction g →
      t.transaction.Ok headFile → (∀ e ∈ es, Ready name .erase packetOf g t.transaction e) →
      FoldMeets (fun _ e t => Clearable fmt t e)
        (fun _ e => processFile fmt ord packetOf .erase e) es ⟨⟩ t := by
  induction es with
  | nil => exact fun _ _ _ => trivial
  | cons e es ih =>
    intro g t hs hok hready
    obtain ⟨hfirst, hrest⟩ := List.nodup_cons.mp hkeys
    have he := hready e List.mem_cons_self
    refine ⟨he.clearable hs hok, fun _ t' hrun => ?_⟩
    obtain ⟨-, hs', hok', hsub⟩ := (processFile_spec hs hok he.name he.ne_nil he.nodup he.entered
      he.admits).of_ok hrun
    exact ih hrest hs' hok' fun e' he' => (hready e' (List.mem_cons_of_mem _ he')).after he.name
      (fun heq => hfirst (List.mem_map.mpr ⟨e', he', heq.symm⟩)) (hsub _) _

/-- A group whose keys are stored is cleared file by file. -/
theorem Saved.clearsOnly [fmt.Lawful] {ord : IterOrder} {keys : List K}
    {groups : UMap String (List K)} {t : Saver}
    (hs : Saved fmt name headFile t.world.disk t.transaction g) (hok : t.transaction.Ok headFile)
    (hg : Grouped name keys groups) (hn : keys.Nodup) (hin : ∀ k ∈ keys, name k ∈ t.transaction.overlay)
    (hadm : Op.Admits .erase packetOf g keys) : ClearsOnly fmt ord packetOf groups t :=
  clearsOnly_of_ready (UMap.keys_nodup ord groups) hs hok
    fun _ he => ready_of_grouped hg hn hin hadm he

end

/-- What `save` of the map hands to `file_saver_helper` to be erased, where the keys marked as
deleted have got through the index. -/
def MapLoader.Erases {T : Type} (cfg : MapConfig T) (ord : IterOrder) (s : MapState T) : Prop :=
  let keys := s.self.overlay.keysOf ord .deleted
  keys ≠ [] → ∀ groups s1,
    MapLoader.onSaver (onHead (MapLoader.saveIndex cfg ord .erase keys))
        { s with self := { s.self with toCore := s.self.opened } } = .ok groups s1 →
      let self := (ord.order groups.entries).foldl (MapLoader.note .erase) s1.self
      ClearsOnly cfg.blockFormat ord self.overlay.packetOf groups ⟨s1.world, self.transaction⟩

/-- What `save` of the vector hands to `file_saver_helper` to be erased. -/
def VectorLoader.Erases {T : Type} (cfg : VectorConfig T) (ord : IterOrder) (s : VectorState T) :
    Prop :=
  let groups := VectorLoader.groupByFile cfg (s.self.overlay.keysOf ord .deleted)
  let self := (ord.order groups.entries).foldl (VectorLoader.note .erase)
    { s.self with toCore := s.self.opened }
  ClearsOnly cfg.blockFormat ord self.overlay.packetOf groups ⟨s.world, self.transaction⟩

theorem MapInv.erases {T : Type} {cfg : MapConfig T} {a : Txn (Map T)} {s : MapState T}
    (h : MapInv cfg a s) (ord : IterOrder) : MapLoader.Erases cfg ord s := by
  unfold MapLoader.Erases
  dsimp only
  intro hne groups s1 hrun
  have hadm := h.overlay.admits_erase ord
  obtain ⟨-, hhanded, -⟩ := (handed_spec ord h.opened.stored hne hadm).of_ok hrun
  refine hhanded.blocks.clearsOnly hhanded.ok hhanded.grouped (Overlay.keysOf_nodup ord _ .deleted)
    hhanded.entered ?_
  rw [hhanded.overlay]
  exact hadm

theorem VectorInv.erases {T : Type} {cfg : VectorConfig T} {a : Txn (List T)} {s : VectorState T}
    (h : VectorInv cfg a s) (ord : IterOrder) : VectorLoader.Erases cfg ord s := by
  unfold VectorLoader.Erases
  have hgroups := groupByFile_grouped cfg (s.self.overlay.keysOf ord .deleted)
  generalize VectorLoader.groupByFile cfg (s.self.overlay.keysOf ord .deleted) = groups at hgroups
  have hfiles : ∀ e ∈ ord.order groups.entries, e.1 ≠ cfg.sizeFile := fun e he => by
    obtain ⟨k, -, hk⟩ := hgroups.exists_name he
    exact hk ▸ cfg.filename_ne k
  have hstored := h.opened.stored
  have hnoted := vectorNotes_spec (i := .erase) hfiles { s.self with toCore := s.self.opened }
  dsimp only
  generalize (ord.order groups.entries).foldl (VectorLoader.note .erase)
    { s.self with toCore := s.self.opened } = c at hnoted ⊢
  have hblocks : Saved cfg.blockFormat cfg.filename cfg.sizeFile s.world.disk c.transaction
      fun i => a.saved[i]? := fun f hf => by
    rw [hnoted.core.entry]
    exact hstored.blocks f hf
  refine hblocks.clearsOnly (hnoted.core.ok hstored.ok) hgroups
    (Overlay.keysOf_nodup ord _ .deleted)
    (fun k hk => hnoted.core.entered rfl _ (hgroups.name_mem ord hk)) ?_
  rw [hnoted.core.overlay]
  exact h.overlay.admits_erase ord

/-- Such a key list is erased as the plain `erase` does it, and no other key with it. -/
theorem Clearable.agrees {fmt : BlockFormat K T} {t : Saver}
    {e : Sigma fun _ : String => List K} (h : Clearable fmt t e) :
    ∃ ptransaction items f, t.transaction.overlay.lookup e.1 = some ptransaction ∧
      EraseAgrees fmt.anyRow e.1 e.2 ptransaction items t.world.disk f := by
  obtain ⟨hne, hn, ptransaction, items, hlookup, ht, hholds, hstored⟩ := h
  obtain ⟨f, hf⟩ := eraseBlock_agrees hholds ht hn hne hstored
  exact ⟨ptransaction, items, f, hlookup, hf⟩

/-- **The bulk clear is the plain erase.** On distinct keys that are stored in a file the
files are the same with and without `purpose_clear`, also after a commit and after a rollback;
and whatever run a container has behind it, it hands no other keys to the bulk clear. -/
theorem bulkClear_agrees {T : Type} (mapCfg : MapConfig T) (vectorCfg : VectorConfig T) :
    (∀ (K U : Type) [DecidableEq K] (fmt : BlockFormat K U) (P : RowSpec fmt) (path : String)
      (keys : List K) (ptransaction : Option BlockTransaction) (items : List (BlockItem K U))
      (d : Disk), (d path).Holds P ptransaction.isSome items →
      (∀ t ∈ ptransaction, t = ⟨path, false⟩) → keys.Nodup → keys ≠ [] →
      (∀ k ∈ keys, k ∈ items.map BlockItem.key) →
        ∃ f, EraseAgrees P path keys ptransaction items d f) ∧
    (∀ ord, ∃ s, MapStore.opened mapCfg ord Disk.empty = some s ∧
      ∀ (calls : List (Call (MapOp T))) (ord' : IterOrder) (faults : List (Option Fault)),
        let r := final (MapStore.step mapCfg) s calls
        MapLoader.Erases mapCfg ord' ⟨⟨r.disk, faults⟩, r.self⟩) ∧
    ∀ ord, ∃ s, VectorStore.opened vectorCfg ord Disk.empty = some s ∧
      ∀ (calls : List (Call (VectorOp T))) (ord' : IterOrder) (faults : List (Option Fault)),
        let r := final (VectorStore.step vectorCfg) s calls
        VectorLoader.Erases vectorCfg ord' ⟨⟨r.disk, faults⟩, r.self⟩ := by
  refine ⟨fun K U _ fmt P path keys ptransaction items d h ht hn hne hstored =>
    eraseBlock_agrees h ht hn hne hstored, fun ord => ?_, fun ord => ?_⟩
  · obtain ⟨s, hs, -, hinv, -⟩ := opened_inv ord (holding_empty mapCfg)
    refine ⟨s, hs, fun calls ord' faults => ?_⟩
    obtain ⟨a, -, hfin⟩ := map_implements.history hinv calls
    exact (hfin faults).erases ord'
  · obtain ⟨s, hs, -, hinv, -⟩ := vectorOpened_inv ord (vectorHolding_empty vectorCfg)
    refine ⟨s, hs, fun calls ord' faults => ?_⟩
    obtain ⟨a, -, hfin⟩ := vector_implements.history hinv calls
    exact (hfin faults).erases ord'

theorem Pairs.disk_holds : (Pairs.disk "pairs").Holds Pairs.format.anyRow false
    [⟨1, some 10⟩, ⟨3, some 30⟩] where
  stray := Pairs.disk_wellFormed.stray
  stores := {
    spaced := Pairs.disk_wellFormed.spaced
    inside := Pairs.disk_wellFormed.inside
    rows := .cons ⟨rfl, rfl⟩ (.cons ⟨rfl, rfl⟩ .nil)
    nodup := by decide }

/-- All keys of a block are erased, and the block goes. -/
theorem bulkClear_agrees_pairs : ∃ f, EraseAgrees Pairs.format.anyRow "pairs" [3, 1] none
    [⟨1, some 10⟩, ⟨3, some 30⟩] Pairs.disk f :=
  (bulkClear_agrees balances heights).1 UInt8 UInt8 Pairs.format Pairs.format.anyRow "pairs" [3, 1]
    none [⟨1, some 10⟩, ⟨3, some 30⟩] Pairs.disk Pairs.disk_holds (fun _ ht => (nomatch ht))
    (by decide +kernel) (by decide +kernel) (by decide +kernel)

end MeshPP.SystemUtility
