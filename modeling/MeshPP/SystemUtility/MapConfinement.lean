import MeshPP.SystemUtility.Confinement
import MeshPP.SystemUtility.MapRefinement

/-! # What a map reaches

A map that does its work on the files it has named reaches no others, also where
a call fails: what is beside its files does not matter to it, and stays. -/

namespace MeshPP.SystemUtility
open MeshPP.Lib

variable {T : Type} {cfg : MapConfig T} {own : Set String}

/-- The files of the map are in `own`. -/
structure MapConfig.Within (cfg : MapConfig T) (own : Set String) : Prop where
  index : cfg.indexFile ∈ own
  file : ∀ key, cfg.filename key ∈ own

noncomputable def MapState.beside (own : Set String) (e : Disk) (s : MapState T) : MapState T :=
  { s with world := s.world.beside own e }

namespace MapLoader

/-- The program on a map reaches no file that is not in `own`. -/
abbrev Within {α : Type} (own : Set String) (m : MapM T α) (s : MapState T) : Prop :=
  Confined (MapState.beside own) (fun s => s.self.transaction.Owned own) m s

variable {s : MapState T}

theorem within_onCore {α : Type} {m : CoreM String T α}
    (h : Core.Accesses own m ⟨s.world, s.self.toCore⟩) : Within own (onCore m) s := by
  have hpart : Core.Accesses own m ((fun s : MapState T => ⟨s.world, s.self.toCore⟩) s) := h
  exact Confined.zoom hpart (fun _ => rfl) (fun _ _ => rfl) fun _ ht => ht

theorem within_onSaver {α : Type} {m : SaverM α} (h : Saves own m ⟨s.world, s.self.transaction⟩) :
    Within own (onSaver m) s := by
  have hpart : Saves own m ((fun s : MapState T => ⟨s.world, s.self.transaction⟩) s) := h
  exact Confined.zoom hpart (fun _ => rfl) (fun _ _ => rfl) fun _ ht => ht

/-! ## Access -/

section
variable (hcfg : cfg.Within own) (hs : s.self.transaction.Owned own)
include hcfg hs

theorem within_constAt (key : String) : Within own (constAt cfg key) s :=
  confined_get_bind (fun _ => rfl) (within_onCore (Core.accesses_reach hs (hcfg.file key) _ _ _))

theorem within_mutableAt (key : String) (assign : T → T) :
    Within own (mutableAt cfg key assign) s :=
  confined_get_bind (fun _ => rfl)
    (within_onCore (Core.accesses_mutableAt hs (hcfg.file key) _ _ _ _))

omit hcfg

theorem within_insertKey (key : String) : Within own (insertKey key) s := by
  refine confined_get_bind (fun _ => rfl) ?_
  split
  · exact confined_throw hs
  · exact Confined.bind (confined_modify (fun _ => rfl) hs) fun _ _ _ ht => confined_pure ht

theorem within_insert (key : String) (value : T) : Within own (insert key value) s := by
  refine confined_get_bind (fun _ => rfl) ?_
  split
  · split
    · exact confined_pure hs
    · exact Confined.bind (confined_modify (fun _ => rfl) hs) fun _ _ _ ht => within_insertKey ht key
  · refine confined_get_bind (fun _ => rfl) ?_
    split
    · exact confined_pure hs
    · exact Confined.bind (confined_modify (fun _ => rfl) hs) fun _ _ _ ht => within_insertKey ht key

theorem within_eraseKey (key : String) : Within own (eraseKey key) s := by
  refine confined_get_bind (fun _ => rfl) ?_
  split
  · exact Confined.bind (confined_modify (fun _ => rfl) hs) fun _ _ _ ht => confined_pure ht
  · exact confined_throw hs

theorem within_erase (key : String) : Within own (erase key) s := by
  refine confined_get_bind (fun _ => rfl) ?_
  split
  · refine confined_get_bind (fun _ => rfl) ?_
    split
    · exact Confined.bind (confined_modify (fun _ => rfl) hs) fun _ _ _ ht => within_eraseKey ht key
    · exact confined_pure hs
  · split
    · exact confined_pure hs
    · refine confined_get_bind (fun _ => rfl) ?_
      split
      · exact Confined.bind (confined_modify (fun _ => rfl) hs) fun _ _ _ ht =>
          within_eraseKey ht key
      · exact Confined.bind (confined_modify (fun _ => rfl) hs) fun _ _ _ ht =>
          within_eraseKey ht key

include hcfg in
theorem within_act (op : MapOp T) : Within own (act cfg op) s := by
  cases op with
  | insert key value => exact (within_insert hs key value).bind fun _ _ _ ht => confined_pure ht
  | erase key => exact (within_erase hs key).bind fun _ _ _ ht => confined_pure ht
  | mutableAt key assign =>
    exact (within_mutableAt hcfg hs key assign).bind fun _ _ _ ht => confined_pure ht
  | constAt key => exact (within_constAt hcfg hs key).bind fun _ _ _ ht => confined_pure ht
  | clear => exact Confined.bind (confined_modify (fun _ => rfl) hs) fun _ _ _ ht => confined_pure ht
  | contains key => exact confined_get_bind (fun _ => rfl) (confined_pure hs)
  | keys => exact confined_get_bind (fun _ => rfl) (confined_pure hs)

end

/-! ## Saving -/

theorem groupKey_mainPath (i : Op) (loadedKeys : List String)
    (acc : BlockFileLoader String String × UMap String (List String)) (key : String) (w : World) :
    Leaves (groupKey cfg i loadedKeys acc key) w
      (fun acc' _ => acc'.1.mainPath = acc.1.mainPath) fun _ => True := by
  unfold groupKey
  refine leaves_ite ?_ ?_
  · refine (leaves_any w).bind fun item w _ _ => ?_
    cases item with
    | some item => exact leaves_pure rfl
    | none => exact leaves_error rfl trivial
  · cases i with
    | erase => exact leaves_error rfl trivial
    | modify => exact (acc.1.setItem_mainPath key _ w).bind fun bl w _ hbl => leaves_pure hbl

theorem reaches_groupKey (i : Op) (loadedKeys : List String)
    (acc : BlockFileLoader String String × UMap String (List String)) (key : String) :
    Reaches own (groupKey cfg i loadedKeys acc key) := by
  unfold groupKey
  refine reaches_ite ?_ ?_
  · refine (acc.1.reaches_get key).bind fun item => ?_
    cases item with
    | some item => exact reaches_pure _
    | none => exact reaches_throw _
  · cases i with
    | erase => exact reaches_throw _
    | modify => exact (acc.1.reaches_setItem key _).bind fun _ => reaches_pure _

theorem reaches_saveIndex (hcfg : cfg.Within own) (ord : IterOrder) (i : Op)
    (groupKeys : List String) (ptransactionIndex : Option BlockTransaction) :
    Reaches own (saveIndex cfg ord i groupKeys ptransactionIndex) := by
  refine (BlockFileLoader.reaches_construct hcfg.index _ _ _).bind_gives
    (BlockFileLoader.construct_mainPath _ _ _) fun indexBl hbl => ?_
  refine (reaches_foldlM (fun acc key => reaches_groupKey i _ acc key) _ _).bind_gives
    (P := fun acc => acc.1.mainPath = cfg.indexFile) (fun w => ?_) fun acc hacc => ?_
  · exact leaves_foldlM (fun _ (acc : BlockFileLoader String String × UMap String (List String)) _ =>
      acc.1.mainPath = cfg.indexFile) (fun key rest acc w hacc =>
        (groupKey_mainPath i _ acc key w).mono (fun _ _ h => h.trans hacc) fun _ h => h) _ _ _ hbl
  · cases i with
    | erase => exact (BlockFileLoader.reaches_erase (hacc ▸ hcfg.index)).bind fun _ => reaches_pure _
    | modify =>
      exact (BlockFileLoader.reaches_save (hacc ▸ hcfg.index) _).bind fun _ => reaches_pure _

theorem owned_notes (i : Op) {es : List (Sigma fun _ : String => List String)}
    (hes : ∀ e ∈ es, e.1 ∈ own) {a : MapLoader T} (ha : a.transaction.Owned own) :
    (es.foldl (note i) a).transaction.Owned own := by
  induction es generalizing a with
  | nil => exact ha
  | cons e es ih =>
    exact ih (fun e he => hes e (List.mem_cons_of_mem _ he))
      (Core.owned_enter ha (hes e List.mem_cons_self))

/-- The files of a group are those of its keys. -/
theorem within_saveGroup (hcfg : cfg.Within own) (hs : s.self.transaction.Owned own)
    (ord : IterOrder) {i : Op} {g : String → Option T} {keys : List String} (h : Stored cfg g s)
    (hadm : i.Admits s.self.overlay.packetOf g keys) :
    Within own (saveGroup cfg ord i keys) s := by
  unfold saveGroup
  split
  · exact confined_pure hs
  · next hnil =>
    have hne : keys ≠ [] := by simpa using hnil
    have hspec := handed_spec ord h hne hadm
    refine (within_onSaver (saves_onHead hs fun pt => reaches_saveIndex hcfg ord i keys pt)).bind
      fun groups t hrun ht => ?_
    have hgrouped : Grouped cfg.filename keys groups := (hspec.of_ok hrun).2.1.grouped
    refine Confined.bind (confined_modify (fun _ => rfl) (owned_notes i (fun e he => ?_) ht))
      fun _ t _ ht => confined_get_bind (fun _ => rfl) (within_onSaver (saves_fileSaverHelper ht groups))
    obtain ⟨k, -, hk⟩ := hgrouped.exists_name he
    exact hk ▸ hcfg.file k

section
variable (hcfg : cfg.Within own) (hs : s.self.transaction.Owned own)
  (hok : s.self.transaction.Ok cfg.indexFile)
include hcfg hs hok

theorem within_discard : Within own discard s := by
  cases ht : s.self.ptransaction with
  | some t =>
    have htr : s.self.transaction = t := by rw [Core.transaction, ht]; rfl
    rw [htr] at hs hok
    have hrun : discard s = .ok ⟨⟩ ⟨{ s.world with disk := t.rollback s.world.disk },
        { s.self with ptransaction := none, index := s.self.indexToRollback }.cleared⟩ := by
      unfold discard
      rw [ht]
    refine ⟨fun e => ?_, ?_⟩
    · rw [hrun]
      unfold discard MapState.beside
      dsimp only
      rw [ht]
      exact congrArg (fun d => EStateM.Result.ok PUnit.unit (⟨⟨d, _⟩, _⟩ : MapState T))
        (hs.rollback hcfg.index hok _ e)
    · rw [hrun]
      exact ClassTransaction.owned_empty
  | none =>
    refine ⟨fun e => ?_, ?_⟩
    · unfold discard MapState.beside
      dsimp only
      rw [ht]
      dsimp only
      split <;> rfl
    · unfold discard
      rw [ht]
      dsimp only
      split
      · exact hs
      · exact hs

theorem within_commit : Within own commit s := by
  cases ht : s.self.ptransaction with
  | some t =>
    have htr : s.self.transaction = t := by rw [Core.transaction, ht]; rfl
    rw [htr] at hs hok
    refine confined_modify (fun e => ?_) ?_
    · unfold MapState.beside
      dsimp only
      rw [ht]
      exact congrArg (fun d => (⟨⟨d, _⟩, _⟩ : MapState T)) (hs.commit hcfg.index hok _ e)
    · rw [ht]
      exact ClassTransaction.owned_empty
  | none =>
    refine confined_modify (fun e => ?_) ?_
    · unfold MapState.beside
      dsimp only
      rw [ht]
    · rw [ht]
      exact hs

end

/-! ## Operations -/

theorem reaches_construct (hcfg : cfg.Within own) (ord : IterOrder) :
    Reaches own (construct cfg ord) := by
  refine Reaches.bind ?_ fun _ => reaches_pure _
  refine (BlockFileLoader.reaches_construct hcfg.index _ _ _).bind fun temp => ?_
  exact reaches_foldlM (fun index key => (temp.reaches_getValue key).bind fun _ => reaches_pure _) _ _

theorem construct_ptransaction (ord : IterOrder) (w : World) :
    Leaves (construct cfg ord) w (fun self _ => self.ptransaction = none) fun _ => True :=
  (leaves_any w).bind fun _ _ _ _ => leaves_pure rfl

section
variable (hcfg : cfg.Within own) (hs : s.self.transaction.Owned own) {a : Txn (Map T)}
  (h : MapInv cfg a s) (ord : IterOrder)
include hcfg hs h

theorem within_saveGroups (ho : s.self.ptransaction.isSome) :
    Within own (saveGroups cfg ord) s := by
  have hadm := h.overlay.admits_erase ord
  refine confined_get_bind (fun _ => rfl) ?_
  refine (within_saveGroup hcfg hs ord h.stored hadm).bind fun _ t hrun ht => ?_
  obtain ⟨-, hstored, -, hoverlay, -⟩ := (saveGroup_spec ord h.stored ho
    (Overlay.keysOf_nodup ord _ .deleted) hadm).of_ok hrun
  have hmod := h.overlay.admits_modify ord (assign (s.self.overlay.keysOf ord .deleted)
    (Op.erase.result s.self.overlay.packetOf) fun k => a.saved.lookup k)
  refine Confined.bind (within_saveGroup hcfg ht ord hstored (by rw [hoverlay]; exact hmod))
    fun _ u _ hu => ?_
  exact confined_modify (fun _ => rfl) hu

/-- A save that fails gives up the transaction, whose files are those of the map. -/
theorem within_save : Within own (save cfg ord) s := by
  refine confined_get_bind (fun _ => rfl) ?_
  split
  · exact confined_pure hs
  · refine Confined.bind (confined_modify (fun _ => rfl) hs) fun _ t hrun ht => ?_
    obtain rfl : { s with self := { s.self with toCore := s.self.opened } } = t := by
      cases hrun
      rfl
    refine (within_saveGroups hcfg ht h.opened ord rfl).onFailure fun x u hfail hu => ?_
    obtain ⟨hle, -⟩ := (saveGroups_spec ord h.opened rfl).of_error hfail
    exact within_discard hcfg hu (hle.2.2.2.1 h.opened.stored.ok)

theorem within_reopen : Within own (reopen cfg ord) s := by
  refine (within_commit hcfg hs h.stored.ok).bind fun _ t _ ht => ?_
  refine confined_get_bind (fun e => ?_) ?_
  · have hrun : construct cfg ord ⟨(MapState.beside own e t).world.disk, []⟩ =
        mapState (World.beside own e) (construct cfg ord ⟨t.world.disk, []⟩) :=
      (reaches_construct hcfg ord ⟨t.world.disk, []⟩).commutes e
    dsimp only
    rw [hrun]
    cases construct cfg ord ⟨t.world.disk, []⟩ <;> rfl
  · dsimp only
    cases hrun : construct cfg ord ⟨t.world.disk, []⟩ with
    | ok self w =>
      refine confined_modify (fun _ => rfl) ?_
      have hclosed : self.ptransaction = none := (construct_ptransaction ord _).of_ok hrun
      change (self.ptransaction.getD .empty).Owned own
      rw [hclosed]
      exact ClassTransaction.owned_empty
    | error x w => exact confined_throw ht

theorem within_perform (op : TxnOp (MapOp T)) : Within own (perform cfg ord op) s := by
  cases op with
  | act op => exact within_act hcfg hs op
  | save => exact (within_save hcfg hs h ord).bind fun _ _ _ ht => confined_pure ht
  | commit => exact (within_commit hcfg hs h.stored.ok).bind fun _ _ _ ht => confined_pure ht
  | discard => exact (within_discard hcfg hs h.stored.ok).bind fun _ _ _ ht => confined_pure ht
  | reopen => exact (within_reopen hcfg hs h ord).bind fun _ _ _ ht => confined_pure ht

end

end MapLoader

/-! ## The map as a machine over the disk -/

/-- One operation, of a map that has the disk with others. -/
def MapStore.machine (cfg : MapConfig T) (s : Disk × MapLoader T) (c : Call (MapOp T)) :
    MapOut T × Disk × MapLoader T :=
  let r := MapStore.step cfg ⟨s.1, s.2⟩ c
  (r.1, r.2.disk, r.2.self)

/-- The map is what some history has made of it, with transactions for files in `own`. -/
def MapStore.Sane (cfg : MapConfig T) (own : Set String) (s : Disk × MapLoader T) : Prop :=
  (∃ a, StoreInv cfg a ⟨s.1, s.2⟩) ∧ s.2.transaction.Owned own

theorem MapStore.confined (hcfg : cfg.Within own) :
    ConfinedTo own (MapStore.Sane cfg own) (MapStore.machine cfg) where
  commutes s c hs e := by
    obtain ⟨⟨a, ha⟩, hown⟩ := hs
    have hrun := (MapLoader.within_perform (s := ⟨⟨s.1, c.faults⟩, s.2⟩) hcfg hown (ha c.faults)
      c.ord c.op).commutes e
    unfold MapState.beside World.beside at hrun
    unfold machine MapStore.step
    dsimp only at hrun ⊢
    rw [hrun]
    cases MapLoader.perform cfg c.ord c.op ⟨⟨s.1, c.faults⟩, s.2⟩ <;> rfl
  keeps s c hs := by
    obtain ⟨⟨a, ha⟩, hown⟩ := hs
    refine ⟨?_, ?_⟩
    · rcases map_implements a _ c ha with ⟨-, h⟩ | ⟨-, -, h⟩
      · exact ⟨_, h⟩
      · exact ⟨_, h⟩
    · have hkeeps := (MapLoader.within_perform (s := ⟨⟨s.1, c.faults⟩, s.2⟩) hcfg hown (ha c.faults)
        c.ord c.op).keeps
      unfold machine MapStore.step
      dsimp only
      cases hr : MapLoader.perform cfg c.ord c.op ⟨⟨s.1, c.faults⟩, s.2⟩ with
      | ok out t => rw [hr] at hkeeps; exact hkeeps
      | error x t => rw [hr] at hkeeps; exact hkeeps

end MeshPP.SystemUtility
