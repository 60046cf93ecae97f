import MeshPP.SystemUtility.Confinement
import MeshPP.SystemUtility.VectorRefinement

/-! # What a vector reaches

A vector reaches the files of its indices and the file of its size, and no
others. -/

namespace MeshPP.SystemUtility
open MeshPP.Lib

variable {T : Type} {cfg : VectorConfig T} {own : Set String}

/-- The files of the vector are in `own`. -/
structure VectorConfig.Within (cfg : VectorConfig T) (own : Set String) : Prop where
  size : cfg.sizeFile ∈ own
  file : ∀ index, cfg.filename index ∈ own

noncomputable def VectorState.beside (own : Set String) (e : Disk) (s : VectorState T) :
    VectorState T :=
  { s with world := s.world.beside own e }

theorem reaches_loadSize (hcfg : cfg.Within own) (ord : IterOrder) :
    Reaches own (loadSize cfg ord) := by
  refine (BlockFileLoader.reaches_construct hcfg.size _ _ _).bind fun temp => ?_
  exact reaches_foldlM (fun _ key => temp.reaches_getValue key) _ _

namespace VectorLoader

/-- The program on a vector reaches no file that is not in `own`. -/
abbrev Within {α : Type} (own : Set String) (m : VectorM T α) (s : VectorState T) : Prop :=
  Confined (VectorState.beside own) (fun s => s.self.transaction.Owned own) m s

variable {s : VectorState T}

theorem within_onCore {α : Type} {m : CoreM Nat T α}
    (h : Core.Accesses own m ⟨s.world, s.self.toCore⟩) : Within own (onCore m) s := by
  have hpart : Core.Accesses own m ((fun s : VectorState T => ⟨s.world, s.self.toCore⟩) s) := h
  exact Confined.zoom hpart (fun _ => rfl) (fun _ _ => rfl) fun _ ht => ht

theorem within_onSaver {α : Type} {m : SaverM α} (h : Saves own m ⟨s.world, s.self.transaction⟩) :
    Within own (onSaver m) s := by
  have hpart : Saves own m ((fun s : VectorState T => ⟨s.world, s.self.transaction⟩) s) := h
  exact Confined.zoom hpart (fun _ => rfl) (fun _ _ => rfl) fun _ ht => ht

/-! ## Access -/

section
variable (hcfg : cfg.Within own) (hs : s.self.transaction.Owned own)
include hs

theorem within_popBack : Within own (popBack cfg) s := by
  refine confined_get_bind (fun _ => rfl) ?_
  split
  · exact confined_throw hs
  · exact confined_modify (fun _ => rfl) hs

include hcfg

theorem within_constAt (index : Nat) : Within own (constAt cfg index) s :=
  confined_get_bind (fun _ => rfl) (within_onCore (Core.accesses_reach hs (hcfg.file index) _ _ _))

theorem within_mutableAt (index : Nat) (assign : T → T) :
    Within own (mutableAt cfg index assign) s :=
  confined_get_bind (fun _ => rfl)
    (within_onCore (Core.accesses_mutableAt hs (hcfg.file index) _ _ _ _))

theorem within_act (op : VectorOp T) : Within own (act cfg op) s := by
  cases op with
  | pushBack value =>
    exact Confined.bind (confined_modify (fun _ => rfl) hs) fun _ _ _ ht => confined_pure ht
  | popBack => exact (within_popBack hs).bind fun _ _ _ ht => confined_pure ht
  | mutableAt index assign =>
    exact (within_mutableAt hcfg hs index assign).bind fun _ _ _ ht => confined_pure ht
  | constAt index => exact (within_constAt hcfg hs index).bind fun _ _ _ ht => confined_pure ht
  | clear => exact Confined.bind (confined_modify (fun _ => rfl) hs) fun _ _ _ ht => confined_pure ht
  | size => exact confined_get_bind (fun _ => rfl) (confined_pure hs)

end

/-! ## Saving -/

theorem owned_notes (i : Op) {es : List (Sigma fun _ : String => List Nat)}
    (hes : ∀ e ∈ es, e.1 ∈ own) {a : VectorLoader T} (ha : a.transaction.Owned own) :
    (es.foldl (note i) a).transaction.Owned own := by
  induction es generalizing a with
  | nil => exact ha
  | cons e es ih =>
    exact ih (fun e he => hes e (List.mem_cons_of_mem _ he))
      (Core.owned_enter ha (hes e List.mem_cons_self))

/-- The files of a group are those of its indices. -/
theorem within_saveGroup (hcfg : cfg.Within own) (hs : s.self.transaction.Owned own)
    (ord : IterOrder) (i : Op) (keys : List Nat) : Within own (saveGroup cfg ord i keys) s := by
  unfold saveGroup
  split
  · exact confined_pure hs
  · have hfiles : ∀ e ∈ ord.order (groupByFile cfg keys).entries, e.1 ∈ own := fun e he => by
      obtain ⟨k, -, hk⟩ := (groupByFile_grouped cfg keys).exists_name he
      exact hk ▸ hcfg.file k
    refine Confined.bind (confined_modify (fun _ => rfl) (owned_notes i hfiles hs)) fun _ t _ ht => ?_
    exact confined_get_bind (fun _ => rfl) (within_onSaver (saves_fileSaverHelper ht _))

theorem reaches_saveSize (hcfg : cfg.Within own) (ord : IterOrder) (size : Nat)
    (ptransactionSize : Option BlockTransaction) :
    Reaches own (saveSize cfg ord size ptransactionSize) := by
  rw [saveSize_eq]
  exact (reaches_processBlock hcfg.size _ _ _ _ _).bind fun _ => reaches_pure _

section
variable (hcfg : cfg.Within own) (hs : s.self.transaction.Owned own) (ord : IterOrder)
include hcfg hs

theorem within_saveGroups : Within own (saveGroups cfg ord) s := by
  refine confined_get_bind (fun _ => rfl) ?_
  refine (within_saveGroup hcfg hs ord _ _).bind fun _ t _ ht => ?_
  refine (within_saveGroup hcfg ht ord _ _).bind fun _ u _ hu => ?_
  refine Confined.bind (confined_modify (fun _ => rfl) hu) fun _ u _ hu => ?_
  exact confined_get_bind (fun _ => rfl)
    (within_onSaver (saves_onHead hu fun _ => reaches_saveSize hcfg ord _ _))

/-- The size that a vector reads back is its own. -/
theorem within_discard (hok : s.self.transaction.Ok cfg.sizeFile) :
    Within own (discard cfg ord) s := by
  have hread := fun d e => (reaches_loadSize hcfg ord ⟨d, []⟩).commutes e
  unfold World.beside at hread
  cases ht : s.self.ptransaction with
  | some t =>
    have htr : s.self.transaction = t := by rw [Core.transaction, ht]; rfl
    rw [htr] at hs hok
    constructor
    · intro e
      unfold discard VectorState.beside World.beside
      dsimp only
      rw [ht]
      dsimp only
      rw [hs.rollback hcfg.size hok, hread]
      cases loadSize cfg ord ⟨t.rollback s.world.disk, []⟩ <;> rfl
    · unfold discard
      rw [ht]
      dsimp only
      split
      · exact ClassTransaction.owned_empty
      · exact htr ▸ hs
  | none =>
    constructor
    · intro e
      unfold discard VectorState.beside World.beside
      dsimp only
      rw [ht]
      dsimp only
      rw [hread]
      cases loadSize cfg ord ⟨s.world.disk, []⟩ <;> rfl
    · unfold discard
      rw [ht]
      dsimp only
      split
      · exact ClassTransaction.owned_empty
      · exact hs

theorem within_commit (hok : s.self.transaction.Ok cfg.sizeFile) : Within own commit s := by
  cases ht : s.self.ptransaction with
  | some t =>
    have htr : s.self.transaction = t := by rw [Core.transaction, ht]; rfl
    rw [htr] at hs hok
    refine confined_modify (fun e => ?_) ?_
    · unfold VectorState.beside
      dsimp only
      rw [ht]
      exact congrArg (fun d => (⟨⟨d, _⟩, _⟩ : VectorState T)) (hs.commit hcfg.size hok _ e)
    · rw [ht]
      exact ClassTransaction.owned_empty
  | none =>
    refine confined_modify (fun e => ?_) ?_
    · unfold VectorState.beside
      dsimp only
      rw [ht]
    · rw [ht]
      exact hs

end

/-! ## Operations -/

theorem reaches_construct (hcfg : cfg.Within own) (ord : IterOrder) :
    Reaches own (construct cfg ord) :=
  (reaches_loadSize hcfg ord).bind fun _ => reaches_pure _

theorem construct_ptransaction (ord : IterOrder) (w : World) :
    Leaves (construct cfg ord) w (fun self _ => self.ptransaction = none) fun _ => True :=
  (leaves_any w).bind fun _ _ _ _ => leaves_pure rfl

section
variable (hcfg : cfg.Within own) (hs : s.self.transaction.Owned own) {a : Txn (List T)}
  (h : VectorInv cfg a s) (ord : IterOrder)
include hcfg hs h

/-- A save that fails gives up the transaction, whose files are those of the vector. -/
theorem within_save : Within own (save cfg ord) s := by
  refine confined_get_bind (fun _ => rfl) ?_
  split
  · exact confined_pure hs
  · refine Confined.bind (confined_modify (fun _ => rfl) hs) fun _ t hrun ht => ?_
    obtain rfl : { s with self := { s.self with toCore := s.self.opened } } = t := by
      cases hrun
      rfl
    refine (within_saveGroups hcfg ht ord).onFailure fun x u hfail hu => ?_
    obtain ⟨hle, -⟩ := (vectorSaveGroups_spec ord h.opened rfl).of_error hfail
    exact within_discard hcfg hu ord (hle.2.2.1 h.opened.stored.ok)

theorem within_reopen : Within own (reopen cfg ord) s := by
  refine (within_commit hcfg hs h.stored.ok).bind fun _ t _ ht => ?_
  refine confined_get_bind (fun e => ?_) ?_
  · have hrun : construct cfg ord ⟨(VectorState.beside own e t).world.disk, []⟩ =
        mapState (World.beside own e) (construct cfg ord ⟨t.world.disk, []⟩) :=
      (reaches_construct hcfg ord ⟨t.world.disk, []⟩).commutes e
    dsimp only
    rw [hrun]
    cases construct cfg ord ⟨t.world.disk, []⟩ <;> rfl
  · dsimp only
    cases hrun : construct cfg ord ⟨t.world.disk, []⟩ with
    | ok self w =>
      refine confined_modify (fun _ => rfl) ?_
      have hclosed : self.ptransaction = none := (construct_ptransaction ord _).of_ok hrun
      change (self.ptransaction.getD .empty).Owned own
      rw [hclosed]
      exact ClassTransaction.owned_empty
    | error x w => exact confined_throw ht

theorem within_perform (op : TxnOp (VectorOp T)) : Within own (perform cfg ord op) s := by
  cases op with
  | act op => exact within_act hcfg hs op
  | save => exact (within_save hcfg hs h ord).bind fun _ _ _ ht => confined_pure ht
  | commit => exact (within_commit hcfg hs h.stored.ok).bind fun _ _ _ ht => confined_pure ht
  | discard => exact (within_discard hcfg hs ord h.stored.ok).bind fun _ _ _ ht => confined_pure ht
  | reopen => exact (within_reopen hcfg hs h ord).bind fun _ _ _ ht => confined_pure ht

end

end VectorLoader

/-! ## The vector as a machine over the disk -/

/-- One operation, of a vector that has the disk with others. -/
def VectorStore.machine (cfg : VectorConfig T) (s : Disk × VectorLoader T) (c : Call (VectorOp T)) :
    VectorOut T × Disk × VectorLoader T :=
  let r := VectorStore.step cfg ⟨s.1, s.2⟩ c
  (r.1, r.2.disk, r.2.self)

/-- The vector is what some history has made of it, with transactions for files in `own`. -/
def VectorStore.Sane (cfg : VectorConfig T) (own : Set String) (s : Disk × VectorLoader T) : Prop :=
  (∃ a, VectorStoreInv cfg a ⟨s.1, s.2⟩) ∧ s.2.transaction.Owned own

theorem VectorStore.confined (hcfg : cfg.Within own) :
    ConfinedTo own (VectorStore.Sane cfg own) (VectorStore.machine cfg) where
  commutes s c hs e := by
    obtain ⟨⟨a, ha⟩, hown⟩ := hs
    have hrun := (VectorLoader.within_perform (s := ⟨⟨s.1, c.faults⟩, s.2⟩) hcfg hown (ha c.faults)
      c.ord c.op).commutes e
    unfold VectorState.beside World.beside at hrun
    unfold machine VectorStore.step
    dsimp only at hrun ⊢
    rw [hrun]
    cases VectorLoader.perform cfg c.ord c.op ⟨⟨s.1, c.faults⟩, s.2⟩ <;> rfl
  keeps s c hs := by
    obtain ⟨⟨a, ha⟩, hown⟩ := hs
    refine ⟨?_, ?_⟩
    · rcases vector_implements a _ c ha with ⟨-, h⟩ | ⟨-, -, h⟩
      · exact ⟨_, h⟩
      · exact ⟨_, h⟩
    · have hkeeps := (VectorLoader.within_perform (s := ⟨⟨s.1, c.faults⟩, s.2⟩) hcfg hown
        (ha c.faults) c.ord c.op).keeps
      unfold machine VectorStore.step
      dsimp only
      cases hr : VectorLoader.perform cfg c.ord c.op ⟨⟨s.1, c.faults⟩, s.2⟩ with
      | ok out t => rw [hr] at hkeeps; exact hkeeps
      | error x t => rw [hr] at hkeeps; exact hkeeps

end MeshPP.SystemUtility
