import MeshPP.Lib.Confined
import MeshPP.SystemUtility.Container

/-! # What a block loader reaches

The work on a block reads and changes the files of this block only: whatever is
beside a part of the disk that the block is in, it does the same. -/

namespace MeshPP.SystemUtility
open MeshPP.Lib

open Classical in
/-- The world with `e` in the place of the files that are not in `own`. -/
noncomputable def World.beside (own : Set String) (e : Disk) (w : World) : World :=
  { w with disk := own.piecewise w.disk e }

/-- The program reaches no file that is not in `own`. -/
def Reaches {α : Type} (own : Set String) (m : FileM α) : Prop :=
  ∀ w, Confined (World.beside own) (fun _ => True) m w

variable {own : Set String} {path : String}

theorem World.beside_disk (hp : path ∈ own) (e : Disk) (w : World) :
    (w.beside own e).disk path = w.disk path := by
  classical
  exact Set.piecewise_eq_of_mem _ _ _ hp

theorem World.beside_set (hp : path ∈ own) (e : Disk) (w : World) (f : Files) :
    (w.beside own e).set path f = (w.set path f).beside own e := by
  classical
  have hdisk : Function.update (own.piecewise w.disk e) path f =
      own.piecewise (Function.update w.disk path f) e := by
    funext q
    by_cases hq : q = path
    · subst hq
      rw [Function.update_self, Set.piecewise_eq_of_mem _ _ _ hp, Function.update_self]
    · rw [Function.update_of_ne hq]
      by_cases hin : q ∈ own
      · rw [Set.piecewise_eq_of_mem _ _ _ hin, Set.piecewise_eq_of_mem _ _ _ hin,
          Function.update_of_ne hq]
      · rw [Set.piecewise_eq_of_notMem _ _ _ hin, Set.piecewise_eq_of_notMem _ _ _ hin]
  unfold World.set World.beside
  exact congrArg (fun d => (⟨d, w.faults.tail⟩ : World)) hdisk

/-! ## Programs -/

section
variable {α β γ : Type} {m : FileM α}

theorem reaches_pure (a : α) : Reaches own (pure a) := fun _ => confined_pure trivial

theorem reaches_throw (e : Err) : Reaches own (throw e : FileM α) := fun _ =>
  confined_throw trivial

theorem Reaches.bind {f : α → FileM β} (h : Reaches own m) (hf : ∀ a, Reaches own (f a)) :
    Reaches own (m >>= f) := fun w => (h w).bind fun a t _ _ => hf a t

theorem Reaches.bind_gives {f : α → FileM β} {P : α → Prop} (h : Reaches own m)
    (hp : ∀ w, Leaves m w (fun a _ => P a) fun _ => True) (hf : ∀ a, P a → Reaches own (f a)) :
    Reaches own (m >>= f) := fun w => (h w).bind fun a t hr _ => hf a ((hp w).of_ok hr) t

theorem leaves_any (w : World) : Leaves m w (fun _ _ => True) fun _ => True := by
  unfold Leaves
  split <;> trivial

theorem Reaches.onFailure {undo : FileM PUnit} (h : Reaches own m) (hu : Reaches own undo) :
    Reaches own (onFailure undo m) := fun w => (h w).onFailure fun _ t _ _ => hu t

theorem reaches_ite {c : Prop} [Decidable c] {m' : FileM α} (h : Reaches own m)
    (h' : Reaches own m') : Reaches own (if c then m else m') := by
  split
  · exact h
  · exact h'

theorem reaches_foldlM {f : β → γ → FileM β} (hf : ∀ b x, Reaches own (f b x)) (l : List γ)
    (b : β) : Reaches own (l.foldlM f b) := fun _ =>
  confined_foldlM (fun x _ b t _ => hf b x t) b trivial

theorem reaches_get_bind {f : World → FileM α} (hf : ∀ w e, f (w.beside own e) = f w)
    (h : ∀ w, Reaches own (f w)) : Reaches own (get >>= f) := fun w =>
  confined_get_bind (hf w) (h w w)

theorem reaches_call (hp : path ∈ own) (what : Fault → String) (effect : Files → Files) :
    Reaches own (call path what effect) := by
  intro w
  refine ⟨fun e => ?_, trivial⟩
  unfold call
  rw [World.beside_disk hp]
  obtain ⟨disk, faults⟩ := w
  rcases faults with _ | ⟨_ | x, rest⟩
  · exact congrArg (EStateM.Result.ok _) (World.beside_set hp e _ _)
  · exact congrArg (EStateM.Result.ok _) (World.beside_set hp e _ _)
  · exact congrArg (EStateM.Result.error _) (World.beside_set hp e _ _)

theorem reaches_guardCall (hp : path ∈ own) (effect : Files → Files) :
    Reaches own (guardCall path effect) := by
  intro w
  refine ⟨fun e => ?_, trivial⟩
  unfold guardCall
  rw [World.beside_disk hp]
  obtain ⟨disk, faults⟩ := w
  rcases faults with _ | ⟨_ | x, rest⟩
  · exact congrArg (EStateM.Result.ok _) (World.beside_set hp e _ _)
  · exact congrArg (EStateM.Result.ok _) (World.beside_set hp e _ _)
  · exact congrArg (EStateM.Result.ok _) (World.beside_set hp e _ _)

theorem reaches_readCall (what : StreamBit → String) : Reaches own (readCall what) := by
  intro w
  obtain ⟨disk, faults⟩ := w
  rcases faults with _ | ⟨_ | x, rest⟩ <;> exact ⟨fun _ => rfl, trivial⟩

end

/-! ## The loader -/

theorem reaches_checkMarkers (previous : Option Marker) (markers : List Marker) :
    Reaches own (checkMarkers path previous markers) := by
  induction markers generalizing previous with
  | nil => exact reaches_pure _
  | cons item rest ih =>
    unfold checkMarkers
    split
    · exact reaches_throw _
    · split
      · exact reaches_throw _
      · exact ih _

theorem reaches_loadMarkers (file : Option MarkerFile) : Reaches own (loadMarkers path file) := by
  cases file with
  | none => exact reaches_pure _
  | some file =>
    unfold loadMarkers
    dsimp only
    split
    · exact reaches_throw _
    · exact (reaches_checkMarkers _ _).bind fun _ => reaches_pure _

theorem reaches_readRow (function file info : String) (contents : Bytes) (start end_ : Nat) :
    Reaches own (readRow function file info contents start end_) := by
  refine (reaches_readCall _).bind fun _ => (reaches_readCall _).bind fun _ => ?_
  split
  · exact reaches_pure _
  · exact reaches_throw _

section
variable {K T : Type} [DecidableEq K] {fmt : BlockFormat K T}

theorem reaches_loadRow (file : String) (contents : Bytes) (loadAll : Bool) (l : Loading K T)
    (index : Nat) (item : Marker) :
    Reaches own (loadRow fmt file contents loadAll l index item) := by
  unfold loadRow
  split
  · refine (reaches_readRow _ _ _ _ _ _).bind fun row => ?_
    split
    · exact reaches_throw _
    · split
      · exact reaches_pure _
      · split <;> exact reaches_pure _
  · exact reaches_pure _

theorem reaches_loadRows (file : String) (contents : Bytes) (loadAll : Bool) (index : Nat)
    (markers : List Marker) (l : Loading K T) :
    Reaches own (loadRows fmt file contents loadAll index markers l) := by
  induction markers generalizing index l with
  | nil => exact reaches_pure _
  | cons item rest ih => exact (reaches_loadRow _ _ _ _ _ _).bind fun l => ih _ l

namespace BlockFileLoader

theorem reaches_construct (hp : path ∈ own) (keys : List K)
    (ptransaction : Option BlockTransaction) (purposeClear : Bool) :
    Reaches own (construct fmt path keys ptransaction purposeClear) := by
  unfold construct
  refine reaches_get_bind (fun w e => ?_) fun w => ?_
  · dsimp only
    rw [World.beside_disk hp]
  refine (reaches_loadMarkers _).bind fun markers => ?_
  dsimp only
  refine reaches_ite ?_ (reaches_pure _)
  exact (reaches_loadRows _ _ _ _ _ _).bind fun l => reaches_pure _

theorem construct_mainPath (keys : List K) (ptransaction : Option BlockTransaction)
    (purposeClear : Bool) (w : World) :
    Leaves (construct fmt path keys ptransaction purposeClear) w
      (fun self _ => self.mainPath = path) fun _ => True := by
  unfold construct
  refine Leaves.get_bind ((leaves_any w).bind fun markers w _ _ => ?_)
  exact leaves_ite ((leaves_any w).bind fun l w _ _ => leaves_pure rfl) (leaves_pure rfl)

theorem setItem_mainPath (self : BlockFileLoader K T) (key : K) (packet : Option T) (w : World) :
    Leaves (self.setItem key packet) w (fun self' _ => self'.mainPath = self.mainPath)
      fun _ => True := by
  unfold setItem
  split
  · exact leaves_pure rfl
  · exact leaves_error rfl trivial

theorem reaches_get (self : BlockFileLoader K T) (key : K) : Reaches own (self.get key) := by
  unfold get
  split
  · exact reaches_pure _
  · exact reaches_throw _

theorem reaches_getValue (self : BlockFileLoader K T) (key : K) :
    Reaches own (self.getValue key) := by
  refine (self.reaches_get key).bind fun value => ?_
  cases value with
  | some value => exact reaches_pure _
  | none => exact reaches_throw _

theorem reaches_setItem (self : BlockFileLoader K T) (key : K) (packet : Option T) :
    Reaches own (self.setItem key packet) := by
  unfold setItem
  split
  · exact reaches_pure _
  · exact reaches_throw _

end BlockFileLoader

end

/-! ## Compaction -/

section
variable (hp : path ∈ own)
include hp

theorem reaches_moveChunk (info : String) (start : Nat) (item : Marker) :
    Reaches own (moveChunk path info start item) := by
  unfold moveChunk
  dsimp only
  split
  · refine reaches_get_bind (fun w e => ?_) fun w => ?_
    · rw [World.beside_disk hp]
    · exact (reaches_readRow _ _ _ _ _ _).bind fun _ => (reaches_call hp _ _).bind fun _ =>
        reaches_call hp _ _
  · exact reaches_pure _

theorem reaches_moveChunks (info : String) (start : Nat) (items : List Marker) :
    Reaches own (moveChunks path info start items) := by
  induction items generalizing start with
  | nil => exact reaches_pure _
  | cons item rest ih => exact (reaches_moveChunk hp _ _ _).bind fun _ => ih _

theorem reaches_openTr (function : String) : Reaches own (openTr path function) := by
  refine (reaches_call hp _ _).bind fun _ => ?_
  refine reaches_get_bind (fun w e => ?_) fun w => ?_
  · rw [World.beside_disk hp]
  · split
    · exact reaches_pure _
    · exact reaches_throw _

theorem reaches_sizeTr (function : String) : Reaches own (sizeTr path function) := by
  refine (reaches_call hp _ _).bind fun _ => ?_
  refine reaches_get_bind (fun w e => ?_) fun w => reaches_pure _
  rw [World.beside_disk hp]

theorem reaches_slide (markers : List Marker) (size : Nat) :
    Reaches own (slide path markers size) := by
  unfold slide
  dsimp only
  split
  · exact (reaches_openTr hp _).bind fun _ => (reaches_moveChunks hp _ _ _).bind fun _ =>
      (reaches_call hp _ _).bind fun _ => reaches_pure _
  · exact reaches_pure _

theorem reaches_truncateTr (writtenSize sizeWhenOpened : Nat) :
    Reaches own (truncateTr path writtenSize sizeWhenOpened) := by
  unfold truncateTr
  split
  · exact reaches_call hp _ _
  · exact reaches_pure _

theorem reaches_removeTr : Reaches own (removeTr path) := by
  refine reaches_get_bind (fun w e => ?_) fun w => ?_
  · rw [World.beside_disk hp]
  · split
    · exact reaches_call hp _ _
    · exact reaches_pure _

theorem reaches_compact (markers : List Marker) : Reaches own (compact path markers) := by
  unfold compact
  split
  · exact (reaches_removeTr hp).bind fun _ => reaches_pure _
  · exact (reaches_openTr hp _).bind fun _ => (reaches_sizeTr hp _).bind fun _ =>
      (reaches_slide hp _ _).bind fun _ => (reaches_truncateTr hp _ _).bind fun _ => reaches_pure _

theorem reaches_removeMTr : Reaches own (removeMTr path) := by
  refine reaches_get_bind (fun w e => ?_) fun w => ?_
  · rw [World.beside_disk hp]
  · split
    · exact reaches_call hp _ _
    · exact reaches_pure _

theorem reaches_saveMarkers (markers : List Marker) : Reaches own (saveMarkers path markers) := by
  unfold saveMarkers
  split
  · exact reaches_removeMTr hp
  · exact (reaches_call hp _ _).bind fun _ => Reaches.onFailure
      ((reaches_call hp _ _).bind fun _ => reaches_call hp _ _) (reaches_guardCall hp _)

/-! ## Saving and erasing -/

theorem reaches_copyToTr (what : String) (copy : Bool) : Reaches own (copyToTr path what copy) := by
  unfold copyToTr
  split
  · exact reaches_call hp _ _
  · exact reaches_pure _

theorem reaches_removeTrGuard (copied : Bool) : Reaches own (removeTrGuard path copied) := by
  unfold removeTrGuard
  split
  · exact reaches_guardCall hp _
  · exact reaches_pure _

theorem reaches_writeBulk {K T : Type} (a : Append K T) : Reaches own (writeBulk path a) := by
  refine (reaches_call hp _ _).bind fun _ => (reaches_sizeTr hp _).bind fun _ => ?_
  dsimp only
  split
  · exact reaches_throw _
  · exact (reaches_call hp _ _).bind fun _ => (reaches_call hp _ _).bind fun _ =>
      (reaches_call hp _ _).bind fun _ => (reaches_compact hp _).bind fun _ =>
      (reaches_saveMarkers hp _).bind fun _ => reaches_pure _

end

namespace BlockFileLoader

variable {K T : Type} [DecidableEq K] {fmt : BlockFormat K T} {self : BlockFileLoader K T}

theorem reaches_save (hp : self.mainPath ∈ own) (ord : IterOrder) :
    Reaches own (self.save fmt ord) := by
  unfold save
  split
  · refine reaches_get_bind (fun w e => ?_) fun w => ?_
    · dsimp only
      rw [World.beside_disk hp]
    · exact (reaches_copyToTr hp _ _).bind fun _ => ((reaches_writeBulk hp _).onFailure
        (reaches_removeTrGuard hp _)).bind fun _ => reaches_pure _
  · exact reaches_pure _

omit [DecidableEq K] in
theorem reaches_erase (hp : self.mainPath ∈ own) : Reaches own self.erase := by
  unfold erase
  refine reaches_get_bind (fun w e => ?_) fun w => ?_
  · dsimp only
    rw [World.beside_disk hp]
  · exact (reaches_copyToTr hp _ _).bind fun _ => (Reaches.onFailure ((reaches_compact hp _).bind
      fun _ => (reaches_saveMarkers hp _).bind fun _ => reaches_pure _)
      (reaches_removeTrGuard hp _)).bind fun _ => reaches_pure _

end BlockFileLoader

/-! ## The work of a container -/

section
variable {K T : Type} [DecidableEq K] {fmt : BlockFormat K T}

theorem reaches_processBlock (hp : path ∈ own) (ord : IterOrder) (packetOf : K → Option T) (i : Op)
    (keys : List K) (ptransaction : Option BlockTransaction) :
    Reaches own (processBlock fmt ord packetOf i path keys ptransaction) := by
  unfold processBlock
  refine (BlockFileLoader.reaches_construct hp _ _ _).bind_gives
    (BlockFileLoader.construct_mainPath _ _ _) fun temp htemp => ?_
  cases i with
  | erase => exact (BlockFileLoader.reaches_erase (htemp ▸ hp)).bind fun _ => reaches_pure _
  | modify =>
    refine (reaches_foldlM (fun temp key => temp.reaches_setItem key _) _ _).bind_gives (fun w => ?_)
      fun temp' (htemp' : temp'.mainPath = path) =>
        (BlockFileLoader.reaches_save (htemp' ▸ hp) _).bind fun _ => reaches_pure _
    exact leaves_foldlM (fun _ (temp : BlockFileLoader K T) _ => temp.mainPath = path)
      (fun key rest temp w htemp => (temp.setItem_mainPath key _ w).mono
        (fun _ _ h => h.trans htemp) fun _ h => h) _ _ _ htemp

end

/-- The transactions are kept for files that are in `own`. -/
def ClassTransaction.Owned (own : Set String) (t : ClassTransaction) : Prop :=
  ∀ f ∈ t.overlay, f ∈ own

theorem ClassTransaction.owned_empty : ClassTransaction.empty.Owned own := fun f hf => by
  simp [ClassTransaction.empty] at hf

theorem ClassTransaction.Owned.enter {t : ClassTransaction} (h : t.Owned own) (hp : path ∈ own) :
    (t.enter path).Owned own := fun f hf => by
  rcases (t.mem_enter path f).mp hf with rfl | hf
  · exact hp
  · exact h f hf

theorem ClassTransaction.Owned.entry {t : ClassTransaction} {headFile f : String} (h : t.Owned own)
    (hhead : headFile ∈ own) (hf : f ∉ own) : t.entry headFile f = none := by
  have hne : f ≠ headFile := fun he => hf (he ▸ hhead)
  have hlookup : t.overlay.lookup f = none := AList.lookup_eq_none.mpr fun hin => hf (h f hin)
  rw [ClassTransaction.entry, if_neg hne, hlookup]
  rfl

open Classical in
theorem ClassTransaction.Owned.commit {t : ClassTransaction} {headFile : String} (h : t.Owned own)
    (hhead : headFile ∈ own) (hok : t.Ok headFile) (d e : Disk) :
    t.commit (own.piecewise d e) = own.piecewise (t.commit d) e := by
  funext q
  by_cases hq : q ∈ own
  · rw [Set.piecewise_eq_of_mem _ _ _ hq, hok.commit_apply, hok.commit_apply,
      Set.piecewise_eq_of_mem _ _ _ hq]
  · rw [Set.piecewise_eq_of_notMem _ _ _ hq, hok.commit_apply, h.entry hhead hq]
    exact Set.piecewise_eq_of_notMem _ _ _ hq

open Classical in
theorem ClassTransaction.Owned.rollback {t : ClassTransaction} {headFile : String} (h : t.Owned own)
    (hhead : headFile ∈ own) (hok : t.Ok headFile) (d e : Disk) :
    t.rollback (own.piecewise d e) = own.piecewise (t.rollback d) e := by
  funext q
  by_cases hq : q ∈ own
  · rw [Set.piecewise_eq_of_mem _ _ _ hq, hok.rollback_apply, hok.rollback_apply,
      Set.piecewise_eq_of_mem _ _ _ hq]
  · rw [Set.piecewise_eq_of_notMem _ _ _ hq, hok.rollback_apply, h.entry hhead hq]
    exact Set.piecewise_eq_of_notMem _ _ _ hq

/-! ## The world and the transaction -/

noncomputable def Saver.beside (own : Set String) (e : Disk) (s : Saver) : Saver :=
  { s with world := s.world.beside own e }

/-- The program on a saver reaches no file that is not in `own`. -/
abbrev Saves {α : Type} (own : Set String) (m : SaverM α) (s : Saver) : Prop :=
  Confined (Saver.beside own) (fun s => s.transaction.Owned own) m s

section
variable {s : Saver} (hs : s.transaction.Owned own)
include hs

theorem saves_onWorld {α : Type} {m : FileM α} (h : Reaches own m) : Saves own (onWorld m) s :=
  (h s.world).zoom (fun _ => rfl) (fun _ _ => rfl) fun _ _ => hs

theorem saves_onHead {α : Type}
    {m : Option BlockTransaction → FileM (Option BlockTransaction × α)}
    (h : ∀ ptransaction, Reaches own (m ptransaction)) : Saves own (onHead m) s := by
  refine confined_get_bind (fun _ => rfl) ?_
  refine (saves_onWorld hs (h _)).bind fun r t _ ht => ?_
  exact Confined.bind (confined_modify (fun _ => rfl) ht) fun _ _ _ hu => confined_pure hu

variable {K T : Type} [DecidableEq K] {fmt : BlockFormat K T} {ord : IterOrder}
  {packetOf : K → Option T} {i : Op}

theorem saves_processFile (perFile : Sigma fun _ : String => List K) :
    Saves own (processFile fmt ord packetOf i perFile) s := by
  refine confined_get_bind (fun _ => rfl) ?_
  cases hlookup : s.transaction.overlay.lookup perFile.1 with
  | none => exact confined_throw hs
  | some ptransaction =>
    have hin : perFile.1 ∈ s.transaction.overlay := UMap.mem_iff.mpr ⟨_, hlookup⟩
    refine (saves_onWorld hs (reaches_processBlock (hs _ hin) _ _ _ _ _)).bind fun taken t _ ht => ?_
    refine confined_modify (fun _ => rfl) fun f hf => ?_
    rcases (AList.mem_insert _).mp hf with rfl | hf
    · exact hs _ hin
    · exact ht f hf

theorem saves_fileSaverHelper (fileNameToKeys : UMap String (List K)) :
    Saves own (fileSaverHelper fmt ord packetOf i fileNameToKeys) s :=
  confined_foldlM (fun perFile _ _ _ ht => saves_processFile ht perFile) _ hs

end

/-! ## The common part of a container -/

namespace Core

variable {K T : Type}

noncomputable def beside (own : Set String) (e : Disk) (s : CoreState K T) : CoreState K T :=
  { s with world := s.world.beside own e }

/-- The program on what the containers have in common reaches no file that is not in `own`. -/
abbrev Accesses {α : Type} (own : Set String) (m : CoreM K T α) (s : CoreState K T) : Prop :=
  Confined (beside own) (fun s => s.core.transaction.Owned own) m s

theorem owned_enter {c : Core K T} (h : c.transaction.Owned own) (hp : path ∈ own) :
    (c.enter path).transaction.Owned own := by
  cases hc : c.ptransaction with
  | none =>
    rw [c.enter_of_closed path hc]
    exact h
  | some t =>
    rw [c.transaction_enter path (by rw [hc]; rfl)]
    exact h.enter hp

theorem accesses_getPacket {s : CoreState K T} (hs : s.core.transaction.Owned own)
    (packet : Option T) : Accesses own (getPacket packet) s := by
  cases packet with
  | some v => exact confined_pure hs
  | none => exact confined_throw hs

section
variable [DecidableEq K] {fmt : BlockFormat K T} {s : CoreState K T}
  (hs : s.core.transaction.Owned own) (hp : path ∈ own)
include hs hp

theorem accesses_load (key : K) : Accesses own (load fmt path key) s := by
  refine Confined.bind (confined_modify (fun _ => rfl) (owned_enter hs hp)) fun _ s _ hs => ?_
  refine confined_get_bind (fun _ => rfl) ?_
  refine Confined.bind (Confined.zoom (Reaches.bind (BlockFileLoader.reaches_construct hp _ _ _)
    (fun temp => temp.reaches_get key) _) (fun _ => rfl) (fun _ _ => rfl) fun _ _ => hs)
    fun packet t _ ht => ?_
  exact confined_modify (fun _ => rfl) ht

theorem accesses_reach (key : K) (texts : AccessTexts) (known : Bool) :
    Accesses own (reach fmt path key texts known) s := by
  refine confined_get_bind (fun _ => rfl) ?_
  split
  · split
    · exact confined_throw hs
    · exact accesses_getPacket hs _
  · split
    · refine (accesses_load hs hp key).bind fun _ t _ ht => confined_get_bind (fun _ => rfl) ?_
      split
      · split
        · exact confined_throw ht
        · exact accesses_getPacket ht _
      · exact confined_throw ht
    · exact confined_throw hs

theorem accesses_mutableAt (key : K) (texts : AccessTexts) (known : Bool) (assign : T → T) :
    Accesses own (mutableAt fmt path key texts known assign) s := by
  refine (accesses_reach hs hp key texts known).bind fun v t _ ht => ?_
  exact Confined.bind (confined_modify (fun _ => rfl) ht) fun _ _ _ hu => confined_pure hu

end

end Core

end MeshPP.SystemUtility
