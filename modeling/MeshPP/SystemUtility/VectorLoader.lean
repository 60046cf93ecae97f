import MeshPP.SystemUtility.MapLoader

/-! # `vector_loader`

The container `vector_loader` over `vector_loader_internals`, as the source
computes it. Sizes and indices are natural numbers. The size of the stored
sequence lies in a block file of its own, under the key 0. -/

namespace MeshPP.SystemUtility
open MeshPP.Lib

/-- What is fixed for one container. -/
structure VectorConfig (T : Type) where
  name : String
  limit : Nat
  group : Nat
  item : Codec (BlockItem Nat T)
  sizeItem : Codec (BlockItem Nat Nat)

namespace VectorConfig
variable {T : Type} (cfg : VectorConfig T)

abbrev blockFormat : BlockFormat Nat T := .ofCodec cfg.item UInt64.ofNat

abbrev sizeFormat : BlockFormat Nat Nat := .ofCodec cfg.sizeItem UInt64.ofNat

def sizeFile : String := cfg.name ++ ".size"

def filename (index : Nat) : String :=
  cfg.name ++ "." ++ padded (index / cfg.group % cfg.limit)

end VectorConfig

/-- `vector_loader_internals`. -/
structure VectorLoader (T : Type) extends Core Nat T where
  size : Nat
  sizeWithOverlay : Nat

structure VectorState (T : Type) where
  world : World
  self : VectorLoader T

abbrev VectorM (T : Type) := EStateM Err (VectorState T)

variable {T : Type} (cfg : VectorConfig T)

def loadSize (ord : IterOrder) : FileM Nat := do
  let temp ← BlockFileLoader.construct cfg.sizeFormat cfg.sizeFile [] none false
  (ord.order temp.loaded).foldlM (fun _ key => temp.getValue key) 0

/-- The constructor. -/
def VectorLoader.construct (ord : IterOrder) : FileM (VectorLoader T) := do
  let size ← loadSize cfg ord
  pure { size, sizeWithOverlay := size, overlay := ∅, ptransaction := none }

namespace VectorLoader

/-- The part of a program that works on what the containers have in common. -/
def onCore {α : Type} (m : CoreM Nat T α) : VectorM T α :=
  zoom (fun s => ⟨s.world, s.self.toCore⟩)
    (fun c s => { world := c.world, self := { s.self with toCore := c.core } }) m

/-! ## Access -/

def deletedText (name : String) (index : Nat) : String :=
  "index is deleted in container overlay: \"" ++ toString index ++ "\", \"" ++ name ++ "\""

def outOfRangeText (name : String) (index : Nat) : String :=
  "index is out of range of container: \"" ++ toString index ++ "\", \"" ++ name ++ "\""

def justLoadedText (name : String) (index : Nat) : String :=
  "index must have just been loaded to overlay: \"" ++ toString index ++ "\", \"" ++ name ++ "\""

def texts (name : String) (index : Nat) : AccessTexts :=
  ⟨deletedText name index, outOfRangeText name index, justLoadedText name index⟩

def emptyText (name : String) : String := name ++ ": container empty"

def load (index : Nat) : VectorM T PUnit :=
  onCore (Core.load cfg.blockFormat (cfg.filename index) index)

def constAt (index : Nat) : VectorM T T := do
  let known := decide (index < (← get).self.size)
  onCore (Core.reach cfg.blockFormat (cfg.filename index) index (texts cfg.name index) known)

def mutableAt (index : Nat) (assign : T → T) : VectorM T T := do
  let known := decide (index < (← get).self.size)
  onCore (Core.mutableAt cfg.blockFormat (cfg.filename index) index (texts cfg.name index) known
    assign)

def pushBack (self : VectorLoader T) (value : T) : VectorLoader T :=
  { self with
    overlay := self.overlay.insert self.sizeWithOverlay (some value, .modified)
    sizeWithOverlay := self.sizeWithOverlay + 1 }

def popBack : VectorM T PUnit := do
  if (← get).self.sizeWithOverlay = 0 then throw (.runtimeError (emptyText cfg.name))
  else
    modify fun s =>
      let index := s.self.sizeWithOverlay - 1
      let overlay := match s.self.overlay.lookup index with
        | none => s.self.overlay.insert index (none, .deleted)
        | some (packet, _) =>
          if s.self.size ≤ index then s.self.overlay.erase index
          else s.self.overlay.insert index (packet, .deleted)
      { s with self := { s.self with overlay, sizeWithOverlay := index } }

def clear (self : VectorLoader T) : VectorLoader T :=
  { self with
    overlay := (List.range self.size).foldl (fun o index => o.insert index (none, .deleted)) ∅
    sizeWithOverlay := 0 }

/-! ## Saving -/

def groupByFile (groupKeys : List Nat) : UMap String (List Nat) :=
  groupKeys.foldl (fun groups key => pushKey groups (cfg.filename key) key) ∅

/-- The size after one key of a group. -/
def resized : Op → Nat → Nat → Nat
  | .erase, size, key => if size > key then key else size
  | .modify, size, key => if key ≥ size then key + 1 else size

/-- The size in memory and the entries of the transaction follow one group. -/
def note (i : Op) (self : VectorLoader T) (perFile : Sigma fun _ : String => List Nat) :
    VectorLoader T :=
  { self with
    toCore := self.enter perFile.1
    size := perFile.2.foldl (resized i) self.size }

def onSaver {α : Type} (m : SaverM α) : VectorM T α :=
  zoom (fun s => ⟨s.world, s.self.transaction⟩)
    (fun t s => { world := t.world, self := { s.self with ptransaction := some t.transaction } }) m

def saveGroup (ord : IterOrder) (i : Op) (groupKeys : List Nat) : VectorM T PUnit :=
  if groupKeys.isEmpty then pure ⟨⟩
  else do
    let fileNameToKeys := groupByFile cfg groupKeys
    modify fun s => { s with self := (ord.order fileNameToKeys.entries).foldl (note i) s.self }
    let overlay := (← get).self.overlay
    onSaver (fileSaverHelper cfg.blockFormat ord overlay.packetOf i fileNameToKeys)

/-- The part of `save` that owns the size block. -/
def saveSize (ord : IterOrder) (size : Nat) (ptransactionSize : Option BlockTransaction) :
    FileM (Option BlockTransaction × PUnit) := do
  let temp ← BlockFileLoader.construct cfg.sizeFormat cfg.sizeFile [0] ptransactionSize false
  let temp ← temp.setItem 0 (some size)
  let temp ← temp.save cfg.sizeFormat ord
  pure (temp.ptransaction, ⟨⟩)

/-! ## Commit and discard -/

/-- `discard` is `noexcept`: a size that cannot be read ends the program. The calls
it makes are taken to succeed. -/
def discard (ord : IterOrder) : VectorM T PUnit := fun s =>
  let disk := match s.self.ptransaction with
    | some t => t.rollback s.world.disk
    | none => s.world.disk
  match (loadSize cfg ord ⟨disk, []⟩ : EStateM.Result Err World Nat) with
  | .ok size _ =>
    .ok ⟨⟩ { world := { s.world with disk },
             self := ⟨⟨∅, none⟩, size, size⟩ }
  | .error _ _ => .error (.logicError "std::terminate") s

def commit : VectorM T PUnit :=
  modify fun s => match s.self.ptransaction with
    | some t =>
      { world := { s.world with disk := t.commit s.world.disk }
        self := { s.self with ptransaction := none } }
    | none => s

/-- The part of `save` behind the creation of the transaction. -/
def saveGroups (ord : IterOrder) : VectorM T PUnit := do
  let overlay := (← get).self.overlay
  saveGroup cfg ord .erase (overlay.keysOf ord .deleted)
  saveGroup cfg ord .modify (overlay.keysOf ord .modified)
  modify fun s => { s with self := { s.self with overlay := ∅ } }
  let size := (← get).self.size
  onSaver (onHead (saveSize cfg ord size))

def save (ord : IterOrder) : VectorM T PUnit := do
  if (← get).self.overlay.entries.isEmpty then pure ⟨⟩
  else do
    modify fun s => { s with self := { s.self with toCore := s.self.opened } }
    -- nothing between the guard and the creation of the transaction can throw
    onFailure (discard cfg ord) (saveGroups cfg ord)

end VectorLoader

/-! ## The container as a machine -/

inductive VectorOp (T : Type)
  | pushBack (value : T)
  | popBack
  | mutableAt (index : Nat) (assign : T → T)
  | constAt (index : Nat)
  | clear
  | size

/-- What an operation returns or throws. -/
inductive VectorOut (T : Type)
  | done
  | size (n : Nat)
  | value (v : T)
  | thrown (e : Err)

structure VectorStore (T : Type) where
  disk : Disk
  self : VectorLoader T

def VectorLoader.act : VectorOp T → VectorM T (VectorOut T)
  | .pushBack value => do modify fun s => { s with self := s.self.pushBack value }; pure .done
  | .popBack => do VectorLoader.popBack cfg; pure .done
  | .mutableAt index assign => do pure (.value (← VectorLoader.mutableAt cfg index assign))
  | .constAt index => do pure (.value (← VectorLoader.constAt cfg index))
  | .clear => do modify fun s => { s with self := s.self.clear }; pure .done
  | .size => do pure (.size (← get).self.sizeWithOverlay)

/-- The destructor commits; the constructor reads the directory again. -/
def VectorLoader.reopen (ord : IterOrder) : VectorM T PUnit := do
  VectorLoader.commit
  let w := (← get).world
  match (VectorLoader.construct cfg ord ⟨w.disk, []⟩ :
    EStateM.Result Err World (VectorLoader T)) with
  | .ok self _ => modify fun s => { s with self }
  | .error e _ => throw e

def VectorLoader.perform (ord : IterOrder) : TxnOp (VectorOp T) → VectorM T (VectorOut T)
  | .act op => VectorLoader.act cfg op
  | .save => do VectorLoader.save cfg ord; pure .done
  | .commit => do VectorLoader.commit; pure .done
  | .discard => do VectorLoader.discard cfg ord; pure .done
  | .reopen => do VectorLoader.reopen cfg ord; pure .done

def VectorStore.step (s : VectorStore T) (c : Call (VectorOp T)) : VectorOut T × VectorStore T :=
  match VectorLoader.perform cfg c.ord c.op ⟨⟨s.disk, c.faults⟩, s.self⟩ with
  | .ok out t => (out, ⟨t.world.disk, t.self⟩)
  | .error e t => (.thrown e, ⟨t.world.disk, t.self⟩)

/-- A container opened on a directory in which every file operation succeeds. -/
def VectorStore.opened (ord : IterOrder) (d : Disk) : Option (VectorStore T) :=
  match (VectorLoader.construct cfg ord ⟨d, []⟩ : EStateM.Result Err World (VectorLoader T)) with
  | .ok self _ => some ⟨d, self⟩
  | .error _ _ => none

end MeshPP.SystemUtility
