import Mathlib.Data.Finmap
import MeshPP.Lib.Transactional
import MeshPP.SystemUtility.Container

/-! # `map_loader`

The container `map_loader` over `map_loader_internals`, as the source computes
it. A `std::string` is a string of characters below 256, one for each byte. The
state of a program that works on a container is the world and the container,
so an exception leaves both as they were when it was thrown.

The reference the mutable `at` returns is written through at once: the
operation carries the function the caller applies to what it refers to. -/

namespace MeshPP.SystemUtility
open MeshPP.Lib

/-- What is fixed for one container: its name and limit, `std::hash`, and the
generated serializations of its items and of its index. -/
structure MapConfig (T : Type) where
  name : String
  limit : Nat
  hash : String → UInt64
  item : Codec (BlockItem String T)
  indexItem : Codec (BlockItem String String)

/-- `std::to_string` padded with zeros to four characters. -/
def padded (n : Nat) : String :=
  let strh := toString n
  String.ofList (List.replicate (4 - strh.length) '0') ++ strh

namespace MapConfig
variable {T : Type} (cfg : MapConfig T)

/-- The hash of a key after its first byte has been incremented. -/
def keyToUint64 (key : String) : UInt64 :=
  match key.toList with
  | [] => cfg.hash key
  | c :: rest => cfg.hash (String.ofList (Char.ofNat ((c.toNat + 1) % 256) :: rest))

abbrev blockFormat : BlockFormat String T := .ofCodec cfg.item cfg.keyToUint64

abbrev indexFormat : BlockFormat String String := .ofCodec cfg.indexItem cfg.keyToUint64

def indexFile : String := cfg.name ++ ".index"

def filename (key : String) : String :=
  cfg.name ++ "." ++ padded ((cfg.hash key).toNat % cfg.limit)

end MapConfig

/-- `map_loader_internals`. -/
structure MapLoader (T : Type) extends Core String T where
  index : UMap String String
  indexToRollback : UMap String String
  keysWithOverlay : Finset String

structure MapState (T : Type) where
  world : World
  self : MapLoader T

abbrev MapM (T : Type) := EStateM Err (MapState T)

variable {T : Type} (cfg : MapConfig T)

def loadIndex (ord : IterOrder) : FileM (UMap String String) := do
  let temp ← BlockFileLoader.construct cfg.indexFormat cfg.indexFile [] none false
  (ord.order temp.loaded).foldlM (fun index key => do
    let value ← temp.getValue key
    pure (index.insert key value)) ∅

/-- The constructor. -/
def MapLoader.construct (ord : IterOrder) : FileM (MapLoader T) := do
  let index ← loadIndex cfg ord
  pure { index, indexToRollback := index, keysWithOverlay := index.keys.toFinset, overlay := ∅,
         ptransaction := none }

namespace MapLoader

/-- The part of a program that works on what the containers have in common. -/
def onCore {α : Type} (m : CoreM String T α) : MapM T α :=
  zoom (fun s => ⟨s.world, s.self.toCore⟩)
    (fun c s => { world := c.world, self := { s.self with toCore := c.core } }) m

/-! ## Access -/

def deletedText (name key : String) : String :=
  "key is deleted in container overlay: \"" ++ key ++ "\", \"" ++ name ++ "\""

def notFoundText (name key : String) : String :=
  "key not found in container index: \"" ++ key ++ "\", \"" ++ name ++ "\""

def justLoadedText (name key : String) : String :=
  "key must have just been loaded to overlay: \"" ++ key ++ "\", \"" ++ name ++ "\""

def texts (name key : String) : AccessTexts :=
  ⟨deletedText name key, notFoundText name key, justLoadedText name key⟩

def load (key : String) : MapM T PUnit := onCore (Core.load cfg.blockFormat (cfg.filename key) key)

def constAt (key : String) : MapM T T := do
  let known := decide (key ∈ (← get).self.index)
  onCore (Core.reach cfg.blockFormat (cfg.filename key) key (texts cfg.name key) known)

def mutableAt (key : String) (assign : T → T) : MapM T T := do
  let known := decide (key ∈ (← get).self.index)
  onCore (Core.mutableAt cfg.blockFormat (cfg.filename key) key (texts cfg.name key) known assign)

/-- `keys_with_overlay.insert(key)`, which has to be news. -/
def insertKey (key : String) : MapM T Bool := do
  if key ∈ (← get).self.keysWithOverlay then throw (.logicError "insert_res.second == false")
  else do
    modify fun s => { s with self :=
      { s.self with keysWithOverlay := insert key s.self.keysWithOverlay } }
    pure true

def insert (key : String) (value : T) : MapM T Bool := do
  let put : MapM T PUnit := modify fun s => { s with self :=
    { s.self with overlay := s.self.overlay.insert key (some value, .modified) } }
  match (← get).self.overlay.lookup key with
  | some (_, code) =>
    -- already exists in overlay, or is marked as deleted there
    if code ≠ .deleted then pure false
    else do put; insertKey key
  | none =>
    if key ∈ (← get).self.index then pure false
    else do put; insertKey key

def eraseKey (key : String) : MapM T Nat := do
  if key ∈ (← get).self.keysWithOverlay then do
    modify fun s => { s with self :=
      { s.self with keysWithOverlay := s.self.keysWithOverlay.erase key } }
    pure 1
  else throw (.logicError "erased_from_keys_with_overlay != 1")

def erase (key : String) : MapM T Nat := do
  let mark (packet : Option T) : MapM T PUnit := modify fun s => { s with self :=
    { s.self with overlay := s.self.overlay.insert key (packet, .deleted) } }
  match (← get).self.overlay.lookup key with
  | none =>
    if key ∈ (← get).self.index then do mark none; eraseKey key
    else pure 0
  | some (packet, code) =>
    if code = .deleted then pure 0
    else if key ∈ (← get).self.index then do mark packet; eraseKey key
    else do
      modify fun s => { s with self := { s.self with overlay := s.self.overlay.erase key } }
      eraseKey key

def contains (self : MapLoader T) (key : String) : Bool := key ∈ self.keysWithOverlay

def keys (self : MapLoader T) : Finset String := self.keysWithOverlay

def clear (self : MapLoader T) : MapLoader T :=
  { self with
    overlay := self.index.entries.foldl
      (fun o e => if e.1 ∈ o then o else o.insert e.1 (none, .deleted)) ∅
    keysWithOverlay := ∅ }

/-! ## Saving -/

/-- `index_bl` and `file_name_to_keys` after one more key of the group. -/
def groupKey (i : Op) (loadedKeys : List String)
    (acc : BlockFileLoader String String × UMap String (List String)) (key : String) :
    FileM (BlockFileLoader String String × UMap String (List String)) :=
  if key ∈ loadedKeys then do
    match ← acc.1.get key with
    | some indexItem => pure (acc.1, pushKey acc.2 indexItem key)
    | none => throw emptyPacket
  else
    match i with
    | .erase => throw (.logicError "i == e_op_erase")
    | .modify => do
      let strFilename := cfg.filename key
      let indexBl ← acc.1.setItem key (some strFilename)
      pure (indexBl, pushKey acc.2 strFilename key)

/-- The part of the loop of `save` that owns the index block. -/
def saveIndex (ord : IterOrder) (i : Op) (groupKeys : List String)
    (ptransactionIndex : Option BlockTransaction) :
    FileM (Option BlockTransaction × UMap String (List String)) := do
  let indexBl ← BlockFileLoader.construct cfg.indexFormat cfg.indexFile groupKeys
    ptransactionIndex false
  let (indexBl, fileNameToKeys) ← groupKeys.foldlM (groupKey cfg i indexBl.loaded) (indexBl, ∅)
  match i with
  | .erase =>
    let indexBl ← indexBl.erase
    pure (indexBl.ptransaction, fileNameToKeys)
  | .modify =>
    let indexBl ← indexBl.save cfg.indexFormat ord
    pure (indexBl.ptransaction, fileNameToKeys)

/-- The index in memory and the entries of the transaction follow one group. -/
def note (i : Op) (self : MapLoader T) (perFile : Sigma fun _ : String => List String) :
    MapLoader T :=
  { self with
    toCore := self.enter perFile.1
    index := match i with
      | .erase => perFile.2.foldl (fun index key => index.erase key) self.index
      | .modify => perFile.2.foldl
          (fun index key => if key ∈ index then index else index.insert key perFile.1)
          self.index }

/-- The part of a program on a container that `file_saver_helper` works on. -/
def onSaver {α : Type} (m : SaverM α) : MapM T α :=
  zoom (fun s => ⟨s.world, s.self.transaction⟩)
    (fun t s => { world := t.world, self := { s.self with ptransaction := some t.transaction } }) m

def saveGroup (ord : IterOrder) (i : Op) (groupKeys : List String) : MapM T PUnit :=
  if groupKeys.isEmpty then pure ⟨⟩
  else do
    let fileNameToKeys ← onSaver (onHead (saveIndex cfg ord i groupKeys))
    modify fun s => { s with self := (ord.order fileNameToKeys.entries).foldl (note i) s.self }
    let overlay := (← get).self.overlay
    onSaver (fileSaverHelper cfg.blockFormat ord overlay.packetOf i fileNameToKeys)

/-! ## Commit and discard -/

/-- What `discard` leaves of a container without an open transaction. -/
def cleared (self : MapLoader T) : MapLoader T :=
  { self with overlay := ∅, keysWithOverlay := self.index.keys.toFinset }

/-- `discard` is `noexcept`: an index that differs where no transaction is open
ends the program. -/
def discard : MapM T PUnit := fun s =>
  match s.self.ptransaction with
  | some t =>
    .ok ⟨⟩
      { world := { s.world with disk := t.rollback s.world.disk }
        self := { s.self with ptransaction := none, index := s.self.indexToRollback }.cleared }
  | none =>
    if s.self.index.entries.isPerm s.self.indexToRollback.entries then
      .ok ⟨⟩ { s with self := s.self.cleared }
    else .error (.logicError "std::terminate") s

def commit : MapM T PUnit :=
  modify fun s => match s.self.ptransaction with
    | some t =>
      { world := { s.world with disk := t.commit s.world.disk }
        self := { s.self with ptransaction := none, indexToRollback := s.self.index } }
    | none => s

/-- The part of `save` behind the creation of the transaction. -/
def saveGroups (ord : IterOrder) : MapM T PUnit := do
  let overlay := (← get).self.overlay
  saveGroup cfg ord .erase (overlay.keysOf ord .deleted)
  saveGroup cfg ord .modify (overlay.keysOf ord .modified)
  modify fun s => { s with self := { s.self with overlay := ∅ } }

def save (ord : IterOrder) : MapM T PUnit := do
  if (← get).self.overlay.entries.isEmpty then pure ⟨⟩
  else do
    modify fun s => { s with self := { s.self with toCore := s.self.opened } }
    -- nothing between the guard and the creation of the transaction can throw
    onFailure discard (saveGroups cfg ord)

end MapLoader

/-! ## The container as a machine -/

inductive MapOp (T : Type)
  | insert (key : String) (value : T)
  | erase (key : String)
  | mutableAt (key : String) (assign : T → T)
  | constAt (key : String)
  | clear
  | contains (key : String)
  | keys

/-- What an operation returns or throws. -/
inductive MapOut (T : Type)
  | done
  | flag (b : Bool)
  | count (n : Nat)
  | value (v : T)
  | keys (ks : Finset String)
  | thrown (e : Err)
  deriving DecidableEq

/-- One operation, the order its loops take, and the faults its calls meet. -/
structure Call (Op : Type) where
  op : TxnOp Op
  ord : IterOrder
  faults : List (Option Fault)

/-- Some call on a file fails during the operation. -/
def Call.Faulty {Op : Type} (c : Call Op) : Prop := ∃ x, some x ∈ c.faults

structure MapStore (T : Type) where
  disk : Disk
  self : MapLoader T

def MapLoader.act : MapOp T → MapM T (MapOut T)
  | .insert key value => do pure (.flag (← MapLoader.insert key value))
  | .erase key => do pure (.count (← MapLoader.erase key))
  | .mutableAt key assign => do pure (.value (← MapLoader.mutableAt cfg key assign))
  | .constAt key => do pure (.value (← MapLoader.constAt cfg key))
  | .clear => do modify fun s => { s with self := s.self.clear }; pure .done
  | .contains key => do pure (.flag ((← get).self.contains key))
  | .keys => do pure (.keys (← get).self.keys)

/-- The destructor commits; the constructor reads the directory again. -/
def MapLoader.reopen (ord : IterOrder) : MapM T PUnit := do
  MapLoader.commit
  let w := (← get).world
  match (MapLoader.construct cfg ord ⟨w.disk, []⟩ : EStateM.Result Err World (MapLoader T)) with
  | .ok self _ => modify fun s => { s with self }
  | .error e _ => throw e

def MapLoader.perform (ord : IterOrder) : TxnOp (MapOp T) → MapM T (MapOut T)
  | .act op => MapLoader.act cfg op
  | .save => do MapLoader.save cfg ord; pure .done
  | .commit => do MapLoader.commit; pure .done
  | .discard => do MapLoader.discard; pure .done
  | .reopen => do MapLoader.reopen cfg ord; pure .done

def MapStore.step (s : MapStore T) (c : Call (MapOp T)) : MapOut T × MapStore T :=
  match MapLoader.perform cfg c.ord c.op ⟨⟨s.disk, c.faults⟩, s.self⟩ with
  | .ok out t => (out, ⟨t.world.disk, t.self⟩)
  | .error e t => (.thrown e, ⟨t.world.disk, t.self⟩)

/-- A container opened on a directory in which every file operation succeeds. -/
def MapStore.opened (ord : IterOrder) (d : Disk) : Option (MapStore T) :=
  match (MapLoader.construct cfg ord ⟨d, []⟩ : EStateM.Result Err World (MapLoader T)) with
  | .ok self _ => some ⟨d, self⟩
  | .error _ _ => none

end MeshPP.SystemUtility
