import MeshPP.Lib.Unordered
import MeshPP.SystemUtility.Disk

/-! # `block_file_loader`

The loader of one block file, as the source computes it: the constructor with
its marker checks and keyed loading, `save`, `erase`, `compact`,
`save_markers`, and the transaction of one block. A loader is a value; `save`
and `erase` return the loader they leave behind. `size_t(-1)` is `none`.

The values are an unordered map, and the loop of `save` over them takes the
entries in an order chosen by an `IterOrder`. -/

namespace MeshPP.SystemUtility
open MeshPP.Lib

/-- `Data::StringBlockItem` and `Data::UInt64BlockItem`: a key and a packet,
which is `none` where nothing has been put into it. -/
structure BlockItem (K T : Type) where
  key : K
  item : Option T
  deriving DecidableEq, Repr

/-- A generated serialization: `from_string` undoes `to_string`, which is never empty. -/
structure Codec (α : Type) where
  toString : α → Bytes
  fromString : Bytes → Option α
  toString_ne_nil : ∀ it, toString it ≠ []
  fromString_toString : ∀ it, fromString (toString it) = some it

/-- The serialization of the items of a block and the hash of their keys. -/
structure BlockFormat (K T : Type) where
  toString : BlockItem K T → Bytes
  fromString : Bytes → Option (BlockItem K T)
  keyToUint64 : K → UInt64

/-- The row of the item is not empty, and is read back. -/
structure BlockFormat.Writes {K T : Type} (fmt : BlockFormat K T) (it : BlockItem K T) : Prop where
  toString_ne_nil : fmt.toString it ≠ []
  fromString_toString : fmt.fromString (fmt.toString it) = some it

/-- Every item is read back. -/
class BlockFormat.Lawful {K T : Type} (fmt : BlockFormat K T) : Prop where
  writes : ∀ it, fmt.Writes it

def BlockFormat.ofCodec {K T : Type} (codec : Codec (BlockItem K T)) (keyToUint64 : K → UInt64) :
    BlockFormat K T := { codec with keyToUint64 }

instance {K T : Type} (codec : Codec (BlockItem K T)) (keyToUint64 : K → UInt64) :
    (BlockFormat.ofCodec codec keyToUint64).Lawful where
  writes it := ⟨codec.toString_ne_nil it, codec.fromString_toString it⟩

structure Value (K T : Type) where
  item : BlockItem K T
  loadedMarkerIndex : Option Nat
  deriving DecidableEq, Repr

/-! ## The transaction of one block -/

structure BlockTransaction where
  filePath : String
  commited : Bool
  deriving DecidableEq, Repr

/-- The file-system calls of `class_transaction::commit`, in their order. -/
def commitCalls : List (Files → Files) :=
  [fun f => if f.main.isSome then { f with main := none } else f,
   fun f => if f.tr.isSome then { f with main := f.tr, tr := none } else f,
   fun f => if f.m.isSome then { f with m := none } else f,
   fun f => if f.mTr.isSome then { f with m := f.mTr, mTr := none } else f]

/-- The file-system calls of `class_transaction::rollback`, in their order. -/
def rollbackCalls : List (Files → Files) :=
  [fun f => if f.tr.isSome then { f with tr := none } else f,
   fun f => if f.mTr.isSome then { f with mTr := none } else f]

def Files.after (f : Files) (calls : List (Files → Files)) : Files :=
  calls.foldl (fun g c => c g) f

def BlockTransaction.commit (t : BlockTransaction) (d : Disk) : Disk :=
  if t.commited then d else Function.update d t.filePath ((d t.filePath).after commitCalls)

def BlockTransaction.rollback (t : BlockTransaction) (d : Disk) : Disk :=
  if t.commited then d else Function.update d t.filePath ((d t.filePath).after rollbackCalls)

/-! ## Loading -/

structure BlockFileLoader (K T : Type) where
  modified : Bool
  purposeClearAll : Bool
  ptransaction : Option BlockTransaction
  mainPath : String
  values : UMap K (Value K T)
  markers : List Marker

/-- The checks of the constructor on consecutive marker entries. -/
def checkMarkers (path : String) : Option Marker → List Marker → FileM PUnit
  | _, [] => pure ⟨⟩
  | previous, item :: rest =>
    if item.end_ ≤ item.start then
      throw (.runtimeError ("invalid entry in marker file: " ++ path))
    else if previous.any fun p => decide (p.end_ > item.start) then
      throw (.runtimeError ("invalid consequtive entry in marker file: " ++ path))
    else checkMarkers path (some item) rest

def loadMarkers (path : String) : Option MarkerFile → FileM (List Marker)
  | none => pure []
  | some file =>
    if file.stray ≠ 0 then
      throw (.runtimeError ("invalid marker file size: " ++ path))
    else do
      checkMarkers path none file.entries
      pure file.entries

/-- The position that a message of `check` tells. -/
def atBeg (pos : Nat) : String := toString pos ++ "-beg"

/-- The piece of the file that a message of `check` tells. -/
def fromTo (start end_ : Nat) : String := toString start ++ "-" ++ toString end_

/-- `seekg` and `read` of one row; a row that ends behind the file sets eofbit. -/
def readRow (function path info : String) (contents : Bytes) (start end_ : Nat) :
    FileM Bytes := do
  readCall (check function "seekg" (atBeg start) path info)
  readCall (check function "read" (fromTo start end_) path info)
  if end_ ≤ contents.length then pure (slice contents start end_)
  else throw (.runtimeError (check function "read" (fromTo start end_) path info .eofbit))

variable {K T : Type} [DecidableEq K] (fmt : BlockFormat K T)

/-- The requested keys with their found flags, and the values loaded so far. The
source keeps the flags in one bucket per hash; a key lies in its hash's bucket. -/
structure Loading (K T : Type) where
  keysEx : UMap K Bool
  values : UMap K (Value K T)

def requestKeys (keys : List K) : UMap K Bool :=
  keys.foldl (fun ex key => ex.insert key false) ∅

def loadRow (path : String) (contents : Bytes) (loadAll : Bool) (l : Loading K T) (index : Nat)
    (item : Marker) : FileM (Loading K T) :=
  if loadAll || l.keysEx.keys.any (fun key => fmt.keyToUint64 key == item.key) then do
    let row ← readRow "block_file_loader" path "" contents item.start item.end_
    match fmt.fromString row with
    | none => throw (.runtimeError "from_string")
    | some newItem =>
      if loadAll then
        pure { l with values := l.values.insert newItem.key ⟨newItem, some index⟩ }
      else if newItem.key ∈ l.keysEx && fmt.keyToUint64 newItem.key == item.key then
        pure { keysEx := l.keysEx.insert newItem.key true,
               values := l.values.insert newItem.key ⟨newItem, some index⟩ }
      else pure l
  else pure l

def loadRows (path : String) (contents : Bytes) (loadAll : Bool) :
    Nat → List Marker → Loading K T → FileM (Loading K T)
  | _, [], l => pure l
  | index, item :: rest, l => do
    let l ← loadRow fmt path contents loadAll l index item
    loadRows path contents loadAll (index + 1) rest l

/-- A requested key that was not found gets a default item. -/
def addMissing (l : Loading K T) : UMap K (Value K T) :=
  l.keysEx.entries.foldl
    (fun values e => if e.2 then values else values.insert e.1 ⟨⟨e.1, none⟩, none⟩) l.values

/-- `beltpp::packet::get` of a packet nothing has been put into. -/
def emptyPacket : Err := .runtimeError "packet::get"

namespace BlockFileLoader

def construct (path : String) (keys : List K) (ptransaction : Option BlockTransaction)
    (purposeClear : Bool) : FileM (BlockFileLoader K T) := do
  let files := (← get).disk path
  let markerPath := if ptransaction.isNone then filePathMarker path else filePathMarkerTr path
  let contentsPath := if ptransaction.isNone then path else filePathTr path
  let markers ← loadMarkers markerPath (if ptransaction.isNone then files.m else files.mTr)
  let contents := ((if ptransaction.isNone then files.main else files.tr).getD [])
  let loadAll := keys.isEmpty
  let markers := if loadAll && contents.isEmpty then [] else markers
  let purposeClearAll := purposeClear && keys.length == markers.length && !loadAll
  let start : Loading K T := ⟨requestKeys keys, ∅⟩
  let l ← if !contents.isEmpty && !purposeClearAll then
      loadRows fmt contentsPath contents loadAll 0 markers start
    else pure start
  pure { modified := false, purposeClearAll, ptransaction, mainPath := path,
         values := addMissing l, markers }

/-- The keys that were found in the file. -/
def loaded (self : BlockFileLoader K T) : List K :=
  (self.values.entries.filter fun e => e.2.loadedMarkerIndex.isSome).map Sigma.fst

/-- `values.at(key).item.item`, read through the constant `operator[]`. -/
def get (self : BlockFileLoader K T) (key : K) : FileM (Option T) :=
  match self.values.lookup key with
  | some v => pure v.item.item
  | none => throw (.outOfRange "unordered_map::at")

/-- The value in the packet of the item under `key`. -/
def getValue (self : BlockFileLoader K T) (key : K) : FileM T := do
  match ← self.get key with
  | some value => pure value
  | none => throw emptyPacket

/-- `operator[]` followed by an assignment to the packet of the item. -/
def setItem (self : BlockFileLoader K T) (key : K) (packet : Option T) :
    FileM (BlockFileLoader K T) :=
  match self.values.lookup key with
  | some v => pure { self with
      modified := true,
      values := self.values.insert key { v with item := { v.item with item := packet } } }
  | none => throw (.outOfRange "unordered_map::at")

end BlockFileLoader

/-! ## Compaction -/

/-- The first loop of `compact`: the shift after the last marker, the marked
size, and the end the last marker would have after the move. -/
def gapSums (markers : List Marker) : Nat × Nat × Nat :=
  markers.foldl (fun (_, sizeSum, start) item =>
    (item.start - start, sizeSum + (item.end_ - item.start), item.end_ - (item.start - start)))
    (0, 0, 0)

def chunkLimit : Nat := 10 * 1024 * 1024

/-- Merge adjacent markers into chunks below the limit; `chunk` is the one the
write index stands behind. -/
def mergeFrom (chunk : Marker) : List Marker → List Marker
  | [] => [chunk]
  | item :: rest =>
    if chunk.end_ = item.start ∧ item.end_ - chunk.start < chunkLimit then
      mergeFrom { chunk with end_ := item.end_ } rest
    else chunk :: mergeFrom item rest

def mergeChunks : List Marker → List Marker
  | [] => []
  | item :: rest => mergeFrom item rest

/-- The loop that moves the marker entries to the left. -/
def shiftMarkers : Nat → List Marker → List Marker
  | _, [] => []
  | start, item :: rest =>
    let shift := item.start - start
    let item := { item with start := item.start - shift, end_ := item.end_ - shift }
    item :: shiftMarkers item.end_ rest

/-- The size of the pending file when it was opened, as the messages of `check` tell it. -/
def openedSize (size : Nat) : String := "opened size: " ++ toString size

/-- Move the bytes of one chunk to `start`, in the pending file. -/
def moveChunk (path info : String) (start : Nat) (item : Marker) : FileM PUnit :=
  let shift := item.start - start
  if shift ≠ 0 then do
    let tr := (((← get).disk path).tr.getD [])
    let buffer ← readRow "compact" (filePathTr path) info tr item.start item.end_
    streamCall path (check "compact" "seekp" (atBeg (item.start - shift)) (filePathTr path) info) id
    streamCall path (check "compact" "write" (fromTo (item.start - shift) (item.end_ - shift))
        (filePathTr path) info) fun f =>
      { f with tr := f.tr.map fun b => overwrite 0 b (item.start - shift) buffer }
  else pure ⟨⟩

def moveChunks (path info : String) : Nat → List Marker → FileM Nat
  | start, [] => pure start
  | start, item :: rest => do
    moveChunk path info start item
    moveChunks path info (item.end_ - (item.start - start)) rest

def unableToOpen (function file : String) : String :=
  function ++ "(): unable to open fstream: " ++ file

/-- Opening the pending file for reading and writing. -/
def openTr (path function : String) : FileM PUnit := do
  call path (fun _ => unableToOpen function (filePathTr path)) id
  match ((← get).disk path).tr with
  | some _ => pure ⟨⟩
  | none => throw (.runtimeError (unableToOpen function (filePathTr path)))

/-- The size of the pending file that was opened: `seekg` to its end, and `tellg`. -/
def sizeTr (path function : String) : FileM Nat := do
  streamCall path (check function "seekg" "end" (filePathTr path) "") id
  pure (((← get).disk path).tr.getD []).length

def closeTr (path function : String) : FileM PUnit :=
  streamCall path (check function "close" "all" (filePathTr path) "") id

/-- Slide the data to the left where the gaps are at least as large as the data;
the entries and the size of the file that is written. -/
def slide (path : String) (markers : List Marker) (sizeWhenOpened : Nat) :
    FileM (List Marker × Nat) :=
  let (shiftSum, sizeSum, start) := gapSums markers
  if shiftSum ≥ sizeSum ∧ shiftSum ≠ 0 then do
    openTr path "compact"
    let start ← moveChunks path (openedSize sizeWhenOpened) 0 (mergeChunks markers)
    closeTr path "compact"
    pure (shiftMarkers 0 markers, start)
  else pure (markers, start + shiftSum)

def truncateTr (path : String) (writtenSize sizeWhenOpened : Nat) : FileM PUnit :=
  if writtenSize < sizeWhenOpened then
    codeCall path (filePathTr path) "resize_file(file_path_tr(), written_size, ec)" fun f =>
      { f with tr := f.tr.map fun b => resize 0 b writtenSize }
  else pure ⟨⟩

def removeTr (path : String) : FileM PUnit := do
  if ((← get).disk path).tr.isSome then
    codeCall path (filePathTr path) "remove(file_path_tr(), ec)" fun f => { f with tr := none }
  else pure ⟨⟩

def compact (path : String) (markers : List Marker) : FileM (List Marker) :=
  if markers.isEmpty then do
    removeTr path
    pure markers
  else do
    openTr path "compact"
    let sizeWhenOpened ← sizeTr path "compact"
    let (markers, writtenSize) ← slide path markers sizeWhenOpened
    truncateTr path writtenSize sizeWhenOpened
    pure markers

def removeMTr (path : String) : FileM PUnit := do
  if ((← get).disk path).mTr.isSome then
    codeCall path (filePathMarkerTr path) "remove(file_path_marker_tr(), ec)" fun f =>
      { f with mTr := none }
  else pure ⟨⟩

def saveMarkers (path : String) (markers : List Marker) : FileM PUnit :=
  if markers.isEmpty then removeMTr path
  else do
    call path (fun _ => unableToOpen "save_markers" (filePathMarkerTr path)) fun f =>
      { f with mTr := some ⟨[], 0⟩ }
    onFailure (guardCall path fun f => { f with mTr := none }) do
      streamCall path (check "save_markers" "write" "all" (filePathMarkerTr path) "") fun f =>
        { f with mTr := some ⟨markers, 0⟩ }
      streamCall path (check "save_markers" "close" "all" (filePathMarkerTr path) "") id

/-! ## Saving and erasing -/

/-- What the loop of `save` over the values accumulates. -/
structure Append (K T : Type) where
  markers : List Marker
  startPos : Option Nat
  bulkBuffer : Bytes
  eraseIndices : List Nat
  values : UMap K (Value K T)

def appendValue (a : Append K T) (e : Sigma fun _ : K => Value K T) : Append K T :=
  let buffer := fmt.toString e.2.item
  -- append this item in the end of the file
  let seekPos := (a.markers.getLast?.map Marker.end_).getD 0
  { markers := a.markers ++ [⟨seekPos, seekPos + buffer.length, fmt.keyToUint64 e.1⟩],
    startPos := some (a.startPos.getD seekPos),
    bulkBuffer := a.bulkBuffer ++ buffer,
    eraseIndices := e.2.loadedMarkerIndex.toList ++ a.eraseIndices,
    values := a.values.insert e.1 { e.2 with loadedMarkerIndex := some a.markers.length } }

/-- Drop the entries whose index, counted from `index`, is to be erased. -/
def dropIndices {α : Type} (erase : List Nat) : Nat → List α → List α
  | _, [] => []
  | index, x :: rest =>
    if index ∈ erase then dropIndices erase (index + 1) rest
    else x :: dropIndices erase (index + 1) rest

/-- How the message of `save` writes the copy. -/
def saveCopy : String :=
  "copy_file(file_path(),file_path_tr(),boost::filesystem::copy_options::overwrite_existing,ec)"

/-- How the message of `erase` writes it. -/
def eraseCopy : String :=
  "copy_file(file_path(),file_path_tr(), boost::filesystem::copy_options::overwrite_existing, ec)"

/-- `copy_file(file_path(), file_path_tr(), overwrite_existing)`. -/
def copyToTr (path what : String) (copy : Bool) : FileM PUnit :=
  if copy then codeCall path path what fun f => { f with tr := f.main } else pure ⟨⟩

def removeTrGuard (path : String) (copied : Bool) : FileM PUnit :=
  if copied then guardCall path fun f => { f with tr := none } else pure ⟨⟩

/-- Write the bulk buffer into the pending file, which is created where it does
not exist yet, compact it and save the markers. -/
def writeBulk (path : String) (a : Append K T) : FileM (List Marker) := do
  call path (fun _ => unableToOpen "save" (filePathTr path)) fun f =>
    { f with tr := some (f.tr.getD []) }
  let sizeWhenOpened ← sizeTr path "save"
  let info := openedSize sizeWhenOpened
  match a.startPos with
  -- `size_t(-1)` is no position
  | none => throw (.runtimeError
      (check "save" "seekp" (atBeg (UInt64.size - 1)) (filePathTr path) info .failbit))
  | some startPos =>
    streamCall path (check "save" "seekp" (atBeg startPos) (filePathTr path) info) id
    streamCall path (check "save" "write" (fromTo startPos (startPos + a.bulkBuffer.length))
        (filePathTr path) info) fun f =>
      { f with tr := f.tr.map fun b => overwrite 0 b startPos a.bulkBuffer }
    closeTr path "save"
    let markers ← compact path (dropIndices a.eraseIndices 0 a.markers)
    saveMarkers path markers
    pure markers

namespace BlockFileLoader

def openTransaction (self : BlockFileLoader K T) : BlockTransaction :=
  self.ptransaction.getD ⟨self.mainPath, false⟩

def save (ord : IterOrder) (self : BlockFileLoader K T) : FileM (BlockFileLoader K T) :=
  if self.modified then do
    let path := self.mainPath
    let main := (((← MonadState.get).disk path).main)
    copyToTr path saveCopy (self.ptransaction.isNone && main.isSome)
    let a := (ord.order self.values.entries).foldl (appendValue fmt)
      ⟨self.markers, none, [], [], self.values⟩
    -- no call between the copy and this guard can throw
    let markers ← onFailure (removeTrGuard path true) (writeBulk path a)
    pure { self with
      modified := false, values := a.values, markers,
      ptransaction := some self.openTransaction }
  else pure self

def erase (self : BlockFileLoader K T) : FileM (BlockFileLoader K T) := do
  let path := self.mainPath
  let eraseIndices := self.values.entries.filterMap fun e => e.2.loadedMarkerIndex
  let markers := if self.purposeClearAll then [] else dropIndices eraseIndices 0 self.markers
  let main := (((← MonadState.get).disk path).main)
  let copy := self.ptransaction.isNone && main.isSome && !markers.isEmpty
  copyToTr path eraseCopy copy
  let markers ← onFailure (removeTrGuard path copy) do
    let markers ← compact path markers
    saveMarkers path markers
    pure markers
  pure { self with markers, ptransaction := some self.openTransaction }

end BlockFileLoader

end MeshPP.SystemUtility
