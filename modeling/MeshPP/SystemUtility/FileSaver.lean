import MeshPP.SystemUtility.BlockSave

/-! # `file_saver_helper` and the complex transaction

A container keeps one transaction per block file it has changed, together with
the one of its index or size file. `file_saver_helper` runs over the groups of
keys that share a block file, takes the transaction of the file out, changes
the block and puts the transaction back, on success and on failure. With a pool
of one deferred task the files are processed one after the other. -/

namespace MeshPP.SystemUtility
open MeshPP.Lib

/-- `map_loader_internals::class_transaction` and its sibling of the vector loader;
`head` is the transaction of the index file there, of the size file here. -/
structure ClassTransaction where
  head : Option BlockTransaction
  overlay : UMap String (Option BlockTransaction)

def ClassTransaction.empty : ClassTransaction := ⟨none, ∅⟩

def ClassTransaction.commit (t : ClassTransaction) (d : Disk) : Disk :=
  let d := t.overlay.entries.foldl (fun d e => e.2.elim d fun t => t.commit d) d
  t.head.elim d fun t => t.commit d

def ClassTransaction.rollback (t : ClassTransaction) (d : Disk) : Disk :=
  let d := t.overlay.entries.foldl (fun d e => e.2.elim d fun t => t.rollback d) d
  t.head.elim d fun t => t.rollback d

/-- `overlay.insert({file, null})`: an entry that is there already stays. -/
def ClassTransaction.enter (t : ClassTransaction) (file : String) : ClassTransaction :=
  { t with overlay := if file ∈ t.overlay then t.overlay else t.overlay.insert file none }

inductive Op
  | erase
  | modify
  deriving DecidableEq, Repr

inductive ECode
  | none
  | deleted
  | modified
  deriving DecidableEq, Repr

/-- Packets with flags over what is saved. -/
abbrev Overlay (K T : Type) := UMap K (Option T × ECode)

/-- The keys of the overlay that carry `code`. -/
def Overlay.keysOf {K T : Type} (ord : IterOrder) (o : Overlay K T) (code : ECode) : List K :=
  ((ord.order o.entries).filter fun e => e.2.2 = code).map Sigma.fst

/-- `overlay[key].first`. -/
def Overlay.packetOf {K T : Type} [DecidableEq K] (o : Overlay K T) : K → Option T := fun key =>
  (o.lookup key).bind Prod.fst

/-- The world and the transaction of the container that is being saved. -/
structure Saver where
  world : World
  transaction : ClassTransaction

abbrev SaverM := EStateM Err Saver

section
variable {K T : Type} [DecidableEq K] (fmt : BlockFormat K T) (ord : IterOrder)

/-- The work on one block file; the loader hands back its transaction. -/
def processBlock (packetOf : K → Option T) (i : Op) (file : String) (fileKeys : List K)
    (ptransaction : Option BlockTransaction) : FileM (Option BlockTransaction) := do
  let temp ← BlockFileLoader.construct fmt file fileKeys ptransaction (i == .erase)
  match i with
  | .erase =>
    let temp ← temp.erase
    pure temp.ptransaction
  | .modify =>
    let temp ← fileKeys.foldlM (fun temp key => temp.setItem key (packetOf key)) temp
    let temp ← temp.save fmt ord
    pure temp.ptransaction

def onWorld {α : Type} (m : FileM α) : SaverM α :=
  zoom Saver.world (fun w s => { s with world := w }) m

/-- Work on the index or size file, whose block loader is lent the transaction of
that file and hands it back. -/
def onHead {α : Type} (m : Option BlockTransaction → FileM (Option BlockTransaction × α)) :
    SaverM α := do
  let ptransaction := (← get).transaction.head
  let r ← onWorld (m ptransaction)
  modify fun s => { s with transaction := { s.transaction with head := r.1 } }
  pure r.2

/-- One turn of the loop of `file_processor_class`. A block that throws leaves the
transaction it was given in the overlay. -/
def processFile (packetOf : K → Option T) (i : Op) (perFile : Sigma fun _ : String => List K) :
    SaverM PUnit := do
  match (← get).transaction.overlay.lookup perFile.1 with
  | none => throw (.logicError "it_ptransaction == ref_class_transaction.overlay.end()")
  | some ptransaction =>
    let taken ← onWorld (processBlock fmt ord packetOf i perFile.1 perFile.2 ptransaction)
    modify fun s => { s with transaction :=
      { s.transaction with overlay := s.transaction.overlay.insert perFile.1 taken } }

def fileSaverHelper (packetOf : K → Option T) (i : Op)
    (fileNameToKeys : UMap String (List K)) : SaverM PUnit :=
  (ord.order fileNameToKeys.entries).foldlM (fun _ e => processFile fmt ord packetOf i e) ⟨⟩

end

end MeshPP.SystemUtility
