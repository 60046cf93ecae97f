import MeshPP.Lib.Machine
import MeshPP.SystemUtility.BlockFile

/-! # `file_loader`

The loader of one serialized value, as the source computes it, and its
transaction, over the file at `file_path` and the pending one at
`file_path_tr()`. The destructor calls `commit`. -/

namespace MeshPP.SystemUtility
open MeshPP.Lib

/-- The template arguments of `file_loader`, and the value that `new T` makes. -/
structure FileFormat (T : Type) where
  toString : T → Bytes
  fromString : Bytes → Option T
  fresh : T

structure LoaderFiles where
  main : Option Bytes
  tr : Option Bytes
  deriving DecidableEq, Repr

inductive FileOut
  | done
  | thrown (e : Err)
  | terminated
  deriving DecidableEq, Repr

/-! ## The transaction -/

structure FileTransaction where
  commited : Bool
  deriving DecidableEq, Repr

namespace FileTransaction

/-- The file-system calls of `class_transaction::commit`, in their order. -/
def commitCalls : List (LoaderFiles → LoaderFiles) :=
  [fun f => if f.main.isSome then { f with main := none } else f,
   fun f => if f.tr.isSome then { main := f.tr, tr := none } else f]

def commit (t : FileTransaction) (f : LoaderFiles) : FileOut × LoaderFiles :=
  if t.commited then (.done, f)
  else (if f.tr.isSome then .done else .terminated, commitCalls.foldl (fun g call => call g) f)

def rollback (t : FileTransaction) (f : LoaderFiles) : LoaderFiles :=
  if t.commited then f else { f with tr := none }

end FileTransaction

/-! ## The loader -/

structure FileLoader (T : Type) where
  filePath : String
  modified : Bool
  ptransaction : Option FileTransaction
  value : T

/-- Where `save` throws. -/
inductive SaveFault
  | opening
  | toString
  /-- `written` bytes have got into the file. -/
  | write (written : Nat)
  | close (written : Nat)
  deriving DecidableEq, Repr

variable {T : Type} (fmt : FileFormat T)

def loadFile (file : Option Bytes) : Except Err T :=
  let bytes := file.getD []
  if bytes = [] then .ok fmt.fresh
  else match fmt.fromString bytes with
    | some ob => .ok ob
    | none => .error (.runtimeError "from_string")

namespace FileLoader

def construct (path : String) (ptransaction : Option FileTransaction) (f : LoaderFiles) :
    Except Err (FileLoader T) := do
  let value ← loadFile fmt (if ptransaction.isNone then f.main else f.tr)
  pure { filePath := path, modified := false, ptransaction, value }

/-- `operator*` and `operator->` of a loader that is not constant. -/
def edit (self : FileLoader T) (change : T → T) : FileLoader T :=
  { self with modified := true, value := change self.value }

def filePathTr (self : FileLoader T) : String := self.filePath ++ ".tr"

/-- What a `save` that fails has made of the pending file. -/
def leaves (self : FileLoader T) : SaveFault → Option Bytes → Option Bytes
  | .opening, tr => tr
  | .toString, _ => some []
  | .write written, _ => some ((fmt.toString self.value).take written)
  | .close written, _ => some ((fmt.toString self.value).take written)

def failure (self : FileLoader T) : SaveFault → Err
  | .opening => .runtimeError
      ("file_loader::save(): unable to write to the file: " ++ self.filePathTr)
  | .toString => .runtimeError "to_string"
  | .write _ => .runtimeError (check "save" "<<" "all" self.filePathTr "" .badbit)
  | .close _ => .runtimeError (check "save" "close" "all" self.filePathTr "" .failbit)

def save (self : FileLoader T) (fault : Option SaveFault) (f : LoaderFiles) :
    FileOut × LoaderFiles × FileLoader T :=
  if self.modified then
    match fault with
    | some x => (.thrown (self.failure x), { f with tr := self.leaves fmt x f.tr }, self)
    | none => (.done, { f with tr := some (fmt.toString self.value) },
        { self with
          ptransaction := some (self.ptransaction.getD ⟨false⟩)
          modified := false })
  else (.done, f, self)

def commit (self : FileLoader T) (f : LoaderFiles) : FileOut × LoaderFiles × FileLoader T :=
  match self.ptransaction with
  | some t => ((t.commit f).1, (t.commit f).2, { self with ptransaction := none })
  | none => (.done, f, self)

/-- An exception leaves `discard`, which is `noexcept`, to `std::terminate`. -/
def discard (self : FileLoader T) (f : LoaderFiles) : FileOut × LoaderFiles × FileLoader T :=
  let f := self.ptransaction.elim f fun t => t.rollback f
  let self := { self with ptransaction := none }
  match loadFile fmt f.main with
  | .ok value => (.done, f, { self with value, modified := false })
  | .error _ => (.terminated, f, self)

end FileLoader

/-- A loader and its files. -/
structure FileStore (T : Type) where
  files : LoaderFiles
  self : FileLoader T

inductive FileOp (T : Type)
  | edit (change : T → T)
  | save (fault : Option SaveFault)
  | commit
  | discard

def FileStore.step (s : FileStore T) : FileOp T → FileOut × FileStore T
  | .edit change => (.done, { s with self := s.self.edit change })
  | .save fault =>
    let r := s.self.save fmt fault s.files
    (r.1, ⟨r.2.1, r.2.2⟩)
  | .commit =>
    let r := s.self.commit s.files
    (r.1, ⟨r.2.1, r.2.2⟩)
  | .discard =>
    let r := s.self.discard fmt s.files
    (r.1, ⟨r.2.1, r.2.2⟩)

end MeshPP.SystemUtility
